import InfraConfig.Datum
import InfraConfig.Calendar.Layout
import InfraConfig.Network.Prefix
import InfraConfig.Encoding.Base64

/-!
# Functions and their arguments

A function has types for its arguments, possibly one for any number of further arguments, and a body that
sees the arguments only after they have been checked. Bodies ask for lists, maps and so on in turn.
-/

namespace InfraConfig

inductive ParamType where
  | any
  | number
  | string
  deriving DecidableEq

def ParamType.word : ParamType → String
  | any => "any"
  | number => "number"
  | string => "string"

/-- What the body of a function needs an argument to be. -/
inductive ArgumentKind where
  | text
  | number
  | list
  | map
  deriving DecidableEq

def ArgumentKind.word : ArgumentKind → String
  | text => "string"
  | number => "number"
  | list => "list"
  | map => "map"

/-- Why a function has no result. -/
inductive FunctionError where
  | argumentCount (expected actual : Nat)
  | argumentType (position : Nat) (type : ParamType) (actual : Datum)
  | furtherArgumentType (position : Nat) (type : ParamType) (actual : Datum)
  | argumentKind (position : Nat) (kind : ArgumentKind)
  | conversion (actual : Datum) (target : String)
  | notNumber (text : String)
  | noLength (actual : Datum)
  | layoutArguments
  | layoutNumber
  | layoutVerb (verb : Char)
  | layoutEnd
  | unequalLengths
  | offset
  | overflow
  | pattern
  | noMatch
  | sliceBounds (start stop : Int) (length : Nat)
  | notFound
  | noKey (key : String)
  | emptyList
  | negativeIndex
  | unequalKeys
  | allNull
  | rangeArguments
  | zeroStep
  | rangeLength
  | base (base : Nat)
  | notInteger (text : String) (base : Nat)
  | json (reason : String)
  | base64 (reason : Base64Problem)
  | notUtf8
  | addresses (reason : PrefixProblem)
  | layout (reason : LayoutProblem)
  | timestamp (text : String) (reason : TimestampProblem)
  | duration (text : String)

def FunctionError.message : FunctionError → String
  | argumentCount expected actual =>
    "expected " ++ toString expected ++ " positional arguments, got " ++ toString actual
  | argumentType position type actual =>
    "expected argument at position " ++ toString position ++ " to be of type `" ++ type.word
      ++ "`, got `" ++ actual.expressionText ++ "`"
  | furtherArgumentType position type actual =>
    "expected variadic argument at position " ++ toString position ++ " to be of type `" ++ type.word
      ++ "`, got `" ++ actual.expressionText ++ "`"
  | argumentKind position kind => "argument " ++ toString (position + 1) ++ " must be a " ++ kind.word
  | conversion .null "string" => "cannot convert null to string"
  | conversion actual target => "cannot convert " ++ actual.expressionText ++ " to " ++ target
  | notNumber text => "cannot convert " ++ quoted text ++ " to number"
  | noLength actual => "cannot take length of " ++ actual.expressionText
  | layoutArguments => "not enough arguments for format"
  | layoutNumber => "%d requires a number"
  | layoutVerb verb => "unsupported format verb %" ++ verb.toString
  | layoutEnd => "format string ends with %"
  | unequalLengths => "all list arguments must have the same length"
  | offset => "offset out of range"
  | overflow => "attempt to add with overflow"
  | pattern => "regex parse error"
  | noMatch => "pattern did not match any part of the string"
  | sliceBounds start stop length =>
    "invalid slice bounds " ++ toString start ++ ".." ++ toString stop ++ " for list of length "
      ++ toString length
  | notFound => "value not found"
  | noKey key => "key " ++ quoted key ++ " not found and no default given"
  | emptyList => "cannot use element function with an empty list"
  | negativeIndex => "cannot use element function with a negative index"
  | unequalKeys => "number of keys and values must match"
  | allNull => "no non-null arguments"
  | rangeArguments => "range accepts one to three arguments"
  | zeroStep => "step must not be zero"
  | rangeLength => "more than 1024 values were generated"
  | base n => "base " ++ toString n ++ " is not supported"
  | notInteger text n => "cannot parse " ++ quoted text ++ " as a base " ++ toString n ++ " integer"
  | json reason => reason
  | base64 reason => "invalid base64: " ++ reason.message
  | notUtf8 => "decoded bytes are not valid UTF-8"
  | addresses reason => reason.message
  | layout reason => reason.message
  | timestamp text reason =>
    "not a valid RFC 3339 timestamp " ++ quoted text ++ ": " ++ reason.message
  | duration text => "invalid duration " ++ quoted text

def ParamType.admits : ParamType → Datum → Bool
  | any, _ => true
  | number, .number _ => true
  | string, .text _ => true
  | _, _ => false

structure Function where
  params : List ParamType
  further : Option ParamType
  body : List Datum → Except FunctionError Datum

namespace Function

/-- Checks the arguments that have a parameter of their own. -/
def checkParams (position : Nat) : List ParamType → List Datum → Except FunctionError Unit
  | type :: types, arg :: args =>
    if type.admits arg then checkParams (position + 1) types args
    else .error (.argumentType position type arg)
  | _, _ => .ok ()

/-- Checks further arguments. -/
def checkFurther (type : ParamType) (position : Nat) : List Datum → Except FunctionError Unit
  | [] => .ok ()
  | arg :: args =>
    if type.admits arg then checkFurther type (position + 1) args
    else .error (.furtherArgumentType position type arg)

def check (f : Function) (args : List Datum) : Except FunctionError Unit :=
  let count := f.params.length
  if args.length < count ∨ (f.further.isNone ∧ count < args.length) then
    .error (.argumentCount count args.length)
  else do
    checkParams 0 f.params args
    match f.further with
    | some type => checkFurther type count (args.drop count)
    | none => .ok ()

/-- Checks the arguments and runs the body on them. -/
def call (f : Function) (args : List Datum) : Except FunctionError Datum := do
  f.check args
  f.body args

end Function

/-! ## Arguments of bodies, by position -/

def textAt (args : List Datum) (i : Nat) : Except FunctionError String :=
  match args[i]? with
  | some (.text s) => .ok s
  | _ => .error (.argumentKind i .text)

def numberAt (args : List Datum) (i : Nat) : Except FunctionError Number :=
  match args[i]? with
  | some (.number n) => .ok n.rounded
  | _ => .error (.argumentKind i .number)

/-- The integer part of a number, cut to 64 bits. -/
def integerAt (args : List Datum) (i : Nat) : Except FunctionError Int :=
  (numberAt args i).map Number.toInt64

def listAt (args : List Datum) (i : Nat) : Except FunctionError (List Datum) :=
  match args[i]? with
  | some (.list items) => .ok items
  | _ => .error (.argumentKind i .list)

def mapAt (args : List Datum) (i : Nat) : Except FunctionError (Entries Datum) :=
  match args[i]? with
  | some (.object entries) => .ok entries
  | _ => .error (.argumentKind i .map)

/-- The list arguments from position `i` on. -/
def listsFrom (i : Nat) : List Datum → Except FunctionError (List (List Datum))
  | [] => .ok []
  | .list items :: rest => (listsFrom (i + 1) rest).map (items :: ·)
  | _ :: _ => .error (.argumentKind i .list)

/-- The text of a primitive value. -/
def plainText : Datum → Except FunctionError String
  | .text s => .ok s
  | .number n => .ok n.text
  | .bool b => .ok (if b then "true" else "false")
  | d => .error (.conversion d "string")

/-- The texts of primitive values. -/
def plainTexts : List Datum → Except FunctionError (List String)
  | [] => .ok []
  | d :: rest => do
    let s ← plainText d
    let more ← plainTexts rest
    .ok (s :: more)

end InfraConfig
