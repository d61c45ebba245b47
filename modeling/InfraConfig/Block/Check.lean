import InfraConfig.Block.Attribute

/-!
# Checks of attributes

Questions about the value of an attribute. None of them fails: an attribute without a value, or with one of
another shape, answers no.
-/

namespace InfraConfig

/-- A number to compare with: a number, or a text that is one. -/
def checkNumber? (check : Value) : Option Float :=
  match check with
  | .number n => some n.toFloat
  | .text s => readFloat? (trimList isBlank s.toList)
  | _ => none

def patternMatches (pattern text : String) : Bool :=
  match Regex.read? pattern with
  | some p => p.isMatch text
  | none => false

/-- Whether one of the options equals the value. -/
def isOption (options : List Value) (v : Value) : Bool :=
  options.any (· == v)

/-- Whether a check accepts a value: an object with an action and a value says how to match, anything else
has to be equal. -/
def matchesCheck (check actual : Value) : Bool :=
  match (check.get? "action").bind Value.text?, check.get? "value" with
  | some action, some expected =>
    let options := expected.items?.getD []
    match action with
    | "isAny" => isOption options actual
    | "isNone" => !isOption options actual
    | "regexMatches" =>
      match expected.text?, actual.text? with
      | some pattern, some text => patternMatches pattern text
      | _, _ => false
    | _ => false
  | _, _ => check == actual

/-- The text that stands for an item of a list: itself, or its entry `key`. -/
def itemText? (item : Value) : Option String :=
  if item.isMapLike then (item.get? "key").bind Value.text? else item.text?

/-- Whether a map has an entry that a check asks for: one of its matchers accepts, or the key is there. -/
def entriesContain (entries : Entries Value) (check : Value) : Bool :=
  match check.entries? with
  | some checks => checks.any fun (key, matcher) => (entries.get? key).any (matchesCheck matcher)
  | none => entries.hasKey check.display

def itemsContain (items : List Value) (check : Value) (ignoreCase : Bool) : Bool :=
  items.any fun item =>
    match itemText? item with
    | some s => if ignoreCase then sameIgnoringAsciiCase s check.display else s == check.display
    | none => false

/-- Whether a value contains what is checked for: an entry, an item, or a part of a text. -/
def Value.contains (v check : Value) (ignoreCase : Bool) : Bool :=
  match v with
  | .map entries => entriesContain entries check
  | .object entries => entriesContain entries check
  | .list items => itemsContain items check ignoreCase
  | .set items => itemsContain items check ignoreCase
  | .text s =>
    if ignoreCase then containsText (lowerText s) (lowerText check.display)
    else containsText s check.display
  | _ => false

def Value.startsWith (v check : Value) : Bool :=
  match v with
  | .text s => startsWithText s check.display
  | _ => false

def Value.endsWith (v check : Value) : Bool :=
  match v with
  | .text s => endsWithText s check.display
  | _ => false

/-- Whether a primitive value equals a check: texts by text, numbers by magnitude. -/
def Value.equals (v check : Value) (ignoreCase : Bool) : Bool :=
  match v with
  | .text s =>
    if ignoreCase then lowerText s == lowerText check.display else s == check.display
  | .bool b => check.bool? == some b
  | .number n =>
    match checkNumber? check with
    | some x => n.toFloat == x
    | none => false
  | _ => false

def Value.matchesPattern (v : Value) (pattern : String) : Bool :=
  match v with
  | .text s => patternMatches pattern s
  | _ => false

/-- Whether a primitive value, or some text in a list, is one of the options. -/
def Value.isAny (v : Value) (options : List Value) : Bool :=
  match v with
  | .text _ => isOption options v
  | .number _ => isOption options v
  | .list items => items.any fun item => item.text?.isSome && isOption options item
  | .set items => items.any fun item => item.text?.isSome && isOption options item
  | _ => false

/-- Whether a value is not one of the options, which only texts and numbers can be. -/
def Value.isNone (v : Value) (options : List Value) : Bool :=
  match v with
  | .text _ => !isOption options v
  | .number _ => !isOption options v
  | _ => true

/-- A text without quotes around it. -/
def unquoted (s : String) : String :=
  .ofList (trimList (· == '"') s.toList)

def Value.isTrue : Value → Bool
  | .bool b => b
  | .text s => sameIgnoringAsciiCase (unquoted s) "true"
  | .number n => 0 < n.sign
  | _ => false

def Value.isFalse : Value → Bool
  | .bool b => !b
  | .text s => sameIgnoringAsciiCase (unquoted s) "false"
  | _ => false

/-- Null, or something of size zero. -/
def Value.isBlank : Value → Bool
  | .null => true
  | v => v.size? == some 0

/-- The entry of a map; null if there is none. -/
def Value.entry (v : Value) (key : String) : Value :=
  (v.get? key).getD .null

/-- Compares a number with a check. -/
def Value.compare (v check : Value) (holds : Float → Float → Bool) : Bool :=
  match v.float?, checkNumber? check with
  | some x, some y => holds x y
  | _, _ => false

/-- Whether a list contains one of the checks. -/
def Value.intersects (v : Value) (checks : List Value) : Bool :=
  v.isListLike && checks.any fun check => v.contains check false

namespace Arena

/-- Whether the attribute has a value that is blank. -/
def isBlank (a : Arena) (b : Block) (attr : Attribute) : Bool :=
  match a.evaluate b.scope attr.value with
  | .ok v => v.isBlank
  | .error _ => false

end Arena

end InfraConfig
