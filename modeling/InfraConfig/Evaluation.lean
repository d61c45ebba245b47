import InfraConfig.Syntax.Expr
import InfraConfig.Functions.Library
import InfraConfig.Text.Search

/-!
# Evaluation of expressions

An expression has a value in an environment of variables and functions, or a reason why it has none. The
evaluation follows the syntax: operands before their operator, both of them, the branch of a conditional
that is taken, and the body of a `for` once for every element.
-/

namespace InfraConfig

/-- What a place in an expression takes. -/
inductive Expected where
  | boolean
  | list
  | object
  | listOrObject
  | natural
  | naturalOrText
  | key
  deriving DecidableEq

def Expected.phrase : Expected → String
  | boolean => "a boolean"
  | list => "an array"
  | object => "an object"
  | listOrObject => "an array or object"
  | natural => "an unsigned integer"
  | naturalOrText => "an unsigned integer or string"
  | key => "a string, boolean or number"

/-- Why an expression has no value. -/
inductive EvalError where
  | unknownVariable (name : String)
  | unknownFunction (name : String)
  | unexpected (expected : Expected)
  | noItem (position : Nat)
  | noKey (key : String)
  | repeatedKey (key : String)
  | unary (op : UnaryOp)
  | binary (op : BinaryOp)
  | noTemplate
  | call (function : String) (reason : FunctionError)

/-- Variables, the innermost first, and functions. -/
structure Environment where
  bindings : List (String × Datum)
  functions : String → Option Function

namespace Environment

def bind (env : Environment) (name : String) (d : Datum) : Environment :=
  { env with bindings := (name, d) :: env.bindings }

/-- Binds the variables of a `for`. -/
def bindElement (env : Environment) (key : Option String) (value : String) (element : Datum × Datum) :
    Environment :=
  match key with
  | some key => (env.bind key element.1).bind value element.2
  | none => env.bind value element.2

/-- The environment of the library's functions and some variables. -/
def ofVariables (bindings : List (String × Datum)) : Environment :=
  ⟨bindings, Functions.find?⟩

end Environment

def unaryValue (op : UnaryOp) (d : Datum) : Except EvalError Datum :=
  match op, d with
  | .neg, .number n => .ok (.number n.neg)
  | .not, .bool b => .ok (.bool !b)
  | _, _ => .error (.unary op)

/-- An operator on two numbers. -/
def numberOp (op : BinaryOp) (a b : Number) : Except EvalError Datum :=
  match op with
  | .lt => .ok (.bool (a.less b))
  | .le => .ok (.bool (a.atMost b))
  | .gt => .ok (.bool (b.less a))
  | .ge => .ok (.bool (b.atMost a))
  | .add => .ok (.number (a.add b))
  | .sub => .ok (.number (a.sub b))
  | .mul => .ok (.number (a.mul b))
  | .div => .ok (.number (a.div b))
  | .rem => .ok (.number (a.rem b))
  | _ => .error (.binary op)

def binaryValue (op : BinaryOp) (a b : Datum) : Except EvalError Datum :=
  match op, a, b with
  | .eq, a, b => .ok (.bool (a == b))
  | .ne, a, b => .ok (.bool !(a == b))
  | .and, .bool a, .bool b => .ok (.bool (a && b))
  | .or, .bool a, .bool b => .ok (.bool (a || b))
  | op, .number a, .number b => numberOp op a b
  | op, _, _ => .error (.binary op)

def condition (d : Datum) : Except EvalError Bool :=
  match d with
  | .bool b => .ok b
  | _ => .error (.unexpected .boolean)

/-- The text of a value as a key. -/
def keyText (d : Datum) : Except EvalError String :=
  match d with
  | .text s => .ok s
  | .bool b => .ok (if b then "true" else "false")
  | .number n => .ok n.text
  | _ => .error (.unexpected .key)

def attributeOf (name : String) (d : Datum) : Except EvalError Datum :=
  match d with
  | .object entries =>
    match Entries.get? entries name with
    | some v => .ok v
    | none => .error (.noKey name)
  | _ => .error (.unexpected .object)

def itemOf (position : Nat) (d : Datum) : Except EvalError Datum :=
  match d with
  | .list items =>
    match items[position]? with
    | some v => .ok v
    | none => .error (.noItem position)
  | _ => .error (.unexpected .list)

/-- What stands in `d` under an index, a text or a position. -/
def indexed (index d : Datum) : Except EvalError Datum :=
  match index with
  | .text name => attributeOf name d
  | .number n =>
    match n.nat? with
    | some position => itemOf position d
    | none => .error (.unexpected .natural)
  | _ => .error (.unexpected .naturalOrText)

/-- What a splat goes over: the items of a list, nothing for null, else the value alone. -/
def splatItems : Datum → List Datum
  | .null => []
  | .list items => items
  | d => [d]

/-- Keys and values that a `for` goes over. -/
def elementsOf (d : Datum) : Except EvalError (List (Datum × Datum)) :=
  match d with
  | .list items => .ok (items.zipIdx.map fun (x, i) => (.int i, x))
  | .object entries => .ok (entries.map fun (k, x) => (.text k, x))
  | _ => .error (.unexpected .listOrObject)

/-- The results that there are, or the first error. -/
def allResults (results : List (Except EvalError Datum)) : Except EvalError (List Datum) :=
  results.mapM id

/-- Where the steps into a value have come to: one value, or the results for each item of a splat. -/
inductive Focus where
  | one (d : Datum)
  | each (results : List (Except EvalError Datum))

def Focus.datum : Focus → Except EvalError Datum
  | one d => .ok d
  | each results => (allResults results).map .list

/-- Puts an element's result under its key. A key may come again only when equal keys gather their results
in a list. -/
def addResult (grouping : Bool) (acc : Entries Datum) (key : String) (value : Datum) :
    Except EvalError (Entries Datum) :=
  match acc.get? key with
  | none => .ok (acc.put key (if grouping then .list [value] else value))
  | some (.list items) =>
    if grouping then .ok (acc.put key (.list (items ++ [value]))) else .error (.repeatedKey key)
  | some _ => .error (.repeatedKey key)

/-- A literal text of a template between its neighbours, of which each may take the blanks and the line end
next to it. -/
def stripped (before after : Bool) (s : String) : String :=
  let s := if before then trimLineStart s else s
  if after then trimLineEnd s else s

/-- Whether a part takes the blanks before it. -/
def Part.stripsBefore : Part → Bool
  | .literal _ => false
  | .interpolation _ strip => strip.before
  | .branch _ _ _ opening _ _ => opening.before
  | .loop _ _ _ _ opening _ => opening.before

/-- Whether the blanks before the rest of a template are taken; `last` tells for its end. -/
def stripsNext (last : Bool) : List Part → Bool
  | [] => last
  | part :: _ => part.stripsBefore

mutual

/-- The value of an expression. -/
def Expr.eval (env : Environment) : Expr → Except EvalError Datum
  | .null => .ok .null
  | .bool b => .ok (.bool b)
  | .number n => .ok (.number n)
  | .text s => .ok (.text s)
  | .list items => do return .list (← evalItems env items)
  | .object entries => do return .object (← evalEntries env [] entries)
  | .template _ none => .error .noTemplate
  | .template _ (some [.interpolation e _]) => e.eval env
  | .template _ (some parts) => do return .text (← evalParts env false false parts)
  | .variable name =>
    match env.bindings.lookup name with
    | some d => .ok d
    | none => .error (.unknownVariable name)
  | .traversal root steps => do
    let d ← root.eval env
    evalSteps env (.one d) steps
  | .call function args spread =>
    match if function.spaces.isEmpty then env.functions function.name else none with
    | none => .error (.unknownFunction function.text)
    | some f => do
      let values ← evalArgs env spread args
      (f.call values).mapError (.call function.text)
  | .paren e => e.eval env
  | .conditional c yes no => do
    if ← condition (← c.eval env) then yes.eval env else no.eval env
  | .unary op e => do unaryValue op (← e.eval env)
  | .binary op a b => do
    let left ← a.eval env
    let right ← b.eval env
    binaryValue op left right
  | .forEach key value collection resultKey result cond grouping => do
    let elements ← elementsOf (← collection.eval env)
    match resultKey with
    | none => do
      let results ← elements.mapM fun element => do
        let inner := env.bindElement key value element
        if ← evalCondition inner cond then (result.eval inner).map some else return none
      return .list (results.filterMap id)
    | some k => do
      let entries ← elements.foldlM (fun acc element => do
        let inner := env.bindElement key value element
        if ← evalCondition inner cond then
          let name ← keyText (← k.eval inner)
          let d ← result.eval inner
          addResult grouping acc name d
        else return acc) []
      return .object entries

/-- The condition of a `for`; without one every element counts. -/
def evalCondition (env : Environment) : Option Expr → Except EvalError Bool
  | none => .ok true
  | some e => do condition (← e.eval env)

def evalItems (env : Environment) : List Expr → Except EvalError (List Datum)
  | [] => .ok []
  | e :: rest => do
    let d ← e.eval env
    let ds ← evalItems env rest
    return d :: ds

/-- Arguments of a call. The last one may be a list that stands for its items. -/
def evalArgs (env : Environment) (spread : Bool) : List Expr → Except EvalError (List Datum)
  | [] => .ok []
  | e :: rest => do
    let d ← e.eval env
    if spread && rest.isEmpty then
      match d with
      | .list items => return items
      | _ => throw (.unexpected .list)
    else
      let ds ← evalArgs env spread rest
      return d :: ds

/-- Entries of an object; a later entry replaces the value of an earlier one with the same key. -/
def evalEntries (env : Environment) (acc : Entries Datum) :
    List (Key × Expr) → Except EvalError (Entries Datum)
  | [] => .ok acc
  | (k, e) :: rest => do
    let name ← k.eval env
    let d ← e.eval env
    evalEntries env (acc.put name d) rest

def Key.eval (env : Environment) : Key → Except EvalError String
  | .name s => .ok s
  | .expr e => do keyText (← e.eval env)

/-- The value that steps lead to. -/
def evalSteps (env : Environment) (focus : Focus) : List Step → Except EvalError Datum
  | [] => focus.datum
  | .attribute name :: rest =>
    match focus with
    | .one d => do evalSteps env (.one (← attributeOf name d)) rest
    | .each results => evalSteps env (.each (results.map (· >>= attributeOf name))) rest
  | .position n :: rest => do
    let d ← focus.datum
    evalSteps env (.one (← itemOf n d)) rest
  | .index e :: rest => do
    let d ← focus.datum
    let i ← e.eval env
    evalSteps env (.one (← indexed i d)) rest
  | .attributeSplat :: rest => do
    let d ← focus.datum
    evalSteps env (.each ((splatItems d).map .ok)) rest
  | .fullSplat :: rest => do
    let d ← focus.datum
    let results ← (splatItems d).mapM fun item => evalSteps env (.one item) rest
    return .list results

/-- The text of a template. `before` tells whether the blanks at its start are taken away, `last` those at
its end. -/
def evalParts (env : Environment) (before last : Bool) : List Part → Except EvalError String
  | [] => .ok ""
  | .literal s :: rest => do
    let text ← evalParts env false last rest
    return stripped before (stripsNext last rest) s ++ text
  | .interpolation e strip :: rest => do
    let d ← e.eval env
    let text ← evalParts env strip.after last rest
    return d.templateText ++ text
  | .branch c yes no opening middle closing :: rest => do
    let text ← if ← condition (← c.eval env) then
        evalParts env opening.after (if no.isSome then middle.before else closing.before) yes
      else evalOther env middle.after closing.before no
    let more ← evalParts env closing.after last rest
    return text ++ more
  | .loop key value collection body opening closing :: rest => do
    let elements ← elementsOf (← collection.eval env)
    let texts ← elements.mapM fun element =>
      evalParts (env.bindElement key value element) opening.after closing.before body
    let more ← evalParts env closing.after last rest
    return String.join texts ++ more

/-- The `else` part of a template. -/
def evalOther (env : Environment) (before last : Bool) :
    Option (List Part) → Except EvalError String
  | none => .ok ""
  | some parts => evalParts env before last parts

end

end InfraConfig
