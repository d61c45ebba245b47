import InfraConfig.Number
import InfraConfig.Entries
import InfraConfig.Text.Escape

/-!
# Plain data

What expressions evaluate to: null, booleans, numbers, text, lists and objects. Two objects are equal
when they have the same entries, in whatever order.
-/

namespace InfraConfig

inductive Datum where
  | null
  | bool (b : Bool)
  | number (n : Number)
  | text (s : String)
  | list (items : List Datum)
  | object (entries : List (String × Datum))
  deriving Inhabited

namespace Datum

def int (n : Int) : Datum :=
  .number (.int n)

/-- The number `x`, or null when it is not finite. -/
def ofFloat (x : Float) : Datum :=
  match Number.ofFloat? x with
  | some n => .number n
  | none => .null

/-- A number as it is, or null when it is not finite. -/
def ofNumber : Number → Datum
  | .int n => .number (.int n)
  | .float x => ofFloat x

mutual

def beq : Datum → Datum → Bool
  | .null, .null => true
  | .bool a, .bool b => a == b
  | .number a, .number b => a == b
  | .text a, .text b => a == b
  | .list a, .list b => beqItems a b
  | .object a, .object b => a.length == b.length && beqEntries a b
  | _, _ => false

def beqItems : List Datum → List Datum → Bool
  | [], [] => true
  | a :: as, b :: bs => beq a b && beqItems as bs
  | _, _ => false

/-- Whether every entry of the first list is in the second. -/
def beqEntries : List (String × Datum) → List (String × Datum) → Bool
  | [], _ => true
  | (k, v) :: rest, b =>
    (match b.lookup k with
    | some w => beq v w
    | none => false) && beqEntries rest b

end

instance : BEq Datum := ⟨beq⟩

/-- Text in double quotes, as JSON writes it. -/
def quoteJson (s : String) : String :=
  .ofList (Escape.quote s.toList)

/-- Text as an expression: in double quotes, with escapes, and no interpolation in it. -/
def quoteExpression (s : String) : String :=
  .ofList (Escape.quote (Escape.markers s.toList))

mutual

/-- A datum as an expression, `depth` levels deep. The elements of lists and objects stand on lines
of their own, indented by two blanks a level. -/
def render (depth : Nat) : Datum → String
  | .null => "null"
  | .bool b => if b then "true" else "false"
  | .number n => n.text
  | .text s => quoteExpression s
  | .list [] => "[]"
  | .list (a :: as) =>
    "[\n" ++ margin (depth + 1) ++ render (depth + 1) a ++ renderItems (depth + 1) as ++ "\n"
      ++ margin depth ++ "]"
  | .object [] => "\x7b\x7d"
  | .object (e :: es) =>
    "\x7b\n" ++ renderEntries (depth + 1) (e :: es) ++ margin depth ++ "\x7d"

def renderItems (depth : Nat) : List Datum → String
  | [] => ""
  | a :: as => ",\n" ++ margin depth ++ render depth a ++ renderItems depth as

def renderEntries (depth : Nat) : List (String × Datum) → String
  | [] => ""
  | (k, v) :: rest =>
    margin depth ++ quoteExpression k ++ " = " ++ render depth v ++ "\n" ++ renderEntries depth rest

def margin (depth : Nat) : String :=
  .ofList (List.replicate (2 * depth) ' ')

end

/-- A datum as an expression. -/
def expressionText (d : Datum) : String :=
  render 0 d

/-- A datum as part of a text: text stands for itself, all else is written as an expression. -/
def templateText : Datum → String
  | .text s => s
  | d => d.expressionText

mutual

/-- Compact JSON. -/
def json : Datum → String
  | .null => "null"
  | .bool b => if b then "true" else "false"
  | .number n => n.json
  | .text s => quoteJson s
  | .list items => "[" ++ jsonItems items ++ "]"
  | .object entries => "\x7b" ++ jsonEntries entries ++ "\x7d"

def jsonItems : List Datum → String
  | [] => ""
  | [a] => json a
  | a :: b :: rest => json a ++ "," ++ jsonItems (b :: rest)

def jsonEntries : List (String × Datum) → String
  | [] => ""
  | [(k, v)] => quoteJson k ++ ":" ++ json v
  | (k, v) :: e :: rest => quoteJson k ++ ":" ++ json v ++ "," ++ jsonEntries (e :: rest)

end

end Datum

end InfraConfig
