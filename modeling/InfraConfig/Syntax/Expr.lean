import InfraConfig.Number

/-!
# Expressions

The syntax of attribute values. A template has the text that it is kept as, and the parts of that text when
it is a template at all; text from other notations may not be.
-/

namespace InfraConfig

inductive UnaryOp where
  | neg
  | not
  deriving DecidableEq, Inhabited

inductive BinaryOp where
  | or
  | and
  | eq
  | ne
  | lt
  | le
  | gt
  | ge
  | add
  | sub
  | mul
  | div
  | rem
  deriving DecidableEq, Inhabited

def UnaryOp.symbol : UnaryOp → String
  | .neg => "-"
  | .not => "!"

namespace BinaryOp

def symbol : BinaryOp → String
  | .or => "||"
  | .and => "&&"
  | .eq => "=="
  | .ne => "!="
  | .lt => "<"
  | .le => "<="
  | .gt => ">"
  | .ge => ">="
  | .add => "+"
  | .sub => "-"
  | .mul => "*"
  | .div => "/"
  | .rem => "%"

/-- How tightly an operator binds; operators of one level group to the left. -/
def level : BinaryOp → Nat
  | .or => 1
  | .and => 2
  | .eq | .ne => 3
  | .lt | .le | .gt | .ge => 4
  | .add | .sub => 5
  | .mul | .div | .rem => 6

end BinaryOp

/-- Whether a marker takes away the blanks before it, and those after it. -/
structure Strip where
  before : Bool
  after : Bool
  deriving DecidableEq, Inhabited

/-- The name of a function, with the namespaces before it. -/
structure FunctionName where
  spaces : List String
  name : String
  deriving DecidableEq, Inhabited

def FunctionName.text (f : FunctionName) : String :=
  String.intercalate "::" (f.spaces ++ [f.name])

mutual

inductive Expr where
  | null
  | bool (b : Bool)
  | number (n : Number)
  | text (s : String)
  | list (items : List Expr)
  | object (entries : List (Key × Expr))
  | template (source : String) (parts : Option (List Part))
  | variable (name : String)
  | traversal (root : Expr) (steps : List Step)
  | call (function : FunctionName) (args : List Expr) (spread : Bool)
  | paren (e : Expr)
  | conditional (condition yes no : Expr)
  | unary (op : UnaryOp) (e : Expr)
  | binary (op : BinaryOp) (left right : Expr)
  /-- `[for key, value in collection : result if condition]`, or with `resultKey =>` an object, whose
  equal keys gather their results in a list when `grouping`. -/
  | forEach (key : Option String) (value : String) (collection : Expr) (resultKey : Option Expr)
      (result : Expr) (condition : Option Expr) (grouping : Bool)

/-- The key of an object entry: a bare name, or an expression. -/
inductive Key where
  | name (s : String)
  | expr (e : Expr)

/-- One step from a value into it. -/
inductive Step where
  | attribute (name : String)
  | index (e : Expr)
  | position (n : Nat)
  /-- `.*`: the attribute accesses that follow are applied to every item. -/
  | attributeSplat
  /-- `[*]`: all steps that follow are applied to every item. -/
  | fullSplat

inductive Part where
  | literal (s : String)
  | interpolation (e : Expr) (strip : Strip)
  /-- A conditional part; the strips are those of `if`, `else` and `endif`. -/
  | branch (condition : Expr) (yes : List Part) (no : Option (List Part))
      (opening middle closing : Strip)
  /-- A repeated part; the strips are those of `for` and `endfor`. -/
  | loop (key : Option String) (value : String) (collection : Expr) (body : List Part)
      (opening closing : Strip)

end

instance : Inhabited Expr := ⟨.null⟩
instance : Inhabited Part := ⟨.literal ""⟩

end InfraConfig
