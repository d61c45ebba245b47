import InfraConfig.Sources.Loader
import InfraConfig.Syntax.Template
import InfraConfig.Json.Reader

/-!
# Blocks of JSON documents

In a JSON document the labels of a block are the keys on the way to its body. A body is an object, or one of
the objects in an array. Every block and attribute covers the whole file.
-/

namespace InfraConfig

/-- The expression of a JSON number; null for one that is not finite. -/
def Expr.ofJsonNumeral (n : JsonNumeral) : Expr :=
  match n.int64? with
  | some i => .number (.int i)
  | none =>
    match n.nat64? with
    | some u => .number (.int u)
    | none =>
      match Number.ofFloat? n.toFloat with
      | some x => .number x
      | none => .null

mutual

/-- The expression that a JSON value stands for: a text with an interpolation is a template, everything else
is a literal. -/
def Expr.ofJson : JsonValue → Expr
  | .null => .null
  | .bool b => .bool b
  | .number n => .ofJsonNumeral n
  | .text s => if containsText s "$\x7b" then .template s (Syntax.readTemplate? s) else .text s
  | .list items => .list (itemsOfJson items)
  | .object entries => .object (entriesOfJson entries)

def itemsOfJson : List JsonValue → List Expr
  | [] => []
  | v :: rest => .ofJson v :: itemsOfJson rest

def entriesOfJson : List (String × JsonValue) → List (Key × Expr)
  | [] => []
  | (k, v) :: rest => (.expr (.text k), .ofJson v) :: entriesOfJson rest

end

namespace Document

/-- How many labels the blocks of a kind have at the top of a document. -/
def labelCount (kind : String) : Nat :=
  match kind with
  | "resource" => 2
  | "data" => 2
  | "variable" => 1
  | "output" => 1
  | "module" => 1
  | "provider" => 1
  | _ => 0

/-- Whether a key in a body of a kind holds blocks, and how many labels they have. -/
def childLabels? (kind key : String) : Option Nat :=
  if key = "dynamic" then some 1
  else if key = "content" ∧ kind = "dynamic" then some 0
  else none

/-- The attributes of a body. -/
def attributes (range : SourceRange) (kind : String) (body : List (String × JsonValue)) : List Attribute :=
  (body.filter fun (key, _) => (childLabels? kind key).isNone).map fun (key, v) =>
    ⟨key, .ofJson v, range⟩

mutual

/-- The blocks in a value that has `depth` levels of labels above the bodies. -/
def trees (range : SourceRange) (kind : String) (labels : List String) : Nat → JsonValue → List BlockTree
  | 0, .object body => [.node kind labels (attributes range kind body) (childTrees range kind body) range]
  | 0, .list items => bodyTrees range kind labels items
  | depth + 1, .object entries => labelTrees range kind labels depth entries
  | _, _ => []

/-- The blocks whose bodies are the objects in an array. -/
def bodyTrees (range : SourceRange) (kind : String) (labels : List String) : List JsonValue → List BlockTree
  | [] => []
  | .object body :: rest =>
    .node kind labels (attributes range kind body) (childTrees range kind body) range
      :: bodyTrees range kind labels rest
  | _ :: rest => bodyTrees range kind labels rest

/-- The blocks under the keys of an object, which are labels. -/
def labelTrees (range : SourceRange) (kind : String) (labels : List String) (depth : Nat) :
    List (String × JsonValue) → List BlockTree
  | [] => []
  | (label, v) :: rest =>
    trees range kind (labels ++ [label]) depth v ++ labelTrees range kind labels depth rest

/-- The blocks inside a body. -/
def childTrees (range : SourceRange) (kind : String) : List (String × JsonValue) → List BlockTree
  | [] => []
  | (key, v) :: rest =>
    (match childLabels? kind key with
      | some depth => trees range key [] depth v
      | none => []) ++ childTrees range kind rest

end

end Document

/-- The blocks of a JSON document. -/
def readDocument (path source : String) : Except LoadProblem (List BlockTree) :=
  match Json.read? source with
  | none => .error (.malformedJson path)
  | some v =>
    match v.sortKeys with
    | .object top =>
      let range : SourceRange := ⟨path, 1, (LineIndex.ofText source).lineCount⟩
      .ok (top.flatMap fun (kind, v) => Document.trees range kind [] (Document.labelCount kind) v)
    | _ => .error (.notAnObject path)

end InfraConfig
