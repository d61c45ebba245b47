import InfraConfig.Value
import InfraConfig.Text.Search
import InfraConfig.Text.Quoted

/-!
# References

The address of a block: what kind it has, its labels, the key of the instance, and the names that lead from
there into its values.
-/

namespace InfraConfig

/-- Kinds of blocks that can be referred to. -/
inductive RefKind where
  | data
  | resource
  | variable
  | local
  | provider
  | output
  | module
  | terraform
  deriving DecidableEq, Inhabited

namespace RefKind

/-- The kind that a first name stands for; a name of no other kind is the type of a resource. -/
def ofRoot (root : String) : RefKind :=
  match root with
  | "data" => .data
  | "var" => .variable
  | "variable" => .variable
  | "local" => .local
  | "locals" => .local
  | "provider" => .provider
  | "output" => .output
  | "module" => .module
  | "terraform" => .terraform
  | _ => .resource

def text : RefKind → String
  | .data => "data"
  | .resource => "resource"
  | .variable => "var"
  | .local => "local"
  | .provider => "provider"
  | .output => "output"
  | .module => "module"
  | .terraform => "terraform"

end RefKind

/-- What tells the instances of one block apart. -/
inductive InstanceKey where
  | index (i : Int)
  | name (s : String)
  deriving DecidableEq, Inhabited

namespace InstanceKey

def ofValue? : Value → Option InstanceKey
  | .number n => some (.index n.toInt64)
  | .text s => some (.name s)
  | _ => none

/-- Reads the text between the brackets. -/
def read? (text : List Char) : Option InstanceKey :=
  let cs := trimList isBlank text
  match readInt64? cs with
  | some i => some (.index i)
  | none => do
    let inner ← beforeEnd? ['"'] (← afterStart? ['"'] cs)
    some (.name (replaceText (.ofList inner) "\\\"" "\""))

def text : InstanceKey → String
  | .index i => "[" ++ toString i ++ "]"
  | .name s => "[" ++ quoted s ++ "]"

end InstanceKey

/-- A label without its instance key, and the key. -/
def splitKey (label : String) : String × Option InstanceKey :=
  match splitFirst? ['['] label.toList with
  | none => (label, none)
  | some (front, back) =>
    match (beforeEnd? [']'] back).bind InstanceKey.read? with
    | some key => (.ofList front, some key)
    | none => (label, none)

inductive ReferenceProblem where
  | notATraversal
  | emptyTemplate
  | empty
  | noMatchingBlock (name : String)
  deriving DecidableEq

def ReferenceProblem.message : ReferenceProblem → String
  | notATraversal => "not a reference"
  | emptyTemplate => "no references in template"
  | empty => "empty reference"
  | noMatchingBlock name => "no referenced block found in `" ++ name ++ "`"

structure Reference where
  kind : RefKind
  typeLabel : String
  nameLabel : String
  key : Option InstanceKey
  remainder : List String
  deriving DecidableEq, Inhabited

namespace Reference

/-- The reference of a type, a label with its key, and further names. -/
def ofLabels (kind : RefKind) (typeLabel label : String) (remainder : List String) : Reference :=
  let (name, key) := splitKey label
  ⟨kind, typeLabel, name, key, remainder⟩

/-- Builds a reference from its names. -/
def build (parts : List String) : Reference :=
  let first := parts.headD ""
  let at' (i : Nat) : String := parts.getD i ""
  match RefKind.ofRoot first with
  | .resource => ofLabels .resource first (at' 1) (parts.drop 2)
  | .data => ofLabels .data (at' 1) (at' 2) (parts.drop 3)
  | kind => ofLabels kind "" (at' 1) (parts.drop 2)

def ofParts (parts : List String) : Except ReferenceProblem Reference :=
  if parts.isEmpty then .error .empty else .ok (build parts)

/-- The reference of a block by its kind and labels. The kind of resources goes without saying. -/
def ofBlock (kind : String) (labels : List String) : Reference :=
  build (if kind = "resource" then labels else kind :: labels)

/-- Reads names separated by dots. -/
def read (address : String) : Except ReferenceProblem Reference :=
  if address.isEmpty then .error .empty else .ok (build (splitText "." address))

/-- Whether two references lead to one block, wherever they go from there. -/
def refersTo (a b : Reference) : Bool :=
  a.kind == b.kind && a.typeLabel == b.typeLabel && a.nameLabel == b.nameLabel && a.key == b.key

/-- The address without key and further names. -/
def base (r : Reference) : String :=
  let kind := if r.kind = .resource then [] else [r.kind.text]
  joinText "." (kind ++ [r.typeLabel, r.nameLabel].filter (!·.isEmpty))

def text (r : Reference) : String :=
  r.base ++ (match r.key with
    | some key => key.text
    | none => "") ++ String.join (r.remainder.map ("." ++ ·))

end Reference

end InfraConfig
