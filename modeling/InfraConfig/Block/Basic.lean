import InfraConfig.Syntax.Expr
import InfraConfig.SourceRange
import InfraConfig.Reference
import InfraConfig.Scope
import InfraConfig.Files.Table

/-!
# Blocks

A configuration is made of blocks, which have labels, attributes and further blocks. The blocks of a run stand
in one arena and know their children, their scope and the module call they belong to by number.
-/

namespace InfraConfig

inductive BlockKind where
  | resource
  | data
  | module
  | variable
  | output
  | locals
  | provider
  | terraform
  | dynamic
  | other (name : String)
  deriving DecidableEq, Inhabited

namespace BlockKind

def ofName (name : String) : BlockKind :=
  match name with
  | "resource" => .resource
  | "data" => .data
  | "module" => .module
  | "variable" => .variable
  | "output" => .output
  | "locals" => .locals
  | "provider" => .provider
  | "terraform" => .terraform
  | "dynamic" => .dynamic
  | name => .other name

def name : BlockKind → String
  | .resource => "resource"
  | .data => "data"
  | .module => "module"
  | .variable => "variable"
  | .output => "output"
  | .locals => "locals"
  | .provider => "provider"
  | .terraform => "terraform"
  | .dynamic => "dynamic"
  | .other name => name

end BlockKind

structure Attribute where
  name : String
  value : Expr
  range : SourceRange
  deriving Inhabited

/-- A block as it is written, with the blocks inside it. -/
inductive BlockTree where
  | node (kind : String) (labels : List String) (attributes : List Attribute)
      (children : List BlockTree) (range : SourceRange)
  deriving Inhabited

/-- A block by its number in the arena. -/
abbrev BlockId := Nat

structure Block where
  kind : BlockKind
  labels : List String
  attributes : List Attribute
  children : List BlockId
  scope : ScopeId
  /-- The module call that loaded the block. -/
  caller : Option BlockId
  range : SourceRange
  /-- Whether the block is an instance of another one. -/
  expanded : Bool
  /-- How many instances were made of the block. -/
  clones : Nat
  /-- Which instance the block is. -/
  key : Option InstanceKey
  deriving Inhabited

namespace Block

def typeLabel (b : Block) : String :=
  b.labels.headD ""

def nameLabel (b : Block) : String :=
  b.labels.getD 1 ""

def label (b : Block) : String :=
  joinText "." b.labels

/-- The name label without instance key. -/
def baseName (b : Block) : String :=
  (splitKey b.nameLabel).1

def attribute? (b : Block) (name : String) : Option Attribute :=
  b.attributes.find? (·.name == name)

def reference (b : Block) : Reference :=
  .ofBlock b.kind.name b.labels

/-- The name of the block in its module. -/
def localName (b : Block) : String :=
  b.reference.text

def isEmpty (b : Block) : Bool :=
  b.children.isEmpty && b.attributes.isEmpty

end Block

/-- All blocks of a run, with their scopes, the texts of their files, and the files that expressions read. -/
structure Arena where
  scopes : Scopes
  blocks : Array Block
  sources : Entries String
  files : FileTable
  deriving Inhabited

namespace Arena

/-- An arena without blocks, whose expressions read files below `base`. -/
def empty (base : String) : Arena :=
  ⟨.empty, #[], [], .empty base⟩

def block (a : Arena) (id : BlockId) : Block :=
  a.blocks.getD id default

def children (a : Arena) (b : Block) : List Block :=
  b.children.map a.block

def addSource (a : Arena) (path text : String) : Arena :=
  { a with sources := a.sources.put (FilePath.tidy path) text }

/-- The text of a configuration file. -/
def source? (a : Arena) (path : String) : Option String :=
  a.sources.get? (FilePath.tidy path)

/-- The first child of a kind. -/
def child? (a : Arena) (b : Block) (kind : String) : Option Block :=
  (a.children b).find? (·.kind.name == kind)

def childrenOf (a : Arena) (b : Block) (kind : String) : List Block :=
  (a.children b).filter (·.kind.name == kind)

/-- Whether a block has an attribute or a child of a name. -/
def hasChild (a : Arena) (b : Block) (name : String) : Bool :=
  (b.attribute? name).isSome || (a.child? b name).isSome

/-- The block that the names before the last lead to, with the last name. -/
def walk? (a : Arena) (b : Block) : List String → Option (Block × String)
  | [] => none
  | [last] => some (b, last)
  | name :: rest => (a.child? b name).bind fun c => a.walk? c rest

/-- An attribute of a block further inside, and that block. -/
def nestedAttribute? (a : Arena) (b : Block) (path : String) : Option (Block × Attribute) := do
  let (c, last) ← a.walk? b (dotPath path)
  let attr ← c.attribute? last
  some (c, attr)

/-- Whether a path leads to no attribute or block. -/
def missingNested (a : Arena) (b : Block) (path : String) : Bool :=
  match a.walk? b (dotPath path) with
  | some (c, last) => !a.hasChild c last
  | none => true

/-- The local names of the module calls around a block and of the block, joined. A call is older than the
blocks it loads, so that `n` above a block's number is enough. -/
def fullNameUpTo (a : Arena) : Nat → Block → String
  | 0, b => b.localName
  | n + 1, b =>
    match b.caller with
    | some id => a.fullNameUpTo n (a.block id) ++ "." ++ b.localName
    | none => b.localName

/-- The name of a block with those of all module calls around it. -/
def fullName (a : Arena) (b : Block) : String :=
  a.fullNameUpTo a.blocks.size b

def uniqueNameUpTo (a : Arena) : Nat → Block → String
  | 0, b => a.fullName b ++ ":" ++ b.range.file
  | n + 1, b =>
    let name := a.fullName b ++ ":" ++ b.range.file
    match b.caller with
    | some id => name ++ ":" ++ a.uniqueNameUpTo n (a.block id)
    | none => name

/-- The full name and the file of a block, and the same of all module calls around it. -/
def uniqueName (a : Arena) (b : Block) : String :=
  a.uniqueNameUpTo a.blocks.size b

/-- The lines of a block and the comments above it. -/
def readLines (a : Arena) (b : Block) : List String × List String :=
  match a.source? b.range.file with
  | some source => b.range.readLines source
  | none => ([], [])

end Arena

end InfraConfig
