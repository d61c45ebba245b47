import InfraConfig.Block.Check

/-!
# Module instances

The blocks that one call of a module loaded from its directory, and questions about them.
-/

namespace InfraConfig

structure ModuleInstance where
  /-- The root directory of the project. -/
  rootPath : String
  /-- The directory of the module. -/
  path : String
  blocks : List BlockId
  /-- The module block that made the instance; the root module has none. -/
  caller : Option BlockId
  deriving Inhabited

namespace ModuleInstance

def blocksIn (m : ModuleInstance) (a : Arena) : List Block :=
  m.blocks.map a.block

/-- The blocks of a kind whose first label is `label`. -/
def blocksOf (m : ModuleInstance) (a : Arena) (kind : BlockKind) (label : String) : List Block :=
  (m.blocksIn a).filter fun b => b.kind == kind && b.labels.head? == some label

def resources (m : ModuleInstance) (a : Arena) (type : String) : List Block :=
  m.blocksOf a .resource type

def dataSources (m : ModuleInstance) (a : Arena) (type : String) : List Block :=
  m.blocksOf a .data type

/-- Whether a block has an attribute whose value is a text. -/
def hasText (a : Arena) (name text : String) (b : Block) : Bool :=
  (b.attribute? name).any fun attr => (a.value b attr).equals (.text text) false

/-- The provider blocks of a name: those with an alias, which may have the name in front of it, or those
that have none. -/
def providers (m : ModuleInstance) (a : Arena) (name : String) (selected : Option String) : List Block :=
  (m.blocksOf a .provider name).filter fun b =>
    match selected with
    | some s => hasText a "alias" (withoutStart (name ++ ".") s) b
    | none => !a.hasChild b "alias"

/-- The module calls with a source. -/
def callsOf (m : ModuleInstance) (a : Arena) (source : String) : List Block :=
  (m.blocksIn a).filter fun b => b.kind == .module && hasText a "source" source b

/-- The first block that a reference of an attribute leads to. -/
def referencedBlock (m : ModuleInstance) (a : Arena) (b : Block) (attr : Attribute) :
    Except ReferenceProblem Block :=
  match (a.allReferences b attr).findSome? fun r =>
      (m.blocksIn a).find? fun target => r.refersTo target.reference with
  | some target => .ok target
  | none => .error (.noMatchingBlock attr.name)

/-- Whether an attribute of a block refers to a target, or reads an element of a `for_each` that does. -/
def attributeLeadsTo (a : Arena) (target : Block) (name : String) (b : Block) : Bool :=
  match b.attribute? name with
  | none => false
  | some attr =>
    a.refersTo b attr target
      || (a.allReferences b attr).any (·.typeLabel == "each")
        && (b.attribute? "for_each").any fun each => a.refersTo b each target

/-- The resources of a type whose attribute `name` leads to a target. -/
def resourcesLeadingTo (m : ModuleInstance) (a : Arena) (target : Block) (type name : String) :
    List Block :=
  (m.resources a type).filter (attributeLeadsTo a target name)

end ModuleInstance

end InfraConfig
