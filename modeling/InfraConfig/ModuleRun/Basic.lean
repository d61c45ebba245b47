import InfraConfig.Expansion
import InfraConfig.ModuleInstance
import InfraConfig.ModuleSource

/-!
# Runs of module instances

Each module instance is evaluated by a run of its own, on the one arena of the project. A run has a scope
that all blocks of the instance see, the values given to its variables, and the calls of further modules.
-/

namespace InfraConfig

/-- What all runs of a project share. -/
structure Session where
  loader : Loader
  /-- The root directory of the project. -/
  root : String
  workspace : String
  stopOnError : Bool
  maxPasses : Nat
  installed : List InstalledModule

/-- A module that is being evaluated or has been, as a call names it. -/
structure VisitedModule where
  name : String
  path : String
  definition : String
  deriving DecidableEq

/-- What a finished call gives: all module instances below it, and the outputs of its own. -/
structure CallResult where
  modules : List ModuleInstance
  outputs : Value

/-- A module call whose blocks have been loaded. -/
structure ModuleCall where
  block : BlockId
  name : String
  path : String
  blocks : List BlockId
  root : ScopeId
  result : Option CallResult

/-- The state of a run. -/
structure ModuleRun where
  arena : Arena
  module : ModuleInstance
  root : ScopeId
  inputs : Entries Value
  calls : List ModuleCall
  visited : List VisitedModule
  /-- The variables without a value in the last pass. -/
  missing : List String

namespace ModuleRun

/-- The values that every module finds in its scope. -/
def surroundings (s : Session) (path : String) : List (ValuePath × Value) :=
  [(["terraform", "workspace"], .text s.workspace), (["path", "root"], .text s.root),
    (["path", "module"], .text (FilePath.relative s.root path)), (["path", "cwd"], .text s.root)]

/-- A run at its beginning: every block gets a scope of its own below that of the module. -/
def start (s : Session) (arena : Arena) (module : ModuleInstance) (root : ScopeId) (inputs : Entries Value)
    (visited : List VisitedModule) : ModuleRun :=
  let arena := (surroundings s module.path).foldl (fun a (path, v) => a.bind root v path) arena
  let arena := module.blocks.foldl (fun a id =>
    let (scope, a) := a.newChild root
    a.rescope id scope) arena
  ⟨arena, module, root, inputs, [], visited, []⟩

/-- The bindings of the module's scope. -/
def bindings (r : ModuleRun) : Entries Value :=
  r.arena.scopes.bindings r.root

/-- Writes a value into the module's scope. -/
def bind (r : ModuleRun) (value : Value) (path : ValuePath) : ModuleRun :=
  { r with arena := r.arena.bind r.root value path }

/-- Records the files that some attributes of blocks ask for. -/
def noting (r : ModuleRun) (reads : List (Block × List Attribute)) : ModuleRun :=
  { r with arena := reads.foldl (fun a (b, attrs) => a.noting b attrs) r.arena }

/-- The blocks of a kind. -/
def blocksOf (r : ModuleRun) (kind : BlockKind) : List Block :=
  (r.module.blocksIn r.arena).filter (·.kind == kind)

end ModuleRun

end InfraConfig
