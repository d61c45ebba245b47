import InfraConfig.ModuleRun.Evaluate
import InfraConfig.Sources.Variables
import InfraConfig.Settings

/-!
# Projects

A project is the configuration of a root directory and of all modules that it calls, evaluated.
-/

namespace InfraConfig

/-- Why a project cannot be evaluated. -/
inductive ProjectProblem where
  | inputs (problem : VariableProblem)
  /-- The root directory cannot be loaded. -/
  | loading (problem : LoadProblem)
  /-- A module below the root directory cannot be loaded. -/
  | evaluation (root : String) (problem : LoadProblem)

/-- What is said of a problem, the outermost first. -/
def ProjectProblem.messages : ProjectProblem → List String
  | inputs problem => problem.messages
  | loading problem => [problem.message]
  | evaluation root problem => ["evaluating " ++ root, problem.message]

structure Project where
  arena : Arena
  /-- The root module, and after each module those that it calls. -/
  modules : List ModuleInstance
  /-- The variables of the root module that have no value. -/
  missing : List String
  /-- The scope of the root module. -/
  scope : ScopeId

namespace Project

/-- How deeply module calls can be nested. -/
def depthLimit : Nat := 1000

/-- The run of the root module at its beginning. -/
def rootRun (s : Session) (inputs : Entries Value) (files : List SourceFile) : ModuleRun :=
  let (scope, arena) := (Arena.empty s.root).newRoot
  let (blocks, arena) := arena.insertFiles scope none files
  .start s arena ⟨s.root, s.root, blocks, none⟩ scope inputs []

/-- A project at the end of the run of its root module. -/
def ofRun (modules : List ModuleInstance) (r : ModuleRun) : Project :=
  ⟨r.arena, modules, r.missing, r.root⟩

/-- Loads and evaluates the configuration in a directory, as seen from the working directory. -/
def load (l : Loader) (workingDir dir : String) (o : Options) : Except ProjectProblem Project :=
  let root := FilePath.absolute workingDir dir
  match l.inputVariables root o.variableFiles with
  | .error problem => .error (.inputs problem)
  | .ok inputs =>
    match l.loadDirectory root o.stopOnError with
    | .error problem => .error (.loading problem)
    | .ok files =>
      let s : Session :=
        ⟨l, root, o.workspace, o.stopOnError, max 1 o.maxPasses, InstalledModule.load l root⟩
      let run := rootRun s (inputs.putAll o.inputs) files
      match ModuleRun.evaluateUpTo s depthLimit run with
      | .error problem => .error (.evaluation root problem)
      | .ok (modules, r) => .ok (ofRun modules r)

/-- All blocks of all modules. -/
def blocks (p : Project) : List Block :=
  p.modules.flatMap (·.blocksIn p.arena)

/-- What is bound in the root module under a dotted path. -/
def binding? (p : Project) (path : String) : Option Value :=
  p.arena.scopes.get? p.scope (dotPath path)

end Project

end InfraConfig
