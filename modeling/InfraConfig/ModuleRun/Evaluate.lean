import InfraConfig.ModuleRun.Bindings
import InfraConfig.ModuleRun.Calls

/-!
# Evaluating a module

A module is evaluated by passes over its blocks until two passes agree and no file was read in between.
This happens before its calls are loaded, before its blocks are expanded, and afterwards; calls whose inputs
never become known are evaluated at the end. The evaluation of a call is that of another module, which
nests to a bounded depth.
-/

namespace InfraConfig

namespace Arena

/-- The files that the attributes of a block and of all blocks inside ask for, down to a depth. -/
def askedInside (a : Arena) : Nat → Block → List String
  | 0, b => b.attributes.flatMap (a.asked b)
  | depth + 1, b =>
    b.attributes.flatMap (a.asked b) ++ (a.children b).flatMap (a.askedInside depth)

/-- Reads files and records their texts, or that they cannot be read. -/
def readFiles (l : Loader) (a : Arena) (paths : List String) : Arena :=
  { a with files := paths.foldl (fun t path => t.insert path (l.load path).toOption) a.files }

end Arena

namespace ModuleRun

/-- Reads all files that are wanted, and tells whether there were any. -/
def readWanted (s : Session) (r : ModuleRun) : Bool × ModuleRun :=
  let a := r.arena
  let asked := (r.module.blocksIn a).flatMap (a.askedInside a.blocks.size)
  let (wanted, files) := (a.files.want asked).takeWanted
  (!wanted.isEmpty, { r with arena := { a with files }.readFiles s.loader wanted })

/-- One pass over all blocks. -/
def pass (s : Session) (run : Evaluate) (r : ModuleRun) : Except LoadProblem ModuleRun :=
  r.bindBlocks.evaluateCalls s run false

/-- Whether two states of a scope agree. -/
def agree (previous current : Entries Value) : Bool :=
  Value.object previous == Value.object current

/-- Makes passes until two of them agree, or at most a number of them. -/
def converge (s : Session) (run : Evaluate) : Nat → Option (Entries Value) → ModuleRun →
    Except LoadProblem ModuleRun
  | 0, _, r => .ok r
  | n + 1, previous, r =>
    match r.pass s run with
    | .error problem => .error problem
    | .ok r =>
      let (read, r) := r.readWanted s
      if !read && previous.any fun previous => agree previous r.bindings then .ok r
      else converge s run n (some r.bindings) r

/-- Makes passes from a state of which nothing is known. -/
def settle (s : Session) (run : Evaluate) (r : ModuleRun) : Except LoadProblem ModuleRun :=
  converge s run s.maxPasses none r

/-- Evaluates the calls that are still open, if there are any, and settles again. -/
def forceCalls (s : Session) (run : Evaluate) (r : ModuleRun) : Except LoadProblem ModuleRun :=
  if r.calls.any (·.result.isNone) then do
    let r ← r.evaluateCalls s run true
    r.settle s run
  else .ok r

/-- The module itself, and the modules of its calls in their order. -/
def modules (r : ModuleRun) : List ModuleInstance :=
  r.module :: r.calls.flatMap fun call => (call.result.map CallResult.modules).getD []

/-- Evaluates a module whose calls are evaluated by `run`. -/
def evaluateWith (s : Session) (run : Evaluate) : Evaluate := fun r => do
  let r ← r.settle s run
  let r ← r.loadModules s
  let r ← r.settle s run
  let r ← r.expandBlocks.settle s run
  let r ← r.forceCalls s run
  .ok (r.modules, r)

/-- Evaluates a module whose calls are nested to at most a depth. -/
def evaluateUpTo (s : Session) : Nat → Evaluate
  | 0 => fun _ => .error .tooDeep
  | depth + 1 => evaluateWith s (evaluateUpTo s depth)

end ModuleRun

end InfraConfig
