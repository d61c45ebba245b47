import InfraConfig.ModuleRun.Basic
import InfraConfig.Instances
import InfraConfig.Sources.Directory

/-!
# Module calls

A call is loaded once: the blocks of its directory stand in a scope of their own. It is evaluated once, when
all its inputs are known or there is nothing left to wait for, and its outputs are bound in the calling
module.
-/

namespace InfraConfig

/-- The attributes of a module block that are no inputs of the module. -/
def metaArguments : List String :=
  ["source", "version", "count", "for_each", "providers", "depends_on"]

/-- The attributes of a module block that are inputs of the module. -/
def inputAttributes (b : Block) : List Attribute :=
  b.attributes.filter fun attr => !metaArguments.contains attr.name

/-- The values that a module block gives to the variables of its module. -/
def moduleInputs (a : Arena) (b : Block) : Entries Value :=
  Entries.ofPairs ((inputAttributes b).map fun attr => (attr.name, a.resolve b attr))

namespace Arena

/-- Adds the blocks and texts of configuration files. -/
def insertFiles (scope : ScopeId) (caller : Option BlockId) (a : Arena) :
    List SourceFile → List BlockId × Arena
  | [] => ([], a)
  | file :: rest =>
    let (ids, a) := insertAll scope caller a file.blocks
    let (more, a) := insertFiles scope caller (a.addSource file.path file.text) rest
    (ids ++ more, a)

end Arena

namespace ModuleRun

/-! ## Loading -/

/-- The directory of a call with its name, unless the same call is under way already. -/
def callTarget? (s : Session) (r : ModuleRun) (b : Block) : Option VisitedModule := do
  let attr ← b.attribute? "source"
  let source ← (r.arena.value b attr).text?
  let path ← moduleDirectory? s.installed s.root r.module.path source
  let target : VisitedModule := ⟨b.label, path, b.localName⟩
  if b.label.isEmpty || r.visited.contains target then none else some target

/-- Loads the directory of a call. A call without a directory is left out. -/
def loadCall (s : Session) (r : ModuleRun) (id : BlockId) : Except LoadProblem ModuleRun :=
  let b := r.arena.block id
  let target := r.callTarget? s b
  let r := if b.label.isEmpty then r else r.noting [(b, (b.attribute? "source").toList)]
  match target with
  | none => .ok r
  | some target =>
    match s.loader.loadDirectory target.path s.stopOnError with
    | .error problem => if s.stopOnError then .error problem else .ok r
    | .ok files =>
      let (root, arena) := r.arena.newRoot
      let (blocks, arena) := arena.insertFiles root (some id) files
      let call : ModuleCall := ⟨id, target.name, target.path, blocks, root, none⟩
      .ok { r with arena, calls := r.calls ++ [call] }

def loadCalls (s : Session) (r : ModuleRun) : List BlockId → Except LoadProblem ModuleRun
  | [] => .ok r
  | id :: rest =>
    match r.loadCall s id with
    | .ok r => r.loadCalls s rest
    | .error problem => .error problem

/-- Replaces some blocks by their instances, which come after the blocks in `keep` from then on. -/
def expand (r : ModuleRun) (keep ids : List BlockId) : List BlockId × ModuleRun :=
  let (ids, arena) := r.arena.expandCounts r.root ids
  let (made, arena) := arena.expandForEach r.root ids
  (made, { r with arena, module := { r.module with blocks := keep ++ made } })

/-- Makes the instances of the module blocks, which come after all others, and loads them. -/
def loadModules (s : Session) (r : ModuleRun) : Except LoadProblem ModuleRun :=
  let (calls, others) := r.module.blocks.partition fun id => (r.arena.block id).kind == .module
  let (made, r) := r.expand others calls
  r.loadCalls s made

/-- Makes the instances of all blocks and renders the dynamic blocks inside. -/
def expandBlocks (r : ModuleRun) : ModuleRun :=
  let (made, r) := r.expand [] r.module.blocks
  { r with arena := made.foldl (fun a id => a.expandDynamic r.root id) r.arena }

/-! ## Evaluation -/

/-- Evaluates one module instance from its beginning: all instances below it, and the run at its end. -/
abbrev Evaluate := ModuleRun → Except LoadProblem (List ModuleInstance × ModuleRun)

/-- The run that a call starts. -/
def startCall (s : Session) (r : ModuleRun) (call : ModuleCall) (inputs : Entries Value) : ModuleRun :=
  start s r.arena ⟨s.root, call.path, call.blocks, some call.block⟩ call.root inputs r.visited

/-- The outputs that a module has bound. -/
def outputs (r : ModuleRun) : Value :=
  (r.bindings.get? "output").getD (.object [])

/-- Evaluates a call that is still open, if all its inputs are known or `force` holds. -/
def evaluateCall (s : Session) (run : Evaluate) (force : Bool) (r : ModuleRun) (call : ModuleCall) :
    Except LoadProblem (ModuleCall × ModuleRun) :=
  if call.result.isSome then .ok (call, r)
  else
    let b := r.arena.block call.block
    let inputs := moduleInputs r.arena b
    let r := r.noting [(b, inputAttributes b)]
    if force || (Value.object inputs).isWhollyKnown then
      let visit : VisitedModule := ⟨call.name, call.path, b.localName⟩
      let r := { r with visited := r.visited ++ [visit] }
      match run (r.startCall s call inputs) with
      | .error problem => .error problem
      | .ok (modules, done) =>
        .ok ({ call with result := some ⟨modules, done.outputs⟩ }, { r with arena := done.arena })
    else .ok (call, r)

/-- Evaluates calls one after another. -/
def evaluateEach (s : Session) (run : Evaluate) (force : Bool) (r : ModuleRun) :
    List ModuleCall → Except LoadProblem (List ModuleCall × ModuleRun)
  | [] => .ok ([], r)
  | call :: rest =>
    match r.evaluateCall s run force call with
    | .error problem => .error problem
    | .ok (call, r) => (r.evaluateEach s run force rest).map fun (calls, r) => (call :: calls, r)

/-- Binds the outputs of the finished calls by their names. -/
def bindOutputsOfCalls (r : ModuleRun) : ModuleRun :=
  let finished := r.calls.filterMap fun call => call.result.map fun result => (call.name, result.outputs)
  if finished.isEmpty then r
  else
    let exports := finished.foldl (fun g (name, v) => g.insert name v) Instances.empty
    r.bind exports.toValue ["module"]

/-- Evaluates the open calls and binds what is finished. -/
def evaluateCalls (s : Session) (run : Evaluate) (force : Bool) (r : ModuleRun) :
    Except LoadProblem ModuleRun :=
  (r.evaluateEach s run force r.calls).map fun (calls, r) => { r with calls }.bindOutputsOfCalls

end ModuleRun

end InfraConfig
