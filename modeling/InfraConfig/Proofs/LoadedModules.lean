import InfraConfig.Proofs.EnclosingCalls
import InfraConfig.Proofs.Forests

/-!
# Modules of a project

At every moment of an evaluation the modules of a project are those whose evaluators are at work, those of calls
that wait, and those that finished calls have come to. Their blocks are a forest from the moment in which the root
module is loaded to the end.
-/

namespace InfraConfig

/-- The modules of a call: until it is evaluated the one that it has loaded, and then all that this has come to. -/
def ModuleCall.modules (s : Session) (call : ModuleCall) : List ModuleInstance :=
  match call.result with
  | some result => result.modules
  | none => [⟨s.root, call.path, call.blocks, some call.block⟩]

namespace ModuleRun

/-- The module of a run, and those of its calls. -/
def loaded (s : Session) (r : ModuleRun) : List ModuleInstance :=
  r.module :: r.calls.flatMap (ModuleCall.modules s)

/-- The modules of an evaluator while one of its calls is evaluated, but for those of this call. -/
def Frame.loaded (s : Session) (frame : Frame) : List ModuleInstance :=
  frame.state.module :: frame.others.flatMap (ModuleCall.modules s)

/-- The moments of an evaluation: what is in the arena, and the modules that there are, with those of the evaluators
around the one at work. In between, blocks are added that stand in no list yet, or instances are made while the list
of their module is put aside. -/
inductive Moment (s : Session) (inputs : Entries Value) (sources : List SourceFile) :
    Arena → List ModuleInstance → Prop where
  /-- An evaluator has come to a state. -/
  | state {d start frames r} (h : Nested s inputs sources d start frames)
      (hr : Continues s (evaluateUpTo s d) start r) :
      Moment s inputs sources r.arena (r.loaded s ++ frames.flatMap (Frame.loaded s))
  /-- Some of its calls have had their turn. -/
  | calling {d start frames r mid before after done} (h : Nested s inputs sources d start frames)
      (hr : Continues s (evaluateUpTo s d) start r) (force : Bool) (hcalls : r.calls = before ++ after)
      (hbefore : r.evaluateEach s (evaluateUpTo s d) force before = .ok (done, mid)) :
      Moment s inputs sources mid.arena
        (mid.module :: (done ++ after).flatMap (ModuleCall.modules s) ++ frames.flatMap (Frame.loaded s))
  /-- Some of the modules that it calls are loaded. -/
  | loading {d start frames r mid before after} (h : Nested s inputs sources d start frames)
      (hr : Continues s (evaluateUpTo s d) start r) (hids : r.expandCalls.1 = before ++ after)
      (hbefore : r.expandCalls.2.loadCalls s before = .ok mid) :
      Moment s inputs sources mid.arena (mid.loaded s ++ frames.flatMap (Frame.loaded s))
  /-- Some of its blocks are rendered. -/
  | rendering {d start frames r before after} (h : Nested s inputs sources d start frames)
      (hr : Continues s (evaluateUpTo s d) start r) (hmade : (r.expand [] r.module.blocks).1 = before ++ after) :
      Moment s inputs sources
        (before.foldl (fun a id => a.expandDynamic r.root id) (r.expand [] r.module.blocks).2.arena)
        ((r.expand [] r.module.blocks).2.loaded s ++ frames.flatMap (Frame.loaded s))
  /-- All modules are evaluated. -/
  | finished {modules done}
      (h : evaluateUpTo s Project.depthLimit (Project.rootRun s inputs sources) = .ok (modules, done)) :
      Moment s inputs sources done.arena modules

variable {s : Session} {run : Evaluate} {force : Bool} {d : Nat} {start r mid next : ModuleRun}
  {call later : ModuleCall} {calls done : List ModuleCall} {frames : List Frame} {inputs : Entries Value}
  {sources : List SourceFile} {modules outer : List ModuleInstance} {id : BlockId}

/-! ## Calls -/

theorem forest_start (s : Session) (module : ModuleInstance) (root : ScopeId) (inputs : Entries Value)
    (visited : List VisitedModule) {a : Arena} (h : a.Forest modules) :
    (ModuleRun.start s a module root inputs visited).arena.Forest modules := by
  have hbinds : ((surroundings s module.path).foldl (fun b (w : ValuePath × Value) => b.bind root w.2 w.1) a).blocks
      = a.blocks := Arena.blocks_foldl (by intro _ _; rfl) _ _
  refine h.keeps (start_keeps s a module root inputs visited) ?_
  refine Arena.Inherits.nil_trans (.ofBlocks hbinds) (.foldl (fun b id => ?_) _ _)
  have hnew : Arena.Inherits [] b (b.newChild root).2 := .ofBlocks rfl
  exact hnew.nil_trans (Arena.inherits_rescopeUpTo _ _ _ _)

/-- An evaluation that leaves the blocks of all modules a forest, with those of the modules that it gives. -/
def KeepsForest (run : Evaluate) : Prop :=
  ∀ r modules done outer, r.calls = [] → r.arena.Forest (r.module :: outer) → run r = .ok (modules, done) →
    done.arena.Forest (modules ++ outer)

theorem modules_of_open (hopen : call.result = none) :
    call.modules s = [⟨s.root, call.path, call.blocks, some call.block⟩] := by
  rw [ModuleCall.modules, hopen]

theorem forest_started (hopen : call.result = none) (h : mid.arena.Forest (call.modules s ++ outer)) :
    (mid.started s call).arena.Forest ((mid.started s call).module :: outer) := by
  let b := mid.arena.block call.block
  have hnoted := h.ofBlocks (Rebinds.noting mid [(b, inputAttributes b)]).blocks
  rw [modules_of_open hopen] at hnoted
  exact forest_start s _ _ _ _ hnoted

theorem evaluateCall_forest (hrun : KeepsForest run) (h : r.evaluateCall s run force call = .ok (later, next))
    (hforest : r.arena.Forest (call.modules s ++ outer)) : next.arena.Forest (later.modules s ++ outer) := by
  obtain ⟨-, rfl, rfl⟩ | ⟨-, -, rfl, reads, rfl⟩ | ⟨modules, child, hopen, hchild, rfl, rfl⟩ := evaluateCall_cases h
  · exact hforest
  · exact hforest.ofBlocks (Rebinds.noting r reads).blocks
  · exact hrun _ modules child outer rfl (forest_started hopen hforest) hchild

theorem evaluateEach_forest (hrun : KeepsForest run) (h : r.evaluateEach s run force calls = .ok (done, next))
    (hforest : r.arena.Forest (calls.flatMap (ModuleCall.modules s) ++ outer)) :
    next.arena.Forest (done.flatMap (ModuleCall.modules s) ++ outer) := by
  induction calls generalizing r done outer with
  | nil =>
    obtain ⟨rfl, rfl⟩ := Prod.mk.inj (Except.ok.inj h)
    exact hforest
  | cons call calls ih =>
    obtain ⟨later, mid, others, hcall, hrest, rfl⟩ := evaluateEach_cons_eq_ok_iff.mp h
    rw [List.flatMap_cons, List.append_assoc] at hforest ⊢
    have hfirst := (evaluateCall_forest hrun hcall hforest).perm (List.perm_append_comm_assoc _ _ _)
    exact (ih hrest hfirst).perm (List.perm_append_comm_assoc _ _ _)

theorem evaluateEach_module (h : r.evaluateEach s run force calls = .ok (done, next)) : next.module = r.module := by
  induction calls generalizing r done with
  | nil =>
    obtain ⟨-, rfl⟩ := Prod.mk.inj (Except.ok.inj h)
    rfl
  | cons call calls ih =>
    obtain ⟨later, mid, others, hcall, hrest, -⟩ := evaluateEach_cons_eq_ok_iff.mp h
    rw [ih hrest]
    obtain ⟨-, -, rfl⟩ | ⟨-, -, -, reads, rfl⟩ | ⟨modules, child, -, -, -, rfl⟩ := evaluateCall_cases hcall
    · rfl
    · exact (Rebinds.noting r reads).module
    · rfl

/-- Some of the calls of a run have had their turn. -/
theorem evaluateEach_forest_between (hrun : KeepsForest run) {before after : List ModuleCall}
    (hcalls : r.calls = before ++ after) (h : r.evaluateEach s run force before = .ok (done, next))
    (hforest : r.arena.Forest (r.loaded s ++ outer)) :
    next.arena.Forest (next.module :: (done ++ after).flatMap (ModuleCall.modules s) ++ outer) := by
  rw [loaded, hcalls, List.flatMap_append, List.cons_append, List.append_assoc] at hforest
  have hdone := evaluateEach_forest hrun h (hforest.perm List.perm_middle.symm)
  rw [evaluateEach_module h, List.flatMap_append, List.cons_append, List.append_assoc]
  exact hdone.perm List.perm_middle

theorem Rebinds.loaded (h : Rebinds r next) : next.loaded s = r.loaded s := by
  rw [ModuleRun.loaded, ModuleRun.loaded, h.module, h.calls]

theorem Rebinds.forest (h : Rebinds r next) (hforest : r.arena.Forest (r.loaded s ++ outer)) :
    next.arena.Forest (next.loaded s ++ outer) :=
  h.loaded ▸ hforest.ofBlocks h.blocks

theorem evaluateCalls_forest (hrun : KeepsForest run) (h : r.evaluateCalls s run force = .ok next)
    (hforest : r.arena.Forest (r.loaded s ++ outer)) : next.arena.Forest (next.loaded s ++ outer) := by
  obtain ⟨calls, mid, heach, rfl⟩ := evaluateCalls_eq_ok_iff.mp h
  have hdone := evaluateEach_forest_between hrun (List.append_nil r.calls).symm heach hforest
  rw [List.append_nil] at hdone
  exact (Rebinds.bindOutputsOfCalls { mid with calls }).forest hdone

/-! ## Loading and expanding -/

/-- Blocks are expanded. Those that are kept come before what stands for the others. -/
theorem expand_forest {keep ids : List BlockId} (hperm : r.module.blocks.Perm (keep ++ ids))
    (hforest : r.arena.Forest (r.loaded s ++ outer)) :
    (r.expand keep ids).2.arena.Forest ((r.expand keep ids).2.loaded s ++ outer) := by
  have hcounts := Arena.grows_expandCounts r.arena r.root ids
  have hforEach := Arena.grows_expandForEach (r.arena.expandCounts r.root ids).2 r.root (r.arena.expandCounts r.root ids).1
  have hkept := (Arena.Grows.refl r.arena keep).append (hcounts.trans hforEach)
  exact hforest.grows (hkept.perm hperm.symm (.refl _)) rfl

theorem loaded_opens (s : Session) (r : ModuleRun) (id : BlockId) (target : VisitedModule) (files : List SourceFile) :
    (r.opens id target files).loaded s = r.loaded s ++ [⟨s.root, target.path,
      (r.arena.newRoot.2.insertFiles r.arena.newRoot.1 (some id) files).1, some id⟩] := by
  simp [loaded, opens, ModuleCall.modules]

theorem loadCall_forest (hid : id ∈ r.module.blocks) (h : r.loadCall s id = .ok next)
    (hforest : r.arena.Forest (r.loaded s ++ outer)) : next.arena.Forest (next.loaded s ++ outer) := by
  obtain ⟨reads, ⟨-, rfl⟩ | ⟨target, files, -, rfl⟩⟩ := loadCall_cases h
  · exact (Rebinds.noting r reads).forest hforest
  · have hrebinds := Rebinds.noting r reads
    have hnoted := hrebinds.forest hforest
    let noted := (r.noting reads).arena
    let made := noted.newRoot.2.insertFiles noted.newRoot.1 (some id) files
    have hroot : noted.newRoot.2.Forest ((r.noting reads).loaded s ++ outer) := hnoted.ofBlocks rfl
    have hadds := Arena.adds_insertFiles noted.newRoot.1 (some id) files noted.newRoot.2
    have hloads := Arena.loads_insertFiles noted.newRoot.1 (some id) files noted.newRoot.2
    have hlt : id < noted.newRoot.2.blocks.size :=
      hroot.lt List.mem_cons_self (.listed (hrebinds.module.symm ▸ hid))
    have hload := hroot.load (m := ⟨s.root, target.path, made.1, some id⟩) hadds hloads
      fun call hcall => Option.some.inj hcall ▸ hlt
    rw [loaded_opens, List.append_assoc]
    exact hload.perm List.perm_middle.symm

theorem loadCalls_forest {ids : List BlockId} (hids : ids ⊆ r.module.blocks) (h : r.loadCalls s ids = .ok next)
    (hforest : r.arena.Forest (r.loaded s ++ outer)) : next.arena.Forest (next.loaded s ++ outer) := by
  induction ids generalizing r with
  | nil => exact Except.ok.inj h ▸ hforest
  | cons id ids ih =>
    obtain ⟨mid, hmid, hrest⟩ := loadCalls_cons_eq_ok_iff.mp h
    obtain ⟨hid, hothers⟩ := List.cons_subset.mp hids
    exact ih (loadCall_module hmid ▸ hothers) hrest (loadCall_forest hid hmid hforest)

theorem expandCalls_forest (hforest : r.arena.Forest (r.loaded s ++ outer)) :
    r.expandCalls.2.arena.Forest (r.expandCalls.2.loaded s ++ outer) := by
  rw [expandCalls, List.partition_eq_filter_filter]
  exact expand_forest (perm_filter_append _ r.module.blocks) hforest

theorem expandCalls_subset (r : ModuleRun) : r.expandCalls.1 ⊆ r.expandCalls.2.module.blocks :=
  List.subset_append_right _ _

theorem loadModules_forest (h : r.loadModules s = .ok next) (hforest : r.arena.Forest (r.loaded s ++ outer)) :
    next.arena.Forest (next.loaded s ++ outer) := by
  rw [loadModules_eq] at h
  exact loadCalls_forest (expandCalls_subset r) h (expandCalls_forest hforest)

/-- Some of the blocks that have been expanded are rendered. -/
theorem rendered_forest {made rest : List BlockId} (hmade : (r.expand [] r.module.blocks).1 = made ++ rest)
    (hforest : r.arena.Forest (r.loaded s ++ outer)) :
    (made.foldl (fun a id => a.expandDynamic r.root id) (r.expand [] r.module.blocks).2.arena).Forest
      ((r.expand [] r.module.blocks).2.loaded s ++ outer) := by
  have hall : r.module.blocks.Perm ([] ++ r.module.blocks) := .refl _
  have hexpanded := expand_forest hall hforest
  let expanded := (r.expand [] r.module.blocks).2
  have hrender := Arena.Grows.foldl (f := fun a id => a.expandDynamic r.root id)
    (fun b id => Arena.grows_expandDynamicUpTo r.root b.blocks.size b id) expanded.arena made
  have hstep := hrender.append (.refl _ rest)
  rw [← hmade] at hstep
  exact hexpanded.grows hstep rfl

theorem expandBlocks_forest (hforest : r.arena.Forest (r.loaded s ++ outer)) :
    r.expandBlocks.arena.Forest (r.expandBlocks.loaded s ++ outer) :=
  rendered_forest (List.append_nil _).symm hforest

/-! ## Whole evaluations -/

/-- In each state of an evaluator, the blocks of its modules are a forest, with those of all modules outside. -/
theorem Continues.forest (hrun : KeepsForest run) (h : Continues s run start r)
    (hstart : start.arena.Forest (start.loaded s ++ outer)) : r.arena.Forest (r.loaded s ++ outer) := by
  induction h with
  | start => exact hstart
  | bind _ ih => exact (Rebinds.bindBlocks _).forest ih
  | calls _ force hcalls ih => exact evaluateCalls_forest hrun hcalls ih
  | read _ ih => exact ih.ofBlocks rfl
  | load _ hload ih => exact loadModules_forest hload ih
  | expand _ ih => exact expandBlocks_forest ih

theorem modules_sublist (s : Session) (r : ModuleRun) : r.modules.Sublist (r.loaded s) := by
  refine List.Sublist.cons_cons r.module (.flatMap_right r.calls fun call _ => ?_)
  rw [ModuleCall.modules]
  cases call.result with
  | some result => exact .refl _
  | none => exact List.nil_sublist _

/-- However deeply calls are nested, the blocks of all modules stay a forest. -/
theorem keepsForest_evaluateUpTo (s : Session) (depth : Nat) : KeepsForest (evaluateUpTo s depth) := by
  induction depth with
  | zero => exact fun r modules done outer _ _ h => by cases h
  | succ depth ih =>
    intro r modules done outer hcalls hforest h
    have hstart : r.arena.Forest (r.loaded s ++ outer) := by
      rw [loaded, hcalls]
      exact hforest
    have hdone := (Continues.ofEvaluateWith h).forest ih hstart
    obtain ⟨_, _, _, _, -, -, -, -, -, rfl⟩ := evaluateWith_eq_ok_iff.mp h
    exact hdone.sublist ((modules_sublist s done).append_right outer)

theorem forest_rootRun (s : Session) (inputs : Entries Value) (sources : List SourceFile) :
    (Project.rootRun s inputs sources).arena.Forest ((Project.rootRun s inputs sources).loaded s) := by
  let a := (Arena.empty s.root).newRoot.2
  have hempty : a.Forest [] :=
    ⟨⟨[], .nil, List.nodup_nil, by simp⟩, by simp, fun id hid => absurd hid (Nat.not_lt_zero id)⟩
  have hadds : Arena.Adds a (a.insertFiles 0 none sources).2 (a.insertFiles 0 none sources).1 :=
    Arena.adds_insertFiles 0 none sources a
  have hload := hempty.load (m := ⟨s.root, s.root, (a.insertFiles 0 none sources).1, none⟩) hadds
    (Arena.loads_insertFiles 0 none sources a) (by simp)
  exact forest_start s _ 0 inputs [] hload

/-- An evaluator begins with the modules of those around it. -/
theorem Nested.forest (h : Nested s inputs sources d start frames) :
    start.arena.Forest (start.loaded s ++ frames.flatMap (Frame.loaded s)) := by
  induction h with
  | root => exact (List.append_nil _).symm ▸ forest_rootRun s inputs sources
  | @child d start r mid frames before call after done h hr force hcalls hbefore isOpen due ih =>
    have hrun := keepsForest_evaluateUpTo s (d + 1)
    have hbetween := evaluateEach_forest_between hrun hcalls hbefore (hr.forest hrun ih)
    have hmove := List.perm_append_comm_assoc (mid.module :: done.flatMap (ModuleCall.modules s)) (call.modules s)
      (after.flatMap (ModuleCall.modules s) ++ frames.flatMap (Frame.loaded s))
    have hcall : mid.arena.Forest (call.modules s ++ (Frame.loaded s ⟨mid, call, done ++ after⟩
        ++ frames.flatMap (Frame.loaded s))) := by
      refine hbetween.perm ?_
      simpa [Frame.loaded] using hmove
    exact forest_started isOpen hcall

/-! ## Moments -/

theorem Nested.forest_continues (h : Nested s inputs sources d start frames)
    (hr : Continues s (evaluateUpTo s d) start r) :
    r.arena.Forest (r.loaded s ++ frames.flatMap (Frame.loaded s)) :=
  hr.forest (keepsForest_evaluateUpTo s d) h.forest

theorem Moment.forest {a : Arena} (h : Moment s inputs sources a modules) : a.Forest modules := by
  cases h with
  | state h hr => exact h.forest_continues hr
  | calling h hr force hcalls hbefore =>
    exact evaluateEach_forest_between (keepsForest_evaluateUpTo s _) hcalls hbefore (h.forest_continues hr)
  | @loading d start frames r mid before after h hr hids hbefore =>
    have hsub : before ⊆ r.expandCalls.1 := hids ▸ List.subset_append_left before after
    have hlisted := List.Subset.trans hsub (expandCalls_subset r)
    exact loadCalls_forest hlisted hbefore (expandCalls_forest (h.forest_continues hr))
  | rendering h hr hmade => exact rendered_forest hmade (h.forest_continues hr)
  | finished h =>
    have hstart := forest_rootRun s inputs sources
    have hdone := keepsForest_evaluateUpTo s Project.depthLimit _ _ _ [] rfl hstart h
    exact List.append_nil modules ▸ hdone

/-- What a project is loaded to is such a moment. -/
theorem exists_moment_of_load {l : Loader} {workingDir dir : String} {o : Options} {p : Project}
    (h : Project.load l workingDir dir o = .ok p) :
    ∃ s inputs sources, s.loader = l ∧ Moment s inputs sources p.arena p.modules := by
  rw [Project.load] at h
  dsimp only at h
  split at h
  · cases h
  · next given _ =>
    split at h
    · cases h
    · next files _ =>
      split at h
      · cases h
      · next modules done hdone =>
        obtain rfl := Except.ok.inj h
        exact ⟨_, _, _, rfl, .finished hdone⟩

/-- At every moment the blocks of all modules are a forest, and the recursions through it come to an end. -/
theorem Moment.forest_ends {a : Arena} (h : Moment s inputs sources a modules) :
    a.Forest modules ∧ (∀ m ∈ modules, ∀ id, a.Below m.blocks id → a.Ends id)
      ∧ ∀ id < a.blocks.size, a.Named id := by
  have hforest := h.forest
  refine ⟨hforest, fun m hm id hid => ?_, fun id hid => ?_⟩
  · exact hforest.ends hm hid
  · exact hforest.dated.named hid

/-- A resource with a dynamic block, and a call of a module with an output. -/
def renderedCall : List SourceFile :=
  let content : BlockTree := .node "content" [] [⟨"k", .text "v", default⟩] [] default
  let each : Attribute := ⟨"for_each", .list [.text "x", .text "y"], default⟩
  [⟨"main.tf", "", [.node "resource" ["r", "n"] [] [.node "dynamic" ["tag"] [each] [content] default] default,
    .node "module" ["m"] [⟨"source", .text "./c", default⟩] [] default]⟩]

/-- Contents that were copied stand in the resource, and blocks belong to the call. -/
theorem forest_renderedCall :
    let s : Session := ⟨constantOutput, "/", "default", false, 6, []⟩
    ∃ a modules, Moment s [] renderedCall a modules ∧ modules.length = 2
      ∧ (∃ m ∈ modules, ∃ id ∈ m.blocks, 2 ≤ (a.inside id).length)
      ∧ (∃ m ∈ modules, ∃ id ∈ m.blocks, (a.block id).caller.isSome = true)
      ∧ a.Forest modules ∧ (∀ m ∈ modules, ∀ id, a.Below m.blocks id → a.Ends id)
      ∧ ∀ id < a.blocks.size, a.Named id := by
  intro s
  have hcheck : (evaluateUpTo s Project.depthLimit (Project.rootRun s [] renderedCall)).toOption.any
      (fun (modules, done) => modules.length == 2
        && modules.any (fun m => m.blocks.any fun id => 2 ≤ (done.arena.inside id).length)
        && modules.any fun m => m.blocks.any fun id => (done.arena.block id).caller.isSome) = true := by
    decide +kernel
  obtain ⟨⟨modules, done⟩, hdone, hcheck⟩ := (Option.any_eq_true _ _).mp hcheck
  simp only [Bool.and_eq_true, beq_iff_eq, List.any_eq_true, decide_eq_true_eq] at hcheck
  obtain ⟨⟨hcount, hchildren⟩, hcallers⟩ := hcheck
  have hmoment : Moment s [] renderedCall done.arena modules := .finished (eq_ok_of_toOption hdone)
  exact ⟨done.arena, modules, hmoment, hcount, hchildren, hcallers, hmoment.forest_ends⟩

end ModuleRun

end InfraConfig
