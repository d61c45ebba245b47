import InfraConfig.Proofs.BlockNames
import InfraConfig.Proofs.ModuleTrees

/-!
# The states of one evaluator and the calls that it starts

An evaluator goes from its beginning through the steps of a run: it binds its blocks, evaluates its calls, reads
files, loads modules and expands blocks. What each of these steps preserves holds of all its states, in
whatever order the steps are taken.

An evaluator remembers each of its calls when it starts it, after all that it was told at its own beginning. The
calls that it remembers are those that are finished, each of them once. A call that it loads is none of those
that it was told.
-/

namespace InfraConfig

/-! ## States -/

namespace ModuleRun

/-- The states that an evaluator comes to from its beginning. -/
inductive Continues (s : Session) (run : Evaluate) (start : ModuleRun) : ModuleRun → Prop where
  | start : Continues s run start start
  | bind {r} (h : Continues s run start r) : Continues s run start r.bindBlocks
  | calls {r next} (h : Continues s run start r) (force : Bool)
      (hcalls : r.evaluateCalls s run force = .ok next) : Continues s run start next
  | read {r} (h : Continues s run start r) : Continues s run start (r.readWanted s).2
  | load {r next} (h : Continues s run start r) (hload : r.loadModules s = .ok next) : Continues s run start next
  | expand {r} (h : Continues s run start r) : Continues s run start r.expandBlocks

variable {s : Session} {run : Evaluate} {force : Bool} {d : Nat} {start r mid next : ModuleRun} {call : ModuleCall}

namespace Continues

theorem pass (h : Continues s run start r) (hpass : r.pass s run = .ok next) : Continues s run start next :=
  h.bind.calls false hpass

theorem converge (h : Continues s run start r) {n : Nat} {previous : Option (Entries Value)}
    (hloop : converge s run n previous r = .ok next) : Continues s run start next :=
  converge_invariant (fun _ _ hq hpass => (hq.pass hpass).read) h hloop

theorem settle (h : Continues s run start r) (hsettle : r.settle s run = .ok next) : Continues s run start next :=
  h.converge hsettle

theorem forceCalls (h : Continues s run start r) (hforce : r.forceCalls s run = .ok next) :
    Continues s run start next := by
  rw [ModuleRun.forceCalls] at hforce
  split at hforce
  · obtain ⟨mid, hmid, hsettle⟩ := bind_eq_ok_iff.mp hforce
    exact (h.calls true hmid).settle hsettle
  · exact Except.ok.inj hforce ▸ h

theorem reached (hstart : Reached s d start) (h : Continues s (evaluateUpTo s d) start r) : Reached s d r := by
  induction h with
  | start => exact hstart
  | bind _ ih => exact ih.bind
  | calls _ force hcalls ih => exact ih.calls force hcalls
  | read _ ih => exact ih.read
  | load _ hload ih => exact ih.load hload
  | expand _ ih => exact ih.expand

theorem advances (hrun : Contained run) (hs : start.Sound) (h : Continues s run start r) :
    Advances (fun _ => True) start r := by
  induction h with
  | start => exact .refl hs (.all _)
  | bind _ ih => exact ih.trans ((Rebinds.bindBlocks _).advances ih.sound ih.covers)
  | calls _ force hcalls ih => exact ih.trans (evaluateCalls_advances hrun ih.sound ih.covers hcalls)
  | read _ ih => exact ih.trans (readWanted_advances s ih.sound ih.covers)
  | load _ hload ih => exact ih.trans (loadModules_advances ih.sound ih.covers hload)
  | expand _ ih => exact ih.trans (expandBlocks_advances ih.sound ih.covers)

theorem sound (hrun : Contained run) (hs : start.Sound) (h : Continues s run start r) : r.Sound :=
  (h.advances hrun hs).sound

end Continues

/-! ## Beginnings -/

theorem Begins.calls_eq (h : Begins s d r) : r.calls = [] := by
  cases h <;> rfl

/-! ## Texts of blocks -/

/-- An evaluation in which blocks keep their texts. -/
def KeepsTexts (run : Evaluate) : Prop :=
  ∀ r modules done, run r = .ok (modules, done) → r.arena.KeepsText done.arena

theorem keepsText_start (s : Session) (arena : Arena) (module : ModuleInstance) (root : ScopeId)
    (inputs : Entries Value) (visited : List VisitedModule) :
    arena.KeepsText (ModuleRun.start s arena module root inputs visited).arena := by
  have hbinds : Arena.KeepsText arena
      ((surroundings s module.path).foldl (fun a w => a.bind root w.2 w.1) arena) :=
    .foldl (fun b (w : ValuePath × Value) => .ofBlocks (b := b.bind root w.2 w.1) rfl) _ _
  refine hbinds.trans (.foldl (fun b id => ?_) _ _)
  have hnew : Arena.KeepsText b (b.newChild root).2 := .ofBlocks rfl
  exact hnew.trans (Arena.keepsText_rescopeUpTo _ _ _ _)

theorem keepsText_started (s : Session) (r : ModuleRun) (call : ModuleCall) :
    r.arena.KeepsText (r.started s call).arena := by
  have hnoted := (Rebinds.noting r [(r.arena.block call.block, inputAttributes (r.arena.block call.block))]).blocks
  exact (Arena.KeepsText.ofBlocks hnoted).trans (keepsText_start s _ _ _ _ _)

theorem evaluateCall_keepsText (hrun : KeepsTexts run) {later : ModuleCall}
    (h : r.evaluateCall s run force call = .ok (later, next)) : r.arena.KeepsText next.arena := by
  obtain ⟨-, -, rfl⟩ | ⟨-, -, -, reads, rfl⟩ | ⟨modules, child, -, hchild, -, rfl⟩ := evaluateCall_cases h
  · exact .refl _
  · exact .ofBlocks (Rebinds.noting r reads).blocks
  · have hkept := hrun _ _ _ hchild
    exact (keepsText_started s r call).trans hkept

theorem evaluateEach_keepsText (hrun : KeepsTexts run) {calls done : List ModuleCall}
    (h : r.evaluateEach s run force calls = .ok (done, next)) : r.arena.KeepsText next.arena := by
  induction calls generalizing r done with
  | nil =>
    obtain ⟨-, rfl⟩ := Prod.mk.inj (Except.ok.inj h)
    exact .refl _
  | cons call calls ih =>
    obtain ⟨later, mid, others, hcall, hrest, rfl⟩ := evaluateEach_cons_eq_ok_iff.mp h
    exact (evaluateCall_keepsText hrun hcall).trans (ih hrest)

theorem evaluateCalls_keepsText (hrun : KeepsTexts run) (h : r.evaluateCalls s run force = .ok next) :
    r.arena.KeepsText next.arena := by
  obtain ⟨calls, mid, heach, rfl⟩ := evaluateCalls_eq_ok_iff.mp h
  exact (evaluateEach_keepsText hrun heach).trans (.ofBlocks (Rebinds.bindOutputsOfCalls _).blocks)

/-! ## Loading -/

theorem loadCall_keepsText {id : BlockId} (h : r.loadCall s id = .ok next) : r.arena.KeepsText next.arena := by
  obtain ⟨reads, ⟨-, rfl⟩ | ⟨target, files, -, rfl⟩⟩ := loadCall_cases h
  · exact .ofBlocks (Rebinds.noting r reads).blocks
  · have hnoted : r.arena.KeepsText (r.noting reads).arena := .ofBlocks (Rebinds.noting r reads).blocks
    have hroot : Arena.KeepsText (r.noting reads).arena (r.noting reads).arena.newRoot.2 := .ofBlocks rfl
    exact (hnoted.trans hroot).trans (.ofExtends (Arena.extends_insertFiles _ _ _ _))

theorem loadCalls_keepsText {ids : List BlockId} (h : r.loadCalls s ids = .ok next) :
    r.arena.KeepsText next.arena := by
  induction ids generalizing r with
  | nil => exact Except.ok.inj h ▸ .refl _
  | cons id ids ih =>
    obtain ⟨mid, hmid, h⟩ := loadCalls_cons_eq_ok_iff.mp h
    exact (loadCall_keepsText hmid).trans (ih h)

theorem expand_keepsText (r : ModuleRun) (keep ids : List BlockId) :
    r.arena.KeepsText (r.expand keep ids).2.arena :=
  (Arena.keepsText_expandCounts _ _ _).trans (Arena.keepsText_expandForEach _ _ _)

theorem loadModules_keepsText (h : r.loadModules s = .ok next) : r.arena.KeepsText next.arena := by
  rw [loadModules] at h
  exact (expand_keepsText r _ _).trans (loadCalls_keepsText h)

theorem expandBlocks_keepsText (r : ModuleRun) : r.arena.KeepsText r.expandBlocks.arena :=
  (expand_keepsText r _ _).trans (.foldl (fun a id => Arena.keepsText_expandDynamicUpTo _ _ a id) _ _)

theorem Continues.keepsText (hrun : KeepsTexts run) (h : Continues s run start r) :
    start.arena.KeepsText r.arena := by
  induction h with
  | start => exact .refl _
  | bind _ ih => exact ih.trans (.ofBlocks (Rebinds.bindBlocks _).blocks)
  | calls _ force hcalls ih => exact ih.trans (evaluateCalls_keepsText hrun hcalls)
  | read _ ih => exact ih.trans (.ofBlocks rfl)
  | load _ hload ih => exact ih.trans (loadModules_keepsText hload)
  | expand _ ih => exact ih.trans (expandBlocks_keepsText _)

/-- The end of an evaluation is a state that its evaluator comes to. -/
theorem Continues.ofEvaluateWith {modules : List ModuleInstance}
    (h : evaluateWith s run start = .ok (modules, next)) : Continues s run start next := by
  obtain ⟨settled, loaded, resettled, expanded, h1, h2, h3, h4, h5, -⟩ := evaluateWith_eq_ok_iff.mp h
  exact ((((Continues.start.settle h1).load h2).settle h3).expand.settle h4).forceCalls h5

/-- However deeply calls are nested, blocks keep their texts. -/
theorem keepsTexts_evaluateUpTo (s : Session) (depth : Nat) : KeepsTexts (evaluateUpTo s depth) := by
  induction depth with
  | zero => exact fun r modules done h => by cases h
  | succ depth ih => exact fun r modules done h => (Continues.ofEvaluateWith h).keepsText ih

end ModuleRun

/-! ## Started calls -/

namespace ModuleCall

/-- Whether a call has been evaluated. -/
def isFinished (call : ModuleCall) : Bool :=
  call.result.isSome

end ModuleCall

namespace ModuleRun

variable {s : Session} {run : Evaluate} {force : Bool} {d : Nat} {start r mid next : ModuleRun}
  {call later : ModuleCall} {a b : Arena}

/-! ## Blocks of calls -/

/-- A call of a module block, by the label of the block. -/
structure Calling (a : Arena) (call : ModuleCall) : Prop where
  lt : call.block < a.blocks.size
  kind : (a.block call.block).kind = .module
  label : (a.block call.block).label = call.name
  named : call.name ≠ ""

theorem labels_ne_nil_of_label {b : Block} (h : b.label ≠ "") : b.labels ≠ [] := by
  intro hnil
  rw [Block.label, hnil] at h
  exact h rfl

theorem Calling.keeps (h : Calling a call) (hab : a.KeepsText b) :
    Calling b call ∧ visit b call = visit a call := by
  have hnamed : ¬ (a.block call.block).Nameless := by
    rintro (hcontent | hnil)
    · rw [h.kind] at hcontent
      exact absurd hcontent (by decide)
    · exact labels_ne_nil_of_label (h.label ▸ h.named) hnil
  have hnames := hab.names_eq h.lt hnamed
  refine ⟨⟨Nat.lt_of_lt_of_le h.lt hab.size, ?_, ?_, h.named⟩, ?_⟩
  · exact (Block.kind_of_names hnames).trans h.kind
  · exact (Block.label_of_names hnames).trans h.label
  · rw [visit, visit, Block.localName_of_names hnames]

theorem Later.calling (h : Later call later) (hcall : Calling a call) : Calling a later := by
  rcases h with rfl | ⟨-, result, rfl⟩
  · exact hcall
  · exact ⟨hcall.lt, hcall.kind, hcall.label, hcall.named⟩

theorem Later.visit_eq (h : Later call later) (a : Arena) : visit a later = visit a call := by
  rcases h with rfl | ⟨-, result, rfl⟩ <;> rfl

theorem visits_eq {calls : List ModuleCall} (hcalls : ∀ call ∈ calls, Calling a call) (hab : a.KeepsText b) :
    calls.map (visit b) = calls.map (visit a) :=
  List.map_congr_left fun call hcall => ((hcalls call hcall).keeps hab).2

/-! ## The record of one step -/

/-- The calls `started` have been remembered in between: those of a list that are finished now and were not
before. -/
structure Records (r next : ModuleRun) (calls done started : List ModuleCall) : Prop where
  visited : next.visited = r.visited ++ started.map (visit next.arena)
  perm : (done.filter ModuleCall.isFinished).Perm (calls.filter ModuleCall.isFinished ++ started)
  calling : ∀ call ∈ started, Calling next.arena call

theorem Records.none (hvisited : next.visited = r.visited) (calls : List ModuleCall) :
    Records r next calls calls [] :=
  ⟨by rw [hvisited, List.map_nil, List.append_nil], by rw [List.append_nil], by simp⟩

theorem Records.append {calls done more others first rest : List ModuleCall}
    (h : Records r mid calls done first) (k : Records mid next more others rest)
    (hkept : mid.arena.KeepsText next.arena) :
    Records r next (calls ++ more) (done ++ others) (first ++ rest) := by
  refine ⟨?_, ?_, fun call hcall => ?_⟩
  · rw [k.visited, h.visited, List.map_append, visits_eq h.calling hkept, List.append_assoc]
  · rw [List.filter_append, List.filter_append]
    refine (h.perm.append k.perm).trans ?_
    rw [List.append_assoc, List.append_assoc]
    refine .append_left _ ?_
    rw [← List.append_assoc, ← List.append_assoc]
    exact .append_right _ List.perm_append_comm
  · rcases List.mem_append.mp hcall with hcall | hcall
    · exact ((h.calling call hcall).keeps hkept).1
    · exact k.calling call hcall

theorem evaluateCall_records (hrun : KeepsTexts run) (hcall : Calling r.arena call)
    (h : r.evaluateCall s run force call = .ok (later, next)) :
    (∃ started, Records r next [call] [later] started) ∧ Later call later ∧ next.calls = r.calls := by
  have hkept := evaluateCall_keepsText hrun h
  obtain ⟨-, rfl, rfl⟩ | ⟨-, -, rfl, reads, rfl⟩ | ⟨modules, child, hnone, -, rfl, rfl⟩ := evaluateCall_cases h
  · exact ⟨⟨[], .none rfl _⟩, .inl rfl, rfl⟩
  · exact ⟨⟨[], .none (Rebinds.noting r reads).visited _⟩, .inl rfl, rfl⟩
  · let finished : ModuleCall := { call with result := some ⟨modules, child.outputs⟩ }
    have hlater : Later call finished := .inr ⟨hnone, _, rfl⟩
    obtain ⟨hcalling, hvisit⟩ := hcall.keeps hkept
    refine ⟨⟨[finished], ?_, ?_, fun c hc => ?_⟩, hlater, rfl⟩
    · rw [List.map_singleton, hlater.visit_eq, hvisit]
    · simp [ModuleCall.isFinished, hnone, finished]
    · exact List.mem_singleton.mp hc ▸ hlater.calling hcalling

theorem evaluateEach_records (hrun : KeepsTexts run) {calls done : List ModuleCall}
    (hcalls : ∀ call ∈ calls, Calling r.arena call)
    (h : r.evaluateEach s run force calls = .ok (done, next)) :
    (∃ started, Records r next calls done started) ∧ List.Forall₂ Later calls done ∧ next.calls = r.calls := by
  induction calls generalizing r done with
  | nil =>
    obtain ⟨rfl, rfl⟩ := Prod.mk.inj (Except.ok.inj h)
    exact ⟨⟨[], .none rfl _⟩, .nil, rfl⟩
  | cons call calls ih =>
    obtain ⟨later, mid, others, hcall, hrest, rfl⟩ := evaluateEach_cons_eq_ok_iff.mp h
    have hkept := evaluateCall_keepsText hrun hcall
    obtain ⟨⟨first, hfirst⟩, hlater, hsame⟩ := evaluateCall_records hrun (hcalls call List.mem_cons_self) hcall
    obtain ⟨⟨rest, hrecords⟩, hothers, hsameRest⟩ :=
      ih (fun c hc => ((hcalls c (List.mem_cons_of_mem call hc)).keeps hkept).1) hrest
    exact ⟨⟨_, hfirst.append hrecords (evaluateEach_keepsText hrun hrest)⟩, .cons hlater hothers,
      hsameRest.trans hsame⟩

theorem evaluateCalls_records (hrun : KeepsTexts run) (hcalls : ∀ call ∈ r.calls, Calling r.arena call)
    (h : r.evaluateCalls s run force = .ok next) :
    (∃ started, Records r next r.calls next.calls started) ∧ List.Forall₂ Later r.calls next.calls := by
  obtain ⟨calls, mid, heach, rfl⟩ := evaluateCalls_eq_ok_iff.mp h
  obtain ⟨⟨started, hrecords⟩, hlater, -⟩ := evaluateEach_records hrun hcalls heach
  have hbinds := Rebinds.bindOutputsOfCalls { mid with calls }
  have hbound : mid.arena.KeepsText { mid with calls }.bindOutputsOfCalls.arena := .ofBlocks hbinds.blocks
  have hvisited : { mid with calls }.bindOutputsOfCalls.visited = mid.visited := hbinds.visited
  have hnone : Records mid { mid with calls }.bindOutputsOfCalls [] [] [] := .none hvisited []
  rw [hbinds.calls]
  have hboth := hrecords.append hnone hbound
  rw [List.append_nil, List.append_nil, List.append_nil] at hboth
  exact ⟨⟨started, hboth⟩, hlater⟩

end ModuleRun

end InfraConfig
