import InfraConfig.ModuleRun.Evaluate

/-!
# Steps of a run

An evaluation that succeeds is a sequence of steps that each succeed. What each step can come to is said here
once; what a step preserves is derived from that.
-/

namespace InfraConfig

theorem bind_eq_ok_iff {ε α β : Type} {x : Except ε α} {f : α → Except ε β} {b : β} :
    x >>= f = .ok b ↔ ∃ a, x = .ok a ∧ f a = .ok b := by
  cases x with
  | error e =>
    constructor
    · intro h
      cases h
    · rintro ⟨a, h, -⟩
      cases h
  | ok a =>
    constructor
    · intro h
      exact ⟨a, rfl, h⟩
    · rintro ⟨a', h, hf⟩
      obtain rfl := Except.ok.inj h
      exact hf

theorem map_eq_ok_iff {ε α β : Type} {x : Except ε α} {f : α → β} {b : β} :
    x.map f = .ok b ↔ ∃ a, x = .ok a ∧ f a = b := by
  cases x with
  | error e => exact ⟨nofun, nofun⟩
  | ok a => exact ⟨fun h => ⟨a, rfl, Except.ok.inj h⟩, fun ⟨_, h, hf⟩ => Except.ok.inj h ▸ congrArg _ hf⟩

namespace ModuleRun

variable {s : Session} {run : Evaluate} {force : Bool} {r next : ModuleRun}

/-! ## Loops -/

/-- What each pass preserves, with the files read after it, holds where a loop of passes ends. -/
theorem converge_invariant {P : ModuleRun → Prop}
    (hstep : ∀ q passed, P q → q.pass s run = .ok passed → P (passed.readWanted s).2) {n : Nat}
    {previous : Option (Entries Value)} (hr : P r) (h : converge s run n previous r = .ok next) : P next := by
  induction n generalizing r previous with
  | zero => exact Except.ok.inj h ▸ hr
  | succ n ih =>
    rw [converge] at h
    split at h
    · cases h
    · next passed hpass =>
      have hread := hstep r passed hr hpass
      dsimp only at h
      split at h
      · exact Except.ok.inj h ▸ hread
      · exact ih hread h

/-- A loop makes no pass, or ends with one. -/
theorem converge_last {P : ModuleRun → Prop}
    (hstep : ∀ q passed, P q → q.pass s run = .ok passed → P (passed.readWanted s).2) {n : Nat}
    {previous : Option (Entries Value)} (hr : P r) (h : converge s run n previous r = .ok next) :
    n = 0 ∧ next = r ∨ ∃ q passed, P q ∧ q.pass s run = .ok passed ∧ next = (passed.readWanted s).2 := by
  cases n with
  | zero => exact .inl ⟨rfl, (Except.ok.inj h).symm⟩
  | succ n =>
    rw [converge] at h
    split at h
    · cases h
    · next passed hpass =>
      let Q (next : ModuleRun) : Prop := P next ∧ ∃ q passed, P q ∧ q.pass s run = .ok passed
        ∧ next = (passed.readWanted s).2
      have hfirst : Q (passed.readWanted s).2 := ⟨hstep r passed hr hpass, r, passed, hr, hpass, rfl⟩
      dsimp only at h
      split at h
      · exact .inr (Except.ok.inj h ▸ hfirst.2)
      · have hlast : Q next := converge_invariant
          (fun q passed hq hpass => ⟨hstep q passed hq.1 hpass, q, passed, hq.1, hpass, rfl⟩) hfirst h
        exact .inr hlast.2

/-! ## Evaluating calls -/

/-- The run that a call starts with the inputs that it has in a state. -/
def started (s : Session) (mid : ModuleRun) (call : ModuleCall) : ModuleRun :=
  let b := mid.arena.block call.block
  let visit : VisitedModule := ⟨call.name, call.path, b.localName⟩
  let noted := mid.noting [(b, inputAttributes b)]
  { noted with visited := noted.visited ++ [visit] }.startCall s call (moduleInputs mid.arena b)

/-- How a call is remembered by those that are evaluated after it. -/
def visit (a : Arena) (call : ModuleCall) : VisitedModule :=
  ⟨call.name, call.path, (a.block call.block).localName⟩

/-- What becomes of a call: it is finished already, its inputs are not known yet, or it is evaluated. -/
theorem evaluateCall_cases {call later : ModuleCall} (h : r.evaluateCall s run force call = .ok (later, next)) :
    (call.result.isSome = true ∧ later = call ∧ next = r)
      ∨ (call.result = none ∧ force = false ∧ later = call ∧ ∃ reads, next = r.noting reads)
      ∨ ∃ modules child, call.result = none ∧ run (r.started s call) = .ok (modules, child)
        ∧ later = { call with result := some ⟨modules, child.outputs⟩ }
        ∧ next = { r with arena := child.arena, visited := r.visited ++ [visit r.arena call] } := by
  cases hresult : call.result with
  | some result =>
    rw [evaluateCall, hresult, if_pos Option.isSome_some] at h
    obtain ⟨rfl, rfl⟩ := Prod.mk.inj (Except.ok.inj h)
    exact .inl ⟨rfl, rfl, rfl⟩
  | none =>
    rw [evaluateCall, hresult, if_neg (by simp)] at h
    dsimp only at h
    split at h
    · split at h
      · cases h
      · next modules child hchild =>
        obtain ⟨rfl, rfl⟩ := Prod.mk.inj (Except.ok.inj h)
        exact .inr (.inr ⟨modules, child, rfl, hchild, rfl, rfl⟩)
    · next hnot =>
      obtain ⟨rfl, rfl⟩ := Prod.mk.inj (Except.ok.inj h)
      have hunforced : force = false := by
        rw [Bool.or_eq_true, not_or] at hnot
        exact Bool.eq_false_iff.mpr hnot.1
      exact .inr (.inl ⟨rfl, hunforced, rfl, _, rfl⟩)

/-- Calls are evaluated one after another. -/
theorem evaluateEach_cons_eq_ok_iff {call : ModuleCall} {rest done : List ModuleCall} :
    r.evaluateEach s run force (call :: rest) = .ok (done, next) ↔
      ∃ later mid others, r.evaluateCall s run force call = .ok (later, mid)
        ∧ mid.evaluateEach s run force rest = .ok (others, next) ∧ done = later :: others := by
  rw [evaluateEach]
  constructor
  · intro h
    split at h
    · cases h
    · next later mid hcall =>
      cases hrest : mid.evaluateEach s run force rest with
      | error problem => rw [hrest] at h; cases h
      | ok result =>
        rw [hrest] at h
        obtain ⟨rfl, rfl⟩ := Prod.mk.inj (Except.ok.inj h)
        exact ⟨later, mid, result.1, hcall, hrest, rfl⟩
  · rintro ⟨later, mid, others, hcall, hrest, rfl⟩
    rw [hcall]
    dsimp only
    rw [hrest]
    rfl

theorem evaluateCalls_eq_ok_iff : r.evaluateCalls s run force = .ok next ↔
    ∃ calls mid, r.evaluateEach s run force r.calls = .ok (calls, mid)
      ∧ next = { mid with calls }.bindOutputsOfCalls := by
  rw [evaluateCalls]
  constructor
  · intro h
    cases heach : r.evaluateEach s run force r.calls with
    | error problem => rw [heach] at h; cases h
    | ok result =>
      rw [heach] at h
      exact ⟨result.1, result.2, rfl, (Except.ok.inj h).symm⟩
  · rintro ⟨calls, mid, heach, rfl⟩
    rw [heach]
    rfl

/-! ## Loading modules -/

/-- A run with one more call, whose blocks are those of some files. -/
def opens (r : ModuleRun) (id : BlockId) (target : VisitedModule) (files : List SourceFile) : ModuleRun :=
  let loaded := r.arena.newRoot.2.insertFiles r.arena.newRoot.1 (some id) files
  { r with
    arena := loaded.2
    calls := r.calls ++ [⟨id, target.name, target.path, loaded.1, r.arena.newRoot.1, none⟩] }

/-- The directory that a block calls, with the files in it. -/
def opening? (s : Session) (r : ModuleRun) (id : BlockId) : Option (VisitedModule × List SourceFile) :=
  (r.callTarget? s (r.arena.block id)).bind fun target =>
    (s.loader.loadDirectory target.path s.stopOnError).toOption.map fun files => (target, files)

/-- What becomes of a block when its call is loaded: it is left out, or the call is opened. -/
theorem loadCall_cases {id : BlockId} (h : r.loadCall s id = .ok next) :
    ∃ reads, r.opening? s id = none ∧ next = r.noting reads
      ∨ ∃ target files, r.opening? s id = some (target, files) ∧ next = (r.noting reads).opens id target files := by
  let b := r.arena.block id
  rw [loadCall] at h
  dsimp only at h
  obtain ⟨reads, hnoted⟩ : ∃ reads, (if b.label.isEmpty = true then r else r.noting
      [(b, (b.attribute? "source").toList)]) = r.noting reads := by
    split
    · exact ⟨[], rfl⟩
    · exact ⟨_, rfl⟩
  rw [hnoted] at h
  refine ⟨reads, ?_⟩
  rw [opening?]
  split at h
  · next htarget => exact .inl ⟨by rw [htarget]; rfl, (Except.ok.inj h).symm⟩
  · next target htarget =>
    split at h
    · next problem hfiles =>
      split at h
      · cases h
      · exact .inl ⟨by rw [htarget, Option.bind_some, hfiles]; rfl, (Except.ok.inj h).symm⟩
    · next files hfiles =>
      exact .inr ⟨target, files, by rw [htarget, Option.bind_some, hfiles]; rfl, (Except.ok.inj h).symm⟩

theorem loadCalls_cons_eq_ok_iff {id : BlockId} {ids : List BlockId} : r.loadCalls s (id :: ids) = .ok next ↔
    ∃ mid, r.loadCall s id = .ok mid ∧ mid.loadCalls s ids = .ok next := by
  rw [loadCalls]
  cases r.loadCall s id with
  | error problem => simp
  | ok mid => simp

/-- The blocks of a run that call modules. -/
def callBlocks (r : ModuleRun) : List BlockId :=
  r.module.blocks.filter fun id => (r.arena.block id).kind == .module

/-- The module blocks of a run replaced by their instances, and what stands for them. -/
def expandCalls (r : ModuleRun) : List BlockId × ModuleRun :=
  let (calls, others) := r.module.blocks.partition fun id => (r.arena.block id).kind == .module
  r.expand others calls

theorem loadModules_eq (s : Session) (r : ModuleRun) :
    r.loadModules s = r.expandCalls.2.loadCalls s r.expandCalls.1 := rfl

/-! ## Whole evaluations -/

/-- The steps of the evaluation of a module. -/
theorem evaluateWith_eq_ok_iff {modules : List ModuleInstance} {done : ModuleRun} :
    evaluateWith s run r = .ok (modules, done) ↔
      ∃ settled loaded resettled expanded, r.settle s run = .ok settled ∧ settled.loadModules s = .ok loaded
        ∧ loaded.settle s run = .ok resettled ∧ resettled.expandBlocks.settle s run = .ok expanded
        ∧ expanded.forceCalls s run = .ok done ∧ modules = done.modules := by
  simp only [evaluateWith, bind_eq_ok_iff, Except.ok.injEq, Prod.mk.injEq]
  constructor
  · rintro ⟨a, ha, b, hb, c, hc, d, hd, e, he, rfl, rfl⟩
    exact ⟨a, b, c, d, ha, hb, hc, hd, he, rfl⟩
  · rintro ⟨a, b, c, d, ha, hb, hc, hd, he, rfl⟩
    exact ⟨a, ha, b, hb, c, hc, d, hd, done, he, rfl, rfl⟩

end ModuleRun

end InfraConfig
