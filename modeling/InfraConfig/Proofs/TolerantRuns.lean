import InfraConfig.Proofs.FileReads
import InfraConfig.Proofs.Persistence

/-!
# Tolerant runs

A run that does not stop at a problem comes to the same as one that would, if there is no problem. It fails for no
other reason than its depth: every failure is that of an evaluator inside, down to one that is nested as deeply as
evaluators may be.
-/

namespace InfraConfig

/-! ## Directories -/

namespace Loader

variable {l : Loader} {stop : Bool} {paths : List String} {dir : String}

theorem loadFiles_tolerant (l : Loader) (paths : List String) :
    l.loadFiles false paths = .ok (paths.filterMap fun path => (l.loadFile path).toOption) := by
  induction paths with
  | nil => rfl
  | cons path rest ih =>
    rw [loadFiles, List.filterMap_cons, ih]
    cases l.loadFile path <;> rfl

theorem loadFiles_persists (l : Loader) (stop : Bool) (paths : List String) :
    Persists (l.loadFiles stop paths) (l.loadFiles false paths) := by
  induction paths with
  | nil => exact .refl _
  | cons path rest ih =>
    rw [loadFiles, loadFiles]
    split
    · exact ih.map _
    · split
      · exact .error _ _
      · exact ih

theorem loadDirectory_persists (l : Loader) (dir : String) (stop : Bool) :
    Persists (l.loadDirectory dir stop) (l.loadDirectory dir false) := by
  rw [loadDirectory, loadDirectory]
  split
  · exact .refl _
  · exact loadFiles_persists l stop _

/-- The directory cannot be listed, where it cannot be loaded. -/
theorem list_of_loadDirectory {problem : LoadProblem} (h : l.loadDirectory dir false = .error problem) :
    ∃ reason, l.list dir = .error reason := by
  rw [loadDirectory] at h
  split at h
  · next reason hlist => exact ⟨reason, hlist⟩
  · rw [loadFiles_tolerant] at h
    cases h

end Loader

namespace ModuleRun

variable {s : Session} {run other : Evaluate} {force : Bool} {d n : Nat} {start r mid : ModuleRun}
  {call : ModuleCall} {frames : List Frame} {inputs : Entries Value} {sources : List SourceFile}
  {problem : LoadProblem} {previous : Option (Entries Value)}

/-- The same session, in which problems do not stop anything. -/
abbrev tolerant (s : Session) : Session :=
  { s with stopOnError := false }

/-! ## The same result -/

section

variable (h : ∀ r, Persists (run r) (other r))

include h

theorem evaluateCall_persists (r : ModuleRun) (call : ModuleCall) :
    Persists (r.evaluateCall s run force call) (r.evaluateCall (tolerant s) other force call) := by
  cases hdue : isDue force r call with
  | true =>
    rw [evaluateCall_of_isDue hdue, evaluateCall_of_isDue hdue]
    exact (h (r.started s call)).map _
  | false =>
    obtain ⟨next, -, hnext⟩ := evaluateCall_of_waits hdue
    rw [hnext, hnext]
    exact .refl _

theorem evaluateEach_persists (r : ModuleRun) (calls : List ModuleCall) :
    Persists (r.evaluateEach s run force calls) (r.evaluateEach (tolerant s) other force calls) := by
  induction calls generalizing r with
  | nil => exact .refl _
  | cons call calls ih =>
    rw [evaluateEach_cons, evaluateEach_cons]
    exact (evaluateCall_persists h r call).bind fun v => (ih v.2).map _

theorem evaluateCalls_persists (r : ModuleRun) :
    Persists (r.evaluateCalls s run force) (r.evaluateCalls (tolerant s) other force) :=
  (evaluateEach_persists h r r.calls).map _

theorem converge_persists (n : Nat) (previous : Option (Entries Value)) (r : ModuleRun) :
    Persists (converge s run n previous r) (converge (tolerant s) other n previous r) := by
  induction n generalizing previous r with
  | zero => exact .refl _
  | succ n ih =>
    rw [converge_succ, converge_succ]
    refine Persists.bind (evaluateCalls_persists h r.bindBlocks) fun passed => ?_
    have hread : passed.readWanted (tolerant s) = passed.readWanted s := rfl
    rw [hread]
    dsimp only
    split
    · exact .refl _
    · exact ih _ _

theorem settle_persists (r : ModuleRun) : Persists (r.settle s run) (r.settle (tolerant s) other) :=
  converge_persists h _ _ r

omit h in
theorem loadCall_persists (r : ModuleRun) (id : BlockId) :
    Persists (r.loadCall s id) (r.loadCall (tolerant s) id) := by
  intro next hnext
  rw [loadCall] at hnext ⊢
  dsimp only at hnext ⊢
  have htarget : r.callTarget? (tolerant s) (r.arena.block id) = r.callTarget? s (r.arena.block id) := rfl
  rw [htarget]
  split at hnext
  · exact hnext
  · next target heq =>
    split at hnext
    -- Only a run that goes on has a result to be kept, and it has passed over the problem in the same way.
    · next problem hproblem =>
      split at hnext
      · cases hnext
      · next hstop =>
        rw [Bool.eq_false_iff.mpr hstop] at hproblem
        rw [hproblem]
        exact hnext
    · next files hfiles =>
      rw [s.loader.loadDirectory_persists target.path s.stopOnError files hfiles]
      exact hnext

omit h in
theorem loadModules_persists (r : ModuleRun) : Persists (r.loadModules s) (r.loadModules (tolerant s)) := by
  rw [loadModules_eq, loadModules_eq]
  generalize r.expandCalls.2 = q
  induction r.expandCalls.1 generalizing q with
  | nil => exact .refl _
  | cons id ids ih =>
    intro next hnext
    obtain ⟨mid, hmid, hrest⟩ := loadCalls_cons_eq_ok_iff.mp hnext
    exact loadCalls_cons_eq_ok_iff.mpr ⟨mid, loadCall_persists q id mid hmid, ih mid next hrest⟩

theorem forceCalls_persists (r : ModuleRun) : Persists (r.forceCalls s run) (r.forceCalls (tolerant s) other) := by
  rw [forceCalls, forceCalls]
  split
  · exact (evaluateCalls_persists h r).bind fun mid => settle_persists h mid
  · exact .refl _

theorem evaluateWith_persists (r : ModuleRun) :
    Persists (evaluateWith s run r) (evaluateWith (tolerant s) other r) := by
  refine (settle_persists h r).bind fun settled => ?_
  refine (loadModules_persists settled).bind fun loaded => ?_
  refine (settle_persists h loaded).bind fun resettled => ?_
  refine (settle_persists h _).bind fun expanded => ?_
  exact (forceCalls_persists h expanded).bind fun done => .refl _

end

/-- A run that stops at problems, and comes to a result, comes to the same when it does not stop. -/
theorem evaluateUpTo_persists (s : Session) (depth : Nat) (r : ModuleRun) :
    Persists (evaluateUpTo s depth r) (evaluateUpTo (tolerant s) depth r) := by
  induction depth generalizing r with
  | zero => exact .error _ _
  | succ depth ih => exact evaluateWith_persists ih r

/-! ## Failures -/

/-- A computation that fails only where one of the evaluators does that are started by the calls of one. -/
def FailsBelow {α : Type} (s : Session) (run : Evaluate) (start : ModuleRun) (x : Except LoadProblem α) : Prop :=
  ∀ problem, x = .error problem → ∃ child, Child s run start child ∧ run child = .error problem

namespace FailsBelow

variable {α β : Type} {x : Except LoadProblem α}

theorem ok (v : α) : FailsBelow s run start (.ok v) := fun problem h => by cases h

theorem map (h : FailsBelow s run start x) (f : α → β) : FailsBelow s run start (x.map f) := by
  cases x with
  | error problem => exact fun reason hreason => h reason (congrArg Except.error (Except.error.inj hreason))
  | ok v => exact .ok (f v)

theorem bind (h : FailsBelow s run start x) {f : α → Except LoadProblem β}
    (hf : ∀ v, x = .ok v → FailsBelow s run start (f v)) : FailsBelow s run start (x >>= f) := by
  cases x with
  | error problem => exact fun reason hreason => h reason (congrArg Except.error (Except.error.inj hreason))
  | ok v => exact hf v rfl

end FailsBelow

theorem evaluateCall_failsBelow (hr : Continues s run start r) {before after done : List ModuleCall}
    (hcalls : r.calls = before ++ call :: after) (hbefore : r.evaluateEach s run force before = .ok (done, mid)) :
    FailsBelow s run start (mid.evaluateCall s run force call) := by
  cases hdue : isDue force mid call with
  | true =>
    have hstarts := Starts.of_isDue hcalls hbefore hdue
    have hchild : FailsBelow s run start (run (mid.started s call)) :=
      fun problem hproblem => ⟨_, .intro hr hstarts, hproblem⟩
    rw [evaluateCall_of_isDue hdue]
    exact hchild.map _
  | false =>
    obtain ⟨next, -, hnext⟩ := evaluateCall_of_waits hdue
    rw [hnext]
    exact .ok _

theorem evaluateEach_failsBelow (hr : Continues s run start r) {before calls done : List ModuleCall}
    (hcalls : r.calls = before ++ calls) (hbefore : r.evaluateEach s run force before = .ok (done, mid)) :
    FailsBelow s run start (mid.evaluateEach s run force calls) := by
  induction calls generalizing before done mid with
  | nil => exact .ok _
  | cons call calls ih =>
    rw [evaluateEach_cons]
    refine (evaluateCall_failsBelow hr hcalls hbefore).bind fun v hv => ?_
    have hnext := hcalls.trans (List.append_cons before call calls)
    exact (ih hnext (evaluateEach_concat hbefore hv)).map _

theorem evaluateCalls_failsBelow (hr : Continues s run start r) :
    FailsBelow s run start (r.evaluateCalls s run force) :=
  (evaluateEach_failsBelow hr (List.nil_append _).symm rfl).map _

theorem converge_failsBelow (hr : Continues s run start r) (n : Nat) (previous : Option (Entries Value)) :
    FailsBelow s run start (converge s run n previous r) := by
  induction n generalizing previous r with
  | zero => exact .ok _
  | succ n ih =>
    rw [converge_succ]
    refine (evaluateCalls_failsBelow hr.bind).bind fun passed hpassed => ?_
    dsimp only
    split
    · exact .ok _
    · exact ih (hr.pass hpassed).read _

theorem settle_failsBelow (hr : Continues s run start r) : FailsBelow s run start (r.settle s run) :=
  converge_failsBelow hr _ _

/-- Directories that cannot be loaded are left out. -/
theorem loadModules_tolerant (hstop : s.stopOnError = false) (r : ModuleRun) : ∃ loaded, r.loadModules s = .ok loaded := by
  have hone (q : ModuleRun) (id : BlockId) : ∃ next, q.loadCall s id = .ok next := by
    rw [loadCall]
    dsimp only
    split
    · exact ⟨_, rfl⟩
    · split
      · rw [hstop]
        exact ⟨_, rfl⟩
      · exact ⟨_, rfl⟩
  rw [loadModules_eq]
  generalize r.expandCalls.2 = q
  induction r.expandCalls.1 generalizing q with
  | nil => exact ⟨q, rfl⟩
  | cons id ids ih =>
    obtain ⟨mid, hmid⟩ := hone q id
    obtain ⟨next, hnext⟩ := ih mid
    exact ⟨next, loadCalls_cons_eq_ok_iff.mpr ⟨mid, hmid, hnext⟩⟩

theorem forceCalls_failsBelow (hr : Continues s run start r) : FailsBelow s run start (r.forceCalls s run) := by
  rw [forceCalls]
  split
  · exact (evaluateCalls_failsBelow hr).bind fun mid hmid => settle_failsBelow (hr.calls true hmid)
  · exact .ok _

theorem evaluateWith_failsBelow (hstop : s.stopOnError = false) (run : Evaluate) (start : ModuleRun) :
    FailsBelow s run start (evaluateWith s run start) := by
  refine (settle_failsBelow .start).bind fun settled hsettled => ?_
  have hfirst := Continues.start.settle hsettled
  obtain ⟨loaded, hloaded⟩ := loadModules_tolerant hstop settled
  rw [hloaded]
  have hsecond := hfirst.load hloaded
  refine (settle_failsBelow hsecond).bind fun resettled hresettled => ?_
  have hthird := (hsecond.settle hresettled).expand
  refine (settle_failsBelow hthird).bind fun expanded hexpanded => ?_
  exact (forceCalls_failsBelow (hthird.settle hexpanded)).bind fun done _ => .ok _

/-- Whatever the limit to nesting is, a run that does not stop at problems fails only at that limit. -/
theorem evaluateUpTo_error (hstop : s.stopOnError = false) {depth : Nat} (h : evaluateUpTo s depth r = .error problem) :
    problem = .tooDeep := by
  induction depth generalizing r with
  | zero => exact (Except.error.inj h).symm
  | succ depth ih =>
    obtain ⟨child, -, hchild⟩ := evaluateWith_failsBelow hstop _ _ problem h
    exact ih hchild

/-- The evaluators that a project nests as deeply as they may be. -/
def NestsTooDeep (s : Session) (inputs : Entries Value) (sources : List SourceFile) : Prop :=
  ∃ start frames, Nested s inputs sources 0 start frames ∧ frames.length + 1 = Project.depthLimit

theorem Nested.length_frames (h : Nested s inputs sources d start frames) : d + frames.length + 1 = Project.depthLimit := by
  induction h with
  | root => rfl
  | child _ _ _ _ _ _ _ ih =>
    rw [List.length_cons]
    omega

/-- A run that does not stop at problems fails only where evaluators are nested too deeply. -/
theorem Nested.tooDeep_of_error (hstop : s.stopOnError = false) (h : Nested s inputs sources d start frames)
    (hfails : evaluateUpTo s (d + 1) start = .error problem) : NestsTooDeep s inputs sources := by
  induction d generalizing start frames with
  | zero =>
    have hlength := h.length_frames
    exact ⟨start, frames, h, by omega⟩
  | succ d ih =>
    obtain ⟨child, ⟨hr, hstarts⟩, hproblem⟩ := evaluateWith_failsBelow hstop _ _ problem hfails
    obtain ⟨before, after, done, hcalls, hbefore⟩ := hstarts.reached
    exact ih (h.child hr _ hcalls hbefore hstarts.isOpen hstarts.due) hproblem

end ModuleRun

end InfraConfig
