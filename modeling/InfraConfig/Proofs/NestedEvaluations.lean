import InfraConfig.Proofs.EnclosingCalls

/-!
# Nested evaluations

What an evaluation comes to depends on the evaluations of the calls that it starts, and on nothing else of what
other calls would come to. In particular it is too deep only where one of these is.
-/

namespace InfraConfig

/-- Two results are the same, and it is not for its depth that the evaluation has failed. -/
def Agrees {α : Type} (x y : Except LoadProblem α) : Prop :=
  x = y ∧ x ≠ .error .tooDeep

namespace Agrees

variable {α β : Type} {x y : Except LoadProblem α}

theorem ok (v : α) : Agrees (.ok v) (.ok v) := ⟨rfl, by simp⟩

/-- A problem that is passed on. -/
theorem error (h : Agrees x y) {problem : LoadProblem} (hx : x = .error problem) :
    Agrees (.error problem : Except LoadProblem β) (.error problem) :=
  ⟨rfl, fun heq => h.2 (hx.trans (congrArg Except.error (Except.error.inj heq)))⟩

theorem map (h : Agrees x y) (f : α → β) : Agrees (x.map f) (y.map f) := by
  obtain ⟨rfl, -⟩ := id h
  cases hx : x with
  | ok v => exact .ok _
  | error problem => exact h.error hx

theorem bind (h : Agrees x y) {f g : α → Except LoadProblem β} (hf : ∀ v, x = .ok v → Agrees (f v) (g v)) :
    Agrees (x >>= f) (y >>= g) := by
  obtain ⟨rfl, -⟩ := id h
  cases hx : x with
  | ok v => exact hf v hx
  | error problem => exact h.error hx

end Agrees

/-! ## Loading is not too deep -/

theorem loadFile_ne_tooDeep (l : Loader) (path : String) : l.loadFile path ≠ .error .tooDeep := by
  have hread (text : String) : readDocument path text ≠ .error .tooDeep := by
    rw [readDocument]
    split
    · simp
    · split <;> simp
  have hnative (text : String) : readNative path text ≠ .error .tooDeep := by
    rw [readNative]
    split <;> simp
  rw [Loader.loadFile]
  split
  · simp
  · next text _ =>
    split
    · exact (Agrees.map ⟨rfl, hread text⟩ _).2
    · exact (Agrees.map ⟨rfl, hnative text⟩ _).2

theorem loadFiles_ne_tooDeep (l : Loader) (stop : Bool) (paths : List String) :
    l.loadFiles stop paths ≠ .error .tooDeep := by
  induction paths with
  | nil => simp [Loader.loadFiles]
  | cons path rest ih =>
    rw [Loader.loadFiles]
    split
    · exact (Agrees.map ⟨rfl, ih⟩ _).2
    · next problem hproblem =>
      split
      · exact (Agrees.error ⟨rfl, loadFile_ne_tooDeep l path⟩ hproblem).2
      · exact ih

theorem loadDirectory_ne_tooDeep (l : Loader) (dir : String) (stop : Bool) :
    l.loadDirectory dir stop ≠ .error .tooDeep := by
  rw [Loader.loadDirectory]
  split
  · simp
  · exact loadFiles_ne_tooDeep _ _ _

namespace ModuleRun

variable {s : Session} {run other : Evaluate} {force : Bool} {start r mid next : ModuleRun} {call later : ModuleCall}

theorem loadCall_ne_tooDeep (s : Session) (r : ModuleRun) (id : BlockId) : r.loadCall s id ≠ .error .tooDeep := by
  rw [loadCall]
  dsimp only
  split
  · simp
  · split
    · next problem hproblem =>
      split
      · exact (Agrees.error ⟨rfl, loadDirectory_ne_tooDeep _ _ _⟩ hproblem).2
      · simp
    · simp

theorem loadModules_ne_tooDeep (s : Session) (r : ModuleRun) : r.loadModules s ≠ .error .tooDeep := by
  rw [loadModules_eq]
  generalize r.expandCalls.2 = q
  induction r.expandCalls.1 generalizing q with
  | nil => simp [loadCalls]
  | cons id ids ih =>
    rw [loadCalls]
    split
    · exact ih _
    · next problem hproblem => exact (Agrees.error ⟨rfl, loadCall_ne_tooDeep s q id⟩ hproblem).2

/-! ## Evaluations of calls -/

/-- The evaluators that are started by the calls of one. -/
inductive Child (s : Session) (run : Evaluate) (start : ModuleRun) : ModuleRun → Prop where
  | intro {r mid : ModuleRun} {call : ModuleCall} {force : Bool} (hr : Continues s run start r)
      (hstarts : Starts s run force r mid call) : Child s run start (mid.started s call)

theorem evaluateEach_concat {before done : List ModuleCall}
    (h : r.evaluateEach s run force before = .ok (done, mid))
    (hcall : mid.evaluateCall s run force call = .ok (later, next)) :
    r.evaluateEach s run force (before ++ [call]) = .ok (done ++ [later], next) := by
  induction before generalizing r done with
  | nil =>
    obtain ⟨rfl, rfl⟩ := Prod.mk.inj (Except.ok.inj h)
    rw [List.nil_append, evaluateEach, hcall]
    rfl
  | cons first before ih =>
    obtain ⟨one, passed, others, hone, hrest, rfl⟩ := evaluateEach_cons_eq_ok_iff.mp h
    rw [List.cons_append]
    exact evaluateEach_cons_eq_ok_iff.mpr ⟨one, passed, _, hone, ih hrest, rfl⟩

/-- A call that is due is evaluated from the beginning of its own evaluator. -/
theorem evaluateCall_of_due (hopen : call.result = none) (hdue : force = true ∨
      (Value.object (moduleInputs r.arena (r.arena.block call.block))).isWhollyKnown = true) :
    r.evaluateCall s run force call = (run (r.started s call)).map fun (modules, done) =>
      ({ call with result := some ⟨modules, done.outputs⟩ },
        { r with arena := done.arena, visited := r.visited ++ [visit r.arena call] }) := by
  rw [evaluateCall, hopen, if_neg (by simp)]
  dsimp only
  rw [if_pos (by simpa using hdue)]
  split
  · next problem hproblem =>
    have hstarted : run (r.started s call) = .error problem := hproblem
    rw [hstarted]
    rfl
  · next modules done hdone =>
    have hstarted : run (r.started s call) = .ok (modules, done) := hdone
    rw [hstarted]
    rfl

theorem evaluateCall_of_not_due (hdue : ¬ (force = true ∨
      (Value.object (moduleInputs r.arena (r.arena.block call.block))).isWhollyKnown = true)) :
    ∃ next, ∀ run, r.evaluateCall s run force call = .ok (call, next) := by
  cases hresult : call.result with
  | some result => exact ⟨r, fun run => by rw [evaluateCall, hresult, if_pos Option.isSome_some]⟩
  | none =>
    let b := r.arena.block call.block
    refine ⟨r.noting [(b, inputAttributes b)], fun run => ?_⟩
    rw [evaluateCall, hresult, if_neg (by simp)]
    dsimp only
    rw [if_neg (by simpa using hdue)]

theorem evaluateCall_agrees (h : call.result = none → (force = true ∨
      (Value.object (moduleInputs r.arena (r.arena.block call.block))).isWhollyKnown = true) →
      Agrees (run (r.started s call)) (other (r.started s call))) :
    Agrees (r.evaluateCall s run force call) (r.evaluateCall s other force call) := by
  by_cases hdue : force = true ∨
      (Value.object (moduleInputs r.arena (r.arena.block call.block))).isWhollyKnown = true
  · cases hresult : call.result with
    | some result =>
      rw [evaluateCall, evaluateCall, hresult, if_pos Option.isSome_some, if_pos Option.isSome_some]
      exact .ok _
    | none =>
      rw [evaluateCall_of_due hresult hdue, evaluateCall_of_due hresult hdue]
      exact (h hresult hdue).map _
  · obtain ⟨next, hnext⟩ := evaluateCall_of_not_due (s := s) hdue
    rw [hnext, hnext]
    exact .ok _

/-- The rest of a step over all calls. -/
theorem evaluateEach_agrees (h : ∀ child, Child s run start child → Agrees (run child) (other child))
    (hr : Continues s run start r) {before calls done : List ModuleCall} (hcalls : r.calls = before ++ calls)
    (hbefore : r.evaluateEach s run force before = .ok (done, mid)) :
    Agrees (mid.evaluateEach s run force calls) (mid.evaluateEach s other force calls) := by
  induction calls generalizing before done mid with
  | nil => exact .ok _
  | cons call calls ih =>
    have hcall : Agrees (mid.evaluateCall s run force call) (mid.evaluateCall s other force call) :=
      evaluateCall_agrees fun hopen hdue => h _ (.intro hr ⟨⟨before, calls, done, hcalls, hbefore⟩, hopen, hdue⟩)
    rw [evaluateEach, evaluateEach, ← hcall.1]
    split
    · next problem hproblem => exact hcall.error hproblem
    · next later passed hpassed =>
      have hnext : r.calls = (before ++ [call]) ++ calls := by rw [hcalls, List.append_assoc, List.singleton_append]
      exact (ih hnext (evaluateEach_concat hbefore hpassed)).map _

section

variable (h : ∀ child, Child s run start child → Agrees (run child) (other child))

include h

theorem evaluateCalls_agrees (hr : Continues s run start r) :
    Agrees (r.evaluateCalls s run force) (r.evaluateCalls s other force) :=
  (evaluateEach_agrees h hr (List.nil_append _).symm rfl).map _

theorem converge_agrees (hr : Continues s run start r) (n : Nat) (previous : Option (Entries Value)) :
    Agrees (converge s run n previous r) (converge s other n previous r) := by
  induction n generalizing previous r with
  | zero => exact .ok r
  | succ n ih =>
    have hpass : Agrees (r.pass s run) (r.pass s other) := evaluateCalls_agrees h hr.bind
    rw [converge, converge, ← hpass.1]
    split
    · next problem hproblem => exact hpass.error hproblem
    · next passed hpassed =>
      dsimp only
      split
      · exact .ok _
      · exact ih (hr.pass hpassed).read _

theorem settle_agrees (hr : Continues s run start r) : Agrees (r.settle s run) (r.settle s other) :=
  converge_agrees h hr _ _

theorem forceCalls_agrees (hr : Continues s run start r) : Agrees (r.forceCalls s run) (r.forceCalls s other) := by
  rw [forceCalls, forceCalls]
  split
  · exact (evaluateCalls_agrees h hr).bind fun forced hforced => settle_agrees h (hr.calls true hforced)
  · exact .ok r

/-- What an evaluation comes to depends on what the calls that it starts come to. -/
theorem evaluateWith_agrees : Agrees (evaluateWith s run start) (evaluateWith s other start) := by
  refine (settle_agrees h .start).bind fun settled hsettled => ?_
  have hload : Agrees (settled.loadModules s) (settled.loadModules s) := ⟨rfl, loadModules_ne_tooDeep s settled⟩
  have hfirst := Continues.start.settle hsettled
  refine hload.bind fun loaded hloaded => ?_
  have hsecond := hfirst.load hloaded
  refine (settle_agrees h hsecond).bind fun resettled hresettled => ?_
  have hthird := (hsecond.settle hresettled).expand
  refine (settle_agrees h hthird).bind fun expanded hexpanded => ?_
  exact (forceCalls_agrees h (hthird.settle hexpanded)).bind fun done _ => .ok _

end

end ModuleRun

end InfraConfig
