import InfraConfig.Proofs.FileReads

/-!
# Evaluations with other loaders

An evaluation depends on the files that it loads as configuration, and on those that it reads for file functions. Any
other file may be another one, or missing.
-/

namespace InfraConfig

/-- Two loaders that read the same from some paths, or both nothing. -/
def Loader.AgreeOn (l other : Loader) (paths : List String) : Prop :=
  ∀ p ∈ paths, (other.load p).toOption = (l.load p).toOption

theorem Loader.AgreeOn.left {l other : Loader} {xs ys : List String} (h : l.AgreeOn other (xs ++ ys)) :
    l.AgreeOn other xs :=
  fun p hp => h p (List.mem_append_left ys hp)

theorem Loader.AgreeOn.right {l other : Loader} {xs ys : List String} (h : l.AgreeOn other (xs ++ ys)) :
    l.AgreeOn other ys :=
  fun p hp => h p (List.mem_append_right xs hp)

theorem bind_congr_of_ok {α β : Type} {x y : Except LoadProblem α} {f g : α → Except LoadProblem β} (h : x = y)
    (hf : ∀ v, y = .ok v → f v = g v) : x >>= f = y >>= g := by
  subst h
  cases x with
  | error problem => rfl
  | ok v => exact hf v rfl

theorem readsAfter_ok {α : Type} {x : Except LoadProblem α} {v : α} (h : x = .ok v) (reads : α → List String) :
    readsAfter x reads = reads v := by
  rw [h]
  rfl

namespace ModuleRun

variable {s : Session} {l : Loader} {run other : Evaluate} {reads : ModuleRun → List String} {force : Bool}
  {r next : ModuleRun} {call : ModuleCall} {id : BlockId}

/-- The same session with another loader. -/
abbrev withLoader (s : Session) (l : Loader) : Session :=
  { s with loader := l }

theorem readFiles_congr {a : Arena} {paths : List String} (h : s.loader.AgreeOn l paths) :
    a.readFiles l paths = a.readFiles s.loader paths := by
  have hread (t : FileTable) (p : String) (hp : p ∈ paths) :
      t.insert p (l.load p).toOption = t.insert p (s.loader.load p).toOption := by
    rw [h p hp]
  rw [Arena.readFiles, Arena.readFiles, List.foldl_ext _ _ _ fun t p hp => hread t p hp]

theorem readWanted_congr (h : s.loader.AgreeOn l r.requests) : r.readWanted (withLoader s l) = r.readWanted s := by
  have hall : r.askAll.readAll l = r.askAll.readAll s.loader := readFiles_congr h
  exact congrArg (fun a : Arena => (!r.requests.isEmpty, { r with arena := a })) hall

section

variable (hdirs : ∀ dir, l.loadDirectory dir s.stopOnError = s.loader.loadDirectory dir s.stopOnError)

include hdirs

theorem loadCall_congr (r : ModuleRun) (id : BlockId) : r.loadCall (withLoader s l) id = r.loadCall s id := by
  rw [loadCall, loadCall]
  simp only [hdirs]
  rfl

theorem loadModules_congr (r : ModuleRun) : r.loadModules (withLoader s l) = r.loadModules s := by
  rw [loadModules_eq, loadModules_eq]
  generalize r.expandCalls.2 = q
  induction r.expandCalls.1 generalizing q with
  | nil => rfl
  | cons id ids ih =>
    rw [loadCalls, loadCalls, loadCall_congr hdirs]
    cases q.loadCall s id with
    | ok q => exact ih q
    | error problem => rfl

end

/-- With another loader that agrees on what is read, an evaluation comes to the same. -/
def SameReading (s : Session) (l : Loader) (run other : Evaluate) (reads : ModuleRun → List String) : Prop :=
  ∀ r, s.loader.AgreeOn l (reads r) → other r = run r

section

variable (hrun : SameReading s l run other reads)

include hrun

theorem evaluateCall_congr (h : s.loader.AgreeOn l (r.callReads s reads force call)) :
    r.evaluateCall (withLoader s l) other force call = r.evaluateCall s run force call := by
  cases hdue : isDue force r call with
  | true =>
    rw [callReads, if_pos hdue] at h
    rw [evaluateCall_of_isDue hdue, evaluateCall_of_isDue hdue]
    exact congrArg _ (hrun _ h)
  | false =>
    obtain ⟨next, -, hnext⟩ := evaluateCall_of_waits hdue
    rw [hnext, hnext]

theorem evaluateEach_congr {calls : List ModuleCall} (h : s.loader.AgreeOn l (r.eachReads s run reads force calls)) :
    r.evaluateEach (withLoader s l) other force calls = r.evaluateEach s run force calls := by
  induction calls generalizing r with
  | nil => rfl
  | cons call calls ih =>
    rw [eachReads] at h
    rw [evaluateEach_cons, evaluateEach_cons]
    refine bind_congr_of_ok (evaluateCall_congr hrun h.left) fun v hv => ?_
    have hrest := h.right
    rw [readsAfter_ok hv] at hrest
    rw [ih hrest]

theorem evaluateCalls_congr (h : s.loader.AgreeOn l (r.eachReads s run reads force r.calls)) :
    r.evaluateCalls (withLoader s l) other force = r.evaluateCalls s run force := by
  rw [evaluateCalls, evaluateCalls, evaluateEach_congr hrun h]

theorem converge_congr {n : Nat} {previous : Option (Entries Value)}
    (h : s.loader.AgreeOn l (convergeReads s run reads n previous r)) :
    converge (withLoader s l) other n previous r = converge s run n previous r := by
  induction n generalizing previous r with
  | zero => rfl
  | succ n ih =>
    rw [convergeReads] at h
    rw [converge_succ, converge_succ]
    have hpass : r.pass (withLoader s l) other = r.pass s run := evaluateCalls_congr hrun h.left
    refine bind_congr_of_ok hpass fun passed hpassed => ?_
    have hrest := h.right
    rw [readsAfter_ok hpassed] at hrest
    dsimp only at hrest ⊢
    rw [readWanted_congr hrest.left]
    -- Both loops have seen the same and stop together, or both go on.
    have hmore := hrest.right
    split
    · rfl
    · next hgo =>
      rw [if_neg hgo] at hmore
      exact ih hmore

theorem settle_congr (h : s.loader.AgreeOn l (r.settleReads s run reads)) :
    r.settle (withLoader s l) other = r.settle s run :=
  converge_congr hrun h

theorem forceCalls_congr (h : s.loader.AgreeOn l (r.forceReads s run reads)) :
    r.forceCalls (withLoader s l) other = r.forceCalls s run := by
  rw [forceReads] at h
  rw [forceCalls, forceCalls]
  split
  · next hopen =>
    rw [if_pos hopen] at h
    refine bind_congr_of_ok (evaluateCalls_congr hrun h.left) fun mid hmid => ?_
    have hrest := h.right
    rw [readsAfter_ok hmid] at hrest
    exact settle_congr hrun hrest
  · rfl

end

theorem evaluateWith_congr (hdirs : ∀ dir, l.loadDirectory dir s.stopOnError = s.loader.loadDirectory dir s.stopOnError)
    (hrun : SameReading s l run other reads) :
    SameReading s l (evaluateWith s run) (evaluateWith (withLoader s l) other) (readsWith s run reads) := by
  intro r h
  -- The paths stand in the order of the phases, and each phase needs those of its own.
  rw [readsWith] at h
  refine bind_congr_of_ok (settle_congr hrun h.left) fun settled hsettled => ?_
  have h1 := h.right
  rw [readsAfter_ok hsettled] at h1
  refine bind_congr_of_ok (loadModules_congr hdirs settled) fun loaded hloaded => ?_
  rw [readsAfter_ok hloaded] at h1
  refine bind_congr_of_ok (settle_congr hrun h1.left) fun resettled hresettled => ?_
  have h2 := h1.right
  rw [readsAfter_ok hresettled] at h2
  refine bind_congr_of_ok (settle_congr hrun h2.left) fun expanded hexpanded => ?_
  have h3 := h2.right
  rw [readsAfter_ok hexpanded] at h3
  exact bind_congr_of_ok (forceCalls_congr hrun h3) fun done _ => rfl

/-- An evaluation comes to the same with every loader that gives the same directories, and the same files among those
that are read. -/
theorem evaluateUpTo_congr (hdirs : ∀ dir, l.loadDirectory dir s.stopOnError = s.loader.loadDirectory dir s.stopOnError)
    (depth : Nat) : SameReading s l (evaluateUpTo s depth) (evaluateUpTo (withLoader s l) depth) (readsUpTo s depth) := by
  induction depth with
  | zero => exact fun r _ => rfl
  | succ depth ih => exact evaluateWith_congr hdirs ih

end ModuleRun

end InfraConfig
