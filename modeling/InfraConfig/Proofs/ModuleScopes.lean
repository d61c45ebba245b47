import InfraConfig.Proofs.FinishedCalls

/-!
# Scopes of modules

All blocks of a module, however deep inside others, stand below the scope at the top of it. What evaluating a
call writes stands below the top of the called module or in scopes that are new; the calling module gets to
know of it by one write under `module`.
-/

namespace InfraConfig

theorem Scopes.getLast?_chain (s : Scopes) (id : ScopeId) : (s.chain id).getLast? = some (s.root id) := by
  rw [root, List.getLastD_eq_getLast?, List.getLast?_eq_some_getLast (s.chain_ne_nil id)]
  rfl

theorem Scopes.root_mem_chain (s : Scopes) (id : ScopeId) : s.root id ∈ s.chain id :=
  List.mem_of_getLast? (s.getLast?_chain id)

namespace Arena

/-- A block of a list, or a block somewhere inside one of them. -/
inductive Below (a : Arena) (ids : List BlockId) : BlockId → Prop where
  | listed {id} (h : id ∈ ids) : Below a ids id
  | inside {id c} (h : Below a ids id) (hc : c ∈ a.inside id) : Below a ids c

/-- A block whose scope sees those on a chain that ends at a scope without parent. -/
structure Stands (a : Arena) (top : ScopeId) (id : BlockId) : Prop where
  block : id < a.blocks.size
  scope : (a.block id).scope < a.scopes.size
  last : (a.scopes.chain (a.block id).scope).getLast? = some top
  parent : a.scopes.parent? top = none

variable {a : Arena} {top : ScopeId} {ids : List BlockId} {id : BlockId}

theorem Below.has (h : a.Below ids id) (ha : a.WellFormed) (hids : ∀ id ∈ ids, a.Has top id) :
    a.Has top id := by
  induction h with
  | listed h => exact hids _ h
  | inside _ hc ih => exact ih.child ha hc

theorem Has.stands (h : a.Has top id) (ha : a.WellFormed) (htop : a.IsTop top) : a.Stands top id where
  block := h.1
  scope := ha.placed id h.1
  last := (a.scopes.getLast?_chain _).trans (congrArg some h.2)
  parent := htop.2

end Arena

namespace ModuleRun

/-- A run that is kept apart from its calls: its blocks stand in its own module, also while calls are evaluated,
and a call leaves all scopes alone that were there and are not below its own top. -/
structure Isolated (s : Session) (run : Evaluate) (r : ModuleRun) : Prop where
  stands : ∀ id, r.arena.Below r.module.blocks id → r.arena.Stands r.root id
  between : ∀ force before after done mid, r.calls = before ++ after →
    r.evaluateEach s run force before = .ok (done, mid) →
      ∀ id, mid.arena.Below mid.module.blocks id → mid.arena.Stands r.root id
  call : ∀ force before call after done mid later next, r.calls = before ++ call :: after →
    r.evaluateEach s run force before = .ok (done, mid) →
      mid.evaluateCall s run force call = .ok (later, next) →
        ∀ scope < mid.arena.scopes.size, call.root ∉ mid.arena.scopes.chain scope →
          next.arena.scopes.bindings scope = mid.arena.scopes.bindings scope
  inner : ∀ force next, r.evaluateCalls s run force = .ok next →
    ∀ scope < r.arena.scopes.size, r.root ∈ r.arena.scopes.chain scope → scope ≠ r.root →
      next.arena.scopes.bindings scope = r.arena.scopes.bindings scope
  exported : ∀ force next, r.evaluateCalls s run force = .ok next →
    next.bindings = r.bindings.write (callWrites next.calls) ∧
      ∀ w ∈ callWrites next.calls, w.1 = ["module"]

variable {s : Session} {run : Evaluate} {force : Bool} {d : Nat} {r mid next : ModuleRun}
  {call later : ModuleCall}

theorem Sound.stands (hs : r.Sound) {id : BlockId} (h : r.arena.Below r.module.blocks id) :
    r.arena.Stands r.root id :=
  (h.has hs.well hs.blocks).stands hs.well hs.top

/-- Evaluating a call leaves every older scope alone that is not below the top of the call. -/
theorem Sound.bindings_evaluateCall (hs : r.Sound) (hrun : Contained run) (hcall : call ∈ r.calls)
    (h : r.evaluateCall s run force call = .ok (later, next)) {scope : ScopeId}
    (hscope : scope < r.arena.scopes.size) (hout : call.root ∉ r.arena.scopes.chain scope) :
    next.arena.scopes.bindings scope = r.arena.scopes.bindings scope := by
  obtain ⟨hchanges, -, -⟩ := evaluateCall_changes hrun hs hcall h
  apply hchanges.bindings_eq hs.well hscope
  have hmem := r.arena.scopes.root_mem_chain scope
  rintro (⟨other, hother, -, heq⟩ | hnew)
  · obtain rfl := List.mem_singleton.mp hother
    exact hout (heq ▸ hmem)
  · have hold := Nat.lt_of_le_of_lt (Scopes.mem_chain hs.well.ordered hmem).2 hscope
    exact absurd hnew (Nat.not_le.mpr hold)

/-- Evaluating the calls of a run leaves the scopes below its own alone. -/
theorem Sound.bindings_inner (hs : r.Sound) (hrun : Contained run)
    (h : r.evaluateCalls s run force = .ok next) {scope : ScopeId} (hscope : scope < r.arena.scopes.size)
    (htop : r.root ∈ r.arena.scopes.chain scope) (hne : scope ≠ r.root) :
    next.arena.scopes.bindings scope = r.arena.scopes.bindings scope := by
  obtain ⟨mid, calls, heach, rfl, hchanges, -, -⟩ := evaluateCalls_spec hrun hs h
  obtain ⟨-, -, hroot⟩ := hs.evaluateEach hrun (List.Subset.refl _) heach
  have hown : r.arena.scopes.root scope = r.root := by
    rw [← (Scopes.mem_chain hs.well.ordered htop).1, hs.top.root_eq]
  have hexport := (Rebinds.bindOutputsOfCalls { mid with calls }).others scope (hroot ▸ hne)
  rw [hexport]
  apply hchanges.bindings_eq hs.well hscope
  rw [hown]
  rintro (⟨other, hother, -, heq⟩ | hnew)
  · exact (hs.calls other hother).apart heq.symm
  · exact absurd hnew (Nat.not_le.mpr hs.top.1)

theorem path_of_mem_callWrites {calls : List ModuleCall} {w : ValuePath × Value}
    (h : w ∈ callWrites calls) : w.1 = ["module"] := by
  rw [callWrites] at h
  dsimp only at h
  split at h
  · cases h
  · rw [List.mem_singleton.mp h]

/-- Every state that an evaluator comes to is kept apart from the calls that are evaluated in it. -/
theorem Reached.isolated (h : Reached s d r) : Isolated s (evaluateUpTo s d) r := by
  have hrun := contained_evaluateUpTo s d
  have hs := h.sound
  have hmid {force : Bool} {before after done : List ModuleCall} {mid : ModuleRun}
      (hcalls : r.calls = before ++ after)
      (hbefore : r.evaluateEach s (evaluateUpTo s d) force before = .ok (done, mid)) :
      mid.Sound ∧ mid.calls = r.calls ∧ mid.root = r.root :=
    hs.evaluateEach hrun (hcalls ▸ List.subset_append_left before after) hbefore
  constructor
  · exact fun id hid => hs.stands hid
  · intro force before after done mid hcalls hbefore id hid
    obtain ⟨hsound, -, hroot⟩ := hmid hcalls hbefore
    exact hroot ▸ hsound.stands hid
  · intro force before call after done mid later next hcalls hbefore hcall scope hscope hout
    obtain ⟨hsound, hsame, -⟩ := hmid hcalls hbefore
    have hmem : call ∈ mid.calls := by simp [hsame, hcalls]
    exact hsound.bindings_evaluateCall hrun hmem hcall hscope hout
  · intro force next hnext scope hscope htop hne
    exact hs.bindings_inner hrun hnext hscope htop hne
  · intro force next hnext
    exact ⟨hs.bindings_evaluateCalls hrun hnext, fun w hw => path_of_mem_callWrites hw⟩

/-- A state with calls, of which some are evaluated next. -/
theorem isolated_lateInputs :
    let s : Session := ⟨constantOutput, "/", "default", false, 6, []⟩
    ∃ r next, Reached s 999 r ∧ r.calls.length = 3
      ∧ r.evaluateCalls s (evaluateUpTo s 999) false = .ok next
      ∧ (∃ call ∈ next.calls, call.result.isSome = true)
      ∧ Isolated s (evaluateUpTo s 999) r := by
  intro s
  have hcheck : ((Project.rootRun s [] lateInputs).loadModules s).toOption.any (fun r =>
      r.calls.length == 3 && (r.evaluateCalls s (evaluateUpTo s 999) false).toOption.any fun next =>
        next.calls.any (·.result.isSome)) = true := by
    decide +kernel
  obtain ⟨r, hload, hcheck⟩ := (Option.any_eq_true _ _).mp hcheck
  obtain ⟨hcount, hcheck⟩ := Bool.and_eq_true_iff.mp hcheck
  obtain ⟨next, hnext, hcheck⟩ := (Option.any_eq_true _ _).mp hcheck
  obtain ⟨call, hcall, hresult⟩ := List.any_eq_true.mp hcheck
  have hreached : Reached s 999 r := (Reached.root [] lateInputs).load (eq_ok_of_toOption hload)
  exact ⟨r, next, hreached, beq_iff_eq.mp hcount, eq_ok_of_toOption hnext, ⟨call, hcall, hresult⟩,
    hreached.isolated⟩

end ModuleRun

end InfraConfig
