import InfraConfig.Proofs.EntryLaws
import InfraConfig.Proofs.Persistence
import InfraConfig.Scope
import Mathlib.Data.List.Basic
import Mathlib.Data.Nat.Init

/-!
# Laws of scopes

Writes touch one scope, new scopes are empty, and parents are older than their children. What expressions
see of a scope is said through the bindings on its chain.
-/

namespace InfraConfig

theorem getD_modify {α : Type} (xs : Array α) (i j : Nat) (f : α → α) (d : α) :
    (xs.modify i f).getD j d = if j = i ∧ i < xs.size then f (xs.getD j d) else xs.getD j d := by
  simp only [Array.getD_eq_getD_getElem?, Array.getElem?_modify]
  by_cases hi : i = j
  · subst hi
    by_cases h : i < xs.size
    · simp [h]
    · simp [h]
  · have hj : j ≠ i := fun e => hi e.symm
    simp [hi, hj]

theorem getD_push {α : Type} (xs : Array α) (a : α) (j : Nat) (d : α) :
    (xs.push a).getD j d = if j = xs.size then a else xs.getD j d := by
  simp only [Array.getD_eq_getD_getElem?, Array.getElem?_push]
  split <;> rfl

namespace Entries

theorem setPath_single (es : Entries Value) (v : Value) (name : String) :
    es.setPath v [name] = es.put name (((es.get? name).map (·.mergeInto v)).getD v) := by
  rw [setPath]
  cases es.get? name <;> rfl

theorem nodup_keys_setPath {es : Entries Value} (h : es.keys.Nodup) (v : Value) (path : ValuePath) :
    (es.setPath v path).keys.Nodup := by
  match path with
  | [] => simpa [setPath] using h
  | [name] =>
    rw [setPath_single]
    exact nodup_keys_put h _ _
  | name :: next :: rest =>
    rw [setPath]
    · split <;> exact nodup_keys_put h _ _
    · exact List.cons_ne_nil next rest

/-- A write below one name leaves the bindings of all others. -/
theorem get?_setPath_of_ne (es : Entries Value) (v : Value) {name : String} (rest : ValuePath)
    {j : String} (h : j ≠ name) : (es.setPath v (name :: rest)).get? j = es.get? j := by
  match rest with
  | [] => simp [setPath_single, h]
  | next :: rest =>
    rw [setPath]
    · split <;> simp [h]
    · exact List.cons_ne_nil next rest

end Entries

namespace Value

theorem mergeEntries_eq_append {old more : Entries Value} (h : (old.keys ++ more.keys).Nodup) :
    mergeEntries old more = old ++ more := by
  induction more generalizing old with
  | nil => simp [mergeEntries]
  | cons e more ih =>
    obtain ⟨k, v⟩ := e
    have hk : k ∉ old.keys := by
      intro hm
      rw [List.nodup_append] at h
      exact h.2.2 k hm k (by simp [Entries.keys]) rfl
    have hnone : Entries.get? old k = none := (Entries.get?_eq_none_iff _ _).mpr hk
    rw [mergeEntries, hnone, Entries.put_of_not_mem hk, ih]
    · simp
    · simpa [Entries.keys, List.append_assoc] using h

/-- Entries merged into nothing are themselves. -/
theorem mergeEntries_nil {es : Entries Value} (h : es.keys.Nodup) : mergeEntries [] es = es := by
  have hk : (Entries.keys ([] : Entries Value) ++ es.keys).Nodup := by simpa [Entries.keys] using h
  simpa using mergeEntries_eq_append hk

theorem datumEntries_eq_filterMap (es : Entries Value) :
    datumEntries es = es.filterMap fun (k, v) => v.toDatum?.map fun d => (k, d) := by
  induction es with
  | nil => rfl
  | cons e es ih =>
    obtain ⟨k, v⟩ := e
    rw [datumEntries, List.filterMap_cons, ih]
    cases hv : v.toDatum? <;> simp [hv]

/-- Plain data keeps the entries that are known. -/
theorem get?_datumEntries {es : Entries Value} (h : es.keys.Nodup) (k : String) :
    Entries.get? (datumEntries es) k = (es.get? k).bind toDatum? := by
  induction es with
  | nil => rfl
  | cons e es ih =>
    obtain ⟨k', v⟩ := e
    obtain ⟨hk, hes⟩ := List.nodup_cons.mp h
    rw [datumEntries, Entries.get?_cons]
    cases hv : v.toDatum? with
    | some d =>
      rw [Entries.get?_cons, ih hes]
      by_cases hj : k = k' <;> simp [hj, hv]
    | none =>
      rw [ih hes]
      by_cases hj : k = k'
      · subst hj
        have hnone : Entries.get? es k = none := (Entries.get?_eq_none_iff _ _).mpr hk
        simp [hnone, hv]
      · simp [hj]

end Value

namespace Scopes

/-! ## Single scopes -/

@[simp] theorem size_set (s : Scopes) (id : ScopeId) (v : Value) (path : ValuePath) :
    (s.set id v path).size = s.size := by
  simp [set, size]

theorem node_set (s : Scopes) (id : ScopeId) (v : Value) (path : ValuePath) (j : ScopeId) :
    (s.set id v path).node j
      = if j = id ∧ id < s.size then { s.node j with bindings := (s.bindings j).setPath v path }
        else s.node j :=
  getD_modify s.nodes id j _ _

@[simp] theorem parent?_set (s : Scopes) (id : ScopeId) (v : Value) (path : ValuePath) (j : ScopeId) :
    (s.set id v path).parent? j = s.parent? j := by
  simp only [parent?, node_set]
  split <;> rfl

theorem bindings_set_self (s : Scopes) {id : ScopeId} (h : id < s.size) (v : Value) (path : ValuePath) :
    (s.set id v path).bindings id = (s.bindings id).setPath v path := by
  simp [bindings, node_set, h]

theorem bindings_set_of_ne (s : Scopes) {id j : ScopeId} (h : j ≠ id) (v : Value) (path : ValuePath) :
    (s.set id v path).bindings j = s.bindings j := by
  simp [bindings, node_set, h]

@[simp] theorem push_fst (s : Scopes) (parent : Option ScopeId) : (s.push parent).1 = s.size := rfl

@[simp] theorem size_push (s : Scopes) (parent : Option ScopeId) :
    (s.push parent).2.size = s.size + 1 := by
  simp [push, size]

theorem node_push (s : Scopes) (parent : Option ScopeId) (j : ScopeId) :
    (s.push parent).2.node j = if j = s.size then ⟨parent, []⟩ else s.node j :=
  getD_push s.nodes _ j _

theorem parent?_push (s : Scopes) (parent : Option ScopeId) (j : ScopeId) :
    (s.push parent).2.parent? j = if j = s.size then parent else s.parent? j := by
  rw [parent?, node_push]
  split <;> rfl

theorem bindings_push (s : Scopes) (parent : Option ScopeId) (j : ScopeId) :
    (s.push parent).2.bindings j = if j = s.size then [] else s.bindings j := by
  rw [bindings, node_push]
  split <;> rfl

theorem node_of_size_le (s : Scopes) {j : ScopeId} (h : s.size ≤ j) : s.node j = ⟨none, []⟩ := by
  have hj : s.nodes[j]? = none := Array.getElem?_eq_none h
  simp [node, hj]

/-- A new scope changes no bindings. -/
theorem bindings_push_same (s : Scopes) (parent : Option ScopeId) (j : ScopeId) :
    (s.push parent).2.bindings j = s.bindings j := by
  rw [bindings_push]
  split
  · next he => rw [bindings, s.node_of_size_le (Nat.le_of_eq he.symm)]
  · rfl

theorem lt_size_of_parent? {s : Scopes} {id p : ScopeId} (h : s.parent? id = some p) :
    id < s.size := by
  by_contra hn
  simp [parent?, s.node_of_size_le (Nat.le_of_not_lt hn)] at h

/-! ## Chains -/

/-- Every parent is older than its children. -/
def Ordered (s : Scopes) : Prop :=
  ∀ id p, s.parent? id = some p → p < id

theorem self_mem_chain (s : Scopes) (id : ScopeId) : id ∈ s.chain id := by
  rw [chain, chainUpTo]
  split <;> exact List.mem_cons_self

theorem chain_ne_nil (s : Scopes) (id : ScopeId) : s.chain id ≠ [] :=
  List.ne_nil_of_mem (s.self_mem_chain id)

theorem chainUpTo_of_parents {s t : Scopes} (h : ∀ id, t.parent? id = s.parent? id) (n : Nat)
    (id : ScopeId) : t.chainUpTo n id = s.chainUpTo n id := by
  induction n generalizing id with
  | zero => rfl
  | succ n ih =>
    rw [chainUpTo, chainUpTo, h id]
    cases s.parent? id with
    | none => rfl
    | some p => simp only [ih p]

@[simp] theorem chain_set (s : Scopes) (id : ScopeId) (v : Value) (path : ValuePath) (c : ScopeId) :
    (s.set id v path).chain c = s.chain c :=
  chainUpTo_of_parents (s.parent?_set id v path) _ _

theorem chainUpTo_eq_chain {s : Scopes} (hs : s.Ordered) {n : Nat} {id : ScopeId} (h : id < n) :
    s.chainUpTo n id = s.chain id := by
  -- The number bounds the length of the chain because it falls from child to parent.
  induction id using Nat.strong_induction_on generalizing n with
  | _ id ih =>
    obtain ⟨m, rfl⟩ := Nat.exists_eq_add_one_of_ne_zero (Nat.ne_of_gt (Nat.zero_lt_of_lt h))
    rw [chain, chainUpTo, chainUpTo]
    cases hp : s.parent? id with
    | none => rfl
    | some p =>
      have hlt := hs id p hp
      have hm : p < m := Nat.lt_of_lt_of_le hlt (Nat.le_of_lt_succ h)
      simp only [ih p hlt hm, ih p hlt hlt]

theorem chain_of_parent {s : Scopes} (hs : s.Ordered) {id p : ScopeId} (h : s.parent? id = some p) :
    s.chain id = id :: s.chain p := by
  rw [chain, chainUpTo, h]
  simp only [chainUpTo_eq_chain hs (hs id p h)]

theorem chain_of_root {s : Scopes} {id : ScopeId} (h : s.parent? id = none) : s.chain id = [id] := by
  rw [chain, chainUpTo, h]

theorem get?_root {s : Scopes} {id : ScopeId} (h : s.parent? id = none) (path : ValuePath) :
    s.get? id path = (s.bindings id).getPath? path := by
  rw [get?, chain_of_root h, List.findSome?_cons, List.findSome?_nil]
  cases (s.bindings id).getPath? path <;> rfl

theorem Ordered.set {s : Scopes} (h : s.Ordered) (id : ScopeId) (v : Value) (path : ValuePath) :
    (s.set id v path).Ordered := by
  intro i p hp
  exact h i p (by simpa using hp)

theorem Ordered.push {s : Scopes} (h : s.Ordered) {parent : Option ScopeId}
    (hp : ∀ p, parent = some p → p < s.size) : (s.push parent).2.Ordered := by
  intro i p hi
  rw [parent?_push] at hi
  split at hi
  · next he => exact he ▸ hp p hi
  · exact h i p hi

/-! ## The scope at the top -/

theorem root_of_root {s : Scopes} {id : ScopeId} (h : s.parent? id = none) : s.root id = id := by
  rw [root, chain_of_root h]
  rfl

theorem root_of_parent {s : Scopes} (hs : s.Ordered) {id p : ScopeId} (h : s.parent? id = some p) :
    s.root id = s.root p := by
  rw [root, root, chain_of_parent hs h, List.getLastD_cons, List.getLastD_eq_getLast?,
    List.getLastD_eq_getLast?, List.getLast?_eq_some_getLast (s.chain_ne_nil p)]
  rfl

/-- The top of a scope depends on the parents of older scopes only. -/
theorem root_congr {s t : Scopes} (hs : s.Ordered) (ht : t.Ordered) {id : ScopeId}
    (h : ∀ j, j ≤ id → t.parent? j = s.parent? j) : t.root id = s.root id := by
  induction id using Nat.strong_induction_on with
  | _ id ih =>
    have hid := h id (Nat.le_refl id)
    cases hp : s.parent? id with
    | none => rw [root_of_root hp, root_of_root (hid.trans hp)]
    | some p =>
      have hlt := hs id p hp
      rw [root_of_parent hs hp, root_of_parent ht (hid.trans hp)]
      exact ih p hlt fun j hj => h j (Nat.le_trans hj (Nat.le_of_lt hlt))

/-- All scopes on a chain have the same one at the top. -/
theorem mem_chain {s : Scopes} (hs : s.Ordered) {id j : ScopeId} (h : j ∈ s.chain id) :
    s.root j = s.root id ∧ j ≤ id := by
  induction id using Nat.strong_induction_on with
  | _ id ih =>
    cases hp : s.parent? id with
    | none =>
      rw [chain_of_root hp, List.mem_singleton] at h
      exact h ▸ ⟨rfl, Nat.le_refl _⟩
    | some p =>
      rw [chain_of_parent hs hp] at h
      rcases List.mem_cons.mp h with rfl | h
      · exact ⟨rfl, Nat.le_refl _⟩
      · have hlt := hs id p hp
        obtain ⟨hroot, hle⟩ := ih p hlt h
        rw [root_of_parent hs hp]
        exact ⟨hroot, Nat.le_trans hle (Nat.le_of_lt hlt)⟩

/-- The chain of a scope depends on the parents in its module only. -/
theorem chain_congr {s t : Scopes} (hs : s.Ordered) (ht : t.Ordered) {id : ScopeId}
    (h : ∀ j, j ≤ id → s.root j = s.root id → t.parent? j = s.parent? j) : t.chain id = s.chain id := by
  induction id using Nat.strong_induction_on with
  | _ id ih =>
    have hid := h id (Nat.le_refl id) rfl
    cases hp : s.parent? id with
    | none => rw [chain_of_root hp, chain_of_root (hid.trans hp)]
    | some p =>
      have hlt := hs id p hp
      rw [chain_of_parent hs hp, chain_of_parent ht (hid.trans hp)]
      refine congrArg _ (ih p hlt fun j hj hroot => h j (Nat.le_trans hj (Nat.le_of_lt hlt)) ?_)
      rw [hroot, root_of_parent hs hp]

@[simp] theorem root_set (s : Scopes) (id : ScopeId) (v : Value) (path : ValuePath) (j : ScopeId) :
    (s.set id v path).root j = s.root j := by
  rw [root, root, chain_set]

/-! ## What scopes see -/

theorem findSome?_congr {α β : Type} {xs : List α} {f g : α → Option β} (h : ∀ x ∈ xs, f x = g x) :
    xs.findSome? f = xs.findSome? g := by
  induction xs with
  | nil => rfl
  | cons x xs ih =>
    rw [List.forall_mem_cons] at h
    rw [List.findSome?_cons, List.findSome?_cons, h.1, ih h.2]

theorem get?_congr {s t : Scopes} {c : ScopeId} (hchain : t.chain c = s.chain c)
    (h : ∀ j ∈ s.chain c, t.bindings j = s.bindings j) (q : ValuePath) : t.get? c q = s.get? c q := by
  rw [get?, get?, hchain]
  exact findSome?_congr fun j hj => by rw [h j hj]

theorem merged_congr {s t : Scopes} {c : ScopeId} (hchain : t.chain c = s.chain c)
    (h : ∀ j ∈ s.chain c, t.bindings j = s.bindings j) : t.merged c = s.merged c := by
  rw [merged, merged, hchain]
  exact List.foldr_ext _ _ _ fun j hj acc => by rw [h j hj]

/-! ## Environments -/

/-- A scope below `root` whose own bindings, like those of all scopes between, are empty. -/
inductive Under (s : Scopes) (root : ScopeId) : ScopeId → Prop where
  | top : s.parent? root = none → Under s root root
  | inner {id p : ScopeId} : s.parent? id = some p → s.bindings id = [] → Under s root p →
      Under s root id

theorem Under.merged {s : Scopes} (hs : s.Ordered) {root id : ScopeId} (h : s.Under root id)
    (hn : (s.bindings root).keys.Nodup) : s.merged id = s.bindings root := by
  induction h with
  | top hr => simpa [Scopes.merged, chain_of_root hr] using Value.mergeEntries_nil hn
  | inner hp hb _ ih =>
    rw [Scopes.merged, chain_of_parent hs hp, List.foldr_cons, hb]
    exact ih

end Scopes

end InfraConfig
