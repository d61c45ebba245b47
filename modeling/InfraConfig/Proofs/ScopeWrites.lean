import InfraConfig.Proofs.Writes

/-!
# Writes to scopes and what lookups see of them

A write replaces what stands under its path, or extends it when a map is written over a map. Beside the
path everything stays, and only scopes that see the written one can notice.
-/

namespace InfraConfig

namespace Entries

/-- The entries of the map that stands under a name. -/
def under (es : Entries Value) (name : String) : Entries Value :=
  ((es.get? name).bind Value.entries?).getD []

theorem getPath?_under (es : Entries Value) (name : String) {rest : ValuePath} (h : rest ≠ []) :
    es.getPath? (name :: rest) = (es.under name).getPath? rest := by
  obtain ⟨next, rest, rfl⟩ := List.exists_cons_of_ne_nil h
  simp only [getPath?, under, Value.getPath?, Value.get?]
  cases hv : es.get? name with
  | none => rfl
  | some v =>
    cases he : v.entries? with
    | none => simp [he]
    | some inner => simp [he]

theorem getPath?_append (es : Entries Value) {p : ValuePath} (hp : p ≠ []) (k : String) :
    es.getPath? (p ++ [k]) = (es.getPath? p).bind (·.get? k) := by
  induction p generalizing es with
  | nil => exact absurd rfl hp
  | cons name rest ih =>
    cases rest with
    | nil => simp [getPath?, Value.getPath?]
    | cons next rest =>
      rw [List.cons_append, getPath?_under es name (List.cons_ne_nil _ _),
        getPath?_under es name (List.append_ne_nil_of_left_ne_nil (List.cons_ne_nil _ _) _)]
      exact ih _ (List.cons_ne_nil _ _)

/-- Below a name a write goes on in the map that stands there, or in a new one. -/
theorem under_setPath (es : Entries Value) (v : Value) (name : String) {rest : ValuePath}
    (h : rest ≠ []) : (es.setPath v (name :: rest)).under name = (es.under name).setPath v rest := by
  rw [setPath]
  · cases hv : es.get? name with
    | none => simp [under, hv, Value.entries?]
    | some w => cases w <;> simp [under, hv, Value.entries?]
  · exact h

theorem getPath?_setPath_self (es : Entries Value) (v : Value) {p : ValuePath} (hp : p ≠ []) :
    (es.setPath v p).getPath? p = some (((es.getPath? p).map (·.mergeInto v)).getD v) := by
  induction p generalizing es with
  | nil => exact absurd rfl hp
  | cons name rest ih =>
    cases rest with
    | nil =>
      rw [setPath_single]
      simp [getPath?, Value.getPath?]
    | cons next rest =>
      have hrest : next :: rest ≠ [] := List.cons_ne_nil _ _
      rw [getPath?_under _ name hrest, getPath?_under _ name hrest, under_setPath es v name hrest]
      exact ih _ hrest

end Entries

namespace Value

@[simp] theorem entries?_withEntries (v : Value) (es : Entries Value) :
    (v.withEntries es).entries? = some es := by
  cases v <;> rfl

theorem mergeInto_eq_withEntries {old new : Value} {a b : Entries Value} (ha : old.entries? = some a)
    (hb : new.entries? = some b) (hane : a ≠ []) (hbne : b ≠ []) :
    old.mergeInto new = old.withEntries (a.putAll b) := by
  simp [mergeInto, ha, hb, hane, hbne]

theorem mergeInto_eq_self {old new : Value}
    (h : ∀ a b, old.entries? = some a → new.entries? = some b → a = [] ∨ b = []) :
    old.mergeInto new = new := by
  unfold mergeInto
  split
  · next a b ha hb => simpa using fun hane hbne => absurd (h a b ha hb) (by simp [hane, hbne])
  · rfl

/-- Each map that a path leads to has every key once. -/
def Keyed (v : Value) : Prop :=
  ∀ path inner es, v.getPath? path = some inner → inner.entries? = some es → es.keys.Nodup

end Value

/-- A value without entries stands where it has been written. -/
theorem Entries.getPath?_setPath_leaf (es : Entries Value) {v : Value} (hv : v.entries? = none) {p : ValuePath}
    (hp : p ≠ []) : (es.setPath v p).getPath? p = some v := by
  rw [getPath?_setPath_self es v hp]
  cases es.getPath? p with
  | none => rfl
  | some old =>
    refine congrArg some (Value.mergeInto_eq_self fun _ _ _ hentries => ?_)
    rw [hv] at hentries
    cases hentries

namespace Entries

/-- Entries with every key once, in which all values are so too. -/
structure Keyed (es : Entries Value) : Prop where
  keys : es.keys.Nodup
  values : ∀ k v, es.get? k = some v → v.Keyed

theorem Keyed.nil : Keyed [] := ⟨List.nodup_nil, fun _ _ h => nomatch h⟩

theorem Keyed.put {es : Entries Value} (h : es.Keyed) {v : Value} (hv : v.Keyed) (k : String) :
    (es.put k v).Keyed where
  keys := nodup_keys_put h.keys k v
  values := by
    intro j w hw
    rw [get?_put] at hw
    split at hw
    · exact Option.some.inj hw ▸ hv
    · exact h.values j w hw

end Entries

namespace Value

theorem keyed_iff {v : Value} : v.Keyed ↔ ∀ es, v.entries? = some es → Entries.Keyed es := by
  constructor
  · intro h es hes
    refine ⟨h [] v es rfl hes, ?_⟩
    intro k w hw path inner inside hpath
    have hk : v.get? k = some w := by simp [get?, hes, hw]
    exact h (k :: path) inner inside (by simpa [getPath?, hk] using hpath)
  · intro h path inner es hpath hes
    cases path with
    | nil =>
      obtain rfl := Option.some.inj hpath
      exact (h es hes).keys
    | cons k path =>
      obtain ⟨w, hw, hpath⟩ := Option.bind_eq_some_iff.mp hpath
      obtain ⟨outer, houter, hw⟩ := Option.bind_eq_some_iff.mp hw
      exact (h outer houter).values k w hw path inner es hpath hes

theorem Keyed.entries {v : Value} (h : v.Keyed) {es : Entries Value} (hes : v.entries? = some es) :
    Entries.Keyed es :=
  keyed_iff.mp h es hes

theorem keyed_withEntries {v : Value} {es : Entries Value} (h : Entries.Keyed es) :
    (v.withEntries es).Keyed := by
  rw [keyed_iff]
  intro inner hinner
  rw [entries?_withEntries] at hinner
  exact Option.some.inj hinner ▸ h

end Value

namespace Entries

theorem Keyed.putAll {es more : Entries Value} (h : es.Keyed)
    (hmore : ∀ e ∈ more, e.2.Keyed) : (es.putAll more).Keyed := by
  induction more generalizing es with
  | nil => exact h
  | cons e more ih =>
    rw [List.forall_mem_cons] at hmore
    exact ih (h.put hmore.1 e.1) hmore.2

theorem Keyed.of_mem {es : Entries Value} (h : es.Keyed) {e : String × Value} (he : e ∈ es) :
    e.2.Keyed :=
  h.values e.1 e.2 (get?_of_mem h.keys he)

theorem Keyed.mergeInto {old new : Value} (hold : old.Keyed) (hnew : new.Keyed) :
    (old.mergeInto new).Keyed := by
  unfold Value.mergeInto
  split
  · next a b ha hb =>
    split
    · exact hnew
    · exact Value.keyed_withEntries ((hold.entries ha).putAll fun e he => (hnew.entries hb).of_mem he)
  · exact hnew

theorem Keyed.under {es : Entries Value} (h : es.Keyed) (name : String) : (es.under name).Keyed := by
  unfold Entries.under
  cases hv : es.get? name with
  | none => exact .nil
  | some v =>
    cases hes : v.entries? with
    | none => simpa [hes] using Keyed.nil
    | some inner => simpa [hes] using (h.values name v hv).entries hes

theorem Keyed.setPath {es : Entries Value} (h : es.Keyed) {v : Value} (hv : v.Keyed) (p : ValuePath) :
    (es.setPath v p).Keyed := by
  induction p generalizing es with
  | nil => simpa [Entries.setPath] using h
  | cons name rest ih =>
    refine ⟨nodup_keys_setPath h.keys v _, ?_⟩
    intro k w hw
    by_cases hk : k = name
    · subst hk
      cases rest with
      | nil =>
        rw [setPath_single, get?_put, if_pos rfl] at hw
        obtain rfl := Option.some.inj hw
        cases hold : es.get? k with
        | none => exact hv
        | some old => exact Keyed.mergeInto (h.values k old hold) hv
      | cons next rest =>
        -- What is written is the map below the name, whose entries the induction speaks of.
        rw [Value.keyed_iff]
        intro inner hinner
        have hunder := under_setPath es v k (List.cons_ne_nil next rest)
        have hsame : (es.setPath v (k :: next :: rest)).under k = inner := by
          simp [Entries.under, hw, hinner]
        rw [← hsame, hunder]
        exact ih (h.under k)
    · rw [get?_setPath_of_ne es v rest hk] at hw
      exact h.values k w hw

end Entries

namespace Scopes

/-- The trees of scopes that the operations make. -/
inductive Built : Scopes → Prop where
  | empty : Built empty
  | newRoot {s} (h : Built s) : Built s.newRoot.2
  | newChild {s p} (h : Built s) (hp : p < s.size) : Built (s.newChild p).2
  | set {s id v path} (h : Built s) (hid : id < s.size) (hv : v.Keyed) : Built (s.set id v path)

theorem Built.ordered {s : Scopes} (h : s.Built) : s.Ordered := by
  induction h with
  | empty => exact fun id p hp => nomatch hp
  | newRoot _ ih => exact ih.push (fun p hp => nomatch hp)
  | newChild _ hp ih => exact ih.push (fun q hq => Option.some.inj hq ▸ hp)
  | set _ _ _ ih => exact ih.set _ _ _

theorem Built.keyed {s : Scopes} (h : s.Built) (id : ScopeId) : (s.bindings id).Keyed := by
  induction h with
  | empty => exact .nil
  | @newRoot s _ ih =>
    rw [Scopes.newRoot, bindings_push]
    split
    · exact .nil
    · exact ih
  | @newChild s p _ _ ih =>
    rw [Scopes.newChild, bindings_push]
    split
    · exact .nil
    · exact ih
  | @set s n v path _ hn hv ih =>
    by_cases hid : id = n
    · subst hid
      rw [bindings_set_self s hn]
      exact ih.setPath hv path
    · rwa [bindings_set_of_ne s hid]

/-- A scope sees itself and all above it. -/
inductive Sees (s : Scopes) : ScopeId → ScopeId → Prop where
  | self (c) : Sees s c c
  | outer {c p n} (hp : s.parent? c = some p) (h : Sees s p n) : Sees s c n

theorem Sees.trans {s : Scopes} {c m n : ScopeId} (h : s.Sees c m) (k : s.Sees m n) : s.Sees c n := by
  induction h with
  | self => exact k
  | outer hp _ ih => exact .outer hp (ih k)

theorem sees_iff_mem_chain {s : Scopes} (hs : s.Ordered) {c n : ScopeId} :
    s.Sees c n ↔ n ∈ s.chain c := by
  constructor
  · intro h
    induction h with
    | self c => exact s.self_mem_chain c
    | outer hp _ ih =>
      rw [chain_of_parent hs hp]
      exact List.mem_cons_of_mem _ ih
  · intro h
    induction c using Nat.strong_induction_on with
    | _ c ih =>
      cases hp : s.parent? c with
      | none =>
        rw [chain_of_root hp, List.mem_singleton] at h
        rw [h]
        exact .self c
      | some p =>
        rw [chain_of_parent hs hp] at h
        rcases List.mem_cons.mp h with rfl | h
        · exact .self _
        · exact .outer hp (ih p (hs c p hp) h)

/-- What `c` sees is the binding of the nearest scope in which the path leads somewhere. -/
theorem get?_eq_some_iff (s : Scopes) (c : ScopeId) (q : ValuePath) (u : Value) :
    s.get? c q = some u ↔ ∃ nearer m farther, s.chain c = nearer ++ m :: farther ∧
      (∀ j ∈ nearer, (s.bindings j).getPath? q = none) ∧ (s.bindings m).getPath? q = some u := by
  rw [get?, List.findSome?_eq_some_iff]
  constructor
  · rintro ⟨nearer, m, farther, hchain, hu, hnearer⟩
    exact ⟨nearer, m, farther, hchain, hnearer, hu⟩
  · rintro ⟨nearer, m, farther, hchain, hnearer, hu⟩
    exact ⟨nearer, m, farther, hchain, hu, hnearer⟩

/-- What a write does to the scope that it names. -/
structure Written (before after : Entries Value) (v : Value) (p : ValuePath) : Prop where
  apart : ∀ q, Apart p q → after.getPath? q = before.getPath? q
  extended : ∀ old a b, before.getPath? p = some old → old.entries? = some a → v.entries? = some b →
    a ≠ [] → b ≠ [] → after.getPath? p = some (old.withEntries (a.putAll b)) ∧
      ∀ k, after.getPath? (p ++ [k]) = (Entries.get? b k).or (Entries.get? a k)
  replaced : (¬ ∃ old a b, before.getPath? p = some old ∧ old.entries? = some a ∧
    v.entries? = some b ∧ a ≠ [] ∧ b ≠ []) → after.getPath? p = some v

theorem written_setPath (es : Entries Value) {v : Value} (hv : v.Keyed) {p : ValuePath} (hp : p ≠ []) :
    Written es (es.setPath v p) v p where
  apart _ hapart := es.getPath?_setPath_of_apart v hapart
  extended := by
    intro old a b hold ha hb hane hbne
    have hself : (es.setPath v p).getPath? p = some (old.withEntries (a.putAll b)) := by
      rw [es.getPath?_setPath_self v hp, hold]
      exact congrArg some (Value.mergeInto_eq_withEntries ha hb hane hbne)
    refine ⟨hself, ?_⟩
    intro k
    rw [Entries.getPath?_append _ hp k, hself]
    simp [Value.get?, Entries.get?_putAll (hv.entries hb).keys]
  replaced := by
    intro hnot
    rw [es.getPath?_setPath_self v hp]
    cases hold : es.getPath? p with
    | none => rfl
    | some old =>
      refine congrArg some (Value.mergeInto_eq_self ?_)
      intro a b ha hb
      by_contra hne
      rw [not_or] at hne
      exact hnot ⟨old, a, b, hold, ha, hb, hne.1, hne.2⟩

/-- A write changes one scope, at its path, and only that scope and those below it can see it. -/
theorem set_writes_at_path {s : Scopes} (hs : s.Built) {n : ScopeId} (hn : n < s.size)
    {p : ValuePath} (hp : p ≠ []) {v : Value} (hv : v.Keyed) :
    (∀ m, m ≠ n → (s.set n v p).bindings m = s.bindings m)
      ∧ Written (s.bindings n) ((s.set n v p).bindings n) v p
      ∧ (∀ c q u, (s.set n v p).get? c q = some u ↔ ∃ nearer m farther,
          s.chain c = nearer ++ m :: farther
            ∧ (∀ j ∈ nearer, ((s.set n v p).bindings j).getPath? q = none)
            ∧ ((s.set n v p).bindings m).getPath? q = some u)
      ∧ (∀ c, ¬ s.Sees c n → (∀ q, (s.set n v p).get? c q = s.get? c q)
          ∧ (s.set n v p).merged c = s.merged c) := by
  have hothers : ∀ m, m ≠ n → (s.set n v p).bindings m = s.bindings m :=
    fun m hm => s.bindings_set_of_ne hm v p
  refine ⟨hothers, ?_, ?_, ?_⟩
  · rw [s.bindings_set_self hn]
    exact written_setPath (s.bindings n) hv hp
  · intro c q u
    rw [get?_eq_some_iff, chain_set]
  · intro c hc
    have hsame : ∀ j ∈ s.chain c, (s.set n v p).bindings j = s.bindings j := by
      intro j hj
      refine hothers j ?_
      rintro rfl
      exact hc ((sees_iff_mem_chain hs.ordered).mpr hj)
    exact ⟨get?_congr (chain_set s n v p c) hsame, merged_congr (chain_set s n v p c) hsame⟩

/-- A map written over a map at the root, as its child and another root see it. -/
theorem set_writes_at_path_over_map :
    let one (k : String) (n : Int) : Value := .object [(k, .int n)]
    let s := ((((empty.newRoot.2.newChild 0).2.newRoot.2.set 0 (one "x" 1) ["a", "b"])).set 1
      (.int 5) ["a", "c"])
    s.Built ∧ 0 < s.size ∧ (one "y" 2).Keyed
      ∧ (s.set 0 (one "y" 2) ["a", "b"]).get? 1 ["a", "b", "x"] = some (.int 1)
      ∧ (s.set 0 (one "y" 2) ["a", "b"]).get? 1 ["a", "b", "y"] = some (.int 2)
      ∧ (s.set 0 (one "y" 2) ["a", "b"]).get? 1 ["a", "c"] = some (.int 5)
      ∧ (s.set 0 (one "y" 2) ["a", "b"]).get? 2 ["a", "b", "y"] = none := by
  intro one s
  have hone (k : String) (n : Int) : (one k n).Keyed := by
    have hint : (Value.int n).Keyed := Value.keyed_iff.mpr fun _ h => nomatch h
    exact Value.keyed_withEntries (v := .null) (Entries.Keyed.nil.put hint k)
  have hint : (Value.int 5).Keyed := Value.keyed_iff.mpr fun _ h => nomatch h
  have hroots := Built.empty.newRoot.newChild (p := 0) (by decide) |>.newRoot
  have hs : s.Built := (hroots.set (by decide) (hone "x" 1)).set (by decide) hint
  have hsize : 0 < s.size := by decide
  obtain ⟨-, hwritten, hnearest, hhidden⟩ :=
    set_writes_at_path hs hsize (p := ["a", "b"]) (by decide) (hone "y" 2)
  have hentries := (hwritten.extended (one "x" 1) [("x", .int 1)] [("y", .int 2)] rfl rfl rfl
    (by decide) (by decide)).2
  refine ⟨hs, hsize, hone "y" 2, ?_, ?_, ?_, ?_⟩
  · exact (hnearest 1 _ _).mpr ⟨[1], 0, [], rfl, by simp; rfl, hentries "x"⟩
  · exact (hnearest 1 _ _).mpr ⟨[1], 0, [], rfl, by simp; rfl, hentries "y"⟩
  · exact (hnearest 1 _ _).mpr ⟨[], 1, [0], rfl, by simp, rfl⟩
  · have hout : ¬ s.Sees 2 0 := by
      rw [sees_iff_mem_chain hs.ordered]
      decide
    rw [(hhidden 2 hout).1]
    rfl

end Scopes

end InfraConfig
