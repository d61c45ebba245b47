import InfraConfig.Proofs.ScopeWrites

/-!
# The merged bindings of a scope

Expressions see all bindings on a chain merged, while single paths are looked up scope by scope. On values
that are no maps the two agree, as long as no nearer scope has something else in the way.
-/

namespace InfraConfig

namespace Value

theorem isMapLike_eq_false_iff {v : Value} : v.isMapLike = false ↔ v.entries? = none := by
  rw [isMapLike, Option.isSome_eq_false_iff, Option.isNone_iff_eq_none]

/-- Only a map written over a map is mixed with it. -/
theorem deepMerge_eq_self {old new : Value} (h : old.entries? = none ∨ new.entries? = none) :
    old.deepMerge new = new := by
  cases new with
  | map b =>
    have hold : old.entries? = none := h.resolve_right fun e => nomatch e
    rw [deepMerge, hold]
  | object b =>
    have hold : old.entries? = none := h.resolve_right fun e => nomatch e
    rw [deepMerge, hold]
  | _ => rw [deepMerge] <;> exact fun _ e => nomatch e

theorem deepMerge_eq_withEntries {old new : Value} {a b : Entries Value} (ha : old.entries? = some a)
    (hb : new.entries? = some b) : old.deepMerge new = old.withEntries (mergeEntries a b) := by
  cases new with
  | map c =>
    obtain rfl := Option.some.inj hb
    rw [deepMerge, ha]
  | object c =>
    obtain rfl := Option.some.inj hb
    rw [deepMerge, ha]
  | _ => cases hb

/-- What is there when a value is laid over what was there. -/
def laidOver (old : Option Value) (new : Value) : Value :=
  (old.map (·.deepMerge new)).getD new

theorem laidOver_of_leaf (old : Option Value) {new : Value} (h : new.entries? = none) :
    laidOver old new = new := by
  cases old with
  | none => rfl
  | some w => exact deepMerge_eq_self (.inr h)

theorem isMapLike_laidOver (old : Option Value) (new : Value) :
    (laidOver old new).isMapLike = new.isMapLike := by
  cases hb : new.entries? with
  | none => rw [laidOver_of_leaf old hb]
  | some b =>
    cases old with
    | none => rfl
    | some w =>
      cases ha : w.entries? with
      | none => simp [laidOver, deepMerge_eq_self (.inl ha)]
      | some a => simp [laidOver, deepMerge_eq_withEntries ha hb, isMapLike, hb]

theorem laidOver_of_outer {old : Option Value} (new : Value)
    (h : ∀ w, old = some w → w.entries? = none) : laidOver old new = new := by
  cases old with
  | none => rfl
  | some w => exact deepMerge_eq_self (.inl (h w rfl))

theorem entries?_laidOver (old : Option Value) {new : Value} {b : Entries Value}
    (h : new.entries? = some b) (hb : b.keys.Nodup) :
    (laidOver old new).entries? = some (mergeEntries ((old.bind entries?).getD []) b) := by
  cases old with
  | none => simp [laidOver, h, mergeEntries_nil hb]
  | some w =>
    cases ha : w.entries? with
    | none => simp [laidOver, deepMerge_eq_self (.inl ha), h, ha, mergeEntries_nil hb]
    | some a => simp [laidOver, deepMerge_eq_withEntries ha h, ha]

theorem get?_mergeEntries {more : Entries Value} (h : more.keys.Nodup) (old : Entries Value)
    (k : String) : Entries.get? (mergeEntries old more) k
      = ((more.get? k).map (laidOver (old.get? k))).or (old.get? k) := by
  induction more generalizing old with
  | nil => simp [mergeEntries]
  | cons e more ih =>
    obtain ⟨j, v⟩ := e
    obtain ⟨hj, hmore⟩ := List.nodup_cons.mp h
    have hstep : mergeEntries old ((j, v) :: more)
        = mergeEntries (old.put j (laidOver (old.get? j) v)) more := by
      rw [mergeEntries]
      cases old.get? j <;> rfl
    rw [hstep, ih hmore, Entries.get?_put, Entries.get?_cons]
    by_cases hk : k = j
    · subst hk
      have hnone : Entries.get? more k = none := (Entries.get?_eq_none_iff _ _).mpr hj
      simp [hnone]
    · simp [hk]

end Value

namespace Entries

/-- Something that is no map stands on the way to what a path leads to. -/
def Blocks (es : Entries Value) (p : ValuePath) : Prop :=
  ∃ q w, q <+: p ∧ q ≠ p ∧ es.getPath? q = some w ∧ w.isMapLike = false

/-- The maps on a path have each key once. -/
def KeyedAlong (es : Entries Value) : ValuePath → Prop
  | [] => True
  | name :: rest => es.keys.Nodup ∧ KeyedAlong (es.under name) rest

theorem Keyed.along {es : Entries Value} (h : es.Keyed) (p : ValuePath) : es.KeyedAlong p := by
  induction p generalizing es with
  | nil => trivial
  | cons name rest ih => exact ⟨h.keys, ih (h.under name)⟩

theorem blocks_cons {es : Entries Value} {name : String} {rest : ValuePath} (h : rest ≠ []) :
    es.Blocks (name :: rest)
      ↔ (∃ w, es.get? name = some w ∧ w.isMapLike = false) ∨ (es.under name).Blocks rest := by
  constructor
  · rintro ⟨q, w, hq, hne, hw, hleaf⟩
    cases q with
    | nil => cases hw
    | cons j q =>
      obtain ⟨rfl, hrest⟩ := List.cons_prefix_cons.mp hq
      cases q with
      | nil => exact .inl ⟨w, by simpa [getPath?, Value.getPath?] using hw, hleaf⟩
      | cons k q =>
        rw [getPath?_under es j (List.cons_ne_nil k q)] at hw
        exact .inr ⟨k :: q, w, hrest, fun e => hne (congrArg _ e), hw, hleaf⟩
  · rintro (⟨w, hw, hleaf⟩ | ⟨q, w, hq, hne, hw, hleaf⟩)
    · refine ⟨[name], w, ?_, ?_, ?_, hleaf⟩
      · exact List.cons_prefix_cons.mpr ⟨rfl, List.nil_prefix⟩
      · exact fun e => h (List.cons.inj e).2.symm
      · simpa [getPath?, Value.getPath?] using hw
    · have hq0 : q ≠ [] := by
        rintro rfl
        cases hw
      refine ⟨name :: q, w, List.cons_prefix_cons.mpr ⟨rfl, hq⟩, ?_, ?_, hleaf⟩
      · exact fun e => hne (List.cons.inj e).2
      · rwa [getPath?_under es name hq0]

theorem not_blocks_single (es : Entries Value) (name : String) : ¬ es.Blocks [name] := by
  rintro ⟨q, w, hq, hne, hw, -⟩
  cases q with
  | nil => cases hw
  | cons j q =>
    obtain ⟨rfl, hnil⟩ := List.cons_prefix_cons.mp hq
    obtain rfl := List.prefix_nil.mp hnil
    exact hne rfl

theorem under_mergeEntries_of_leaf {old more : Entries Value} (h : more.keys.Nodup) {name : String}
    {w : Value} (hw : more.get? name = some w) (hleaf : w.isMapLike = false) :
    under (Value.mergeEntries old more) name = [] := by
  rw [Value.isMapLike_eq_false_iff] at hleaf
  simp [under, Value.get?_mergeEntries h, hw, Value.laidOver_of_leaf _ hleaf, hleaf]

theorem under_mergeEntries {old more : Entries Value} (h : more.keys.Nodup) {name : String}
    (hmap : ¬ ∃ w, more.get? name = some w ∧ w.isMapLike = false)
    (hunder : (more.under name).keys.Nodup) :
    under (Value.mergeEntries old more) name
      = Value.mergeEntries (old.under name) (more.under name) := by
  unfold under at hunder ⊢
  rw [Value.get?_mergeEntries h]
  cases hv : more.get? name with
  | none => simp [Value.mergeEntries]
  | some v =>
    have hentries : v.entries? ≠ none := by
      intro hnone
      exact hmap ⟨v, hv, Value.isMapLike_eq_false_iff.mpr hnone⟩
    obtain ⟨b, hb⟩ := Option.ne_none_iff_exists'.mp hentries
    simp only [hv, hb, Option.bind_some, Option.getD_some] at hunder
    simp [Value.entries?_laidOver _ hb hunder, hb]

/-- A path in merged entries: what the new ones have under it lies over what was there, and where they have
nothing, what was there shows unless they block the way. -/
theorem getPath?_mergeEntries (old : Entries Value) {more : Entries Value} {p : ValuePath}
    (h : more.KeyedAlong p) :
    (∀ u, more.getPath? p = some u →
        getPath? (Value.mergeEntries old more) p = some (Value.laidOver (old.getPath? p) u))
      ∧ (more.getPath? p = none → more.Blocks p → getPath? (Value.mergeEntries old more) p = none)
      ∧ (more.getPath? p = none → ¬ more.Blocks p →
          getPath? (Value.mergeEntries old more) p = old.getPath? p) := by
  induction p generalizing old more with
  | nil => exact ⟨fun u hu => (nomatch hu), fun _ _ => rfl, fun _ _ => rfl⟩
  | cons name rest ih =>
    obtain ⟨hkeys, hrest⟩ := h
    cases rest with
    | nil =>
      have hget (es : Entries Value) : es.getPath? [name] = es.get? name := by
        simp [getPath?, Value.getPath?]
      simp only [hget, Value.get?_mergeEntries hkeys]
      refine ⟨?_, ?_, ?_⟩
      · intro u hu
        simp [hu]
      · exact fun _ hblocks => absurd hblocks (more.not_blocks_single name)
      · intro hnone _
        simp [hnone]
    | cons next rest =>
      have hne : next :: rest ≠ [] := List.cons_ne_nil next rest
      rw [getPath?_under _ name hne, getPath?_under _ name hne, getPath?_under _ name hne,
        blocks_cons hne]
      by_cases hleaf : ∃ w, more.get? name = some w ∧ w.isMapLike = false
      · obtain ⟨w, hw, hmap⟩ := hleaf
        have hunder : more.under name = [] := by
          simp [under, hw, Value.isMapLike_eq_false_iff.mp hmap]
        rw [under_mergeEntries_of_leaf hkeys hw hmap, hunder]
        refine ⟨?_, fun _ _ => rfl, fun _ hnot => ?_⟩
        · intro u hu
          cases hu
        · exact absurd (.inl ⟨w, hw, hmap⟩) hnot
      · rw [under_mergeEntries hkeys hleaf hrest.1, or_iff_right hleaf]
        exact ih _ hrest

end Entries

namespace Scopes

/-- The bindings of several scopes, the nearest first, merged. -/
def layers (s : Scopes) (ids : List ScopeId) : Entries Value :=
  ids.foldr (fun i acc => Value.mergeEntries acc (s.bindings i)) []

theorem merged_eq_layers (s : Scopes) (c : ScopeId) : s.merged c = s.layers (s.chain c) := rfl

theorem layers_cons (s : Scopes) (i : ScopeId) (ids : List ScopeId) :
    s.layers (i :: ids) = Value.mergeEntries (s.layers ids) (s.bindings i) := rfl

/-- A scope in which a path leads nowhere and which has nothing in the way of it. -/
structure Passes (s : Scopes) (p : ValuePath) (i : ScopeId) : Prop where
  keyed : (s.bindings i).KeyedAlong p
  absent : (s.bindings i).getPath? p = none
  free : ¬ (s.bindings i).Blocks p

/-- Scopes that a path passes do not count. -/
theorem getPath?_layers_of_passes {s : Scopes} {p : ValuePath} {nearer : List ScopeId}
    (h : ∀ j ∈ nearer, s.Passes p j) (farther : List ScopeId) :
    (s.layers (nearer ++ farther)).getPath? p = (s.layers farther).getPath? p := by
  induction nearer with
  | nil => rfl
  | cons j nearer ih =>
    rw [List.forall_mem_cons] at h
    obtain ⟨hj, hnearer⟩ := h
    rw [List.cons_append, layers_cons]
    exact ((Entries.getPath?_mergeEntries _ hj.keyed).2.2 hj.absent hj.free).trans (ih hnearer)

/-- What the nearest scope with a path holds under it lies over what the scopes farther out hold. -/
theorem getPath?_layers {s : Scopes} {p : ValuePath} {nearer farther : List ScopeId} {m : ScopeId}
    {u : Value} (h : ∀ j ∈ nearer, s.Passes p j) (hm : (s.bindings m).KeyedAlong p)
    (hu : (s.bindings m).getPath? p = some u) :
    (s.layers (nearer ++ m :: farther)).getPath? p
      = some (Value.laidOver ((s.layers farther).getPath? p) u) := by
  rw [getPath?_layers_of_passes h, layers_cons]
  exact (Entries.getPath?_mergeEntries _ hm).1 u hu

theorem exists_of_getPath?_layers {s : Scopes} {p : ValuePath} {ids : List ScopeId}
    (hkeyed : ∀ j ∈ ids, (s.bindings j).KeyedAlong p) {w : Value}
    (hw : (s.layers ids).getPath? p = some w) (hleaf : w.isMapLike = false) :
    ids.findSome? (fun i => (s.bindings i).getPath? p) = some w := by
  induction ids with
  | nil => cases p <;> cases hw
  | cons j ids ih =>
    rw [List.forall_mem_cons] at hkeyed
    obtain ⟨hj, hids⟩ := hkeyed
    obtain ⟨hfound, hblocked, hpassed⟩ := Entries.getPath?_mergeEntries (s.layers ids) hj
    rw [layers_cons] at hw
    rw [List.findSome?_cons]
    cases hu : (s.bindings j).getPath? p with
    | some u =>
      have hwu : Value.laidOver ((s.layers ids).getPath? p) u = w :=
        Option.some.inj ((hfound u hu).symm.trans hw)
      have huleaf : u.isMapLike = false := by rw [← hleaf, ← hwu, Value.isMapLike_laidOver]
      rw [Value.isMapLike_eq_false_iff] at huleaf
      exact congrArg some ((Value.laidOver_of_leaf _ huleaf).symm.trans hwu)
    | none =>
      by_cases hb : (s.bindings j).Blocks p
      · rw [hblocked hu hb] at hw
        cases hw
      · rw [hpassed hu hb] at hw
        exact ih hids hw

/-- Lookups and the merged bindings agree on values that are no maps. -/
theorem merged_agrees_on_leaves {s : Scopes} (hs : s.Built) (c : ScopeId) (p : ValuePath) :
    (∀ w, (s.merged c).getPath? p = some w → w.isMapLike = false → s.get? c p = some w)
      ∧ (∀ u nearer m farther, s.chain c = nearer ++ m :: farther →
          (∀ j ∈ nearer, (s.bindings j).getPath? p = none) → (s.bindings m).getPath? p = some u →
          u.isMapLike = false → (∀ j ∈ nearer, ¬ (s.bindings j).Blocks p) →
          s.get? c p = some u ∧ (s.merged c).getPath? p = some u) := by
  have hkeyed (j : ScopeId) : (s.bindings j).KeyedAlong p := (hs.keyed j).along p
  constructor
  · intro w hw hleaf
    exact exists_of_getPath?_layers (fun j _ => hkeyed j) hw hleaf
  · intro u nearer m farther hchain hnone hu hleaf hfree
    refine ⟨(s.get?_eq_some_iff c p u).mpr ⟨nearer, m, farther, hchain, hnone, hu⟩, ?_⟩
    have hpass : ∀ j ∈ nearer, s.Passes p j := fun j hj => ⟨hkeyed j, hnone j hj, hfree j hj⟩
    rw [merged_eq_layers, hchain, getPath?_layers hpass (hkeyed m) hu,
      Value.laidOver_of_leaf _ (Value.isMapLike_eq_false_iff.mp hleaf)]

/-- A scope that has part of a map, which the root completes. -/
theorem merged_agrees_on_leaves_of_child :
    let s := ((empty.newRoot.2.newChild 0).2.set 0 (.int 3) ["a", "b", "z"]).set 1 (.int 2) ["a", "b", "x"]
    s.Built ∧ s.chain 1 = [1, 0]
      ∧ (s.get? 1 ["a", "b", "x"] = some (.int 2) ∧ (s.merged 1).getPath? ["a", "b", "x"] = some (.int 2))
      ∧ (s.get? 1 ["a", "b", "z"] = some (.int 3) ∧ (s.merged 1).getPath? ["a", "b", "z"] = some (.int 3))
      ∧ s.get? 1 ["a", "b", "z"] = some (.int 3) := by
  intro s
  have hint (n : Int) : (Value.int n).Keyed := Value.keyed_iff.mpr fun _ h => nomatch h
  have htree := Built.empty.newRoot.newChild (p := 0) (by decide)
  have hs : s.Built := (htree.set (by decide) (hint 3)).set (by decide) (hint 2)
  have hfree : ¬ (s.bindings 1).Blocks ["a", "b", "z"] := by
    have hone : s.bindings 1 = [("a", .object [("b", .object [("x", .int 2)])])] := rfl
    rw [hone, Entries.blocks_cons (List.cons_ne_nil _ _), Entries.blocks_cons (List.cons_ne_nil _ _)]
    rintro (⟨w, hw, hleaf⟩ | ⟨w, hw, hleaf⟩ | hlast)
    · obtain rfl := Option.some.inj hw
      cases hleaf
    · obtain rfl := Option.some.inj hw
      cases hleaf
    · exact Entries.not_blocks_single _ _ hlast
  obtain ⟨hmerged, hfound⟩ := merged_agrees_on_leaves hs 1 ["a", "b", "z"]
  have hz := hfound (.int 3) [1] 0 [] rfl (by simp; rfl) rfl rfl (by simpa using hfree)
  refine ⟨hs, rfl, ?_, hz, ?_⟩
  · exact (merged_agrees_on_leaves hs 1 ["a", "b", "x"]).2 (.int 2) [] 1 [0] rfl (by simp) rfl rfl
      (by simp)
  · exact hmerged (.int 3) hz.2 rfl

end Scopes

end InfraConfig
