import InfraConfig.Expansion
import InfraConfig.Proofs.MergedScopes
import Mathlib.Data.List.Induction

/-!
# What the scope of an instance holds

An instance knows its index or element by the bindings of a scope of its own. They are two levels deep: names,
and what is known under each of them. So no binding of an instance stands in the way of others.
-/

namespace InfraConfig

/-- The bindings of an instance: its index, if that is a number, and key and value under some names. -/
def instanceBindings (names : List String) (key value : Value) : Entries Value :=
  names.foldl (fun es name => (es.setPath key [name, "key"]).setPath value [name, "value"])
    (if Arena.isNumber key then Entries.setPath [] key ["count", "index"] else [])

/-- If the value is a map, it has no key twice. -/
def Value.HasDistinctKeys (v : Value) : Prop :=
  ∀ es, v.entries? = some es → es.keys.Nodup

/-- The keys of instances are numbers and texts. -/
theorem Value.key_cases {key : Value} (h : (InstanceKey.ofValue? key).isSome) :
    (∃ n, key = .number n) ∨ ∃ s, key = .text s := by
  cases key with
  | number n => exact .inl ⟨n, rfl⟩
  | text s => exact .inr ⟨s, rfl⟩
  | _ => cases h

theorem Value.entries?_of_key {key : Value} (h : (InstanceKey.ofValue? key).isSome) : key.entries? = none := by
  rcases key_cases h with ⟨n, rfl⟩ | ⟨s, rfl⟩ <;> rfl

/-- A value that stands for plain data: nothing in it is unknown. -/
def Value.IsData (v : Value) : Prop :=
  ∃ d, v = .ofDatum d

theorem Value.isData_of_mem_items {items : List Datum} {v : Value} (h : v ∈ ofDatumItems items) : v.IsData := by
  induction items with
  | nil => cases h
  | cons d items ih =>
    rw [ofDatumItems] at h
    rcases List.mem_cons.mp h with rfl | h
    · exact ⟨d, rfl⟩
    · exact ih h

theorem Value.isData_of_mem_entries {entries : List (String × Datum)} {e : String × Value}
    (h : e ∈ ofDatumEntries entries) : e.2.IsData := by
  induction entries with
  | nil => cases h
  | cons f entries ih =>
    rw [ofDatumEntries] at h
    rcases List.mem_cons.mp h with rfl | h
    · exact ⟨f.2, rfl⟩
    · exact ih h

theorem Value.isData_of_mem_elements {collection : Value} (h : collection.IsData) {element : Value × Value}
    (he : element ∈ collection.elements) : element.2.IsData := by
  obtain ⟨d, rfl⟩ := h
  cases d with
  | list items =>
    obtain ⟨p, hp, rfl⟩ := List.mem_map.mp he
    exact isData_of_mem_items (List.fst_mem_of_mem_zipIdx hp)
  | object entries =>
    obtain ⟨e, hmem, rfl⟩ := List.mem_map.mp he
    exact isData_of_mem_entries ((Entries.perm_sorted _).mem_iff.mp hmem)
  | _ => cases he

theorem isData_of_mem_instanceElements {collection : Value} {byValue : Bool} (h : collection.IsData)
    {element : Value × Value} (he : element ∈ instanceElements collection byValue) : element.2.IsData := by
  rw [instanceElements] at he
  split at he
  · obtain ⟨e, hmem, rfl⟩ := List.mem_map.mp he
    have hdata : e.2.IsData := Value.isData_of_mem_elements h hmem
    exact hdata
  · exact Value.isData_of_mem_elements h he

theorem Arena.isData_value (a : Arena) (b : Block) (attr : Attribute) : (a.value b attr).IsData := by
  rw [value, evaluate]
  split
  · next d _ => exact ⟨d, rfl⟩
  · split
    · exact ⟨.null, rfl⟩
    · exact ⟨.null, rfl⟩

theorem Value.mergeInto_self {v : Value} (h : v.HasDistinctKeys) : v.mergeInto v = v := by
  unfold mergeInto
  cases hv : v.entries? with
  | none => rfl
  | some es =>
    dsimp only
    split
    · rfl
    · have hall : ∀ more : Entries Value, (∀ e ∈ more, es.get? e.1 = some e.2) → es.putAll more = es := by
        intro more
        induction more with
        | nil => exact fun _ => rfl
        | cons e more ih =>
          intro hmore
          rw [List.forall_mem_cons] at hmore
          rw [Entries.putAll_cons, Entries.put_eq_self hmore.1]
          exact ih hmore.2
      rw [hall es fun e he => Entries.get?_of_mem (h es hv) he]
      cases v with
      | map entries => exact congrArg Value.map (Option.some.inj hv).symm
      | object entries => exact congrArg Value.object (Option.some.inj hv).symm
      | _ => cases hv

namespace Entries

/-- All entries are objects that have no key twice. -/
structure TwoLevels (es : Entries Value) : Prop where
  keys : es.keys.Nodup
  objects : ∀ k v, es.get? k = some v → ∃ inner : Entries Value, v = .object inner ∧ inner.keys.Nodup

theorem TwoLevels.nil : TwoLevels [] := ⟨List.nodup_nil, fun _ _ h => nomatch h⟩

theorem TwoLevels.nodup_under {es : Entries Value} (h : es.TwoLevels) (name : String) :
    (es.under name).keys.Nodup := by
  unfold under
  cases hv : es.get? name with
  | none => exact List.nodup_nil
  | some v =>
    obtain ⟨inner, rfl, hinner⟩ := h.objects name v hv
    exact hinner

theorem TwoLevels.setPath {es : Entries Value} (h : es.TwoLevels) (v : Value) (name member : String) :
    (es.setPath v [name, member]).TwoLevels where
  keys := nodup_keys_setPath h.keys v _
  objects := by
    intro k w hw
    by_cases hk : k = name
    · subst hk
      have hwritten : ∃ inner : Entries Value, (es.setPath v [k, member]).get? k = some (.object inner)
          ∧ inner.keys.Nodup := by
        rw [Entries.setPath]
        · split
          · next inner hold =>
            obtain ⟨other, hother, -⟩ := h.objects k _ hold
            cases hother
          · next inner hold =>
            obtain ⟨other, hother, hinner⟩ := h.objects k _ hold
            obtain rfl := Value.object.inj hother
            exact ⟨_, by rw [get?_put, if_pos rfl], nodup_keys_setPath hinner v _⟩
          · exact ⟨_, by rw [get?_put, if_pos rfl], nodup_keys_setPath nodup_keys_nil v _⟩
        · exact List.cons_ne_nil member []
      obtain ⟨inner, hinner, hkeys⟩ := hwritten
      exact ⟨inner, Option.some.inj (hw.symm.trans hinner), hkeys⟩
    · rw [get?_setPath_of_ne es v [member] hk] at hw
      exact h.objects k w hw

theorem TwoLevels.keyedAlong {es : Entries Value} (h : es.TwoLevels) (name member : String) :
    es.KeyedAlong [name, member] :=
  ⟨h.keys, h.nodup_under name, trivial⟩

theorem TwoLevels.not_blocks {es : Entries Value} (h : es.TwoLevels) (name member : String) :
    ¬ es.Blocks [name, member] := by
  rw [blocks_cons (List.cons_ne_nil member [])]
  rintro (⟨w, hw, hleaf⟩ | hblocks)
  · obtain ⟨inner, rfl, -⟩ := h.objects name w hw
    cases hleaf
  · exact not_blocks_single _ member hblocks

theorem getPath?_setPath_pair (es : Entries Value) (v : Value) {name member name' member' : String}
    (h : name' ≠ name ∨ member' ≠ member) :
    (es.setPath v [name, member]).getPath? [name', member'] = es.getPath? [name', member'] := by
  have hne : [name', member'] ≠ [name, member] := by
    intro he
    rcases h with h | h
    · exact h (List.cons.inj he).1
    · exact h (List.cons.inj (List.cons.inj he).2).1
  have hlength : [name', member'].length = [name, member].length := rfl
  refine getPath?_setPath_of_apart es v ⟨fun hfront => ?_, fun hfront => ?_⟩
  · exact hne (hfront.eq_of_length hlength.symm).symm
  · exact hne (hfront.eq_of_length hlength)

end Entries

namespace instanceBindings

variable {names : List String} {key value : Value}

theorem twoLevels (names : List String) (key value : Value) :
    (instanceBindings names key value).TwoLevels := by
  refine List.foldlRecOn names _ ?_ fun es hes name _ => ?_
  · split
    · exact Entries.TwoLevels.nil.setPath key "count" "index"
    · exact .nil
  · exact (hes.setPath key name "key").setPath value name "value"

theorem snoc (names : List String) (name : String) (key value : Value) :
    instanceBindings (names ++ [name]) key value
      = ((instanceBindings names key value).setPath key [name, "key"]).setPath value [name, "value"] := by
  rw [instanceBindings, List.foldl_append]
  rfl

theorem nil_index (h : Arena.isNumber key = true) :
    (instanceBindings [] key value).getPath? ["count", "index"] = some key := by
  rw [instanceBindings, List.foldl_nil, if_pos h]
  rfl

theorem nil_member {name member : String} (h : member ≠ "index") :
    (instanceBindings [] key value).getPath? [name, member] = none := by
  rw [instanceBindings, List.foldl_nil]
  split
  · rw [Entries.getPath?_setPath_pair [] key (.inr h)]
    rfl
  · rfl

/-- The index of an instance with a number as key is known, and no other. -/
theorem index (names : List String) (key value : Value) :
    (instanceBindings names key value).getPath? ["count", "index"]
      = if Arena.isNumber key then some key else none := by
  induction names using List.reverseRecOn with
  | nil =>
    split
    · next h => exact nil_index h
    · next h =>
      rw [instanceBindings, List.foldl_nil, if_neg h]
      rfl
  | append_singleton names name ih =>
    rw [snoc, Entries.getPath?_setPath_pair _ _ (.inr (by decide)),
      Entries.getPath?_setPath_pair _ _ (.inr (by decide)), ih]

/-- Names that an instance does not bind are left to the scopes around it. -/
theorem of_not_mem {name member : String} (hname : name ∉ names) (hmember : member ≠ "index") :
    (instanceBindings names key value).getPath? [name, member] = none := by
  induction names using List.reverseRecOn with
  | nil => exact nil_member hmember
  | append_singleton names last ih =>
    have hlast : name ≠ last := fun e => hname (by simp [e])
    have hnames : name ∉ names := fun hmem => hname (List.mem_append_left _ hmem)
    rw [snoc, Entries.getPath?_setPath_pair _ _ (.inl hlast),
      Entries.getPath?_setPath_pair _ _ (.inl hlast), ih hnames]

theorem mem_key (hkey : key.entries? = none) {name : String} (hname : name ∈ names) :
    (instanceBindings names key value).getPath? [name, "key"] = some key := by
  induction names using List.reverseRecOn with
  | nil => cases hname
  | append_singleton names last ih =>
    rw [snoc, Entries.getPath?_setPath_pair _ _ (.inr (by decide))]
    by_cases hlast : name = last
    · subst hlast
      rw [Entries.getPath?_setPath_self _ _ (List.cons_ne_nil _ _)]
      cases (instanceBindings names key value).getPath? [name, "key"] with
      | none => rfl
      | some old =>
        have hmerge : old.mergeInto key = key :=
          Value.mergeInto_eq_self fun a b _ hb => nomatch hkey.symm.trans hb
        exact congrArg some hmerge
    · rw [Entries.getPath?_setPath_pair _ _ (.inl hlast)]
      refine ih ((List.mem_append.mp hname).resolve_right ?_)
      exact fun hmem => hlast (List.mem_singleton.mp hmem)

/-- A name may be bound twice; the second write of the same value changes nothing then. -/
theorem mem_value (hvalue : names.Nodup ∨ value.HasDistinctKeys) {name : String} (hname : name ∈ names) :
    (instanceBindings names key value).getPath? [name, "value"] = some value := by
  induction names using List.reverseRecOn with
  | nil => cases hname
  | append_singleton names last ih =>
    have hinit : names.Nodup ∨ value.HasDistinctKeys := hvalue.imp_left fun h => (List.nodup_append.mp h).1
    rw [snoc]
    by_cases hlast : name = last
    · subst hlast
      rw [Entries.getPath?_setPath_self _ _ (List.cons_ne_nil _ _),
        Entries.getPath?_setPath_pair _ _ (.inr (by decide))]
      by_cases hmem : name ∈ names
      · have hdistinct : value.HasDistinctKeys := by
          refine hvalue.resolve_left fun h => ?_
          exact (List.nodup_append.mp h).2.2 name hmem name (List.mem_singleton_self name) rfl
        rw [ih hinit hmem]
        exact congrArg some (Value.mergeInto_self hdistinct)
      · rw [of_not_mem hmem (by decide)]
        rfl
    · rw [Entries.getPath?_setPath_pair _ _ (.inl hlast), Entries.getPath?_setPath_pair _ _ (.inl hlast)]
      refine ih hinit ((List.mem_append.mp hname).resolve_right ?_)
      exact fun hmem => hlast (List.mem_singleton.mp hmem)

end instanceBindings

end InfraConfig
