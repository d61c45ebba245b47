import InfraConfig.Proofs.CountedInstances
import InfraConfig.Proofs.KeyTexts

/-!
# Instances of elements

A round of elements replaces each block that is repeated by a `for_each` over a collection by one instance for each
element, in its place. Their labels differ where the keys of the elements do, which are those of a map, the texts of a
list of texts, or else positions.
-/

namespace InfraConfig

/-! ## Elements of a collection -/

/-- The elements of a collection with their keys: maps in ascending order, lists of texts by the texts themselves, and
other lists by position. -/
def keyedElements (collection : Value) : List (Value × Value) :=
  match collection.entries?, collection.items? with
  | some entries, _ => (Entries.sorted entries).map fun e => (.text e.1, e.2)
  | none, some items =>
    if items.all fun v => v.text?.isSome then items.map fun v => (v, v)
    else items.zipIdx.map fun p => (.int p.2, p.1)
  | none, none => []

/-- The keys of the instances for a collection. -/
def instanceKeysOf (collection : Value) : List (Option InstanceKey) :=
  (keyedElements collection).map fun element => InstanceKey.ofValue? element.1

theorem instanceElements_eq_keyedElements (collection : Value) :
    instanceElements collection (isTextList collection) = keyedElements collection := by
  have hlist (items : List Value) :
      (if (items.all fun v => v.text?.isSome) = true
        then (items.zipIdx.map fun p : Value × Nat => ((.int p.2, p.1) : Value × Value)).map fun e => (e.2, e.2)
        else items.zipIdx.map fun p : Value × Nat => (.int p.2, p.1))
      = if (items.all fun v => v.text?.isSome) = true then items.map fun v => (v, v)
        else items.zipIdx.map fun p => (.int p.2, p.1) := by
    congr 1
    calc (items.zipIdx.map fun p : Value × Nat => ((.int p.2, p.1) : Value × Value)).map (fun e => (e.2, e.2))
        = (items.zipIdx.map Prod.fst).map fun v => (v, v) := by rw [List.map_map, List.map_map]; rfl
      _ = items.map fun v => (v, v) := by rw [List.zipIdx_map_fst]
  cases collection with
  | list items => exact hlist items
  | set items => exact hlist items
  | _ => rfl

/-- The keys of a map are those of its entries, in ascending order. -/
theorem instanceKeysOf_map {collection : Value} {entries : Entries Value} (h : collection.entries? = some entries)
    (hdistinct : entries.keys.Nodup) : ∃ names : List String, instanceKeysOf collection = names.map (some <| .name ·)
      ∧ names.Pairwise (· < ·) ∧ names.Perm entries.keys := by
  refine ⟨(Entries.sorted entries).keys, ?_, Entries.keys_sorted hdistinct⟩
  rw [instanceKeysOf, keyedElements, h]
  dsimp only
  rw [List.map_map, Entries.keys, List.map_map]
  rfl

/-- The keys of a list of texts are the texts. -/
theorem instanceKeysOf_texts {collection : Value} {texts : List String}
    (h : collection.items? = some (texts.map .text)) :
    instanceKeysOf collection = texts.map (some <| .name ·) := by
  have hnone : collection.entries? = none := by cases collection <;> first | rfl | cases h
  have hall : ((texts.map Value.text).all fun v => v.text?.isSome) = true := by simp [Value.text?]
  rw [instanceKeysOf, keyedElements, hnone, h]
  dsimp only
  rw [if_pos hall, List.map_map, List.map_map]
  rfl

theorem exists_texts {items : List Value} (h : (items.all fun v => v.text?.isSome) = true) :
    ∃ texts : List String, items = texts.map .text := by
  induction items with
  | nil => exact ⟨[], rfl⟩
  | cons v items ih =>
    rw [List.all_cons, Bool.and_eq_true] at h
    obtain ⟨hv, hitems⟩ := h
    obtain ⟨texts, rfl⟩ := ih hitems
    cases v with
    | text s => exact ⟨s :: texts, rfl⟩
    | _ => cases hv

/-- The keys of another list are positions. -/
theorem instanceKeysOf_positions {collection : Value} {items : List Value} (h : collection.items? = some items)
    (hother : (items.all fun v => v.text?.isSome) = false) (hlength : items.length ≤ int64Limit) :
    instanceKeysOf collection = (List.range items.length).map fun i : Nat => some (.index i) := by
  have hnone : collection.entries? = none := by cases collection <;> first | rfl | cases h
  rw [instanceKeysOf, keyedElements, hnone, h]
  dsimp only
  rw [if_neg (by simp [hother]), List.map_map]
  refine List.ext_getElem (by simp) fun i hi hi' => ?_
  have hlt : (i : Int) ≤ int64Limit - 1 := by
    simp at hi
    omega
  simp only [List.getElem_map, List.getElem_zipIdx, Function.comp_apply, List.getElem_range, Nat.zero_add]
  rw [Value.int, InstanceKey.ofValue?, Number.toInt64, Int.min_eq_left hlt]

/-- Only a list with a text in it twice has a key twice. -/
theorem nodup_instanceKeysOf {collection : Value}
    (hmaps : ∀ entries, collection.entries? = some entries → entries.keys.Nodup)
    (htexts : ∀ texts : List String, collection.items? = some (texts.map .text) → texts.Nodup)
    (hlists : ∀ items, collection.items? = some items → items.length ≤ int64Limit) :
    (instanceKeysOf collection).Nodup := by
  have hname : Function.Injective fun name : String => some (InstanceKey.name name) := by
    intro s t h
    exact InstanceKey.name.inj (Option.some.inj h)
  have hindex : Function.Injective fun i : Nat => some (InstanceKey.index i) := by
    intro i j h
    exact Int.ofNat_inj.mp (InstanceKey.index.inj (Option.some.inj h))
  cases hentries : collection.entries? with
  | some entries =>
    obtain ⟨names, hkeys, hascending, -⟩ := instanceKeysOf_map hentries (hmaps entries hentries)
    rw [hkeys]
    refine List.Nodup.map hname (hascending.imp fun hlt heq => ?_)
    rw [heq] at hlt
    exact String.lt_irrefl _ hlt
  | none =>
    cases hitems : collection.items? with
    | none =>
      rw [instanceKeysOf, keyedElements, hentries, hitems]
      exact List.nodup_nil
    | some items =>
      by_cases hall : (items.all fun v => v.text?.isSome) = true
      · obtain ⟨texts, rfl⟩ := exists_texts hall
        rw [instanceKeysOf_texts hitems]
        exact (htexts texts hitems).map hname
      · rw [instanceKeysOf_positions hitems (Bool.not_eq_true _ ▸ hall) (hlists items hitems)]
        exact List.nodup_range.map hindex

/-! ## Rounds of elements -/

namespace Arena

variable {a moment final : Arena} {root : ScopeId} {id : BlockId} {ids group : List BlockId}

/-- The names under which a block that is not `dynamic` knows its element. -/
def eachNames (b : Block) : List String :=
  ["each", b.iteratorName]

/-- An instance for an element, which its own scope knows under the names of the block. A name may be bound twice,
where the second time changes nothing. -/
structure ElementInstance (a final : Arena) (id : BlockId) (element : Value × Value) (made : BlockId) : Prop where
  copied : ∃ key, InstanceKey.ofValue? element.1 = some key ∧ Copied a final id (a.block id).scope key
    (instanceBindings (eachNames (a.block id)) element.1 element.2) made
  key : ∀ name ∈ eachNames (a.block id),
    (final.scopes.bindings (final.block made).scope).getPath? [name, "key"] = some element.1
  value : (eachNames (a.block id)).Nodup ∨ element.2.HasDistinctKeys → ∀ name ∈ eachNames (a.block id),
    (final.scopes.bindings (final.block made).scope).getPath? [name, "value"] = some element.2

/-- The instances of a block for a collection. -/
structure PerElement (a final : Arena) (id : BlockId) (collection : Value) (group : List BlockId) : Prop where
  instances : List.Forall₂ (ElementInstance a final id) (keyedElements collection) group
  mapKeys : ∀ entries, collection.entries? = some entries → entries.keys.Nodup → ∃ names : List String,
    instanceKeysOf collection = names.map (some <| .name ·) ∧ names.Pairwise (· < ·) ∧ names.Perm entries.keys
  textKeys : ∀ texts : List String, collection.items? = some (texts.map .text) →
    instanceKeysOf collection = texts.map (some <| .name ·)
  positionKeys : ∀ items, collection.items? = some items → (items.all fun v => v.text?.isSome) = false →
    items.length ≤ int64Limit → instanceKeysOf collection = (List.range items.length).map fun i : Nat => some (.index i)
  /-- Without labels there is nothing to tell instances apart by. -/
  distinct : (a.block id).labels ≠ [] →
    ((group.map fun made => (final.block made).labels.getLast?).Nodup ↔ (instanceKeysOf collection).Nodup)
  named : (a.block id).attribute? "iterator" = none → eachNames (a.block id) = ["each", (a.block id).typeLabel]
  onlyTextsRepeat : (∀ entries, collection.entries? = some entries → entries.keys.Nodup) →
    (∀ texts : List String, collection.items? = some (texts.map .text) → texts.Nodup) →
    (∀ items, collection.items? = some items → items.length ≤ int64Limit) → (instanceKeysOf collection).Nodup

theorem items?_of_collection {attr : Attribute} (h : (a.block id).IsRepeatedBy .forEach)
    (hattr : (a.block id).attribute? "for_each" = some attr)
    (hcollection : (a.value (a.block id) attr).isIterable = true) :
    a.items? id .forEach = some ((keyedElements (a.value (a.block id) attr)).map fun element =>
      ⟨eachNames (a.block id), element.1, element.2⟩) := by
  have happlies := (a.block id).isExpandable_iff.mpr ⟨h.1, h.2.1⟩
  have hkind : ((a.block id).kind == .dynamic) = false := by
    rcases h.1 with hkind | hkind | hkind <;> rw [hkind] <;> rfl
  rw [items?, hattr, Option.bind_some, hkind, happlies, ← instanceElements_eq_keyedElements]
  dsimp only
  rw [hcollection]
  rfl

theorem items?_of_no_collection (hkind : (a.block id).kind ≠ .dynamic)
    (h : ∀ attr, (a.block id).IsRepeatedBy .forEach → (a.block id).attribute? "for_each" = some attr →
      (a.value (a.block id) attr).isIterable = false) : a.items? id .forEach = none := by
  rw [items?]
  cases hattr : (a.block id).attribute? "for_each" with
  | none => rfl
  | some attr =>
    rw [Option.bind_some]
    dsimp only
    rw [if_neg]
    intro happlies
    rw [Bool.and_eq_true, Bool.or_eq_true, Bool.and_eq_true, beq_iff_eq] at happlies
    obtain ⟨hexpandable | hdynamic, hcollection⟩ := happlies
    · obtain ⟨hkinds, hplain⟩ := (a.block id).isExpandable_iff.mp hexpandable
      have hasked : (a.block id).IsRepeatedBy .forEach := ⟨hkinds, hplain, Option.isSome_iff_exists.mpr ⟨attr, hattr⟩⟩
      rw [h attr hasked hattr] at hcollection
      cases hcollection
    · exact hkind hdynamic.1

theorem ElementInstance.ofCopied {element : Value × Value} {made : BlockId} {key : InstanceKey}
    (hkey : InstanceKey.ofValue? element.1 = some key) (h : Copied a final id (a.block id).scope key
      (instanceBindings (eachNames (a.block id)) element.1 element.2) made) :
    ElementInstance a final id element made := by
  have hsimple : element.1.entries? = none := Value.entries?_of_key (Option.isSome_iff_exists.mpr ⟨key, hkey⟩)
  refine ⟨⟨key, hkey, h⟩, fun name hname => ?_, fun hdistinct name hname => ?_⟩
  · rw [h.bindings]
    exact instanceBindings.mem_key hsimple hname
  · rw [h.bindings]
    exact instanceBindings.mem_value hdistinct hname

/-- Instances of a block with labels are told apart by their keys. -/
theorem nodup_labels_iff {elements : List (Value × Value)} (hlabels : (a.block id).labels ≠ [])
    (h : List.Forall₂ (ElementInstance a final id) elements group) :
    (group.map fun made => (final.block made).labels.getLast?).Nodup
      ↔ (elements.map fun element => InstanceKey.ofValue? element.1).Nodup := by
  have hlabel {element : Value × Value} {made : BlockId} (h : ElementInstance a final id element made) :
      ∃ key, InstanceKey.ofValue? element.1 = some key
        ∧ (final.block made).labels = extendLabel (a.block id).labels key.text := by
    obtain ⟨key, hkey, hcopied⟩ := h.copied
    exact ⟨key, hkey, hcopied.labels⟩
  induction h with
  | nil => exact ⟨fun _ => List.nodup_nil, fun _ => List.nodup_nil⟩
  | @cons element made elements group hfirst hrest ih =>
    rw [List.map_cons, List.map_cons, List.nodup_cons, List.nodup_cons]
    refine and_congr (not_congr ?_) ih
    obtain ⟨key, hkey, hown⟩ := hlabel hfirst
    rw [List.mem_map, List.mem_map]
    constructor
    · rintro ⟨other, hother, hsame⟩
      obtain ⟨e, he, hstands⟩ := exists_of_mem_forall₂ hrest hother
      obtain ⟨l, hl, hlabels'⟩ := hlabel hstands
      rw [hown, hlabels'] at hsame
      exact ⟨e, he, by rw [hl, hkey, getLast?_extendLabel_inj hlabels hsame]⟩
    · rintro ⟨e, he, hsame⟩
      obtain ⟨other, hother, hstands⟩ := exists_of_mem_forall₂ hrest.flip he
      obtain ⟨l, hl, hlabels'⟩ := hlabel hstands
      obtain rfl : l = key := Option.some.inj (hl.symm.trans (hsame.trans hkey))
      exact ⟨other, hother, by rw [hown, hlabels']⟩

theorem eachNames_of_no_iterator {b : Block} (h : b.attribute? "iterator" = none) :
    eachNames b = ["each", b.typeLabel] := by
  rw [eachNames, Block.iteratorName, h]
  rfl

theorem Regrouped.perElement (h : Regrouped root .forEach a moment final id group) (hmoment : Retains root a moment)
    (hid : id < a.blocks.size) {attr : Attribute} (hasked : (a.block id).IsRepeatedBy .forEach)
    (hattr : (a.block id).attribute? "for_each" = some attr)
    (hcollection : (moment.value (a.block id) attr).isIterable = true) :
    PerElement a final id (moment.value (a.block id) attr) group := by
  let collection := moment.value (a.block id) attr
  have hvalue : moment.value (moment.block id) attr = collection := hmoment.value hid attr
  have hitems := items?_of_collection ((hmoment.isRepeatedBy hid).mpr hasked) ((hmoment.attribute? hid _).trans hattr)
    (hvalue ▸ hcollection)
  rw [hvalue, hmoment.part_eq eachNames (by intro _; rfl) hid] at hitems
  have hcopied := h.copied hmoment hid hitems
  rw [List.forall₂_map_left_iff] at hcopied
  have hinstances : List.Forall₂ (ElementInstance a final id) (keyedElements collection) group := by
    refine forall₂_imp_of_mem hcopied fun element helement made _ hone => ?_
    rw [← instanceElements_eq_keyedElements] at helement
    obtain ⟨key, hkey⟩ := Option.isSome_iff_exists.mp (isSome_ofValue?_of_mem (fun hby => hby) helement)
    rw [Item.instanceKey_eq hkey] at hone
    exact .ofCopied hkey hone
  exact ⟨hinstances, fun _ hentries => instanceKeysOf_map hentries, fun _ htexts => instanceKeysOf_texts htexts,
    fun _ hitems => instanceKeysOf_positions hitems, fun hlabels => nodup_labels_iff hlabels hinstances,
    eachNames_of_no_iterator, nodup_instanceKeysOf⟩

theorem Regrouped.unchanged (h : Regrouped root .forEach a moment final id group) (hmoment : Retains root a moment)
    (hid : id < a.blocks.size) (hkind : (a.block id).kind ≠ .dynamic)
    (hnone : ∀ attr, (a.block id).IsRepeatedBy .forEach → (a.block id).attribute? "for_each" = some attr →
      (moment.value (a.block id) attr).isIterable = false) : group = [id] := by
  refine h.itself (items?_of_no_collection ?_ fun attr hasked hattr => ?_)
  · rwa [hmoment.part_eq Block.kind (by intro _; rfl) hid]
  · rw [hmoment.value hid]
    exact hnone attr ((hmoment.isRepeatedBy hid).mp hasked) ((hmoment.attribute? hid _).symm.trans hattr)

/-- What a round of elements makes of a list of blocks, with the groups that stand for each of them. -/
structure ElementRound (root : ScopeId) (a : Arena) (ids : List BlockId) (groups : List (List BlockId)) : Prop where
  inPlace : (a.expandForEach root ids).1 = groups.flatten
  length : groups.length = ids.length
  replaced : ∀ k (h : k < ids.length) (h' : k < groups.length) attr, (a.block ids[k]).IsRepeatedBy .forEach →
    (a.block ids[k]).attribute? "for_each" = some attr →
    ((a.expandForEach root (ids.take k)).2.value (a.block ids[k]) attr).isIterable = true →
    PerElement a (a.expandForEach root ids).2 ids[k]
      ((a.expandForEach root (ids.take k)).2.value (a.block ids[k]) attr) groups[k]
  unchanged : ∀ k (h : k < ids.length) (h' : k < groups.length), (a.block ids[k]).kind ≠ .dynamic →
    (∀ attr, (a.block ids[k]).IsRepeatedBy .forEach → (a.block ids[k]).attribute? "for_each" = some attr →
      ((a.expandForEach root (ids.take k)).2.value (a.block ids[k]) attr).isIterable = false) → groups[k] = [ids[k]]
  /-- All instances are new, each in a new scope of its own. -/
  fresh : Fresh a (a.expandForEach root ids).2 ((a.expandForEach root ids).1.filter (a.blocks.size ≤ ·))
  retains : Retains root a (a.expandForEach root ids).2

/-- In a round of elements over blocks whose trees end, each block that is repeated by a collection when it has its turn
is replaced in its place by one instance for each element, and other blocks stay. Instances have different labels
unless a text is in a list twice. -/
theorem expandForEach_replaces_repeated (hroot : root < a.scopes.size) (hids : a.Shallow a.blocks.size ids) :
    ∃ groups, ElementRound root a ids groups := by
  obtain ⟨hretains, hfresh, hlength, hregrouped⟩ := regrouped_round .forEach (.refl root a) hroot hids
  have hmoment (k : Nat) : Retains root a (a.expandForEach root (ids.take k)).2 :=
    (regrouped_round .forEach (.refl root a) hroot (hids.subset (List.take_subset k ids))).1
  have hlt {k : Nat} (h : k < ids.length) : ids[k] < a.blocks.size := hids.lt (List.getElem_mem h)
  exact ⟨_, rfl, hlength,
    fun k h h' _ hasked hattr hcollection =>
      (hregrouped k h h').perElement (hmoment k) (hlt h) hasked hattr hcollection,
    fun k h h' hkind hnone => (hregrouped k h h').unchanged (hmoment k) (hlt h) hkind hnone, hfresh, hretains⟩

/-- A resource for a list with a text in it twice, one for a map, and data for what is no collection. -/
def elementBlocks : List BlockTree :=
  [.node "resource" ["a", "x"] [⟨"for_each", .list [.text "p", .text "q", .text "p"], default⟩] [] default,
    .node "resource" ["b", "y"] [⟨"for_each", .object [(.name "l", .bool true), (.name "k", .null)], default⟩]
      [.node "tag" ["t"] [] [] default] default,
    .node "data" ["c", "z"] [⟨"for_each", .text "s", default⟩] [] default]

theorem expandForEach_replaces_repeated_elementBlocks :
    let start := (Arena.empty "/").newRoot
    let a := (insertAll start.1 none start.2 elementBlocks).2
    let ids := (insertAll start.1 none start.2 elementBlocks).1
    start.1 < a.scopes.size ∧ a.Shallow a.blocks.size ids
      ∧ (a.expandForEach start.1 ids).1.map (fun id => ((a.expandForEach start.1 ids).2.block id).key)
        = [some (.name "p"), some (.name "q"), some (.name "p"), some (.name "k"), some (.name "l"), none]
      ∧ ∃ groups, ElementRound start.1 a ids groups := by
  intro start a ids
  have hroot : start.1 < a.scopes.size := by decide +kernel
  have hids : a.Shallow a.blocks.size ids := by decide +kernel
  exact ⟨hroot, hids, by decide +kernel, expandForEach_replaces_repeated hroot hids⟩

end Arena

end InfraConfig
