import InfraConfig.Expansion
import InfraConfig.Proofs.PlacementChanges

/-!
# Expansion as changes

Expanding the blocks of a module changes that module only. What stands for a block afterwards are blocks of
the same module: the block itself, or instances with the keys that its `count` or `for_each` asks for at the
time.
-/

namespace InfraConfig

/-! ## Keys of instances -/

/-- What repeats a block. -/
inductive Repetition where
  | count
  | forEach
  deriving DecidableEq

/-- The keys of the instances that a `count` makes. -/
def countKeys (count : Value) : List InstanceKey :=
  (List.range (instanceCount count)).map fun i : Nat => .index i

/-- The keys of the instances that a `for_each` makes, unless it is no collection. -/
def elementKeys? (isDynamic : Bool) (collection : Value) : Option (List InstanceKey) :=
  if collection.isIterable then
    some ((instanceElements collection (!isDynamic && isTextList collection)).filterMap
      fun (key, _) => InstanceKey.ofValue? key)
  else none

namespace Repetition

/-- The attribute that asks for the instances. -/
def name : Repetition → String
  | count => "count"
  | forEach => "for_each"

/-- The keys that a value of the attribute asks for. -/
def keys? (isDynamic : Bool) : Repetition → Value → Option (List InstanceKey)
  | count, v => some (countKeys v)
  | forEach, v => elementKeys? isDynamic v

/-- Whether instances of a block can be made. -/
def applies : Repetition → Block → Bool
  | count, b => b.isExpandable
  | forEach, b => b.isExpandable || b.kind == .dynamic && !b.expanded

/-- Puts the instances in the place of a block. -/
def expand (root : ScopeId) : Repetition → Arena → BlockId → List BlockId × Arena
  | count => Arena.expandCount root
  | forEach => Arena.expandElements root

end Repetition

theorem instanceCount_le (count : Value) : instanceCount count ≤ int32Limit := by
  rw [instanceCount]
  split
  · split
    · omega
    · decide
  · decide

theorem lt_of_mem_indices {count : Value} {i : Nat} (h : i ∈ List.range (instanceCount count)) : i < int32Limit :=
  Nat.lt_of_lt_of_le (List.mem_range.mp h) (instanceCount_le count)

theorem ofValue?_index {i : Nat} (h : i < int32Limit) : InstanceKey.ofValue? (.int i) = some (.index i) := by
  have hsmall : (i : Int) ≤ int64Limit - 1 := by
    unfold int32Limit at h
    unfold int64Limit
    omega
  rw [Value.int, InstanceKey.ofValue?, Number.toInt64, Int.min_eq_left hsmall]

/-- Every element of a collection has a key. -/
theorem isSome_ofValue?_of_mem {collection : Value} {byValue : Bool}
    (hby : byValue = true → isTextList collection = true) {element : Value × Value}
    (h : element ∈ instanceElements collection byValue) : (InstanceKey.ofValue? element.1).isSome := by
  rw [instanceElements, Value.elements] at h
  cases hitems : collection.items? with
  | some items =>
    rw [hitems] at h
    cases byValue with
    | true =>
      rw [if_pos rfl, List.map_map] at h
      obtain ⟨⟨v, i⟩, hv, rfl⟩ := List.mem_map.mp h
      have htexts : items.all (fun v => v.text?.isSome) = true := by simpa [isTextList, hitems] using hby rfl
      have htext := List.all_eq_true.mp htexts v (List.fst_mem_of_mem_zipIdx hv)
      cases v with
      | text s => rfl
      | _ => cases htext
    | false =>
      rw [if_neg Bool.false_ne_true] at h
      obtain ⟨p, -, rfl⟩ := List.mem_map.mp h
      rfl
  | none =>
    rw [hitems] at h
    cases byValue with
    | true =>
      have htexts := hby rfl
      simp [isTextList, hitems] at htexts
    | false =>
      rw [if_neg Bool.false_ne_true] at h
      cases hentries : collection.entries? with
      | none => simp [hentries] at h
      | some entries =>
        rw [hentries] at h
        obtain ⟨p, -, rfl⟩ := List.mem_map.mp h
        rfl

theorem filterMap_of_isSome {α β : Type} {f : α → Option β} {xs : List α} (h : ∀ x ∈ xs, (f x).isSome) :
    (xs.filterMap f).map some = xs.map f := by
  induction xs with
  | nil => rfl
  | cons x xs ih =>
    obtain ⟨y, hy⟩ := Option.isSome_iff_exists.mp (h x List.mem_cons_self)
    rw [List.filterMap_cons, hy, List.map_cons, List.map_cons, hy, ih fun z hz => h z (List.mem_cons_of_mem x hz)]

/-- The keys of a collection are those of its elements, one for each. -/
theorem elementKeys?_of_isIterable {collection : Value} (isDynamic : Bool) (h : collection.isIterable = true) :
    ∃ keys, elementKeys? isDynamic collection = some keys
      ∧ keys.map some = (instanceElements collection (!isDynamic && isTextList collection)).map
          fun element => InstanceKey.ofValue? element.1 := by
  rw [elementKeys?, if_pos h]
  refine ⟨_, rfl, filterMap_of_isSome fun element helement => ?_⟩
  apply isSome_ofValue?_of_mem _ helement
  intro hby
  exact (Bool.and_eq_true _ _ ▸ hby).2

/-! ## What stands for a block -/

namespace Block

/-- Whether an attribute of a block makes no instances of it. -/
def Spent (kind : Repetition) (b : Block) : Prop :=
  (b.attribute? kind.name).isSome → kind.applies b = false

theorem not_isExpandable {b : Block} (h : b.expanded = true) : b.isExpandable = false := by
  rw [isExpandable]
  split <;> simp [h]

theorem applies_of_expanded (kind : Repetition) {b : Block} (h : b.expanded = true) : kind.applies b = false := by
  cases kind <;> simp [Repetition.applies, not_isExpandable h, h]

theorem Spent.ofExpanded {b : Block} (kind : Repetition) (h : b.expanded = true) : b.Spent kind :=
  fun _ => applies_of_expanded kind h

theorem spent_or (kind : Repetition) (b : Block) :
    b.Spent kind ∨ ∃ attr, b.attribute? kind.name = some attr ∧ kind.applies b = true := by
  by_cases h : b.Spent kind
  · exact .inl h
  · rw [Spent, Classical.not_imp, Option.isSome_iff_exists, Bool.not_eq_false] at h
    obtain ⟨⟨attr, hattr⟩, happlies⟩ := h
    exact .inr ⟨attr, hattr, happlies⟩

end Block

namespace Arena

variable {P : ScopeId → Prop} {a b : Arena} {root : ScopeId} {id : BlockId} {kind : Repetition} {attr : Attribute}

/-- The instances that a `count` makes, with their values. -/
def countLoop (root : ScopeId) (a : Arena) (id : BlockId) (attr : Attribute) : List (BlockId × Value) × Arena :=
  mapThrough (cloneIndex root id) (a.noting (a.block id) [attr])
    (List.range (instanceCount (a.value (a.block id) attr)))

/-- What a `for_each` makes instances for. -/
def elementsAsked (a : Arena) (id : BlockId) (attr : Attribute) : List (Value × Value) :=
  let collection := a.value (a.block id) attr
  instanceElements collection (!((a.block id).kind == .dynamic) && isTextList collection)

/-- The instances that a `for_each` makes. -/
def elementLoop (root : ScopeId) (a : Arena) (id : BlockId) (attr : Attribute) : List BlockId × Arena :=
  mapThrough (cloneElement root id (a.block id).iteratorName ((a.block id).kind == .dynamic))
    (a.noting (a.block id) [attr]) (a.elementsAsked id attr)

theorem isSome_ofValue?_of_mem_elementsAsked {element : Value × Value} (h : element ∈ a.elementsAsked id attr) :
    (InstanceKey.ofValue? element.1).isSome :=
  isSome_ofValue?_of_mem (fun hby => (Bool.and_eq_true _ _ ▸ hby).2) h

theorem expand_of_spent (h : (a.block id).Spent kind) : kind.expand root a id = ([id], a) := by
  cases kind with
  | count =>
    rw [Repetition.expand, Arena.expandCount]
    split
    · rfl
    · next attr hattr => exact if_neg (Bool.eq_false_iff.mp (h (Option.isSome_of_mem hattr)))
  | forEach =>
    rw [Repetition.expand, Arena.expandElements]
    split
    · rfl
    · next attr hattr => exact if_neg (Bool.eq_false_iff.mp (h (Option.isSome_of_mem hattr)))

/-- Instances are not expanded again. -/
theorem expand_of_expanded (kind : Repetition) (h : (a.block id).expanded = true) : kind.expand root a id = ([id], a) :=
  expand_of_spent (.ofExpanded kind h)

theorem expand_count (root : ScopeId) (hattr : (a.block id).attribute? Repetition.count.name = some attr)
    (happlies : Repetition.count.applies (a.block id) = true) : Repetition.count.expand root a id
      = ((a.countLoop root id attr).1.map (·.1),
        (a.countLoop root id attr).2.bindAt root id (.list ((a.countLoop root id attr).1.map (·.2)))) := by
  rw [Repetition.name] at hattr
  rw [Repetition.expand, Arena.expandCount, hattr]
  exact if_pos happlies

theorem expand_elements (root : ScopeId) (hattr : (a.block id).attribute? Repetition.forEach.name = some attr)
    (happlies : Repetition.forEach.applies (a.block id) = true) (h : (a.value (a.block id) attr).isIterable = true) :
    Repetition.forEach.expand root a id
      = ((a.elementLoop root id attr).1, (a.elementLoop root id attr).2.bindAt root id (.object [])) := by
  rw [Repetition.name] at hattr
  rw [Repetition.expand, Arena.expandElements, hattr]
  exact (if_pos happlies).trans (if_pos h)

/-- A `for_each` that is worth no collection is noted, but makes no instances. -/
theorem expand_noCollection (root : ScopeId) (hattr : (a.block id).attribute? Repetition.forEach.name = some attr)
    (happlies : Repetition.forEach.applies (a.block id) = true) (h : (a.value (a.block id) attr).isIterable ≠ true) :
    Repetition.forEach.expand root a id = ([id], a.noting (a.block id) [attr]) := by
  rw [Repetition.name] at hattr
  rw [Repetition.expand, Arena.expandElements, hattr]
  exact (if_pos happlies).trans (if_neg h)

/-! ## Places -/

/-- The places where a module is expanded: its scope at the top, and blocks of its own. -/
structure Site (P : ScopeId → Prop) (a : Arena) (root : ScopeId) : Prop where
  well : a.WellFormed
  top : a.IsTop root
  own : P root

theorem Site.changes (h : Site P a root) (hab : Changes P a b) : Site P b root :=
  ⟨hab.wellFormed h.well, h.top.changes hab, h.own⟩

theorem Site.bind (h : Site P a root) (v : Value) (path : ValuePath) : Changes P a (a.bind root v path) :=
  Changes.bindTop h.top h.own v path

theorem Site.copyBinding (h : Site P a root) (source target : BlockId) :
    Changes P a (a.copyBinding root source target) := by
  rw [Arena.copyBinding]
  split
  · split
    · exact h.bind _ _
    · exact .refl
  · exact .refl

theorem Site.bindAt (h : Site P a root) (id : BlockId) (v : Value) : Changes P a (a.bindAt root id v) := by
  rw [Arena.bindAt]
  split
  · exact h.bind _ _
  · exact .refl

/-! ## Instances -/

/-- The keys of the instances that an attribute of a block asks for. -/
def keysAsked? (a : Arena) (kind : Repetition) (isDynamic : Bool) (id : BlockId) : Option (List InstanceKey) :=
  ((a.block id).attribute? kind.name).bind fun attr => kind.keys? isDynamic (a.value (a.block id) attr)

/-- A block that has been expanded in the arena `moment`. The instances that stand for it in `final` are those
that were made then, with the keys that its attribute asked for. -/
structure Expanded (moment final : Arena) (root : ScopeId) (kind : Repetition) (id : BlockId)
    (made : List BlockId) : Prop where
  eq : made = (kind.expand root moment id).1
  later : Changes (fun _ => True) (kind.expand root moment id).2 final
  asked : ∃ keys, moment.keysAsked? kind ((moment.block id).kind == .dynamic) id = some keys ∧
    List.Forall₂ (Made final root) (keys.map some) made

theorem Expanded.changes {moment final : Arena} {kind : Repetition} {made : List BlockId}
    (h : Expanded moment final root kind id made) (hwell : final.WellFormed) (hab : Changes P final b) :
    Expanded moment b root kind id made := by
  obtain ⟨keys, hkeys, hmade⟩ := h.asked
  have hall := hab.mono (Q := fun _ => True) fun _ _ => trivial
  exact ⟨h.eq, h.later.trans hall, keys, hkeys, hmade.imp fun _ _ hm => hm.changes hwell hab⟩

theorem Expanded.instance {moment final : Arena} {kind : Repetition} {made : List BlockId}
    (h : Expanded moment final root kind id made) {m : BlockId} (hm : m ∈ made) :
    ∃ key, Made final root key m := by
  obtain ⟨keys, -, hmade⟩ := h.asked
  obtain ⟨i, hi, rfl⟩ := List.getElem_of_mem hm
  exact ⟨_, hmade.get (hmade.length_eq ▸ hi) hi⟩

theorem Expanded.isSome_attribute? {moment final : Arena} {made : List BlockId}
    (h : Expanded moment final root kind id made) : ((moment.block id).attribute? kind.name).isSome := by
  obtain ⟨keys, hkeys, -⟩ := h.asked
  obtain ⟨attr, hattr, -⟩ := Option.bind_eq_some_iff.mp hkeys
  exact Option.isSome_of_mem hattr

/-- A block stands for itself if no instances of it can be made or none are asked for, else its instances stand
for it. -/
def Expands (a : Arena) (root : ScopeId) (kind : Repetition) (id : BlockId) : Prop :=
  (kind.expand root a id).1 = [id] ∧ (kind.applies (a.block id) = false
      ∨ a.keysAsked? kind ((a.block id).kind == .dynamic) id = none)
    ∨ Expanded a (kind.expand root a id).2 root kind id (kind.expand root a id).1

theorem Expands.has {kind : Repetition} (h : Expands a root kind id) (hid : (kind.expand root a id).2.Has root id) :
    ∀ m ∈ (kind.expand root a id).1, (kind.expand root a id).2.Has root m := by
  intro m hm
  rcases h with ⟨heq, -⟩ | h
  · rw [heq] at hm
    exact List.mem_singleton.mp hm ▸ hid
  · obtain ⟨key, hmade⟩ := h.instance hm
    exact hmade.has

/-- A block for which no instances are made stands for itself. -/
theorem expands_itself (kind : Repetition) {later : Arena} (heq : kind.expand root a id = ([id], later))
    (hlater : Changes P a later) (hnone : kind.applies (a.block id) = false
      ∨ a.keysAsked? kind ((a.block id).kind == .dynamic) id = none) :
    Changes P a (kind.expand root a id).2 ∧ Expands a root kind id := by
  rw [Expands, heq]
  exact ⟨hlater, .inl ⟨rfl, hnone⟩⟩

theorem expands_spent (h : (a.block id).Spent kind) :
    Changes P a (kind.expand root a id).2 ∧ Expands a root kind id := by
  refine expands_itself kind (expand_of_spent h) .refl ?_
  cases hattr : (a.block id).attribute? kind.name with
  | none => exact .inr (by rw [keysAsked?, hattr]; rfl)
  | some attr => exact .inl (h (Option.isSome_of_mem hattr))

/-- The instances that a loop makes have the keys that are asked for. -/
theorem Site.expands_instances {α β : Type} {f : Arena → α → β × Arena} {g : β → BlockId} {index : α → Value}
    {xs : List α} {noted : Arena} {keys : List InstanceKey} {v : Value} (h : Site P a root) (kind : Repetition)
    (hid : a.Has root id) (hnoted : Changes P a noted)
    (hf : ∀ b x, Site P b root → b.Has root id → Changes P b (f b x).2
      ∧ Made (f b x).2 root (some (instanceKey (b.block id) (index x))) (g (f b x).1))
    (hindex : ∀ x ∈ xs, (InstanceKey.ofValue? (index x)).isSome)
    (hkeys : a.keysAsked? kind ((a.block id).kind == .dynamic) id = some keys)
    (hasked : keys.map some = xs.map fun x => InstanceKey.ofValue? (index x))
    (heq : kind.expand root a id
      = ((mapThrough f noted xs).1.map g, (mapThrough f noted xs).2.bindAt root id v)) :
    Changes P a (kind.expand root a id).2 ∧ Expands a root kind id := by
  have hsite := h.changes hnoted
  obtain ⟨hloop, hmade⟩ := Changes.mapThrough_pairs (P := P) (a := noted) (f := f)
    (Q := fun c x made => Made c root (InstanceKey.ofValue? (index x)) (g made))
    (fun hb hbc hmade => hmade.changes hb hbc) hsite.well fun b hb x hx => by
      obtain ⟨hchange, hmade⟩ :=
        hf b x (hsite.changes hb) ((hid.changes h.well hnoted).changes hsite.well hb)
      rw [some_instanceKey _ (hindex x hx)] at hmade
      exact ⟨hchange, hmade⟩
  have hbound := (hsite.changes hloop).bindAt id v
  have hchanges : Changes P a (kind.expand root a id).2 := by
    rw [heq]
    exact (hnoted.trans hloop).trans hbound
  refine ⟨hchanges, .inr ⟨rfl, .refl, keys, hkeys, ?_⟩⟩
  rw [heq, hasked, List.forall₂_map_left_iff, List.forall₂_map_right_iff]
  exact hmade.imp fun _ _ hm => hm.changes (hloop.wellFormed hsite.well) hbound

/-! ## Counts -/

theorem Site.cloneIndex (h : Site P a root) (hid : a.Has root id) (i : Nat) :
    Changes P a (cloneIndex root id a i).2
      ∧ Made (cloneIndex root id a i).2 root (some (instanceKey (a.block id) (.int i)))
          (cloneIndex root id a i).1.1 := by
  obtain ⟨hclone, -, -⟩ := clone_spec h.well hid h.own (.int i)
  have hmade := clone_made h.well hid h.own (.int i)
  have hcopied := (h.changes hclone).copyBinding id (a.clone id (.int i)).1
  have hnoted := Changes.noting (P := P) ((a.clone id (.int i)).2.copyBinding root id (a.clone id (.int i)).1)
    (((a.clone id (.int i)).2.copyBinding root id (a.clone id (.int i)).1).block (a.clone id (.int i)).1)
    (((a.clone id (.int i)).2.copyBinding root id (a.clone id (.int i)).1).block
      (a.clone id (.int i)).1).attributes
  have hrest := hcopied.trans hnoted
  exact ⟨hclone.trans hrest, hmade.changes (hclone.wellFormed h.well) hrest⟩

theorem Site.expandCount (h : Site P a root) (hid : a.Has root id) :
    Changes P a (Repetition.count.expand root a id).2 ∧ Expands a root .count id := by
  rcases (a.block id).spent_or .count with hspent | ⟨attr, hattr, happlies⟩
  · exact expands_spent hspent
  · have hindex : ∀ i ∈ List.range (instanceCount (a.value (a.block id) attr)),
        InstanceKey.ofValue? (.int i) = some (.index i) := fun i hi => ofValue?_index (lt_of_mem_indices hi)
    have hkeys : a.keysAsked? .count ((a.block id).kind == .dynamic) id
        = some (countKeys (a.value (a.block id) attr)) := by
      rw [keysAsked?, hattr]
      rfl
    have hasked : (countKeys (a.value (a.block id) attr)).map some
        = (List.range (instanceCount (a.value (a.block id) attr))).map fun i : Nat => InstanceKey.ofValue? (.int i) := by
      rw [countKeys, List.map_map]
      exact List.map_congr_left fun i hi => (hindex i hi).symm
    exact h.expands_instances .count hid (Changes.noting a (a.block id) [attr])
      (fun b i hb hin => hb.cloneIndex hin i) (fun i hi => by rw [hindex i hi]; rfl) hkeys hasked
      (expand_count root hattr happlies)

/-! ## Elements -/

theorem Site.cloneElement (h : Site P a root) (hid : a.Has root id) (binding : String) (isDynamic : Bool)
    (element : Value × Value) :
    Changes P a (cloneElement root id binding isDynamic a element).2
      ∧ Made (cloneElement root id binding isDynamic a element).2 root
          (some (instanceKey (a.block id) element.1)) (cloneElement root id binding isDynamic a element).1 := by
  obtain ⟨key, value⟩ := element
  obtain ⟨hclone, hin, -⟩ := clone_spec h.well hid h.own key
  have hmade := clone_made h.well hid h.own key
  let made := (a.clone id key).1
  let cloned := (a.clone id key).2
  let scope := (cloned.block made).scope
  let names := ["each", binding] ++ (if isDynamic then ["dynamic"] else [])
  have hwell := hclone.wellFormed h.well
  have hscope := hwell.placed made hin.1
  have hbind {b : Arena} (hb : Changes P cloned b) (v : Value) (path : ValuePath) :
      Changes P b (b.bind scope v path) := by
    refine .single (.bind scope v path (Nat.lt_of_lt_of_le hscope hb.size_scopes_le) ?_)
    rw [hb.root_eq hwell hscope]
    change P ((a.clone id key).2.home (a.clone id key).1)
    exact hin.2.symm ▸ h.own
  have hnames : Changes P cloned (names.foldl
      (fun a name => (a.bind scope key [name, "key"]).bind scope value [name, "value"]) cloned) :=
    Changes.foldl fun b hb name _ => by
      have hkey := hbind hb key [name, "key"]
      exact hkey.trans (hbind (hb.trans hkey) value [name, "value"])
  have hcopied := ((h.changes hclone).changes hnames).copyBinding id made
  have hrest := hnames.trans hcopied
  exact ⟨hclone.trans hrest, hmade.changes hwell hrest⟩

theorem Site.expandElements (h : Site P a root) (hid : a.Has root id) :
    Changes P a (Repetition.forEach.expand root a id).2 ∧ Expands a root .forEach id := by
  rcases (a.block id).spent_or .forEach with hspent | ⟨attr, hattr, happlies⟩
  · exact expands_spent hspent
  · have hnoted : Changes P a (a.noting (a.block id) [attr]) := Changes.noting _ _ _
    have hkeys : a.keysAsked? .forEach ((a.block id).kind == .dynamic) id
        = elementKeys? ((a.block id).kind == .dynamic) (a.value (a.block id) attr) := by
      rw [keysAsked?, hattr]
      rfl
    by_cases hcollection : (a.value (a.block id) attr).isIterable = true
    · obtain ⟨keys, hsome, hasked⟩ := elementKeys?_of_isIterable ((a.block id).kind == .dynamic) hcollection
      let isDynamic := (a.block id).kind == .dynamic
      refine h.expands_instances (g := fun made => made) (v := .object []) .forEach hid hnoted
        (fun b element hb hin => hb.cloneElement hin (a.block id).iteratorName isDynamic element)
        (fun element helement => isSome_ofValue?_of_mem_elementsAsked helement) (hkeys.trans hsome) hasked ?_
      rw [List.map_id']
      exact expand_elements root hattr happlies hcollection
    · exact expands_itself .forEach (expand_noCollection root hattr happlies hcollection) hnoted
        (.inr (hkeys.trans (if_neg hcollection)))

theorem Site.expand (h : Site P a root) (kind : Repetition) (hid : a.Has root id) :
    Changes P a (kind.expand root a id).2 ∧ Expands a root kind id := by
  cases kind with
  | count => exact h.expandCount hid
  | forEach => exact h.expandElements hid

/-! ## Rounds -/

theorem Site.expandAll (h : Site P a root) (kind : Repetition) {ids : List BlockId}
    (hids : ∀ id ∈ ids, a.Has root id) :
    Changes P a (mapThrough (kind.expand root) a ids).2
      ∧ ∀ made ∈ (mapThrough (kind.expand root) a ids).1.flatten,
        (mapThrough (kind.expand root) a ids).2.Has root made := by
  obtain ⟨hchanges, hmade⟩ := Changes.mapThrough (P := P) (a := a) (f := kind.expand root)
    (Q := fun c made => ∀ m ∈ made, c.Has root m)
    (fun hb hbc hmade m hm => (hmade m hm).changes hb hbc) h.well fun b hb id hid => by
      have hsite := h.changes hb
      have hin := (hids id hid).changes h.well hb
      obtain ⟨hchange, hexpands⟩ := hsite.expand kind hin
      exact ⟨hchange, hexpands.has (hin.changes hsite.well hchange)⟩
  refine ⟨hchanges, fun m hm => ?_⟩
  obtain ⟨made, hgroup, hm⟩ := List.mem_flatten.mp hm
  exact hmade made hgroup m hm

theorem Site.expandCounts (h : Site P a root) {ids : List BlockId} (hids : ∀ id ∈ ids, a.Has root id) :
    Changes P a (a.expandCounts root ids).2
      ∧ ∀ made ∈ (a.expandCounts root ids).1, (a.expandCounts root ids).2.Has root made :=
  h.expandAll .count hids

theorem Site.expandForEach (h : Site P a root) {ids : List BlockId} (hids : ∀ id ∈ ids, a.Has root id) :
    Changes P a (a.expandForEach root ids).2
      ∧ ∀ made ∈ (a.expandForEach root ids).1, (a.expandForEach root ids).2.Has root made :=
  h.expandAll .forEach hids

/-! ## Dynamic blocks -/

/-- The block that is injected, with its new kind. -/
def renamed (a : Arena) (child : BlockId) (kind : String) : Arena :=
  a.modify child fun b => { b with kind := .ofName kind, labels := [] }

theorem inject_eq (a : Arena) (parent child : BlockId) (kind : String) :
    ∃ (noted : Arena) (values : List (String × Value)) (path : String → ValuePath),
      noted = (a.renamed child kind).noting ((a.renamed child kind).block child)
        ((a.renamed child kind).block child).attributes ∧
      a.inject parent child kind
        = (values.foldl (fun b w =>
            b.bind (noted.scopes.root (noted.block parent).scope) w.2 (path w.1)) noted).modify parent
          fun b => { b with children := b.children ++ [child] } :=
  ⟨_, _, fun name => dotPath ((a.renamed child kind |>.block parent).localName ++ "." ++ kind ++ "." ++ name),
    rfl, rfl⟩

theorem Site.inject (h : Site P a root) {parent child : BlockId} (hparent : a.Has root parent)
    (hchild : a.Has root child) (kind : String) : Changes P a (a.inject parent child kind) := by
  obtain ⟨noted, values, path, hnoted, heq⟩ := inject_eq a parent child kind
  have hrename : Changes P a (a.renamed child kind) :=
    .single (.rename child (.ofName kind) hchild.1 (hchild.2.symm ▸ h.own))
  have hnoting : Changes P a noted := hnoted ▸ hrename.trans (Changes.noting _ _ _)
  have htop : noted.scopes.root (noted.block parent).scope = root :=
    (hparent.changes h.well hnoting).2
  have hsite := h.changes hnoting
  rw [heq, htop]
  have hbinds := hnoting.trans (Changes.foldl (P := P) (a := noted)
    (f := fun b (p : String × Value) => b.bind root p.2 (path p.1))
    fun b hb p (_ : p ∈ values) => (hsite.changes hb).bind p.2 (path p.1))
  have hparentIn := hparent.changes h.well hbinds
  have hchildIn := hchild.changes h.well hbinds
  exact hbinds.tail (.adopt parent child hparentIn.1 (hparentIn.2.symm ▸ h.own) hchildIn.1
    (hchildIn.2.trans hparentIn.2.symm))

theorem mem_of_childId? {b : Block} {kind : String} {child : BlockId}
    (h : a.childId? b kind = some child) : child ∈ b.children :=
  List.mem_of_find?_eq_some h

end Arena

end InfraConfig
