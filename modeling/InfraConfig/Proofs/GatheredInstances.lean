import InfraConfig.Proofs.FinishedCalls
import InfraConfig.Proofs.LabelKeys

/-!
# Gathered instances

The values of instances stand under their labels, and in a list under the name without key. The list ends with the
greatest index that is not negative. Where no two labels are the same, and no name without key is a label of its own,
the order in which the values come does not matter.
-/

namespace InfraConfig

namespace Instances

/-! ## Values at their indexes -/

section Placed

variable {items : List (Int × Value)}

/-- A value at its index in a list, if the index is not negative. -/
def place (values : List Value) (item : Int × Value) : List Value :=
  if item.1 < 0 then values else values.set item.1.toNat item.2

end Placed

/-! ## Values by label -/

/-- The index of an instance of a block, with its value. -/
def indexedAs (base : String) (item : String × Value) : Option (Int × Value) :=
  match splitKey item.1 with
  | (name, some (.index i)) => if name = base then some (i, item.2) else none
  | _ => none

/-- The indexes of the instances of a block, with their values. -/
def indexesOf (base : String) (items : Entries Value) : List (Int × Value) :=
  items.filterMap (indexedAs base)

/-- An index is gathered after those that were there. -/
theorem get?_indexed_insert (g : Instances) (label base : String) (v : Value) :
    (g.insert label v).indexed.get? base = match indexedAs base (label, v) with
      | some item => some ((g.indexed.get? base).getD [] ++ [item])
      | none => g.indexed.get? base := by
  dsimp only [insert, indexedAs]
  obtain ⟨name, key⟩ := splitKey label
  cases key with
  | none => rfl
  | some key =>
    cases key with
    | name key => rfl
    | index i =>
      dsimp only
      rw [Entries.get?_put]
      by_cases hbase : base = name
      · subst hbase
        simp
      · rw [if_neg hbase, if_neg (Ne.symm hbase)]

theorem get?_indexed_foldl (items : Entries Value) (g : Instances) (base : String) :
    (items.foldl (fun g (label, v) => g.insert label v) g).indexed.get? base = if indexesOf base items = []
      then g.indexed.get? base else some ((g.indexed.get? base).getD [] ++ indexesOf base items) := by
  unfold indexesOf
  induction items generalizing g with
  | nil => rfl
  | cons item items ih =>
    obtain ⟨label, v⟩ := item
    rw [List.foldl_cons, ih, get?_indexed_insert, List.filterMap_cons]
    cases indexedAs base (label, v) with
    | none => rfl
    | some first => cases List.filterMap (indexedAs base) items <;> simp

theorem nodup_keys_indexed_foldl (items : Entries Value) {g : Instances} (h : g.indexed.keys.Nodup) :
    (items.foldl (fun g (label, v) => g.insert label v) g).indexed.keys.Nodup := by
  refine List.foldlRecOn (motive := fun g : Instances => g.indexed.keys.Nodup) items _ h fun g hg item _ => ?_
  obtain ⟨label, v⟩ := item
  dsimp only [insert]
  split
  · exact Entries.nodup_keys_put hg _ _
  · exact hg
  · exact hg

theorem keyed_foldl {items : Entries Value} (h : ∀ item ∈ items, ∀ key, (splitKey item.1).2 ≠ some (.name key))
    (g : Instances) : (items.foldl (fun g (label, v) => g.insert label v) g).keyed = g.keyed := by
  refine List.foldlRecOn (motive := fun next : Instances => next.keyed = g.keyed) items _ rfl
    fun next hnext item hitem => ?_
  obtain ⟨label, v⟩ := item
  dsimp only [insert]
  split
  · exact hnext
  · next key hsplit => exact absurd (congrArg Prod.snd hsplit) (h (label, v) hitem key)
  · exact hnext

/-- Without keys that are names, the lists go over the values by label. -/
theorem get?_toValue_of_indexed {g : Instances} (hkeyed : g.keyed = []) (hindexed : g.indexed.keys.Nodup)
    (name : String) : g.toValue.get? name
      = ((g.indexed.get? name).map fun items => .list (placed items)).or (g.named.get? name) := by
  have hget (entries : Entries (List (Int × Value))) :
      Entries.get? (entries.map fun e => (e.1, Value.list (placed e.2))) name
        = (entries.get? name).map fun items => .list (placed items) := by
    induction entries with
    | nil => rfl
    | cons entry entries ih =>
      rw [List.map_cons, Entries.get?_cons, Entries.get?_cons, ih]
      split <;> rfl
  have hkeys : Entries.keys (g.indexed.map fun e => (e.1, Value.list (placed e.2)))
      = g.indexed.keys := by simp [Entries.keys]
  rw [toValue, hkeyed, List.map_nil, List.append_nil, Value.get?]
  exact (Entries.get?_putAll (hkeys ▸ hindexed) _ _).trans (by rw [hget])

/-- The values of blocks by their labels. -/
def gather (items : Entries Value) : Instances :=
  items.foldl (fun g (label, v) => g.insert label v) .empty

theorem get?_toValue_gather {items : Entries Value} (hdistinct : items.keys.Nodup)
    (h : ∀ item ∈ items, ∀ key, (splitKey item.1).2 ≠ some (.name key)) (name : String) :
    (gather items).toValue.get? name = if indexesOf name items = [] then items.get? name
      else some (.list (placed (indexesOf name items))) := by
  have hkeyed : (gather items).keyed = [] := keyed_foldl h .empty
  have hnamed : (gather items).named.get? name = items.get? name := by
    rw [gather, named_foldl, Entries.get?_putAll hdistinct]
    exact Option.or_none
  rw [get?_toValue_of_indexed hkeyed (nodup_keys_indexed_foldl items List.nodup_nil), hnamed, gather,
    get?_indexed_foldl]
  split <;> simp [empty]

/-- The values of the blocks of one type, by their labels. -/
def ofType (type : String) (items : List (String × String × Value)) : Entries Value :=
  items.filterMap fun (own, label, v) => if own = type then some (label, v) else none

/-- A group is what the blocks of its type are gathered in. -/
theorem get?_groupInstances (items : List (String × String × Value)) (type : String) :
    (groupInstances items).get? type = if ofType type items = [] then none else some (gather (ofType type items)) := by
  have hfold (groups : Entries Instances) : Entries.get? (items.foldl (fun groups (type, label, value) =>
      groups.put type (((groups.get? type).getD .empty).insert label value)) groups) type
        = if ofType type items = [] then groups.get? type else some ((ofType type items).foldl
          (fun g (label, v) => g.insert label v) ((groups.get? type).getD .empty)) := by
    induction items generalizing groups with
    | nil => rfl
    | cons item items ih =>
      obtain ⟨own, label, v⟩ := item
      rw [List.foldl_cons, ih, Entries.get?_put]
      by_cases hown : type = own
      · have hmine : ofType type ((own, label, v) :: items) = (label, v) :: ofType type items := by
          simp [ofType, hown]
        rw [hmine, if_pos hown, ← hown, if_neg (List.cons_ne_nil _ _), List.foldl_cons]
        cases ofType type items <;> rfl
      · have hother : ofType type ((own, label, v) :: items) = ofType type items := by
          simp [ofType, Ne.symm hown]
        rw [hother, if_neg hown]
  exact hfold []

/-! ## Labels with indexes -/

/-- Labels that are plain or have an index, where no plain one is that of an indexed one without the index. -/
structure Gatherable (labels : List String) : Prop where
  distinct : labels.Nodup
  shape : ∀ label ∈ labels, '[' ∉ label.toList ∨
    ∃ base i, '[' ∉ base.toList ∧ isInt64 i = true ∧ label = base ++ (InstanceKey.index i).text
  apart : ∀ label ∈ labels, '[' ∉ label.toList → ∀ i, label ++ (InstanceKey.index i).text ∉ labels

section Labels

variable {items : Entries Value} {base label : String} {i : Int} {v : Value}

theorem Gatherable.unkeyed {labels : List String} (h : Gatherable labels) (hlabel : label ∈ labels) (key : String) :
    (splitKey label).2 ≠ some (.name key) := by
  rcases h.shape label hlabel with hplain | ⟨name, j, hname, hj, rfl⟩
  · simp [splitKey_of_not_mem hplain]
  · simp [splitKey_append_text hname (show (InstanceKey.index j).InRange from hj), InstanceKey.reread]

/-- A value that is gathered stands under its label, or in the list under the name without index. -/
theorem Gatherable.get?_toValue (h : Gatherable items.keys) (name : String) : (gather items).toValue.get? name
    = if indexesOf name items = [] then items.get? name else some (.list (placed (indexesOf name items))) :=
  get?_toValue_gather h.distinct (fun _ hitem key => h.unkeyed (List.mem_map_of_mem hitem) key) name

/-! ## Objects of gathered values -/

theorem Gatherable.perm {more : Entries Value} (h : Gatherable items.keys) (hperm : more.Perm items) :
    Gatherable more.keys := by
  have hkeys : more.keys.Perm items.keys := hperm.map Prod.fst
  refine ⟨hkeys.symm.nodup h.distinct, fun label hlabel => h.shape label (hkeys.subset hlabel), ?_⟩
  intro label hlabel hplain i hi
  exact h.apart label (hkeys.subset hlabel) hplain i (hkeys.subset hi)

end Labels

end Instances

end InfraConfig
