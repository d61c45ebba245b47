import InfraConfig.Proofs.InstanceGroups
import InfraConfig.Proofs.RepeatedExpansion

/-!
# Instances of a count

A round of counts replaces each block that is repeated by a `count` by as many instances as the count says, in its
place, and leaves all other blocks where they are.
-/

namespace InfraConfig

/-! ## What a count is worth -/

/-- The integer that a number is without its fraction, if it is finite. -/
def Number.truncated? : Number → Option Int
  | .int n => some n
  | .float x => Binary64.truncate? x

/-- The number of instances for a count: its integer part from 0 to the largest integer of 32 bits, and 1 otherwise.
What is no number, although it is one by its type, counts as 0. -/
def wholeCount (count : Value) : Nat :=
  match (count.convert? .number).bind Value.number? with
  | some n =>
    match n.truncated? with
    | some whole => if 0 ≤ whole ∧ whole ≤ 2147483647 then whole.toNat else 1
    | none => if n.isNaN then 0 else 1
  | none => 1

theorem toNat_clamped (whole : Int) : (if 0 ≤ clampInt64 whole ∧ clampInt64 whole < int32Limit
    then (clampInt64 whole).toNat else 1) = if 0 ≤ whole ∧ whole ≤ 2147483647 then whole.toNat else 1 := by
  unfold clampInt64 int32Limit int64Limit
  split <;> split <;> omega

/-- Cutting numbers to 64 bits first makes no difference. -/
theorem instanceCount_eq_wholeCount (count : Value) : instanceCount count = wholeCount count := by
  rw [instanceCount, wholeCount]
  cases count.convert? .number with
  | none => rfl
  | some v =>
    rw [Option.bind_some, Option.bind_some, Value.int64?]
    cases v.number? with
    | none => rfl
    | some n =>
      dsimp only [Option.map_some]
      cases n with
      | int whole =>
        rw [Number.toInt64, Number.truncated?]
        unfold int32Limit int64Limit
        dsimp only
        split <;> split <;> omega
      | float x =>
        rw [Number.toInt64, Number.truncated?, Binary64.toInt64]
        cases Binary64.truncate? x with
        | some whole => exact toNat_clamped whole
        | none =>
          have hsame : (Number.float x).isNaN = x.isNaN := rfl
          dsimp only
          rw [hsame]
          by_cases hnan : x.isNaN = true
          · rw [if_pos hnan, if_pos hnan]
            rfl
          · -- An infinite number becomes one of the ends of the range.
            rw [if_neg hnan, if_neg hnan]
            split <;> decide

/-! ## Rounds of counts -/

namespace Arena

variable {a moment final : Arena} {root : ScopeId} {id : BlockId} {ids group : List BlockId}

/-- What stands for a block of `a` after a round of counts in which it has had its turn in `moment`: the block itself,
or one instance for each index, which knows nothing but the index by its own scope. -/
structure Counted (a moment final : Arena) (id : BlockId) (group : List BlockId) : Prop where
  itself : ¬ (a.block id).IsRepeatedBy .count → group = [id]
  length : ∀ attr, (a.block id).IsRepeatedBy .count → (a.block id).attribute? "count" = some attr →
    group.length = wholeCount (moment.value (a.block id) attr)
  instances : (a.block id).IsRepeatedBy .count → ∀ i (h : i < group.length),
    Copied a final id (a.block id).scope (.index i) [("count", .object [("index", .int i)])] group[i]

theorem items?_of_counted {attr : Attribute} (h : (a.block id).IsRepeatedBy .count)
    (hattr : (a.block id).attribute? "count" = some attr) :
    a.items? id .count = some ((List.range (wholeCount (a.value (a.block id) attr))).map fun i : Nat =>
      ⟨[], .int i, .null⟩) := by
  have happlies := (a.block id).isExpandable_iff.mpr ⟨h.1, h.2.1⟩
  rw [items?, hattr, Option.bind_some, if_pos happlies, instanceCount_eq_wholeCount]

theorem items?_of_not_counted (h : ¬ (a.block id).IsRepeatedBy .count) : a.items? id .count = none := by
  rw [items?]
  cases hattr : (a.block id).attribute? "count" with
  | none => rfl
  | some attr =>
    rw [Option.bind_some, if_neg]
    intro happlies
    obtain ⟨hkind, hplain⟩ := (a.block id).isExpandable_iff.mp happlies
    exact h ⟨hkind, hplain, Option.isSome_iff_exists.mpr ⟨attr, hattr⟩⟩

theorem Regrouped.counted (h : Regrouped root .count a moment final id group) (hmoment : Retains root a moment)
    (hid : id < a.blocks.size) : Counted a moment final id group := by
  have hgroup (attr : Attribute) (hmine : (a.block id).IsRepeatedBy .count)
      (hattr : (a.block id).attribute? "count" = some attr) :
      List.Forall₂ (fun i : Nat => Copied a final id (a.block id).scope (.index i)
        [("count", .object [("index", .int i)])]) (List.range (wholeCount (moment.value (a.block id) attr))) group := by
    have hitems := items?_of_counted ((hmoment.isRepeatedBy hid).mpr hmine) ((hmoment.attribute? hid _).trans hattr)
    rw [hmoment.value hid] at hitems
    have hcopied := h.copied hmoment hid hitems
    rw [List.forall₂_map_left_iff] at hcopied
    refine forall₂_imp_of_mem hcopied fun i hi made _ hone => ?_
    have hlt : i < int32Limit := by
      rw [← instanceCount_eq_wholeCount] at hi
      exact Nat.lt_of_lt_of_le (List.mem_range.mp hi) (instanceCount_le _)
    rwa [Item.instanceKey_eq (ofValue?_index hlt)] at hone
  constructor
  · exact fun hnot => h.itself (items?_of_not_counted fun hmine => hnot ((hmoment.isRepeatedBy hid).mp hmine))
  · intro attr hmine hattr
    rw [← (hgroup attr hmine hattr).length_eq, List.length_range]
  · intro hmine i hi
    obtain ⟨attr, hattr⟩ := Option.isSome_iff_exists.mp hmine.2.2
    have hall := hgroup attr hmine hattr
    have hone := hall.get (hall.length_eq ▸ hi) hi
    rwa [List.get_eq_getElem, List.getElem_range] at hone

/-- What a round of counts makes of a list of blocks, with the groups that stand for each of them. -/
structure CountedRound (root : ScopeId) (a : Arena) (ids : List BlockId) (groups : List (List BlockId)) : Prop where
  inPlace : (a.expandCounts root ids).1 = groups.flatten
  length : groups.length = ids.length
  counted : ∀ k (h : k < ids.length) (h' : k < groups.length),
    Counted a (a.expandCounts root (ids.take k)).2 (a.expandCounts root ids).2 ids[k] groups[k]
  /-- The blocks that are repeated are gone. -/
  gone : ∀ id ∈ ids, (a.block id).IsRepeatedBy .count → id ∉ (a.expandCounts root ids).1
  /-- All instances are new, each in a new scope of its own. -/
  fresh : Fresh a (a.expandCounts root ids).2 ((a.expandCounts root ids).1.filter (a.blocks.size ≤ ·))
  retains : Retains root a (a.expandCounts root ids).2

/-- Counts are exact. In a round of counts over blocks whose trees end, each repeated block is replaced in its place by
as many instances as its `count` is worth in its turn, and every other block stays where it is. -/
theorem expandCounts_replaces_counted (hroot : root < a.scopes.size) (hids : a.Shallow a.blocks.size ids) :
    ∃ groups, CountedRound root a ids groups := by
  let final := (a.expandCounts root ids).2
  obtain ⟨hround, hfresh, hlength, hregrouped⟩ := regrouped_round .count (.refl root a) hroot hids
  have hretains : Retains root a final := hround
  have hcounted : ∀ k (h : k < ids.length) (h' : k < (mapThrough (expandCount root) a ids).1.length),
      Counted a (a.expandCounts root (ids.take k)).2 final ids[k] (mapThrough (expandCount root) a ids).1[k] := by
    intro k h h'
    obtain ⟨hmoment, -⟩ := regrouped_round .count (.refl root a) hroot (hids.subset (List.take_subset k ids))
    exact (hregrouped k h h').counted hmoment (hids.lt (List.getElem_mem h))
  refine ⟨_, rfl, hlength, hcounted, fun id hid hmine hmem => ?_, hfresh, hretains⟩
  obtain ⟨made, hmade, hidMade⟩ := List.mem_flatten.mp hmem
  obtain ⟨k, hk, rfl⟩ := List.getElem_of_mem hmade
  have hlt : k < ids.length := hlength ▸ hk
  have hgroup := hcounted k hlt hk
  by_cases hother : (a.block ids[k]).IsRepeatedBy .count
  · obtain ⟨i, hi, rfl⟩ := List.getElem_of_mem hidMade
    have hexpanded := (hgroup.instances hother i hi).expanded
    rw [hretains.part_eq Block.expanded (by intro _; rfl) (hids.lt hid), hmine.2.1] at hexpanded
    cases hexpanded
  · rw [hgroup.itself hother] at hidMade
    rw [List.mem_singleton.mp hidMade] at hmine
    exact hother hmine

/-- Trees of at most a height can be recognised by going through them. -/
def decideShallow (a : Arena) : (n : Nat) → (ids : List BlockId) → Decidable (a.Shallow n ids)
  | 0, ids => inferInstanceAs (Decidable (ids = []))
  | n + 1, ids =>
    have _ (id : BlockId) : Decidable (a.Shallow n (a.inside id)) := decideShallow a n (a.inside id)
    inferInstanceAs (Decidable (∀ id ∈ ids, id < a.blocks.size ∧ a.Shallow n (a.inside id)))

instance (a : Arena) (n : Nat) (ids : List BlockId) : Decidable (a.Shallow n ids) := decideShallow a n ids

/-- A resource that is counted by a text, one that is not counted, and data with a count that is out of range. -/
def countedBlocks : List BlockTree :=
  [.node "resource" ["a", "x"] [⟨"count", .text "2", default⟩] [.node "tag" ["t"] [] [] default] default,
    .node "resource" ["b", "y"] [] [] default,
    .node "data" ["c", "z"] [⟨"count", .number (.int (-1)), default⟩] [] default]

theorem expandCounts_replaces_counted_countedBlocks :
    let start := (Arena.empty "/").newRoot
    let a := (insertAll start.1 none start.2 countedBlocks).2
    let ids := (insertAll start.1 none start.2 countedBlocks).1
    start.1 < a.scopes.size ∧ a.Shallow a.blocks.size ids
      ∧ (a.expandCounts start.1 ids).1.map (fun id => ((a.expandCounts start.1 ids).2.block id).labels)
        = [["a", "x[0]"], ["a", "x[1]"], ["b", "y"], ["c", "z[0]"]]
      ∧ ∃ groups, CountedRound start.1 a ids groups := by
  intro start a ids
  have hroot : start.1 < a.scopes.size := by decide +kernel
  have hids : a.Shallow a.blocks.size ids := by decide +kernel
  exact ⟨hroot, hids, by decide +kernel, expandCounts_replaces_counted hroot hids⟩

end Arena

end InfraConfig
