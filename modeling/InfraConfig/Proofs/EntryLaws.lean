import Mathlib.Data.List.Nodup
import InfraConfig.Entries

/-!
# Laws of ordered entries

Entries are read by key. What a write does is said here through `get?` and the keys; later proofs do not
look at the list behind them.
-/

namespace InfraConfig

namespace Entries

variable {α β : Type}

theorem nodup_keys_nil : (keys ([] : Entries α)).Nodup := List.nodup_nil

@[simp] theorem get?_nil (k : String) : get? ([] : Entries α) k = none := rfl

theorem get?_cons (k : String) (v : α) (rest : Entries α) (j : String) :
    get? ((k, v) :: rest) j = if j = k then some v else rest.get? j := by
  by_cases h : j = k
  · subst h
    simp [get?]
  · simp [get?, List.lookup_cons, beq_false_of_ne h, h]

theorem get?_isSome_iff (es : Entries α) (j : String) : (es.get? j).isSome ↔ j ∈ es.keys := by
  induction es with
  | nil => simp [keys]
  | cons e rest ih =>
    obtain ⟨k, v⟩ := e
    rw [get?_cons]
    by_cases h : j = k
    · simp [h, keys]
    · simpa [h, keys] using ih

theorem get?_eq_none_iff (es : Entries α) (j : String) : es.get? j = none ↔ j ∉ es.keys := by
  rw [← get?_isSome_iff]
  cases es.get? j <;> simp

theorem mem_keys_of_get? {es : Entries α} {j : String} {v : α} (h : es.get? j = some v) :
    j ∈ es.keys := by
  rw [← get?_isSome_iff, h]
  rfl

theorem mem_of_get? {es : Entries α} {j : String} {v : α} (h : es.get? j = some v) : (j, v) ∈ es := by
  obtain ⟨before, after, rfl, -⟩ := List.lookup_eq_some_iff.mp h
  exact List.mem_append_right before List.mem_cons_self

theorem get?_of_mem {es : Entries α} (hn : es.keys.Nodup) {j : String} {v : α} (h : (j, v) ∈ es) :
    es.get? j = some v := by
  induction es with
  | nil => simp at h
  | cons e rest ih =>
    obtain ⟨k, w⟩ := e
    obtain ⟨hk, hrest⟩ := List.nodup_cons.mp hn
    rw [get?_cons]
    rcases List.mem_cons.mp h with he | hm
    · obtain ⟨rfl, rfl⟩ := Prod.mk.inj he
      simp
    · have hj : j ≠ k := by
        rintro rfl
        exact hk (List.mem_map.mpr ⟨(j, v), hm, rfl⟩)
      simpa [hj] using ih hrest hm

@[simp] theorem get?_put (es : Entries α) (k : String) (v : α) (j : String) :
    (es.put k v).get? j = if j = k then some v else es.get? j := by
  induction es with
  | nil => simp [put, get?_cons]
  | cons e rest ih =>
    obtain ⟨k', w⟩ := e
    rw [put]
    by_cases hk : k' = k
    · subst hk
      by_cases hj : j = k' <;> simp [get?_cons, hj]
    · rw [if_neg hk, get?_cons, ih, get?_cons]
      by_cases hj : j = k'
      · simp [hj, hk]
      · simp [hj]

theorem keys_put (es : Entries α) (k : String) (v : α) :
    (es.put k v).keys = if k ∈ es.keys then es.keys else es.keys ++ [k] := by
  induction es with
  | nil => simp [put, keys]
  | cons e rest ih =>
    obtain ⟨k', w⟩ := e
    rw [put]
    by_cases hk : k' = k
    · simp [hk, keys]
    · have hne : k ≠ k' := fun e => hk e.symm
      rw [if_neg hk]
      change k' :: keys (put rest k v) = _
      rw [ih]
      by_cases hr : k ∈ keys rest
      · have : k ∈ (keys ((k', w) :: rest)) := List.mem_cons_of_mem _ hr
        rw [if_pos hr, if_pos this]
        rfl
      · have : k ∉ (keys ((k', w) :: rest)) := by
          rintro (_ | ⟨_, h⟩)
          · exact hne rfl
          · exact hr h
        rw [if_neg hr, if_neg this]
        rfl

theorem mem_keys_put {es : Entries α} {k j : String} {v : α} :
    j ∈ (es.put k v).keys ↔ j = k ∨ j ∈ es.keys := by
  rw [← get?_isSome_iff, ← get?_isSome_iff, get?_put]
  by_cases h : j = k <;> simp [h]

theorem nodup_keys_put {es : Entries α} (h : es.keys.Nodup) (k : String) (v : α) :
    (es.put k v).keys.Nodup := by
  rw [keys_put]
  by_cases hk : k ∈ es.keys
  · rwa [if_pos hk]
  · rw [if_neg hk, List.nodup_append]
    refine ⟨h, List.nodup_singleton k, ?_⟩
    intro a ha b hb
    rw [List.mem_singleton.mp hb]
    exact fun e => hk (e ▸ ha)

/-- Writing what is there already changes nothing. -/
theorem put_eq_self {es : Entries α} {k : String} {v : α} (h : es.get? k = some v) :
    es.put k v = es := by
  induction es with
  | nil => simp at h
  | cons e rest ih =>
    obtain ⟨k', w⟩ := e
    rw [get?_cons] at h
    rw [put]
    by_cases hk : k' = k
    · subst hk
      simp only [if_true, Option.some.injEq] at h
      simp [h]
    · have hne : k ≠ k' := fun e => hk e.symm
      rw [if_neg hne] at h
      rw [if_neg hk, ih h]

theorem put_of_not_mem {es : Entries α} {k : String} (h : k ∉ es.keys) (v : α) :
    es.put k v = es ++ [(k, v)] := by
  induction es with
  | nil => rfl
  | cons e rest ih =>
    obtain ⟨k', w⟩ := e
    have hk : k' ≠ k := fun e => h (by simp [keys, e])
    rw [put, if_neg hk, ih fun hm => h (List.mem_cons_of_mem _ hm)]
    rfl

/-! ## Writing several entries -/

theorem putAll_cons (es : Entries α) (k : String) (v : α) (more : Entries α) :
    es.putAll ((k, v) :: more) = (es.put k v).putAll more := rfl

theorem nodup_keys_putAll {es : Entries α} (h : es.keys.Nodup) (more : Entries α) :
    (es.putAll more).keys.Nodup := by
  induction more generalizing es with
  | nil => exact h
  | cons e more ih => exact ih (nodup_keys_put h e.1 e.2)

theorem nodup_keys_ofPairs (pairs : List (String × α)) : (ofPairs pairs).keys.Nodup :=
  nodup_keys_putAll nodup_keys_nil pairs

/-- Entries without double keys go over those that were there. -/
theorem get?_putAll {more : Entries α} (hn : more.keys.Nodup) (es : Entries α) (j : String) :
    (es.putAll more).get? j = (more.get? j).or (es.get? j) := by
  induction more generalizing es with
  | nil => simp [putAll]
  | cons e more ih =>
    obtain ⟨k, v⟩ := e
    obtain ⟨hk, hmore⟩ := List.nodup_cons.mp hn
    rw [putAll_cons, ih hmore, get?_put, get?_cons]
    by_cases hj : j = k
    · subst hj
      have hnone : get? more j = none := (get?_eq_none_iff _ _).mpr hk
      simp [hnone]
    · simp [hj]

/-- Pairs without double keys are their own entries. -/
theorem ofPairs_eq_self {pairs : Entries α} (h : pairs.keys.Nodup) : ofPairs pairs = pairs := by
  suffices hs : ∀ (pairs acc : Entries α), (acc.keys ++ pairs.keys).Nodup →
      acc.putAll pairs = acc ++ pairs by
    simpa [ofPairs] using hs pairs [] (by simpa [keys] using h)
  intro pairs
  induction pairs with
  | nil => intro acc _; simp [putAll]
  | cons e pairs ih =>
    intro acc hn
    obtain ⟨k, v⟩ := e
    have hk : k ∉ acc.keys := by
      intro hm
      rw [List.nodup_append] at hn
      exact hn.2.2 k hm k (by simp [keys]) rfl
    rw [putAll_cons, put_of_not_mem hk, ih]
    · simp
    · simpa [keys, List.append_assoc] using hn

/-! ## Sorting -/

theorem perm_insertSorted (e : String × α) (es : Entries α) : (insertSorted e es).Perm (e :: es) := by
  induction es with
  | nil => exact .refl _
  | cons f es ih =>
    rw [insertSorted]
    split
    · exact .refl _
    · exact (ih.cons f).trans (.swap e f es)

theorem perm_sorted (es : Entries α) : (sorted es).Perm es := by
  induction es with
  | nil => exact .refl _
  | cons f es ih => exact (perm_insertSorted f _).trans (ih.cons f)

/-- An entry is put among ascending ones. -/
theorem ascending_insertSorted (e : String × α) {es : Entries α} (h : es.Pairwise fun f g => f.1 ≤ g.1) :
    (insertSorted e es).Pairwise fun f g => f.1 ≤ g.1 := by
  induction es with
  | nil => exact List.pairwise_singleton _ _
  | cons f es ih =>
    obtain ⟨hf, hrest⟩ := List.pairwise_cons.mp h
    rw [insertSorted]
    split
    · next hlt =>
      have hle : e.1 ≤ f.1 := String.not_lt.mp fun hgt => String.lt_irrefl _ (String.lt_trans hlt hgt)
      refine List.pairwise_cons.mpr ⟨fun g hg => ?_, h⟩
      rcases List.mem_cons.mp hg with rfl | hg
      · exact hle
      · exact String.le_trans hle (hf g hg)
    · next hnot =>
      refine List.pairwise_cons.mpr ⟨fun g hg => ?_, ih hrest⟩
      rcases List.mem_cons.mp ((perm_insertSorted e es).subset hg) with rfl | hg
      · exact String.not_lt.mp hnot
      · exact hf g hg

theorem ascending_sorted (es : Entries α) : (sorted es).Pairwise fun f g => f.1 ≤ g.1 := by
  induction es with
  | nil => exact .nil
  | cons f es ih => exact ascending_insertSorted f ih

theorem keys_sorted {es : Entries α} (h : es.keys.Nodup) :
    (sorted es).keys.Pairwise (· < ·) ∧ (sorted es).keys.Perm es.keys := by
  have hperm : (sorted es).keys.Perm es.keys := (perm_sorted es).map Prod.fst
  have hle : (sorted es).keys.Pairwise (· ≤ ·) := List.pairwise_map.mpr (ascending_sorted es)
  have hne : (sorted es).keys.Pairwise (· ≠ ·) := hperm.symm.nodup h
  refine ⟨(hle.and hne).imp fun ⟨hle, hne⟩ => String.not_le.mp fun hge => ?_, hperm⟩
  exact hne (String.le_antisymm hle hge)

end Entries

end InfraConfig
