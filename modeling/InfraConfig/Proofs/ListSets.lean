import InfraConfig.Proofs.FunctionCalls
import InfraConfig.Proofs.ValueEquality

/-!
# Lists as sets

A list stands for the set of what equals one of its items. An item is seen first where none before it equals it, and
the functions of sets answer lists of items in the order in which they are first seen. As equality is transitive, an item
is among those that are kept if it is among all that came before. So it makes no difference which lists have lost their
repeated items before.
-/

namespace InfraConfig

namespace Functions

variable {d e x : Datum} {items seen seen' : List Datum}

/-! ## Members -/

theorem member_iff : member d items = true ↔ ∃ x ∈ items, (x == d) = true :=
  List.any_eq_true

@[simp] theorem member_nil (d : Datum) : member d [] = false := rfl

@[simp] theorem member_cons (d x : Datum) (xs : List Datum) : member d (x :: xs) = (x == d || member d xs) :=
  List.any_cons

@[simp] theorem member_append (d : Datum) (xs ys : List Datum) : member d (xs ++ ys) = (member d xs || member d ys) :=
  List.any_append

/-- What equals a member is one. -/
theorem member_of_beq (h : member d items = true) (hde : (d == e) = true) : member e items = true := by
  obtain ⟨x, hx, hxd⟩ := member_iff.mp h
  exact member_iff.mpr ⟨x, hx, Datum.beq_trans hxd hde⟩

/-- An item that equals a member adds no member. -/
theorem member_absorb (h : member x items = true) (d : Datum) : (x == d || member d items) = member d items := by
  cases hxd : x == d with
  | false => rfl
  | true => exact (member_of_beq h hxd).symm

/-! ## First occurrences -/

/-- The items that equal none before them. -/
def firstSeen (items : List Datum) : List Datum :=
  (List.range items.length).filterMap fun i => items[i]?.filter fun d => !member d (items.take i)

theorem firstSeen_concat (items : List Datum) (d : Datum) :
    firstSeen (items ++ [d]) = firstSeen items ++ if member d items then [] else [d] := by
  have hbefore : (List.range items.length).filterMap
      (fun i => (items ++ [d])[i]?.filter fun e => !member e ((items ++ [d]).take i)) = firstSeen items := by
    refine List.filterMap_congr fun i hi => ?_
    have hlt : i < items.length := List.mem_range.mp hi
    rw [List.getElem?_append_left hlt, List.take_append_of_le_length (Nat.le_of_lt hlt)]
  rw [firstSeen, List.length_append, List.length_singleton, List.range_succ, List.filterMap_append, hbefore]
  cases hmember : member d items <;> simp [Option.filter, hmember]

/-! ## Leaving out repeated items -/

theorem distinctFrom_congr (h : ∀ d, member d seen = member d seen') (items : List Datum) :
    distinctFrom seen items = distinctFrom seen' items := by
  induction items generalizing seen seen' with
  | nil => rfl
  | cons x items ih =>
    have hcons : ∀ d, member d (x :: seen) = member d (x :: seen') := fun d => by rw [member_cons, member_cons, h]
    rw [distinctFrom, distinctFrom, h, ih h, ih hcons]

/-- Items are compared with all that came before. -/
theorem distinctFrom_append (seen xs ys : List Datum) :
    distinctFrom seen (xs ++ ys) = distinctFrom seen xs ++ distinctFrom (seen ++ xs) ys := by
  induction xs generalizing seen with
  | nil => rw [List.nil_append, List.append_nil, distinctFrom, List.nil_append]
  | cons x xs ih =>
    rw [List.cons_append, distinctFrom, distinctFrom]
    by_cases hseen : member x seen = true
    · have hall : ∀ d, member d (seen ++ xs) = member d (seen ++ x :: xs) := fun d => by
        rw [member_append, member_append, member_cons, Bool.or_left_comm, ← Bool.or_assoc, member_absorb hseen]
      rw [if_pos hseen, if_pos hseen, ih, distinctFrom_congr hall]
    · have hall : ∀ d, member d (x :: seen ++ xs) = member d (seen ++ x :: xs) := fun d => by
        simp [Bool.or_left_comm]
      rw [if_neg hseen, if_neg hseen, ih, distinctFrom_congr hall, List.cons_append]

theorem distinctFrom_concat (seen items : List Datum) (d : Datum) :
    distinctFrom seen (items ++ [d]) = distinctFrom seen items ++ if member d (seen ++ items) then [] else [d] := by
  rw [distinctFrom_append, distinctFrom, distinctFrom, distinctFrom]

theorem distinct_concat (items : List Datum) (d : Datum) :
    distinct (items ++ [d]) = distinct items ++ if member d items then [] else [d] :=
  distinctFrom_concat [] items d

/-- What is left are the first occurrences. -/
theorem distinct_eq_firstSeen (items : List Datum) : distinct items = firstSeen items := by
  induction items using List.reverseRecOn with
  | nil => rfl
  | append_singleton items d ih => rw [distinct_concat, firstSeen_concat, ih]

theorem distinctFrom_sublist (seen items : List Datum) : (distinctFrom seen items).Sublist items := by
  induction items generalizing seen with
  | nil => exact .slnil
  | cons x items ih =>
    rw [distinctFrom]
    split_ifs
    · exact (ih seen).cons x
    · exact (ih (x :: seen)).cons_cons x

theorem distinct_sublist (items : List Datum) : (distinct items).Sublist items :=
  distinctFrom_sublist [] items

@[simp] theorem member_distinct (d : Datum) (items : List Datum) : member d (distinct items) = member d items := by
  induction items using List.reverseRecOn with
  | nil => rfl
  | append_singleton items x ih =>
    rw [distinct_concat, member_append, member_append, ih, member_cons, member_nil, Bool.or_false]
    by_cases hx : member x items = true
    · rw [if_pos hx, member_nil, Bool.or_false, Bool.or_comm, member_absorb hx]
    · rw [if_neg hx, member_cons, member_nil, Bool.or_false]

theorem pairwise_distinct (items : List Datum) : (distinct items).Pairwise fun x y => (x == y) = false := by
  induction items using List.reverseRecOn with
  | nil => exact .nil
  | append_singleton items d ih =>
    rw [distinct_concat]
    split_ifs with hd
    · rwa [List.append_nil]
    · refine List.pairwise_append.mpr ⟨ih, List.pairwise_singleton _ _, fun x hx y hy => ?_⟩
      rw [← member_distinct, Bool.not_eq_true] at hd
      rw [List.mem_singleton.mp hy]
      exact Bool.eq_false_iff.mpr (List.any_eq_false.mp hd x hx)

/-- Items that are left out of one list for being repeated in it would be left out anyway. -/
theorem distinctFrom_distinct (seen items : List Datum) : distinctFrom seen (distinct items) = distinctFrom seen items := by
  induction items using List.reverseRecOn with
  | nil => rfl
  | append_singleton items d ih =>
    rw [distinct_concat, distinctFrom_concat]
    by_cases hd : member d items = true
    · rw [if_pos hd, List.append_nil, ih, if_pos (by rw [member_append, hd, Bool.or_true]), List.append_nil]
    · rw [if_neg hd, distinctFrom_concat, ih, member_append, member_append, member_distinct]

/-- The union of sets is what is left of all their items. -/
theorem setUnion_eq (sets : List (List Datum)) : setUnion sets = distinct sets.flatten := by
  have hsets (seen : List Datum) : distinctFrom seen (sets.flatMap distinct) = distinctFrom seen sets.flatten := by
    induction sets generalizing seen with
    | nil => rfl
    | cons set sets ih =>
      have hseen : ∀ d, member d (seen ++ distinct set) = member d (seen ++ set) := fun d => by simp
      rw [List.flatMap_cons, List.flatten_cons, distinctFrom_append, distinctFrom_append, distinctFrom_distinct,
        distinctFrom_congr hseen, ih]
  exact hsets []

theorem setIntersection_cons (first : List Datum) (rest : List (List Datum)) :
    setIntersection (first :: rest) = (distinct first).filter fun d => rest.all (member d) := by
  simp [setIntersection, Function.comp_def]

/-! ## What sets are made of -/

/-- Whether equal data are both in or both out. -/
def Respects (p : Datum → Bool) (items : List Datum) : Prop :=
  ∀ x ∈ items, ∀ d, d.HasDistinctKeys → (x == d) = true → p x = p d

theorem member_congr (hd : d.HasDistinctKeys) (hx : x.HasDistinctKeys) (h : (x == d) = true) (items : List Datum) :
    member x items = member d items :=
  Bool.eq_iff_iff.mpr ⟨fun hmember => member_of_beq hmember h,
    fun hmember => member_of_beq hmember (Datum.beq_symm hx hd h)⟩

theorem member_filter_distinct {p : Datum → Bool} (hp : Respects p items) (hd : d.HasDistinctKeys) :
    member d ((distinct items).filter p) = (member d items && p d) := by
  rw [Bool.eq_iff_iff, Bool.and_eq_true, ← member_distinct d items, member_iff, member_iff]
  constructor
  · rintro ⟨x, hx, hxd⟩
    obtain ⟨hx, hpx⟩ := List.mem_filter.mp hx
    exact ⟨⟨x, hx, hxd⟩, hp x ((distinct_sublist items).subset hx) d hd hxd ▸ hpx⟩
  · rintro ⟨⟨x, hx, hxd⟩, hpd⟩
    have hpx := hp x ((distinct_sublist items).subset hx) d hd hxd
    exact ⟨x, List.mem_filter.mpr ⟨hx, hpx.trans hpd⟩, hxd⟩

/-- The items with a property that a list has, each where it is first seen and no more. -/
structure PicksFirst (p : Datum → Bool) (items result : List Datum) : Prop where
  eq_filter : result = (firstSeen items).filter p
  unequal : result.Pairwise fun x y => (x == y) = false ∧ (y == x) = false
  member_iff : ∀ d : Datum, d.HasDistinctKeys → (member d result = true ↔ member d items = true ∧ p d = true)

theorem picksFirst {p : Datum → Bool} (hkeys : ∀ x ∈ items, x.HasDistinctKeys) (hp : Respects p items) :
    PicksFirst p items ((distinct items).filter p) where
  eq_filter := by rw [distinct_eq_firstSeen]
  unequal := by
    refine ((pairwise_distinct items).filter p).imp_of_mem fun {x y} hx hy hxy => ⟨hxy, ?_⟩
    have hheld (z : Datum) (hz : z ∈ (distinct items).filter p) : z.HasDistinctKeys :=
      hkeys z ((distinct_sublist items).subset (List.mem_of_mem_filter hz))
    exact Bool.eq_false_iff.mpr fun hyx => Bool.eq_false_iff.mp hxy (Datum.beq_symm (hheld y hy) (hheld x hx) hyx)
  member_iff d hd := by rw [member_filter_distinct hp hd, Bool.and_eq_true]

theorem picksFirst_distinct (hkeys : ∀ x ∈ items, x.HasDistinctKeys) :
    PicksFirst (fun _ => true) items (distinct items) := by
  have hpicks : PicksFirst (fun _ => true) items ((distinct items).filter fun _ => true) :=
    picksFirst hkeys fun _ _ _ _ _ => rfl
  rwa [List.filter_true] at hpicks

theorem respects_not_member (hkeys : ∀ x ∈ items, x.HasDistinctKeys) (removed : List Datum) :
    Respects (fun d => !member d removed) items :=
  fun x hx _ hd h => congrArg not (member_congr hd (hkeys x hx) h removed)

theorem respects_all_member (hkeys : ∀ x ∈ items, x.HasDistinctKeys) (sets : List (List Datum)) :
    Respects (fun d => sets.all (member d)) items := by
  intro x hx d hd h
  have hsame : member x = member d := funext (member_congr hd (hkeys x hx) h)
  exact congrArg sets.all hsame

/-! ## Calls with lists -/

theorem listsFrom_lists (position : Nat) (sets : List (List Datum)) :
    listsFrom position (sets.map .list) = .ok sets := by
  induction sets generalizing position with
  | nil => rfl
  | cons set sets ih =>
    rw [List.map_cons, listsFrom, ih]
    rfl

theorem answers_ofLists {name : String} {f : List (List Datum) → Datum} (hfind : find? name = some (ofLists f))
    (first : List Datum) (rest : List (List Datum)) :
    Answers name ((first :: rest).map .list) (.ok (f (first :: rest))) := by
  have hanswer : Answers name ((first :: rest).map .list)
      (do return f (← listsFrom 0 ((first :: rest).map .list))) := .ofFirst hfind rfl fun _ _ => rfl
  rw [listsFrom_lists] at hanswer
  exact hanswer

theorem answers_distinct (items : List Datum) : Answers "distinct" [.list items] (.ok (.list (distinct items))) :=
  ⟨_, rfl, Function.call_own (.cons rfl .nil)⟩

theorem answers_setsubtract (items removed : List Datum) :
    Answers "setsubtract" [.list items, .list removed] (.ok (.list (setSubtract items removed))) :=
  ⟨_, rfl, Function.call_own (.cons rfl (.cons rfl .nil))⟩

theorem answers_setintersection (first : List Datum) (rest : List (List Datum)) :
    Answers "setintersection" ((first :: rest).map .list) (.ok (.list (setIntersection (first :: rest)))) := by
  have hfind : find? "setintersection" = some (ofLists fun sets => .list (setIntersection sets)) := rfl
  exact answers_ofLists hfind first rest

theorem answers_setunion (first : List Datum) (rest : List (List Datum)) :
    Answers "setunion" ((first :: rest).map .list) (.ok (.list (setUnion (first :: rest)))) := by
  have hfind : find? "setunion" = some (ofLists fun sets => .list (setUnion sets)) := rfl
  exact answers_ofLists hfind first rest

/-! ## A list and its parts -/

theorem distinct_of_pairwise (h : items.Pairwise fun x y => (x == y) = false) : distinct items = items := by
  induction items using List.reverseRecOn with
  | nil => rfl
  | append_singleton items d ih =>
    obtain ⟨hitems, -, hlast⟩ := List.pairwise_append.mp h
    have hd : member d items = false :=
      List.any_eq_false.mpr fun x hx => Bool.eq_false_iff.mp (hlast x hx d (List.mem_singleton_self d))
    rw [distinct_concat, ih hitems, hd, if_neg Bool.false_ne_true]

/-- What is not in another list and what is in it make up the items of a list. -/
theorem perm_setUnion_parts (hkeys : ∀ x ∈ items, x.HasDistinctKeys) (other : List Datum) :
    (setUnion [setSubtract items other, setIntersection [items, other]]).Perm (firstSeen items) := by
  have hparts : (setSubtract items other ++ setIntersection [items, other]).Perm (distinct items) := by
    rw [setIntersection_cons, setSubtract]
    simpa using (List.perm_append_comm.trans (List.filter_append_perm (member · other) (distinct items)))
  have hunequal := hparts.symm.pairwise (picksFirst_distinct hkeys).unequal fun h => ⟨h.2, h.1⟩
  rw [setUnion_eq, List.flatten_cons, List.flatten_singleton, distinct_of_pairwise (hunequal.imp And.left),
    ← distinct_eq_firstSeen]
  exact hparts

end Functions

open Functions (Answers PicksFirst answers_distinct answers_setintersection answers_setsubtract answers_setunion firstSeen
  member perm_setUnion_parts picksFirst picksFirst_distinct respects_all_member respects_not_member
  setIntersection_cons setUnion_eq)

/-- The functions of sets pick the items with a property where they are first seen: a list without repeated items has all
of them, and so has a union of several lists one after another, an intersection those of its first list that are members
of all others, and a difference those that are not members of the other list. The difference from a list and the
intersection with it have a union of just the same items. -/
theorem set_functions_pick {first : List Datum} {rest : List (List Datum)}
    (hkeys : ∀ set ∈ first :: rest, ∀ d ∈ set, d.HasDistinctKeys) (removed : List Datum) :
    (∃ result, Answers "distinct" [.list first] (.ok (.list result)) ∧ PicksFirst (fun _ => true) first result) ∧
    (∃ result, Answers "setunion" ((first :: rest).map .list) (.ok (.list result)) ∧
      PicksFirst (fun _ => true) (first :: rest).flatten result) ∧
    (∃ result, Answers "setintersection" ((first :: rest).map .list) (.ok (.list result)) ∧
      PicksFirst (fun d => rest.all (member d)) first result) ∧
    (∃ result, Answers "setsubtract" [.list first, .list removed] (.ok (.list result)) ∧
      PicksFirst (fun d => !member d removed) first result) ∧
    ∃ left common whole, Answers "setsubtract" [.list first, .list removed] (.ok (.list left)) ∧
      Answers "setintersection" [.list first, .list removed] (.ok (.list common)) ∧
      Answers "setunion" [.list left, .list common] (.ok (.list whole)) ∧
      whole.Perm (firstSeen first) ∧ ∀ d, member d whole = member d first := by
  have hfirst : ∀ d ∈ first, d.HasDistinctKeys := hkeys first List.mem_cons_self
  have hflat : ∀ d ∈ (first :: rest).flatten, d.HasDistinctKeys := by
    intro d hd
    obtain ⟨set, hset, hd⟩ := List.mem_flatten.mp hd
    exact hkeys set hset d hd
  refine ⟨⟨_, answers_distinct first, picksFirst_distinct hfirst⟩, ⟨_, answers_setunion first rest, ?_⟩,
    ⟨_, answers_setintersection first rest, ?_⟩, ⟨_, answers_setsubtract first removed, ?_⟩,
    _, _, _, answers_setsubtract first removed, answers_setintersection first [removed], answers_setunion _ [_], ?_, ?_⟩
  · rw [setUnion_eq]
    exact picksFirst_distinct hflat
  · rw [setIntersection_cons]
    exact picksFirst hfirst (respects_all_member hfirst rest)
  · exact picksFirst hfirst (respects_not_member hfirst removed)
  · exact perm_setUnion_parts hfirst removed
  · intro d
    rw [← Functions.member_distinct d first, Functions.distinct_eq_firstSeen]
    exact (perm_setUnion_parts hfirst removed).any_eq

/-- An object is the same item whatever the order of its entries, and the order of the items is that of their first
occurrences. -/
theorem set_functions_pick_reorderedObject :
    let one : Datum := .object [("a", .int 1), ("b", .int 2)]
    let other : Datum := .object [("b", .int 2), ("a", .int 1)]
    (∀ set ∈ [[.text "x", one, other], [other, .text "y"]], ∀ d ∈ set, d.HasDistinctKeys) ∧
    Answers "distinct" [.list [.text "x", one, other]] (.ok (.list [.text "x", one])) ∧
    Answers "setunion" [.list [.text "x", one, other], .list [other, .text "y"]]
      (.ok (.list [.text "x", one, .text "y"])) ∧
    Answers "setintersection" [.list [.text "x", one, other], .list [other, .text "y"]] (.ok (.list [one])) ∧
    Answers "setsubtract" [.list [.text "x", one, other], .list [other]] (.ok (.list [.text "x"])) := by
  intro one other
  have hplain (d : Datum) (hmembers : d.members = []) (hobject : ∀ es, d ≠ .object es) : d.HasDistinctKeys :=
    ⟨fun es h => absurd h (hobject es), by simp [hmembers]⟩
  have hint (n : Int) : (Datum.int n).HasDistinctKeys := hplain _ rfl nofun
  have htext (s : String) : (Datum.text s).HasDistinctKeys := hplain _ rfl nofun
  have hobject (j k : String) (m n : Int) (hjk : j ≠ k) :
      (Datum.object [(j, .int m), (k, .int n)]).HasDistinctKeys := by
    refine ⟨?_, by simp [Datum.members, hint]⟩
    rintro es ⟨⟩
    simpa [Entries.keys] using hjk
  have hone : one.HasDistinctKeys := hobject "a" "b" 1 2 (by decide)
  have hother : other.HasDistinctKeys := hobject "b" "a" 2 1 (by decide)
  have hkeys : ∀ set ∈ [[.text "x", one, other], [other, .text "y"]], ∀ d ∈ set, d.HasDistinctKeys := by
    simp [hone, hother, htext]
  obtain ⟨⟨_, hdistinct, hpicks⟩, ⟨_, hunion, hgathered⟩, ⟨_, hintersection, hshared⟩, ⟨_, hsubtract, hleft⟩, -⟩ :=
    set_functions_pick hkeys [other]
  rw [hpicks.eq_filter] at hdistinct
  rw [hgathered.eq_filter] at hunion
  rw [hshared.eq_filter] at hintersection
  rw [hleft.eq_filter] at hsubtract
  exact ⟨hkeys, hdistinct, hunion, hintersection, hsubtract⟩

end InfraConfig
