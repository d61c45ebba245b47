import InfraConfig.Proofs.FunctionCalls

/-!
# Texts between separators

A text is taken apart at the places where a separator is found from left to right, and put together by writing the
separator between the pieces. Whatever the separator, the pieces put together are the text. The other way around pieces
are found again if they do not contain the separator, which is one character, so that no part of one is found.
-/

namespace InfraConfig

/-! ## One character as separator -/

theorem splitPieces_singleton (sep : Char) (cs : List Char) : splitPieces [sep] 0 cs = cs.splitOn sep := by
  induction cs with
  | nil => rfl
  | cons c cs ih =>
    rw [splitPieces, List.splitOn_cons_eq_if_modifyHead, List.isPrefixOf_cons_cons, List.isPrefixOf_nil_left,
      Bool.and_true]
    by_cases hc : sep = c
    · rw [if_pos (beq_iff_eq.mpr hc), if_pos (beq_iff_eq.mpr hc.symm)]
      exact congrArg _ ih
    · rw [if_neg (by simpa using hc), if_neg (by simpa using Ne.symm hc), ih]
      cases hpieces : cs.splitOn sep with
      | nil => exact absurd hpieces (List.splitOnP_ne_nil _ _)
      | cons piece pieces => rfl

theorem splitText_eq_splitOn {p : String} {sep : Char} (hp : p.toList = [sep]) (s : String) :
    splitText p s = (s.toList.splitOn sep).map String.ofList := by
  rw [splitText, splitAll, hp]
  exact congrArg _ (splitPieces_singleton sep s.toList)

/-- A separator between two texts separates what is between the separators of each. -/
theorem splitText_append {p : String} {sep : Char} (hp : p.toList = [sep]) (s t : String) :
    splitText p (s ++ p ++ t) = splitText p s ++ splitText p t := by
  have hlist : (s ++ p ++ t).toList = s.toList ++ sep :: t.toList := by simp [hp]
  rw [splitText_eq_splitOn hp, splitText_eq_splitOn hp, splitText_eq_splitOn hp, hlist, List.splitOn,
    List.splitOnP_append_cons _ _ (by simp), List.map_append]
  rfl

theorem splitText_of_not_mem {p : String} {sep : Char} (hp : p.toList = [sep]) {s : String} (h : sep ∉ s.toList) :
    splitText p s = [s] := by
  have hnone : ∀ l ∈ [s.toList], sep ∉ l := by simpa using h
  have hone := List.splitOn_intercalate sep hnone (by simp)
  rw [List.intercalate_singleton] at hone
  rw [splitText_eq_splitOn hp, hone, List.map_singleton, String.ofList_toList]

theorem intercalateList_eq {α : Type} (sep : List α) (parts : List (List α)) :
    intercalateList sep parts = sep.intercalate parts := by
  induction parts with
  | nil => rfl
  | cons part parts ih =>
    cases parts with
    | nil => exact List.intercalate_singleton.symm
    | cons next parts =>
      rw [intercalateList, ih, List.intercalate_cons_cons]
      exact List.cons_ne_nil next parts

theorem not_mem_of_mem_splitOn {α : Type} [BEq α] [LawfulBEq α] {x : α} {xs piece : List α}
    (h : piece ∈ xs.splitOn x) : x ∉ piece := by
  induction xs generalizing piece with
  | nil =>
    obtain rfl : piece = [] := by simpa using h
    exact List.not_mem_nil
  | cons y ys ih =>
    rw [List.splitOn_cons_eq_if_modifyHead] at h
    split at h
    · rcases List.mem_cons.mp h with rfl | h
      · exact List.not_mem_nil
      · exact ih h
    · next hne =>
      cases hpieces : ys.splitOn x with
      | nil => exact absurd hpieces (List.splitOnP_ne_nil _ _)
      | cons first pieces =>
        rw [hpieces] at h ih
        rcases List.mem_cons.mp h with rfl | h
        · rw [List.mem_cons, not_or]
          exact ⟨fun heq => hne (beq_iff_eq.mpr heq.symm), ih List.mem_cons_self⟩
        · exact ih (List.mem_cons_of_mem first h)

/-! ## Pieces put together -/

section

variable {α : Type}

theorem splitPieces_ne_nil [BEq α] (p : List α) (skip : Nat) (cs : List α) : splitPieces p skip cs ≠ [] := by
  fun_induction splitPieces p skip cs with
  | case2 _ _ _ ih => exact ih
  | _ => exact List.cons_ne_nil _ _

/-- The pieces put together are what was taken apart, after the characters that are passed over. -/
theorem intercalate_splitPieces [BEq α] [LawfulBEq α] {p : List α} (hp : p ≠ []) (skip : Nat) (cs : List α) :
    p.intercalate (splitPieces p skip cs) = cs.drop skip := by
  fun_induction splitPieces p skip cs with
  | case1 skip => rw [List.intercalate_singleton, List.drop_nil]
  | case2 skip c cs ih => rw [ih, List.drop_succ_cons]
  | case3 c cs hfound ih =>
    have hlength : p.length = p.length - 1 + 1 := (Nat.sub_add_cancel (List.length_pos_iff.mpr hp)).symm
    have hrest : cs.drop (p.length - 1) = (c :: cs).drop p.length := by rw [hlength]; rfl
    rw [List.intercalate_cons_of_ne_nil (splitPieces_ne_nil _ _ _), ih, List.nil_append, hrest]
    exact List.prefix_iff_eq_append.mp (List.isPrefixOf_iff_prefix.mp hfound)
  | case4 c cs hfound hnone => exact absurd hnone (splitPieces_ne_nil _ _ _)
  | case5 c cs hfound piece pieces hpieces ih =>
    rw [hpieces, List.drop_zero] at ih
    rw [List.drop_zero, ← ih]
    cases pieces with
    | nil => rw [List.intercalate_singleton, List.intercalate_singleton]
    | cons next pieces => rw [List.intercalate_cons_cons, List.intercalate_cons_cons]; rfl

/-- The empty separator stands between all characters and at both ends. -/
theorem intercalate_nil_singletons (cs : List α) : [].intercalate ([] :: cs.map (fun c => [c]) ++ [[]]) = cs := by
  have hrest : [].intercalate (cs.map (fun c => [c]) ++ [[]]) = cs := by
    induction cs with
    | nil => exact List.intercalate_singleton
    | cons c cs ih =>
      rw [List.map_cons, List.cons_append, List.intercalate_cons_of_ne_nil (by simp), ih]
      rfl
  rw [List.cons_append, List.intercalate_cons_of_ne_nil (by simp), hrest]
  rfl

end

theorem joinText_splitText (sep s : String) : joinText sep (splitText sep s) = s := by
  have htexts : ((splitAll sep.toList s.toList).map String.ofList).map String.toList = splitAll sep.toList s.toList := by
    simp [Function.comp_def]
  rw [joinText, splitText, htexts, intercalateList_eq, splitAll]
  by_cases hempty : sep.toList = []
  · rw [hempty, List.isEmpty_nil, if_pos rfl, intercalate_nil_singletons, String.ofList_toList]
  · rw [if_neg (by simpa using hempty), intercalate_splitPieces hempty, List.drop_zero, String.ofList_toList]

variable {sep : Char} {items : List String}

theorem joinText_cons_cons (p part next : String) (parts : List String) :
    joinText p (part :: next :: parts) = part ++ p ++ joinText p (next :: parts) := by
  simp [joinText, intercalateList, String.append_assoc]

/-- What is put together is taken apart again, and each piece for itself where it contains the separator. -/
theorem splitText_joinText {p : String} (hp : p.toList = [sep]) (hne : items ≠ []) :
    splitText p (joinText p items) = items.flatMap (splitText p) := by
  induction items with
  | nil => exact absurd rfl hne
  | cons item items ih =>
    cases items with
    | nil => simp [joinText, intercalateList]
    | cons next items =>
      rw [joinText_cons_cons, splitText_append hp, ih (List.cons_ne_nil next items)]
      rfl

theorem flatMap_splitText_of_not_mem {p : String} (hp : p.toList = [sep]) (h : ∀ item ∈ items, sep ∉ item.toList) :
    items.flatMap (splitText p) = items := by
  induction items with
  | nil => rfl
  | cons item items ih =>
    obtain ⟨hitem, hitems⟩ := List.forall_mem_cons.mp h
    rw [List.flatMap_cons, splitText_of_not_mem hp hitem, ih hitems]
    rfl

namespace Functions

/-- An empty text has no pieces, and no pieces put together are an empty text. -/
theorem joinText_split (sep s : String) : joinText sep (split sep s) = s := by
  rw [split]
  by_cases hempty : s.isEmpty = true
  · rw [if_pos hempty, String.isEmpty_iff.mp hempty]
    rfl
  · rw [if_neg hempty, joinText_splitText]

/-- Only one empty piece is not found again, for it is put together to an empty text. -/
theorem split_joinText {p : String} (hp : p.toList = [sep]) (hne : items ≠ []) (hempty : items ≠ [""])
    (h : ∀ item ∈ items, sep ∉ item.toList) : split p (joinText p items) = items := by
  have hitems : splitText p (joinText p items) = items :=
    (splitText_joinText hp hne).trans (flatMap_splitText_of_not_mem hp h)
  rw [split, if_neg, hitems]
  intro hjoined
  rw [String.isEmpty_iff.mp hjoined, splitText_eq_splitOn hp] at hitems
  exact hempty hitems.symm

theorem plainTexts_texts (items : List String) : plainTexts (items.map .text) = .ok items := by
  induction items with
  | nil => rfl
  | cons item items ih =>
    rw [List.map_cons, plainTexts, ih]
    rfl

theorem answers_join (sep : String) (items : List String) :
    Answers "join" [.text sep, .list (items.map .text)] (.ok (.text (joinText sep items))) := by
  have htexts : listTexts 1 [.list (items.map .text)] = .ok items := by
    rw [listTexts, plainTexts_texts]
    exact congrArg Except.ok (List.append_nil items)
  have hfind : find? "join" = some ⟨[.string], some .any, fun args => do
      return .text (joinText (← textAt args 0) (← listTexts 1 (args.drop 1)))⟩ := rfl
  have hanswer : Answers "join" [.text sep, .list (items.map .text)]
      (do return .text (joinText sep (← listTexts 1 [.list (items.map .text)]))) :=
    .ofFirst hfind rfl fun _ _ => rfl
  rw [htexts] at hanswer
  exact hanswer

theorem answers_split (sep s : String) :
    Answers "split" [.text sep, .text s] (.ok (.list ((split sep s).map .text))) :=
  ⟨_, rfl, Function.call_own (.cons rfl (.cons rfl .nil))⟩

end Functions

open Functions (Answers answers_join answers_split joinText_split split_joinText)

/-- Joining undoes splitting, whatever the separator. Splitting undoes joining, if the separator is one character that
none of the items has, and there are any items but a single empty one. -/
theorem join_split_inverse :
    (∀ sep s : String, ∃ pieces, Answers "split" [.text sep, .text s] (.ok (.list pieces)) ∧
      Answers "join" [.text sep, .list pieces] (.ok (.text s))) ∧
    ∀ (sep : Char) (items : List String), items ≠ [] → items ≠ [""] → (∀ item ∈ items, sep ∉ item.toList) →
      ∃ s, Answers "join" [.text (.singleton sep), .list (items.map .text)] (.ok (.text s)) ∧
        Answers "split" [.text (.singleton sep), .text s] (.ok (.list (items.map .text))) := by
  constructor
  · intro sep s
    have hjoin := answers_join sep (Functions.split sep s)
    rw [joinText_split] at hjoin
    exact ⟨_, answers_split sep s, hjoin⟩
  · intro sep items hne hempty hitems
    have hsplit := answers_split (.singleton sep) (joinText (.singleton sep) items)
    rw [split_joinText (String.toList_singleton sep) hne hempty hitems] at hsplit
    exact ⟨_, answers_join _ items, hsplit⟩

/-- Empty items at both ends are found again, and overlapping places of a longer separator are joined as they were. -/
theorem join_split_inverse_emptyItems :
    (∀ item ∈ ["", "a", ""], '-' ∉ item.toList) ∧
    Answers "join" [.text "-", .list [.text "", .text "a", .text ""]] (.ok (.text "-a-")) ∧
    Answers "split" [.text "-", .text "-a-"] (.ok (.list [.text "", .text "a", .text ""])) ∧
    ∃ pieces, Answers "split" [.text "aa", .text "aaaaa"] (.ok (.list pieces)) ∧
      Answers "join" [.text "aa", .list pieces] (.ok (.text "aaaaa")) := by
  have hitems : ∀ item ∈ ["", "a", ""], '-' ∉ item.toList := by decide
  obtain ⟨s, hjoin, hsplit⟩ := join_split_inverse.2 '-' ["", "a", ""] (by decide) (by decide) hitems
  have hjoined := hjoin.unique (answers_join "-" ["", "a", ""])
  obtain rfl : s = "-a-" := Datum.text.inj (Except.ok.inj hjoined)
  exact ⟨hitems, hjoin, hsplit, join_split_inverse.1 "aa" "aaaaa"⟩

end InfraConfig
