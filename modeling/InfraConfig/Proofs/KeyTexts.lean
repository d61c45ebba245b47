import InfraConfig.Block.Placement

/-!
# Texts of instance keys

Different keys have different texts, whatever characters are in them: an escape says by its first two characters where
it ends. So instances of one block under different keys have different labels.
-/

namespace InfraConfig

/-! ## Digits -/

theorem digitChar_inj {n m : Nat} (hn : n < 16) (hm : m < 16) (h : Nat.digitChar n = Nat.digitChar m) : n = m := by
  have hall : ∀ i < 16, ∀ j < 16, Nat.digitChar i = Nat.digitChar j → i = j := by decide
  exact hall n hn m hm h

theorem toDigits_inj {b : Nat} (hb : 1 < b) (hb16 : b ≤ 16) (n m : Nat)
    (h : Nat.toDigits b n = Nat.toDigits b m) : n = m := by
  induction n using Nat.strongRecOn generalizing m with
  | ind n ih =>
    have hpos : 0 < b := Nat.lt_trans Nat.zero_lt_one hb
    have hlast (k : Nat) : (Nat.toDigits b k).getLast? = some (Nat.digitChar (k % b)) := by
      rw [Nat.toDigits_eq_if hb]
      split
      · next hk => simp [Nat.mod_eq_of_lt hk]
      · simp
    have hmod : n % b = m % b := by
      have hsame : some (Nat.digitChar (n % b)) = some (Nat.digitChar (m % b)) := by rw [← hlast, ← hlast, h]
      exact digitChar_inj (Nat.lt_of_lt_of_le (Nat.mod_lt n hpos) hb16) (Nat.lt_of_lt_of_le (Nat.mod_lt m hpos) hb16)
        (Option.some.inj hsame)
    have hlength := congrArg List.length h
    by_cases hn : n < b
    · by_cases hm : m < b
      · rwa [Nat.mod_eq_of_lt hn, Nat.mod_eq_of_lt hm] at hmod
      · rw [Nat.toDigits_of_lt_base hn, Nat.toDigits_of_base_le hb (Nat.le_of_not_lt hm)] at hlength
        simp at hlength
    · by_cases hm : m < b
      · rw [Nat.toDigits_of_lt_base hm, Nat.toDigits_of_base_le hb (Nat.le_of_not_lt hn)] at hlength
        simp at hlength
      · rw [Nat.toDigits_of_base_le hb (Nat.le_of_not_lt hn), Nat.toDigits_of_base_le hb (Nat.le_of_not_lt hm)] at h
        have hfront := (List.append_inj' h rfl).1
        have hdiv := ih (n / b) (Nat.div_lt_self (by omega) hb) (m / b) hfront
        rw [← Nat.div_add_mod n b, ← Nat.div_add_mod m b, hdiv, hmod]

/-- A digit is none of the characters around it. -/
theorem exists_of_mem_toDigits {b : Nat} (hb : 1 < b) {n : Nat} {c : Char} (h : c ∈ Nat.toDigits b n) :
    ∃ d < b, c = Nat.digitChar d := by
  induction n using Nat.strongRecOn with
  | ind n ih =>
    rw [Nat.toDigits_eq_if hb] at h
    split at h
    · next hn => exact ⟨n, hn, List.mem_singleton.mp h⟩
    · next hn =>
      rcases List.mem_append.mp h with h | h
      · exact ih (n / b) (Nat.div_lt_self (by omega) hb) h
      · exact ⟨n % b, Nat.mod_lt n (by omega), List.mem_singleton.mp h⟩

theorem not_mem_toDigits {b : Nat} (hb : 1 < b) (hb16 : b ≤ 16) (n : Nat) {c : Char}
    (hc : ∀ d < 16, c ≠ Nat.digitChar d) : c ∉ Nat.toDigits b n := by
  intro h
  obtain ⟨d, hd, rfl⟩ := exists_of_mem_toDigits hb h
  exact hc d (Nat.lt_of_lt_of_le hd hb16) rfl

/-- What stands before the first of a character is determined. -/
theorem append_cons_inj {α : Type} {xs ys xs' ys' : List α} {c : α} (hx : c ∉ xs) (hy : c ∉ ys)
    (h : xs ++ c :: xs' = ys ++ c :: ys') : xs = ys ∧ xs' = ys' := by
  induction xs generalizing ys with
  | nil =>
    cases ys with
    | nil => exact ⟨rfl, (List.cons.inj h).2⟩
    | cons y ys => exact absurd (List.cons.inj h).1 fun heq => hy (heq ▸ List.mem_cons_self)
  | cons x xs ih =>
    cases ys with
    | nil => exact absurd (List.cons.inj h).1 fun heq => hx (heq ▸ List.mem_cons_self)
    | cons y ys =>
      obtain ⟨rfl, hrest⟩ := List.cons.inj h
      obtain ⟨rfl, hlast⟩ := ih (fun hmem => hx (List.mem_cons_of_mem _ hmem))
        (fun hmem => hy (List.mem_cons_of_mem _ hmem)) hrest
      exact ⟨rfl, hlast⟩

theorem toList_toString_int (i : Int) : (toString i).toList
    = if 0 ≤ i then Nat.toDigits 10 i.toNat else '-' :: Nat.toDigits 10 (-i).toNat := by
  rw [Int.toString_eq_repr, Int.repr_eq_if]
  split <;> simp

theorem toString_int_inj {i j : Int} (h : toString i = toString j) : i = j := by
  have hminus (n : Nat) : '-' ∉ Nat.toDigits 10 n := not_mem_toDigits (by decide) (by decide) n (by decide)
  have hlist := congrArg String.toList h
  rw [toList_toString_int, toList_toString_int] at hlist
  split at hlist <;> split at hlist
  · have := toDigits_inj (by decide) (by decide) _ _ hlist
    omega
  · exact absurd (hlist ▸ List.mem_cons_self) (hminus i.toNat)
  · exact absurd (hlist ▸ List.mem_cons_self) (hminus j.toNat)
  · have := toDigits_inj (by decide) (by decide) _ _ (List.cons.inj hlist).2
    omega

/-! ## Quoted texts -/

namespace Quoted

/-- The characters with an escape of two characters, and what follows the backslash in it. -/
def shortEscapes : List (Char × Char) :=
  [('"', '"'), ('\\', '\\'), ('\t', 't'), ('\n', 'n'), ('\r', 'r'), ('\x00', '0')]

theorem shortEscapes_inj {p q : Char × Char} (hp : p ∈ shortEscapes) (hq : q ∈ shortEscapes) (h : p.2 = q.2) :
    p = q := by
  have hall : ∀ p ∈ shortEscapes, ∀ q ∈ shortEscapes, p.2 = q.2 → p = q := by decide
  exact hall p hp q hq h

/-- How a character is written: by a short escape, by its code point, or as it is. -/
theorem encodeChar_cases (c : Char) : (∃ e, (c, e) ∈ shortEscapes ∧ encodeChar c = ['\\', e])
    ∨ encodeChar c = '\\' :: 'u' :: '\x7b' :: ((Nat.toDigits 16 c.toNat) ++ ['\x7d'])
    ∨ c ≠ '\\' ∧ c ≠ '"' ∧ encodeChar c = [c] := by
  have hzero (h : c.toNat = 0) : c = '\x00' := Char.ext (UInt32.toNat_inj.mp h)
  have hhex : (hexText c.toNat).toList = Nat.toDigits 16 c.toNat := by simp [hexText]
  unfold encodeChar
  simp only [beq_iff_eq]
  split
  · next h => exact .inl ⟨'"', by rw [h]; decide, rfl⟩
  split
  · next h => exact .inl ⟨'\\', by rw [h]; decide, rfl⟩
  split
  · next h => exact .inl ⟨'t', by rw [h]; decide, rfl⟩
  split
  · next h => exact .inl ⟨'n', by rw [h]; decide, rfl⟩
  split
  · next h => exact .inl ⟨'r', by rw [h]; decide, rfl⟩
  split
  · next h => exact .inl ⟨'0', by rw [hzero h]; decide, rfl⟩
  split
  · rw [hhex]
    exact .inr (.inl rfl)
  · next hquote hback _ _ _ _ _ => exact .inr (.inr ⟨hback, hquote, rfl⟩)

theorem brace_not_mem (n : Nat) : '\x7d' ∉ Nat.toDigits 16 n :=
  not_mem_toDigits (by decide) (by decide) n (by decide)

/-- The first character of a written text, and where it ends, are determined. -/
theorem encodeChar_append_inj {c d : Char} {xs ys : List Char} (h : encodeChar c ++ xs = encodeChar d ++ ys) :
    c = d ∧ xs = ys := by
  have hnotU : ∀ p ∈ shortEscapes, p.2 ≠ 'u' := by decide
  rcases encodeChar_cases c with ⟨e, he, hc⟩ | hc | ⟨hback, -, hc⟩ <;>
    rcases encodeChar_cases d with ⟨f, hf, hd⟩ | hd | ⟨hback', -, hd⟩ <;>
    rw [hc, hd] at h <;> simp only [List.cons_append, List.nil_append, List.cons.injEq, List.append_assoc] at h
  · obtain ⟨-, hsame, hrest⟩ := h
    exact ⟨congrArg Prod.fst (shortEscapes_inj he hf hsame), hrest⟩
  · exact absurd h.2.1 (hnotU _ he)
  · exact absurd h.1.symm hback'
  · exact absurd h.2.1.symm (hnotU _ hf)
  · obtain ⟨hcode, hrest⟩ := append_cons_inj (brace_not_mem _) (brace_not_mem _) h.2.2.2
    have hpoint := toDigits_inj (by decide) (by decide) _ _ hcode
    exact ⟨Char.ext (UInt32.toNat_inj.mp hpoint), hrest⟩
  · exact absurd h.1.symm hback'
  · exact absurd h.1 hback
  · exact absurd h.1 hback
  · exact h

/-- A quote ends the text: no character is written with one in front. -/
theorem encodeChar_append_ne {c : Char} {xs ys : List Char} : encodeChar c ++ xs ≠ '"' :: ys := by
  rcases encodeChar_cases c with ⟨e, -, hc⟩ | hc | ⟨-, hquote, hc⟩ <;> rw [hc]
  · simp
  · simp
  · simpa using fun h => absurd h hquote

theorem flatMap_encodeChar_inj {cs ds xs ys : List Char}
    (h : cs.flatMap encodeChar ++ '"' :: xs = ds.flatMap encodeChar ++ '"' :: ys) : cs = ds ∧ xs = ys := by
  induction cs generalizing ds with
  | nil =>
    cases ds with
    | nil => exact ⟨rfl, (List.cons.inj h).2⟩
    | cons d ds =>
      rw [List.flatMap_cons, List.append_assoc] at h
      exact absurd h.symm encodeChar_append_ne
  | cons c cs ih =>
    cases ds with
    | nil =>
      rw [List.flatMap_cons, List.append_assoc] at h
      exact absurd h encodeChar_append_ne
    | cons d ds =>
      rw [List.flatMap_cons, List.flatMap_cons, List.append_assoc, List.append_assoc] at h
      obtain ⟨rfl, hrest⟩ := encodeChar_append_inj h
      obtain ⟨rfl, hlast⟩ := ih hrest
      exact ⟨rfl, hlast⟩

end Quoted

theorem quoted_inj {s t : String} (h : quoted s = quoted t) : s = t := by
  have hlist := congrArg String.toList h
  rw [quoted, quoted, String.toList_ofList, String.toList_ofList, Quoted.encode, Quoted.encode] at hlist
  exact String.toList_inj.mp (Quoted.flatMap_encodeChar_inj (List.cons.inj hlist).2).1

/-! ## Keys -/

theorem append_left_inj {s t u : String} (h : s ++ t = s ++ u) : t = u := by
  have hlist := congrArg String.toList h
  rw [String.toList_append, String.toList_append] at hlist
  exact String.toList_inj.mp (List.append_cancel_left hlist)

theorem append_right_inj {s t u : String} (h : t ++ s = u ++ s) : t = u := by
  have hlist := congrArg String.toList h
  rw [String.toList_append, String.toList_append] at hlist
  exact String.toList_inj.mp (List.append_cancel_right hlist)

/-- The digits of a number do not begin with a quote. -/
theorem toString_int_ne_quoted (i : Int) (s : String) : toString i ≠ quoted s := by
  have hquote (n : Nat) : '"' ∉ Nat.toDigits 10 n := not_mem_toDigits (by decide) (by decide) n (by decide)
  intro h
  have hlist := congrArg String.toList h
  rw [Int.toString_eq_repr, Int.repr_eq_if, quoted, String.toList_ofList, Quoted.encode] at hlist
  split at hlist
  · rw [Nat.toList_repr] at hlist
    exact hquote i.toNat (hlist ▸ List.mem_cons_self)
  · simp at hlist

theorem InstanceKey.text_inj {k l : InstanceKey} (h : k.text = l.text) : k = l := by
  cases k with
  | index i =>
    cases l with
    | index j => exact congrArg InstanceKey.index (toString_int_inj (append_left_inj (append_right_inj h)))
    | name t => exact absurd (append_left_inj (append_right_inj h)) (toString_int_ne_quoted i t)
  | name s =>
    cases l with
    | index j => exact absurd (append_left_inj (append_right_inj h)).symm (toString_int_ne_quoted j s)
    | name t => exact congrArg InstanceKey.name (quoted_inj (append_left_inj (append_right_inj h)))

namespace Arena

theorem extendLabel_of_ne_nil {labels : List String} (h : labels ≠ []) (text : String) :
    extendLabel labels text = labels.dropLast ++ [labels.getLast h ++ text] := by
  rw [extendLabel, List.getLast?_eq_some_getLast h]

/-- Instances of a block with labels under different keys have different last labels. -/
theorem getLast?_extendLabel_inj {labels : List String} (h : labels ≠ []) {k l : InstanceKey}
    (heq : (extendLabel labels k.text).getLast? = (extendLabel labels l.text).getLast?) : k = l := by
  rw [extendLabel_of_ne_nil h, extendLabel_of_ne_nil h, List.getLast?_concat,
    List.getLast?_concat] at heq
  exact InstanceKey.text_inj (append_left_inj (Option.some.inj heq))

end Arena

end InfraConfig
