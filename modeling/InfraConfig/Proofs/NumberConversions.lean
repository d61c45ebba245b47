import Mathlib.Data.List.TakeWhile
import InfraConfig.Functions.Library
import InfraConfig.Proofs.Binary64Integers
import InfraConfig.Proofs.LabelKeys

/-!
# Numbers that become texts and numbers again

The text of an integer is read as that integer if it has 64 bits with a sign. A text that writes a greater one is read
as a binary64 number: from `2 ^ 63` on, the integer comes back only if it is a multiple of 2048.
-/

namespace InfraConfig

/-! ## Texts that write integers -/

/-- Digits, and at least one. -/
structure IsNumeral (digits : List Char) : Prop where
  nonempty : digits ≠ []
  isDigit : ∀ c ∈ digits, c.isDigit = true

/-- The characters that write an integer: digits, and possibly a sign in front. -/
inductive SignedDigits : List Char → Int → Prop where
  | plain {digits : List Char} (h : IsNumeral digits) : SignedDigits digits (Nat.ofDigitChars 10 digits 0)
  | plus {digits : List Char} (h : IsNumeral digits) : SignedDigits ('+' :: digits) (Nat.ofDigitChars 10 digits 0)
  | minus {digits : List Char} (h : IsNumeral digits) :
      SignedDigits ('-' :: digits) (-(Nat.ofDigitChars 10 digits 0 : Nat))

/-- Whether a text writes an integer, with blanks around it. -/
def WritesInteger (s : String) (n : Int) : Prop :=
  ∃ before body after, s.toList = before ++ body ++ after ∧ SignedDigits body n
    ∧ (∀ c ∈ before, isBlank c = true) ∧ ∀ c ∈ after, isBlank c = true

theorem isNumeral_toDigits (n : Nat) : IsNumeral (Nat.toDigits 10 n) where
  nonempty h := by
    have hread := readNat?_toDigits n
    rw [h] at hread
    cases hread
  isDigit _ := isDigit_toDigits

theorem signedDigits_toString (n : Int) : SignedDigits (toString n).toList n := by
  have hvalue (m : Nat) : Nat.ofDigitChars 10 (Nat.toDigits 10 m) 0 = m :=
    Nat.ofDigitChars_toDigits (by decide) (by decide)
  rw [toList_toString_int]
  split
  · next hpos =>
    have hplain := SignedDigits.plain (isNumeral_toDigits n.toNat)
    rwa [hvalue, Int.toNat_of_nonneg hpos] at hplain
  · next hneg =>
    have hminus := SignedDigits.minus (isNumeral_toDigits (-n).toNat)
    rwa [hvalue, Int.toNat_of_nonneg (by omega), Int.neg_neg] at hminus

/-- An integer is written by its own text. -/
theorem writesInteger_toString (n : Int) : WritesInteger (toString n) n :=
  ⟨[], (toString n).toList, [], by rw [List.append_nil, List.nil_append], signedDigits_toString n,
    fun _ h => absurd h List.not_mem_nil, fun _ h => absurd h List.not_mem_nil⟩

/-! ## Reading them -/

theorem forall_isDigit {q : Char → Prop} (h : ∀ d < 58, 48 ≤ d → q (Char.ofNat d)) {c : Char} (hc : c.isDigit = true) :
    q c := by
  obtain ⟨hlow, hhigh⟩ := Char.isDigit_iff_toNat.mp hc
  rw [← Char.ofNat_toNat c]
  exact h c.toNat (Nat.lt_succ_of_le hhigh) hlow

theorem trimList_append {p : Char → Bool} {before body after : List Char} (hbefore : ∀ c ∈ before, p c = true)
    (hafter : ∀ c ∈ after, p c = true) (hbody : ∀ c ∈ body, p c = false) (hne : body ≠ []) :
    trimList p (before ++ body ++ after) = body := by
  have hfront : ((before ++ body) ++ after).dropWhile p = body ++ after := by
    rw [List.append_assoc, List.dropWhile_append_of_pos hbefore]
    cases body with
    | nil => exact absurd rfl hne
    | cons c body => rw [List.cons_append, List.dropWhile_cons_of_neg (by simp [hbody c List.mem_cons_self])]
  have hback : (body ++ after).reverse.dropWhile p = body.reverse := by
    rw [List.reverse_append, List.dropWhile_append_of_pos (by simpa using hafter)]
    cases hrev : body.reverse with
    | nil => exact absurd (List.reverse_eq_nil_iff.mp hrev) hne
    | cons c rest =>
      have hc : c ∈ body := by rw [← List.mem_reverse, hrev]; exact List.mem_cons_self
      rw [List.dropWhile_cons_of_neg (by simp [hbody c hc])]
  rw [trimList, dropEndWhile, hfront, hback, List.reverse_reverse]

section

variable {digits body : List Char} {n : Int}

theorem IsNumeral.readNat? (h : IsNumeral digits) : readNat? digits = some (Nat.ofDigitChars 10 digits 0) := by
  have hdigits : digits.all Char.isDigit = true := List.all_eq_true.mpr h.isDigit
  have hne : digits.isEmpty = false := Bool.eq_false_iff.mpr (mt List.isEmpty_iff.mp h.nonempty)
  rw [InfraConfig.readNat?, hdigits, hne]
  rfl

theorem IsNumeral.takeSign (h : IsNumeral digits) : takeSign digits = (false, digits) := by
  rw [takeSign.eq_def]
  split
  · exact absurd (h.isDigit '-' List.mem_cons_self) (by decide)
  · exact absurd (h.isDigit '+' List.mem_cons_self) (by decide)
  · rfl

/-- What writes an integer is its sign and a numeral. -/
theorem SignedDigits.takeSign (h : SignedDigits body n) :
    ∃ negative digits, takeSign body = (negative, digits) ∧ IsNumeral digits
      ∧ n = Binary64.signed negative (Nat.ofDigitChars 10 digits 0) := by
  cases h with
  | plain h => exact ⟨false, _, h.takeSign, h, rfl⟩
  | plus h => exact ⟨false, _, rfl, h, rfl⟩
  | minus h => exact ⟨true, _, rfl, h, rfl⟩

theorem SignedDigits.readInt? (h : SignedDigits body n) : readInt? body = some n := by
  obtain ⟨negative, digits, hsign, hdigits, rfl⟩ := h.takeSign
  rw [InfraConfig.readInt?, hsign]
  dsimp only
  rw [hdigits.readNat?, Option.map_some]

theorem SignedDigits.not_blank (h : SignedDigits body n) : body ≠ [] ∧ ∀ c ∈ body, isBlank c = false := by
  have hdigits {digits : List Char} (h : IsNumeral digits) : ∀ c ∈ digits, isBlank c = false :=
    fun c hc => forall_isDigit (q := fun c => isBlank c = false) (by decide +kernel) (h.isDigit c hc)
  cases h with
  | plain h => exact ⟨h.nonempty, hdigits h⟩
  | plus h => exact ⟨List.cons_ne_nil _ _, List.forall_mem_cons.mpr ⟨by decide +kernel, hdigits h⟩⟩
  | minus h => exact ⟨List.cons_ne_nil _ _, List.forall_mem_cons.mpr ⟨by decide +kernel, hdigits h⟩⟩

/-- A numeral is none of the words for what is not finite. -/
theorem IsNumeral.ne_word (h : IsNumeral digits) {word : String} (hword : word.toList.any Char.isDigit = false) :
    String.ofList (digits.map Char.toLower) ≠ word := by
  rintro rfl
  cases digits with
  | nil => exact h.nonempty rfl
  | cons c digits =>
    have hdigit : c.toLower.isDigit = true :=
      forall_isDigit (q := fun c => c.toLower.isDigit = true) (by decide) (h.isDigit c List.mem_cons_self)
    rw [String.toList_ofList, List.map_cons, List.any_cons, hdigit] at hword
    cases hword

theorem IsNumeral.readFloat? (h : IsNumeral digits) {negative : Bool}
    (hsign : InfraConfig.takeSign body = (negative, digits)) :
    readFloat? body = some (nearest negative (Nat.ofDigitChars 10 digits 0) 0) := by
  have htake : digits.takeWhile Char.isDigit = digits := List.takeWhile_eq_self_iff.mpr h.isDigit
  have hdrop : digits.dropWhile Char.isDigit = [] := List.dropWhile_eq_nil_iff.mpr h.isDigit
  have hne : digits.isEmpty = false := Bool.eq_false_iff.mpr (mt List.isEmpty_iff.mp h.nonempty)
  rw [InfraConfig.readFloat?, hsign]
  dsimp only
  rw [if_neg (not_or.mpr ⟨h.ne_word (by decide), h.ne_word (by decide)⟩), if_neg (h.ne_word (by decide)), htake, hdrop]
  dsimp only
  rw [hne, Bool.false_and, if_neg Bool.false_ne_true, readExponent?, Option.map_some, List.append_nil]
  rfl

/-- The digits of an integer of up to 64 bits are few, so none of them is left out. -/
theorem nearest_eq {negative : Bool} {m : Nat} (hpos : m ≠ 0) (h : m < nat64Limit) :
    nearest negative m 0 = Binary64.ofRatio negative m 1 := by
  have hlength : (Nat.toDigits 10 m).length ≤ 20 :=
    (Nat.length_toDigits_le_iff (by decide) (by decide)).mpr (Nat.lt_trans h (by decide))
  have hone : m * tenPow (0 : Int).toNat = m := Nat.mul_one m
  rw [nearest, if_neg hpos]
  dsimp only
  rw [if_neg (by omega), if_neg (by omega), if_pos (Int.le_refl 0), hone]

/-- What is read from the text of an integer: from `2 ^ 63` on, the nearest binary64 number. -/
def readBack (n : Int) : Number :=
  if n < int64Limit then .int n else Number.ofExact n

theorem ofFloat?_ofInt (h : n.natAbs ≤ nat64Limit) : Number.ofFloat? (Binary64.ofInt n) = some (Number.ofExact n) := by
  have hround := Binary64.integer?_ofInt h
  obtain ⟨p, hp, -⟩ := Option.bind_eq_some_iff.mp hround
  rw [Number.ofFloat?, if_pos (Binary64.isFinite_of_parts? hp), Number.ofFloat, hround]
  rfl

theorem SignedDigits.readFloat? (h : SignedDigits body n) (hlow : int64Limit ≤ n) (hhigh : n < nat64Limit) :
    readFloat? body = some (Binary64.ofInt n) := by
  rw [int64Limit] at hlow
  obtain ⟨negative, digits, hsign, hdigits, hn⟩ := h.takeSign
  cases negative with
  | true =>
    rw [Binary64.signed, if_pos rfl] at hn
    omega
  | false =>
    obtain rfl : n = (Nat.ofDigitChars 10 digits 0 : Nat) := hn
    rw [hdigits.readFloat? hsign, nearest_eq (by omega) (by omega), Binary64.ofInt, Int.natAbs_natCast,
      decide_eq_false (Int.not_lt.mpr (Int.natCast_nonneg _))]

/-- A text that writes an integer of 64 bits, with a sign or without, is read as a number. -/
theorem readNumber?_of_writesInteger {s : String} (h : WritesInteger s n) (hn : Number.inRange n = true) :
    readNumber? s = some (readBack n) := by
  obtain ⟨before, body, after, hs, hbody, hbefore, hafter⟩ := h
  have htrim : trimList isBlank s.toList = body := by
    rw [hs]
    exact trimList_append hbefore hafter hbody.not_blank.2 hbody.not_blank.1
  have hrange : -int64Limit ≤ n ∧ n < nat64Limit := by simpa [Number.inRange] using hn
  rw [readNumber?, htrim, readInt64?, hbody.readInt?, readBack, Option.filter_some]
  by_cases hsmall : n < int64Limit
  · have hint : isInt64 n = true := by simp [isInt64, hrange.1, hsmall]
    rw [if_pos hint, if_pos hsmall]
  · have hint : ¬ isInt64 n = true := by simp [isInt64, hsmall]
    rw [if_neg hint, if_neg hsmall]
    dsimp only
    rw [hbody.readFloat? (Int.not_lt.mp hsmall) hrange.2, Option.bind_some,
      ofFloat?_ofInt (Binary64.natAbs_le_nat64Limit hrange.1 hrange.2)]

theorem readBack_eq_iff (hn : Number.inRange n = true) : readBack n = .int n ↔ n < int64Limit ∨ 2048 ∣ n := by
  have hrange : -int64Limit ≤ n ∧ n < nat64Limit := by simpa [Number.inRange] using hn
  rw [readBack]
  by_cases hsmall : n < int64Limit
  · rw [if_pos hsmall]
    exact iff_of_true rfl (.inl hsmall)
  · have hlow := Int.not_lt.mp hsmall
    have hround : Binary64.roundInt n = n ↔ 2048 ∣ n := by
      rw [Binary64.roundInt_of_int64Limit_le hlow hrange.2, Binary64.roundDiv]
      rw [int64Limit] at hlow
      split_ifs <;> omega
    rw [if_neg hsmall, or_iff_right hsmall, ← hround, Number.ofExact]
    constructor
    · intro h
      split at h
      · injection h
      · cases h
    · intro h
      rw [h, if_pos hn]

end

/-! ## Conversions -/

theorem convert?_writesInteger {s : String} {n : Int} (h : WritesInteger s n) (hn : Number.inRange n = true) :
    (Value.text s).convert? .number = some (.number (readBack n)) := by
  rw [Value.convert?, readNumber?_of_writesInteger h hn]
  rfl

theorem toNumber_writesInteger {s : String} {n : Int} (h : WritesInteger s n) (hn : Number.inRange n = true) :
    Functions.toNumber (.text s) = .ok (.number (readBack n)) := by
  rw [Functions.toNumber, readNumber?_of_writesInteger h hn]

/-- The function `tonumber` of expressions. -/
theorem find?_tonumber : Functions.find? "tonumber" = some (Functions.ofAny Functions.toNumber) := rfl

/-- An integer that became a text comes back from it as itself if it has 64 bits with a sign or is a multiple of 2048,
and not otherwise; and every text that writes it is read in the same way, wherever a number is asked for. -/
theorem integer_conversions {n : Int} (hn : Number.inRange n = true) :
    (Value.int n).convert? .string = some (.text (toString n)) ∧ WritesInteger (toString n) n ∧
    (((Value.int n).convert? .string).bind (Value.convert? .number) = some (.int n) ↔ n < int64Limit ∨ 2048 ∣ n) ∧
    ∀ s : String, WritesInteger s n →
      (Value.text s).convert? .number = some (.number (readBack n)) ∧
      (∃ f, Functions.find? "tonumber" = some f ∧ f.call [.text s] = .ok (.number (readBack n))) ∧
      (readBack n = .int n ↔ n < int64Limit ∨ 2048 ∣ n) := by
  have hstring : (Value.int n).convert? .string = some (.text (toString n)) := rfl
  refine ⟨hstring, writesInteger_toString n, ?_, fun s h => ?_⟩
  · rw [hstring, Option.bind_some, convert?_writesInteger (writesInteger_toString n) hn, Value.int, Option.some.injEq,
      Value.number.injEq]
    exact readBack_eq_iff hn
  · refine ⟨convert?_writesInteger h hn, ⟨_, find?_tonumber, ?_⟩, readBack_eq_iff hn⟩
    exact toNumber_writesInteger h hn

/-- The greatest integer of 64 bits does not come back, the least one does, and a great multiple of 2048 is read behind
blanks, a sign and zeros. -/
theorem integer_conversions_nat64 :
    ((Value.int 18446744073709551615).convert? .string).bind (Value.convert? .number)
      ≠ some (.int 18446744073709551615) ∧
    ((Value.int (-9223372036854775808)).convert? .string).bind (Value.convert? .number)
      = some (.int (-9223372036854775808)) ∧
    (Value.text " +0018446744073709549568\n").convert? .number = some (.int 18446744073709549568) := by
  have hwrites : WritesInteger " +0018446744073709549568\n" 18446744073709549568 :=
    ⟨[' '], '+' :: "0018446744073709549568".toList, ['\n'], by decide,
      .plus ⟨by decide, List.all_eq_true.mp (by decide)⟩, List.all_eq_true.mp (by decide +kernel),
      List.all_eq_true.mp (by decide +kernel)⟩
  obtain ⟨-, -, hgreatest, -⟩ := integer_conversions (n := 18446744073709551615) (by decide)
  obtain ⟨-, -, hleast, -⟩ := integer_conversions (n := -9223372036854775808) (by decide)
  obtain ⟨-, -, -, hread⟩ := integer_conversions (n := 18446744073709549568) (by decide)
  obtain ⟨hconvert, -, hback⟩ := hread _ hwrites
  refine ⟨fun h => absurd (hgreatest.mp h) (by decide), hleast.mpr (.inl (by decide)), ?_⟩
  rw [hconvert, hback.mpr (.inr (by decide))]
  rfl

end InfraConfig
