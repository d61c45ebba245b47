import InfraConfig.Proofs.NumericFunctions

/-!
# Parts of a text

A part of a text is told by an offset, which counts from the end if it is negative, and a length, of which a negative
one means the rest. Both are read as integers of 64 bits, after rounding to binary64. In a text that has fewer than
`2 ^ 53` characters the rounding is not seen: what it changes leads out of the text both before and after. Only the sum
of the two is not checked: where it leaves the 64 bits, there is no part.
-/

namespace InfraConfig

open Binary64 (roundInt integer? IsExact)

/-! ## Integers among numbers -/

/-- The integer that a number is. -/
inductive Number.IsInteger : Number → Int → Prop where
  | int {n : Int} (h : Number.inRange n = true) : IsInteger (.int n) n
  | float {x : Float} {n : Int} (h : integer? x = some n) : IsInteger (.float x) n

/-- An integer as the functions of positions read it. -/
def readPosition (n : Int) : Int :=
  clampInt64 (roundInt n)

variable {n : Int}

/-- Whatever binary64 number is an integer, the integer is not changed by rounding. -/
theorem Binary64.isExact_of_integer? {x : Float} (h : integer? x = some n) : IsExact n := by
  obtain ⟨p, hp, -⟩ := Option.bind_eq_some_iff.mp h
  obtain ⟨k, hunits, rfl⟩ := (integer?_eq_some_iff hp).mp h
  have hcanonical := (parts?_eq_some hp).1
  have hsize : (signed p.negative k).natAbs = k := by
    cases p.negative <;> simp [signed]
  rw [Parts.units] at hunits
  by_cases hexponent : 0 ≤ p.exponent
  · have hsplit : twoPow (p.exponent + 1074).toNat = twoPow p.exponent.toNat * unitsInOne :=
      twoPow_eq_mul (by omega)
    rw [hsplit, ← Nat.mul_assoc] at hunits
    exact ⟨p.mantissa, p.exponent.toNat, Nat.le_of_lt hcanonical.mantissa_lt,
      hsize.trans (Nat.eq_of_mul_eq_mul_right unitsInOne_pos hunits).symm⟩
  · have hsplit : unitsInOne = twoPow (-p.exponent).toNat * twoPow (p.exponent + 1074).toNat :=
      unitsInOne_eq (by have := hcanonical.le_exponent; omega)
    rw [hsplit, ← Nat.mul_assoc] at hunits
    have hmantissa := Nat.eq_of_mul_eq_mul_right (twoPow_pos _) hunits
    have hle : k ≤ p.mantissa := hmantissa ▸ Nat.le_mul_of_pos_right k (twoPow_pos _)
    exact isExact_of_le (hsize.symm ▸ Nat.le_trans hle (Nat.le_of_lt hcanonical.mantissa_lt))

theorem Number.IsInteger.toInt64_rounded {a : Number} (h : a.IsInteger n) : a.rounded.toInt64 = readPosition n := by
  cases h with
  | int hn =>
    have hlow := (roundInt_range hn).1
    rw [rounded, toInt64_ofExact hn, readPosition, clampInt64, int64Limit] at *
    omega
  | float hx =>
    rw [rounded, toInt64, Binary64.toInt64, truncate?_of_integer? hx, readPosition,
      Binary64.roundInt_eq_self_iff.mpr (Binary64.isExact_of_integer? hx)]

/-! ## Positions -/

theorem readPosition_of_le (h : n.natAbs ≤ twoPow 53) : readPosition n = n := by
  have hsize : n.natAbs ≤ 9007199254740992 := h
  rw [readPosition, Binary64.roundInt_eq_self_iff.mpr (Binary64.isExact_of_le h), clampInt64, int64Limit]
  omega

theorem readPosition_mono {m : Int} (h : m ≤ n) : readPosition m ≤ readPosition n := by
  have hround := Binary64.roundInt_mono h
  rw [readPosition, readPosition, clampInt64, clampInt64]
  omega

/-- What is changed on reading is great, and stays so. -/
theorem readPosition_cases (n : Int) : readPosition n = n ∨
    (twoPow 53 ≤ n ∧ twoPow 53 ≤ readPosition n) ∨ n ≤ -twoPow 53 ∧ readPosition n ≤ -twoPow 53 := by
  have htop : readPosition (twoPow 53) = twoPow 53 := readPosition_of_le (by decide)
  have hbottom : readPosition (-twoPow 53) = -twoPow 53 := readPosition_of_le (by decide)
  by_cases hsize : n.natAbs ≤ twoPow 53
  · exact .inl (readPosition_of_le hsize)
  · rcases Int.le_total 0 n with hpos | hneg
    · have hle : (twoPow 53 : Int) ≤ n := by omega
      exact .inr (.inl ⟨hle, htop ▸ readPosition_mono hle⟩)
    · have hle : n ≤ -twoPow 53 := by omega
      exact .inr (.inr ⟨hle, hbottom ▸ readPosition_mono hle⟩)

/-! ## Parts -/

/-- The place in a text of `count` characters that an offset leads to. -/
def placeOf (count : Nat) (offset : Int) : Int :=
  if 0 ≤ offset then offset else offset + count

/-- Whether there is such a place. -/
def IsOffset (count : Nat) (place : Int) : Prop :=
  0 ≤ place ∧ place ≤ count

instance (count : Nat) (place : Int) : Decidable (IsOffset count place) :=
  inferInstanceAs (Decidable (_ ∧ _))

/-- The characters from a place on: all of them for a negative length, or else no more than as many. -/
def partAt (cs : List Char) (place length : Int) : List Char :=
  if length < 0 then cs.drop place.toNat else (cs.drop place.toNat).take (min length (cs.length - place)).toNat

/-- The part that an offset and a length tell, if the offset leads to a place. -/
def partOf (cs : List Char) (offset length : Int) : Except FunctionError (List Char) :=
  if IsOffset cs.length (placeOf cs.length offset) then .ok (partAt cs (placeOf cs.length offset) length)
  else .error .offset

/-- Whether the end of a part, if there were as many characters, is no integer of 64 bits. -/
def Oversteps (cs : List Char) (offset length : Int) : Prop :=
  IsOffset cs.length (placeOf cs.length offset) ∧ 0 ≤ length ∧ int64Limit ≤ placeOf cs.length offset + length

variable {cs : List Char} {offset length : Int}

/-- In a text that is not too long, an offset leads to the place that it leads to when read, or both lead to none. -/
theorem placeOf_readPosition {count : Nat} (h : count < twoPow 53) (offset : Int) :
    placeOf count (readPosition offset) = placeOf count offset ∨
      ¬ IsOffset count (placeOf count (readPosition offset)) ∧ ¬ IsOffset count (placeOf count offset) := by
  rcases readPosition_cases offset with hsame | ⟨hgreat, hread⟩ | ⟨hgreat, hread⟩
  · exact .inl (congrArg _ hsame)
  all_goals
    refine .inr ?_
    simp only [IsOffset, placeOf]
    constructor <;> split_ifs <;> omega

theorem partAt_readPosition (h : cs.length < twoPow 53) {place : Int} (hplace : IsOffset cs.length place) :
    partAt cs place (readPosition length) = partAt cs place length := by
  obtain ⟨hlow, hhigh⟩ := hplace
  rw [partAt, partAt]
  rcases readPosition_cases length with hsame | ⟨hgreat, hread⟩ | ⟨hgreat, hread⟩
  · rw [hsame]
  · have hmin : min (readPosition length) (cs.length - place) = min length (cs.length - place) := by omega
    rw [if_neg (by omega), if_neg (by omega), hmin]
  · rw [if_pos (by omega), if_pos (by omega)]

theorem partOf_readPosition (h : cs.length < twoPow 53) (offset length : Int) :
    partOf cs (readPosition offset) (readPosition length) = partOf cs offset length := by
  rw [partOf, partOf]
  rcases placeOf_readPosition h offset with hsame | ⟨hread, hout⟩
  · rw [hsame]
    by_cases hplace : IsOffset cs.length (placeOf cs.length offset)
    · rw [if_pos hplace, if_pos hplace, partAt_readPosition h hplace]
    · rw [if_neg hplace, if_neg hplace]
  · rw [if_neg hread, if_neg hout]

/-- Lengths that leave room for every place of the text overstep nothing. -/
theorem not_oversteps_readPosition (h : cs.length < twoPow 53) (hlength : length ≤ int64Limit - twoPow 53) :
    ¬ Oversteps cs (readPosition offset) (readPosition length) := by
  have hbound : readPosition (int64Limit - twoPow 53) = int64Limit - twoPow 53 := by decide
  have hread := hbound ▸ readPosition_mono hlength
  rintro ⟨⟨-, hplace⟩, -, hbeyond⟩
  omega

namespace Functions

theorem substring_of_oversteps (h : Oversteps cs offset length) : substring cs offset length = .error .overflow := by
  obtain ⟨⟨hlow, hhigh⟩, hlength, hbeyond⟩ := h
  have hplace : (if offset < 0 then offset + cs.length else offset) = placeOf cs.length offset := by
    rw [placeOf]
    split_ifs <;> omega
  rw [substring, hplace, if_neg (by omega), if_neg (by omega), if_pos hbeyond]

theorem substring_of_not_oversteps (h : ¬ Oversteps cs offset length) :
    substring cs offset length = partOf cs offset length := by
  have hplace : (if offset < 0 then offset + cs.length else offset) = placeOf cs.length offset := by
    rw [placeOf]
    split_ifs <;> omega
  rw [Oversteps] at h
  rw [substring, hplace, partOf]
  generalize placeOf cs.length offset = place at h ⊢
  by_cases hin : IsOffset cs.length place
  · have ⟨hlow, hhigh⟩ := hin
    rw [if_neg (by omega), if_pos hin, partAt]
    by_cases hrest : length < 0
    · rw [if_pos hrest, if_pos hrest]
    · -- taking more characters than there are takes all of them
      have htake : (cs.drop place.toNat).take (min length (cs.length - place)).toNat
          = (cs.drop place.toNat).take length.toNat := by
        rw [List.take_eq_take_iff, List.length_drop]
        omega
      rw [if_neg hrest, if_neg hrest, htake, if_neg fun hbeyond => h ⟨hin, Int.not_lt.mp hrest, hbeyond⟩]
  · rw [IsOffset] at hin
    rw [if_pos (by omega), if_neg (by rwa [IsOffset])]

theorem answers_substr {a b : Number} (ha : a.IsInteger offset) (hb : b.IsInteger length) (s : String) :
    Answers "substr" [.text s, .number a, .number b]
      ((substring s.toList (readPosition offset) (readPosition length)).map fun cs => .text (.ofList cs)) := by
  have hoffset : integerAt [.text s, .number a, .number b] 1 = .ok (readPosition offset) :=
    congrArg Except.ok ha.toInt64_rounded
  have hlength : integerAt [.text s, .number a, .number b] 2 = .ok (readPosition length) :=
    congrArg Except.ok hb.toInt64_rounded
  refine ⟨_, rfl, (Function.call_own ?_).trans ?_⟩
  · exact .cons rfl (.cons rfl (.cons rfl .nil))
  dsimp only
  rw [hoffset, hlength]
  simp only [textAt, List.getElem?_cons_zero, bind, Except.bind]
  cases substring s.toList (readPosition offset) (readPosition length) <;> rfl

end Functions

open Functions (Answers answers_substr)

/-- A call for a part of a text answers the part that the offset and the length tell, or that there is no such place in
the text, unless they overstep the integers of 64 bits: then the call is cut off. Both are told as they are read, which
makes no difference in a text of fewer than `2 ^ 53` characters; and there nothing is overstepped by a length of no more
than `2 ^ 63 - 2 ^ 53`. -/
theorem substr_answers_part {a b : Number} (ha : a.IsInteger offset) (hb : b.IsInteger length) (s : String) :
    (Oversteps s.toList (readPosition offset) (readPosition length) →
      Answers "substr" [.text s, .number a, .number b] (.error .overflow)) ∧
    (¬ Oversteps s.toList (readPosition offset) (readPosition length) →
      Answers "substr" [.text s, .number a, .number b]
        ((partOf s.toList (readPosition offset) (readPosition length)).map fun cs => .text (.ofList cs))) ∧
    (s.toList.length < twoPow 53 →
      partOf s.toList (readPosition offset) (readPosition length) = partOf s.toList offset length ∧
      (length ≤ int64Limit - twoPow 53 → ¬ Oversteps s.toList (readPosition offset) (readPosition length))) := by
  have hanswer := answers_substr ha hb s
  refine ⟨fun hover => ?_, fun hfits => ?_, fun hshort => ⟨partOf_readPosition hshort offset length, ?_⟩⟩
  · rw [Functions.substring_of_oversteps hover] at hanswer
    exact hanswer
  · rw [Functions.substring_of_not_oversteps hfits] at hanswer
    exact hanswer
  · exact not_oversteps_readPosition hshort

/-- From the second character of a text on, the greatest length that is an integer with a sign is cut off, while the
last three characters are the rest from minus three on. -/
theorem substr_answers_part_greatestLength :
    Number.IsInteger (.int 1) 1 ∧ Number.IsInteger (.int 9223372036854775807) 9223372036854775807 ∧
    Answers "substr" [.text "hello", .int 1, .int 9223372036854775807] (.error .overflow) ∧
    Answers "substr" [.text "hello", .int (-3), .int (-1)] (.ok (.text "llo")) := by
  have hone : Number.IsInteger (.int 1) 1 := .int (by decide)
  have hgreatest : Number.IsInteger (.int 9223372036854775807) 9223372036854775807 := .int (by decide)
  have hthree : Number.IsInteger (.int (-3)) (-3) := .int (by decide)
  have hrest : Number.IsInteger (.int (-1)) (-1) := .int (by decide)
  obtain ⟨hover, -⟩ := substr_answers_part hone hgreatest "hello"
  obtain ⟨-, hpart, hshort⟩ := substr_answers_part hthree hrest "hello"
  obtain ⟨hsame, hfits⟩ := hshort (by decide)
  have hanswer := hpart (hfits (by decide))
  rw [hsame] at hanswer
  exact ⟨hone, hgreatest, hover ⟨by decide, by decide, by decide⟩, hanswer⟩

end InfraConfig
