import InfraConfig.Proofs.Binary64Integers

/-!
# The order of binary64 numbers

A finite number stands for a signed count of units of the last place of all, and numbers are ordered by these counts. So
numbers that are integers are ordered as integers, and rounding an integer to a binary64 number keeps the order.
-/

namespace InfraConfig

namespace Binary64

open Float.Model (Format UnpackedFloat)
open Float.Model.UnpackedFloat (unpackExponent unpackMantissa unpackSign)

/-! ## Order by value -/

/-- A number in units of `2 ^ -1074`, with its sign. -/
def Parts.value (p : Parts) : Int :=
  signed p.negative p.units

def Parts.sign (p : Parts) : UnpackedFloat.Sign :=
  if p.negative then .negative else .positive

theorem toNat_unpackMantissa (b : BitVec Format.binary64.numBits) :
    (unpackMantissa b).toNat = b.toNat % leadingBit := by
  simp [unpackMantissa, BitVec.extractLsb, leadingBit]

theorem ofBitVec_unpackSign (b : BitVec Format.binary64.numBits) :
    UnpackedFloat.Sign.ofBitVec (unpackSign b) = if signBit ≤ b.toNat then .negative else .positive := by
  have hlt : b.toNat < nat64Limit := b.isLt
  have hsign : (unpackSign b).toNat = b.toNat / signBit := by
    rw [nat64Limit] at hlt
    simp [unpackSign, BitVec.extractLsb, signBit, Nat.shiftRight_eq_div_pow]
    omega
  have hzero : unpackSign b = 0#1 ↔ ¬ signBit ≤ b.toNat := by
    rw [← BitVec.toNat_inj, hsign, signBit]
    rw [nat64Limit] at hlt
    simp
  rw [UnpackedFloat.Sign.ofBitVec]
  simp only [hzero]
  split_ifs <;> rfl

theorem toNat_append_mantissa (mantissa : BitVec 52) : (1#1 ++ mantissa).toNat = leadingBit + mantissa.toNat := by
  rw [BitVec.toNat_append]
  exact (Nat.shiftLeft_add_eq_or_of_lt mantissa.isLt 1).symm

/-- A finite number is unpacked into its parts. -/
theorem unpack_of_parts? {x : Float} {p : Parts} (h : parts? x = some p) :
    x.toModel.unpack = if hm : p.mantissa = 0 then .zero p.sign
      else .finite p.sign p.mantissa p.exponent (Nat.pos_of_ne_zero hm) := by
  obtain ⟨b, hb⟩ : ∃ b : BitVec Format.binary64.numBits, b = x.toModel.toBits.toBitVec := ⟨_, rfl⟩
  have hbits : x.toBits.toNat = b.toNat := by rw [hb]; rfl
  have hlast := unpackExponent_eq_last_iff b
  have hexponent := toNat_unpackExponent b
  have hmantissa := toNat_unpackMantissa b
  have hnone : unpackExponent b = 0#11 ↔ b.toNat / leadingBit % 2048 = 0 := by
    rw [← hexponent, ← BitVec.toNat_inj]
    rfl
  have hsigned : UnpackedFloat.Sign.ofBitVec (unpackSign b)
      = if decide (signBit ≤ b.toNat) = true then .negative else .positive := by
    rw [ofBitVec_unpackSign]
    simp
  have hempty : unpackMantissa b = 0#52 ↔ b.toNat % leadingBit = 0 := by
    rw [← hmantissa, ← BitVec.toNat_inj]
    rfl
  have hlead : (1#1 ++ unpackMantissa b).toNat = leadingBit + b.toNat % leadingBit := by
    rw [toNat_append_mantissa, hmantissa]
  rw [parts?, hbits] at h
  rw [Float.Model.unpack, UnpackedFloat.unpack, ← hb]
  dsimp only
  by_cases hinfinite : b.toNat / leadingBit % 2048 = 2047
  · rw [if_pos hinfinite] at h
    cases h
  · rw [if_neg hinfinite] at h
    rw [if_neg (mt hlast.mp hinfinite)]
    by_cases hzero : b.toNat / leadingBit % 2048 = 0
    · rw [if_pos hzero] at h
      obtain rfl := Option.some.inj h
      have hplace : ((unpackExponent b).toNat - (Format.binary64.exponentBias + (52 : Nat)) + 1 : Int) = -1074 := by
        rw [hexponent, hzero]
        rfl
      rw [if_pos (hnone.mpr hzero)]
      by_cases hm : b.toNat % leadingBit = 0
      · rw [dif_pos (hempty.mpr hm), dif_pos hm, Parts.sign, hsigned]
      · rw [dif_neg (mt hempty.mp hm), dif_neg hm, UnpackedFloat.finite.injEq]
        exact ⟨hsigned, hmantissa, hplace⟩
    · rw [if_neg hzero] at h
      obtain rfl := Option.some.inj h
      have hplace : ((unpackExponent b).toNat - (Format.binary64.exponentBias + (52 : Nat)) : Int)
          = (b.toNat / leadingBit % 2048 : Nat) - 1075 := by
        rw [hexponent]
        rfl
      have hm : ¬ leadingBit + b.toNat % leadingBit = 0 := by rw [leadingBit]; omega
      rw [if_neg (mt hnone.mp hzero), dif_neg hm, UnpackedFloat.finite.injEq]
      exact ⟨hsigned, hlead, hplace⟩

theorem Parts.IsCanonical.units_lt_iff {p q : Parts} (hp : p.IsCanonical) (hq : q.IsCanonical) :
    p.units < q.units ↔ p.exponent < q.exponent ∨ p.exponent = q.exponent ∧ p.mantissa < q.mantissa := by
  have hbelow {p q : Parts} (hp : p.IsCanonical) (hq : q.IsCanonical) (hlt : p.exponent < q.exponent) :
      p.units < q.units := by
    -- The greater exponent has a leading bit, worth more than any mantissa at the lesser one.
    obtain ⟨k, hk⟩ : ∃ k : Nat, (q.exponent + 1074).toNat = (p.exponent + 1074).toNat + (k + 1) :=
      ⟨(q.exponent - p.exponent - 1).toNat, by have := hp.le_exponent; omega⟩
    have hled : leadingBit ≤ q.mantissa := hq.leading.resolve_right (by have := hp.le_exponent; omega)
    have hwide : 2 * leadingBit ≤ q.mantissa * twoPow (k + 1) := by
      rw [twoPow_succ, ← Nat.mul_assoc, Nat.mul_comm _ 2]
      exact Nat.mul_le_mul_left 2 (Nat.le_trans hled (Nat.le_mul_of_pos_right _ (twoPow_pos k)))
    rw [units, units, hk, twoPow_add, Nat.mul_comm (twoPow _) (twoPow (k + 1)), ← Nat.mul_assoc]
    exact Nat.mul_lt_mul_of_pos_right (Nat.lt_of_lt_of_le hp.mantissa_lt hwide) (twoPow_pos _)
  rcases Int.lt_trichotomy p.exponent q.exponent with hlt | heq | hgt
  · exact iff_of_true (hbelow hp hq hlt) (.inl hlt)
  · rw [units, units, heq]
    simp [Nat.mul_lt_mul_right (twoPow_pos _)]
  · have hunits := hbelow hq hp hgt
    omega

theorem lt_iff_compare (x y : Float) : x < y ↔ UnpackedFloat.compare x.toModel.unpack y.toModel.unpack = some .lt := by
  change Float.lt x y = true ↔ _
  rw [Float.lt, decide_eq_true_iff]
  change Float.Model.lt _ _ = true ↔ _
  rw [Float.Model.lt, UnpackedFloat.lt]
  simp

theorem Parts.units_eq_zero_iff {p : Parts} : p.units = 0 ↔ p.mantissa = 0 := by
  have := twoPow_pos (p.exponent + 1074).toNat
  simp [units]
  omega

/-- Finite numbers are ordered by their values. -/
theorem lt_iff_of_parts? {x y : Float} {p q : Parts} (hp : parts? x = some p) (hq : parts? y = some q) :
    x < y ↔ p.value < q.value := by
  have hlt : (compare p.exponent q.exponent).then (compare p.mantissa q.mantissa) = .lt ↔ p.units < q.units := by
    rw [(parts?_eq_some hp).1.units_lt_iff (parts?_eq_some hq).1, Ordering.then_eq_lt, compare_lt_iff_lt,
      compare_eq_iff_eq, compare_lt_iff_lt]
  have hgt : (compare p.exponent q.exponent).then (compare p.mantissa q.mantissa) = .gt ↔ q.units < p.units := by
    rw [(parts?_eq_some hq).1.units_lt_iff (parts?_eq_some hp).1, Ordering.then_eq_gt, compare_gt_iff_gt,
      compare_eq_iff_eq, compare_gt_iff_gt, eq_comm]
  have hzero := @Parts.units_eq_zero_iff p
  have hzero' := @Parts.units_eq_zero_iff q
  rw [lt_iff_compare, unpack_of_parts? hp, unpack_of_parts? hq, Parts.value, Parts.value, Parts.sign, Parts.sign]
  -- The signs decide, or the sizes of two numbers of one sign, of which each may be a zero.
  by_cases hm : p.mantissa = 0 <;> by_cases hm' : q.mantissa = 0 <;> cases p.negative <;> cases q.negative <;>
    simp [hm, hm', signed, UnpackedFloat.compare, hlt, hgt] <;> omega

theorem signed_mul (negative : Bool) (k u : Nat) : signed negative (k * u) = signed negative k * u := by
  cases negative <;> simp [signed]

/-- Numbers that are integers are ordered as integers. -/
theorem lt_iff_of_integer? {x y : Float} {i j : Int} (hx : integer? x = some i) (hy : integer? y = some j) :
    x < y ↔ i < j := by
  obtain ⟨p, hp, -⟩ := Option.bind_eq_some_iff.mp hx
  obtain ⟨q, hq, -⟩ := Option.bind_eq_some_iff.mp hy
  obtain ⟨k, hk, rfl⟩ := (integer?_eq_some_iff hp).mp hx
  obtain ⟨l, hl, rfl⟩ := (integer?_eq_some_iff hq).mp hy
  have hone : (0 : Int) < unitsInOne := Int.natCast_pos.mpr unitsInOne_pos
  rw [lt_iff_of_parts? hp hq, Parts.value, Parts.value, hk, hl, signed_mul, signed_mul]
  exact Int.mul_lt_mul_right hone

/-! ## Rounding keeps the order -/

theorem roundDiv_mono {m n : Nat} (h : m ≤ n) (den : Nat) : roundDiv m den ≤ roundDiv n den := by
  have hquot : m / den ≤ n / den := Nat.div_le_div_right h
  have hm := Nat.div_add_mod m den
  have hn := Nat.div_add_mod n den
  rw [roundDiv, roundDiv]
  rcases Nat.lt_or_eq_of_le hquot with hlt | heq
  · split_ifs <;> omega
  · rw [heq] at hm ⊢
    split_ifs <;> omega

/-- Rounding keeps the leading bit. -/
theorem twoPow_log2_le_roundNat {m : Nat} (hm : m ≠ 0) : twoPow m.log2 ≤ roundNat m := by
  have hsplit : twoPow m.log2 = twoPow (m.log2 - (m.log2 - 52)) * twoPow (m.log2 - 52) :=
    twoPow_eq_mul (by omega)
  have hlow := twoPow_log2_le hm
  rw [roundNat]
  rw [hsplit] at hlow ⊢
  exact Nat.mul_le_mul_right _ (le_roundDiv (twoPow_pos _) hlow)

theorem roundNat_mono {m n : Nat} (h : m ≤ n) : roundNat m ≤ roundNat n := by
  rcases Nat.eq_zero_or_pos m with rfl | hpos
  · exact Nat.zero_le _
  · have hn : n ≠ 0 := by omega
    have hlog : m.log2 < n.log2 + 1 :=
      (log2_lt_iff (Nat.ne_of_gt hpos)).mpr (Nat.lt_of_le_of_lt h (lt_twoPow_log2 n))
    rcases Nat.lt_or_eq_of_le (Nat.le_of_lt_succ hlog) with hlt | heq
    · calc roundNat m ≤ twoPow (m.log2 + 1) := roundNat_le (Nat.le_of_lt (lt_twoPow_log2 m))
        _ ≤ twoPow n.log2 := Nat.pow_le_pow_right (by decide) hlt
        _ ≤ roundNat n := twoPow_log2_le_roundNat hn
    · rw [roundNat, roundNat, heq]
      exact Nat.mul_le_mul_right _ (roundDiv_mono h _)

theorem roundInt_mono {m n : Int} (h : m ≤ n) : roundInt m ≤ roundInt n := by
  rw [roundInt_eq, roundInt_eq]
  by_cases hm : m < 0 <;> by_cases hn : n < 0
  · have hsize : roundNat n.natAbs ≤ roundNat m.natAbs := roundNat_mono (by omega)
    simp [signed, hm, hn, hsize]
  · simp only [signed, hm, hn, decide_true, decide_false, if_true, if_false, Bool.false_eq_true]
    omega
  · omega
  · have hsize : roundNat m.natAbs ≤ roundNat n.natAbs := roundNat_mono (by omega)
    simp [signed, hm, hn, hsize]

theorem lt_of_roundInt_lt {m n : Int} (h : roundInt m < roundInt n) : m < n := by
  by_contra hle
  have hround := roundInt_mono (Int.not_lt.mp hle)
  omega

/-! ## Integers that are not changed -/

/-- Whether an integer is a binary64 number: its binary digits are 53 or fewer, and zeros. -/
def IsExact (n : Int) : Prop :=
  ∃ m k, m ≤ 2 * leadingBit ∧ n.natAbs = m * twoPow k

theorem twoPow_dvd {j k : Nat} (h : j ≤ k) : twoPow j ∣ twoPow k := Nat.pow_dvd_pow 2 h

theorem roundDiv_mul {den : Nat} (hden : 0 < den) (q : Nat) : roundDiv (q * den) den = q :=
  Nat.le_antisymm (roundDiv_le hden (Nat.le_refl _)) (le_roundDiv hden (Nat.le_refl _))

theorem roundNat_of_dvd {m : Nat} (h : twoPow (m.log2 - 52) ∣ m) : roundNat m = m := by
  have hunit : 0 < twoPow (m.log2 - 52) := twoPow_pos _
  rw [roundNat]
  generalize twoPow (m.log2 - 52) = unit at h hunit ⊢
  obtain ⟨q, rfl⟩ := h
  rw [Nat.mul_comm unit q, roundDiv_mul hunit]

theorem exists_roundNat_eq (m : Nat) : ∃ a k, a ≤ 2 * leadingBit ∧ roundNat m = a * twoPow k := by
  refine ⟨_, _, ?_, rfl⟩
  have hsplit : twoPow (m.log2 + 1) = twoPow (m.log2 + 1 - (m.log2 - 52)) * twoPow (m.log2 - 52) :=
    twoPow_eq_mul (by omega)
  have hbelow := Nat.le_of_lt (lt_twoPow_log2 m)
  rw [hsplit] at hbelow
  calc roundDiv m (twoPow (m.log2 - 52)) ≤ twoPow (m.log2 + 1 - (m.log2 - 52)) := roundDiv_le (twoPow_pos _) hbelow
    _ ≤ twoPow 53 := Nat.pow_le_pow_right (by decide) (by omega)

theorem roundNat_eq_self_iff {m : Nat} : roundNat m = m ↔ ∃ a k, a ≤ 2 * leadingBit ∧ m = a * twoPow k := by
  constructor
  · intro h
    obtain ⟨a, k, ha, hround⟩ := exists_roundNat_eq m
    exact ⟨a, k, ha, h.symm.trans hround⟩
  · rintro ⟨a, k, ha, hm⟩
    have hbelow : m ≤ twoPow (53 + k) := by
      rw [hm, twoPow_add]
      exact Nat.mul_le_mul_right _ ha
    apply roundNat_of_dvd
    rcases Nat.eq_zero_or_pos m with hzero | hpos
    · rw [hzero]
      exact Nat.dvd_zero _
    · rcases Nat.lt_or_eq_of_le hbelow with hlt | heq
      · have hlog := (log2_lt_iff (Nat.ne_of_gt hpos)).mpr hlt
        have hunit : twoPow (m.log2 - 52) ∣ twoPow k := twoPow_dvd (by omega)
        nth_rewrite 2 [hm]
        exact Nat.dvd_mul_left_of_dvd hunit a
      · have hlog : m.log2 ≤ 53 + k := by
          have hpow := Nat.le_trans (twoPow_log2_le (Nat.ne_of_gt hpos)) hbelow
          exact (Nat.pow_le_pow_iff_right Nat.one_lt_two).mp hpow
        have hunit : twoPow (m.log2 - 52) ∣ twoPow (53 + k) := twoPow_dvd (by omega)
        rwa [← heq] at hunit

theorem natAbs_roundInt (n : Int) : (roundInt n).natAbs = roundNat n.natAbs := by
  rw [roundInt_eq, signed]
  by_cases hn : n < 0 <;> simp [hn]

theorem roundInt_natCast (m : Nat) : roundInt m = roundNat m := by
  rw [roundInt_eq, decide_eq_false (Int.not_lt.mpr (Int.natCast_nonneg m)), Int.natAbs_natCast]
  rfl

theorem roundInt_eq_self_iff {n : Int} : roundInt n = n ↔ IsExact n := by
  rw [IsExact, ← roundNat_eq_self_iff, roundInt_eq, signed]
  by_cases hn : n < 0 <;> simp [hn] <;> omega

theorem isExact_of_le {n : Int} (h : n.natAbs ≤ 2 * leadingBit) : IsExact n :=
  ⟨n.natAbs, 0, h, (Nat.mul_one _).symm⟩

/-- What has been rounded is not changed again. -/
theorem roundInt_roundInt (n : Int) : roundInt (roundInt n) = roundInt n := by
  rw [roundInt_eq_self_iff, IsExact, natAbs_roundInt]
  exact exists_roundNat_eq n.natAbs

end Binary64

end InfraConfig
