import InfraConfig.Number
import InfraConfig.Proofs.Binary64Order

/-!
# Sums and products of natural numbers in binary64

A sum or a product of natural numbers is rounded once more if it is below `2 ^ 64`, where it is kept as an integer.
Beyond, it is a binary64 number of at least that size, possibly infinite, and it stays one: the rounding of what is not
less than a power of two is not less either.
-/

namespace InfraConfig

namespace Binary64

open Float.Model (Format UnpackedFloat totalExponent)
open Float.Model.UnpackedFloat (ExtendedMantissa Accuracy Sign shiftToExponent shiftToTargetExponent roundWithAccuracy
  decreaseExponent unpackExponent unpackMantissa unpackSign)

/-! ## Numbers of a size -/

/-- Numbers of a sign whose magnitude is a power of two at least. -/
inductive IsAtLeast (sign : Sign) (k : Int) : UnpackedFloat → Prop where
  | infinite : IsAtLeast sign k (.infinity sign)
  | finite {m : Nat} {e : Int} (hpos : 0 < m) (hlog : m.log2 = 52) (hsize : k ≤ 52 + e) :
      IsAtLeast sign k (.finite sign m e hpos)

variable {m k : Nat} {e : Int} {sign : Sign} {u v : UnpackedFloat} {x y : Float} {p : Parts}

theorem IsAtLeast.mono {j k : Int} (h : IsAtLeast sign k u) (hle : j ≤ k) : IsAtLeast sign j u := by
  cases h with
  | infinite => exact .infinite
  | finite hpos hlog hsize => exact .finite hpos hlog (Int.le_trans hle hsize)

theorem IsAtLeast.neg {k : Int} (h : IsAtLeast sign k u) : IsAtLeast (-sign) k u.neg := by
  cases h with
  | infinite => exact .infinite
  | finite hpos hlog hsize => exact .finite hpos hlog hsize

theorem log2_eq_of_bounds (hlow : twoPow k ≤ m) (hhigh : m < twoPow (k + 1)) : m.log2 = k :=
  (Nat.log2_eq_iff (Nat.ne_of_gt (Nat.lt_of_lt_of_le (twoPow_pos k) hlow))).mpr ⟨hlow, hhigh⟩

theorem isAtLeast_unpack (hp : parts? x = some p) (h : twoPow k * unitsInOne ≤ p.units) :
    IsAtLeast p.sign k x.toModel.unpack := by
  have hcanonical := (parts?_eq_some hp).1
  have hexponent := hcanonical.le_exponent
  have hbelow : p.units < twoPow (53 + (p.exponent + 1074).toNat) := by
    rw [twoPow_add]
    exact Nat.mul_lt_mul_of_pos_right hcanonical.mantissa_lt (twoPow_pos _)
  have hsize : k + 1074 < 53 + (p.exponent + 1074).toNat := by
    rw [unitsInOne, ← twoPow_add] at h
    exact (Nat.pow_lt_pow_iff_right Nat.one_lt_two).mp (Nat.lt_of_le_of_lt h hbelow)
  have hlead : leadingBit ≤ p.mantissa := hcanonical.leading.resolve_right (by omega)
  have hpos : p.mantissa ≠ 0 := Nat.ne_of_gt (Nat.lt_of_lt_of_le (by decide) hlead)
  rw [unpack_of_parts? hp, dif_neg hpos]
  exact .finite _ (log2_eq_of_bounds hlead hcanonical.mantissa_lt) (by omega)

/-! ## Packing -/

theorem ofBitVec_unpackSign_packComponents (exponent : BitVec 11) (mantissa : BitVec 52) :
    Sign.ofBitVec (unpackSign (UnpackedFloat.packComponents Format.binary64 sign exponent mantissa)) = sign := by
  simp only [unpackSign, UnpackedFloat.packComponents, BitVec.extractLsb]
  rw [BitVec.extractLsb'_append_eq_of_le (by omega), BitVec.extractLsb'_append_eq_of_le (by omega)]
  cases sign <;> rfl

/-- What is packed and unpacked is as great as before. -/
theorem IsAtLeast.unpack_pack {k : Int} (h : IsAtLeast sign k u) (hk : 0 ≤ k) :
    IsAtLeast sign k (Float.Model.pack u).unpack := by
  have hinfinite : UnpackedFloat.unpack Format.binary64 (UnpackedFloat.packedInfinity Format.binary64 sign)
      = .infinity sign := by
    cases sign <;> rfl
  cases h with
  | infinite =>
    change IsAtLeast sign k (UnpackedFloat.unpack _ (UnpackedFloat.packedInfinity _ sign))
    rw [hinfinite]
    exact .infinite
  | @finite m e hpos hlog hsize =>
    change IsAtLeast sign k (UnpackedFloat.unpack _ (UnpackedFloat.pack _ (.finite sign m e hpos)))
    rw [UnpackedFloat.pack]
    dsimp only
    split_ifs with hover hlength
    · rw [hinfinite]
      exact .infinite
    · obtain ⟨biased, hbiased⟩ : ∃ n, n = (e + Format.binary64.exponentBias + (52 : Nat)).toNat := ⟨_, rfl⟩
      have hbias : Format.binary64.exponentBias = 1023 := by decide
      rw [← hbiased] at hover ⊢
      rw [hbias] at hbiased
      have hfield : (BitVec.ofNat 11 biased).toNat = biased := by
        rw [BitVec.toNat_ofNat]
        omega
      have hlast : BitVec.ofNat 11 biased ≠ -1#11 := by
        rw [Ne, ← BitVec.toNat_inj, hfield]
        change biased ≠ 2047
        omega
      have hfirst : BitVec.ofNat 11 biased ≠ 0#11 := by
        rw [Ne, ← BitVec.toNat_inj, hfield]
        change biased ≠ 0
        omega
      rw [UnpackedFloat.unpack]
      simp only [UnpackedFloat.unpackExponent_packComponents, UnpackedFloat.unpackMantissa_packComponents,
        ofBitVec_unpackSign_packComponents]
      rw [if_neg hlast, if_neg hfirst, hfield, hbias]
      refine .finite _ ?_ (by omega)
      rw [toNat_append_mantissa]
      exact log2_eq_of_bounds (Nat.le_add_right _ _) (Nat.add_lt_add_left (BitVec.isLt _) leadingBit)
    · exact absurd (congrArg (· + 1) hlog) hlength

/-! ## Rounding -/

theorem mantissa_shiftRight (em : ExtendedMantissa) (n : Nat) : (em >>> n).mantissa = em.mantissa / twoPow n := by
  induction n with
  | zero => exact (Nat.div_one _).symm
  | succ n ih =>
    have hstep : (em >>> (n + 1)).mantissa = (em >>> n).mantissa / 2 := rfl
    rw [hstep, ih, Nat.div_div_eq_div_mul, twoPow_succ]

theorem mantissa_le_roundedMantissa (em : ExtendedMantissa) : em.mantissa ≤ em.roundedMantissa := by
  obtain ⟨m, roundBit, stickyBit⟩ := em
  cases roundBit <;> cases stickyBit <;>
    simp [ExtendedMantissa.roundedMantissa, ExtendedMantissa.accuracy, Accuracy.roundToNearestEven]

theorem le_log2 (h : twoPow k ≤ m) : k ≤ m.log2 :=
  (Nat.le_log2 (Nat.ne_of_gt (Nat.lt_of_lt_of_le (twoPow_pos k) h))).mpr h

theorem log2_mono {n : Nat} (h : m ≤ n) : m.log2 ≤ n.log2 := by
  rw [Nat.log2_eq_log_two, Nat.log2_eq_log_two]
  exact Nat.log_mono_right h

theorem log2_div_twoPow (h : 52 ≤ m.log2) : (m / twoPow (m.log2 - 52)).log2 = 52 := by
  have hm : m ≠ 0 := by
    rintro rfl
    exact absurd h (by decide)
  have hlow := twoPow_log2_le hm
  have hhigh := lt_twoPow_log2 m
  rw [twoPow_eq_mul (show 52 + (m.log2 - 52) = m.log2 by omega)] at hlow
  rw [twoPow_eq_mul (show 53 + (m.log2 - 52) = m.log2 + 1 by omega)] at hhigh
  exact log2_eq_of_bounds ((Nat.le_div_iff_mul_le (twoPow_pos _)).mpr hlow)
    ((Nat.div_lt_iff_lt_mul (twoPow_pos _)).mpr hhigh)

/-- A long mantissa is shifted to 53 digits. -/
theorem shiftToTargetExponent_of_le (hm : 52 ≤ m.log2) (hsize : 0 ≤ m.log2 + e) (accuracy : Accuracy) :
    (shiftToTargetExponent Format.binary64 m e accuracy).1.mantissa = m / twoPow (m.log2 - 52) ∧
      (shiftToTargetExponent Format.binary64 m e accuracy).2 = e + (m.log2 - 52 : Nat) := by
  have hshift : (Format.targetExponent Format.binary64 (totalExponent m e) - e).toNat = m.log2 - 52 := by
    simp only [Format.targetExponent, totalExponent, Format.mantissaBits, Format.minExponent]
    omega
  have hmantissa : (ExtendedMantissa.ofMantissaAndAccuracy m accuracy).mantissa = m := by
    rcases accuracy with _ | _ | _ | _ <;> rfl
  rw [shiftToTargetExponent, shiftToExponent]
  dsimp only
  rw [hshift, mantissa_shiftRight, hmantissa]
  exact ⟨rfl, rfl⟩

theorem isAtLeast_roundWithAccuracy {k : Int} (hm : 52 ≤ m.log2) (hk : 0 ≤ k) (hsize : k ≤ m.log2 + e)
    (accuracy : Accuracy) : IsAtLeast sign k (roundWithAccuracy Format.binary64 sign m e accuracy) := by
  obtain ⟨hmantissa, hexponent⟩ := shiftToTargetExponent_of_le hm (Int.le_trans hk hsize) accuracy
  rw [roundWithAccuracy]
  generalize shiftToTargetExponent Format.binary64 m e accuracy = shifted at hmantissa hexponent
  obtain ⟨em, e₁⟩ := shifted
  dsimp only at hmantissa hexponent ⊢
  -- rounding up may give a mantissa of 54 digits
  have hrounded : 52 ≤ em.roundedMantissa.log2 := by
    rw [← log2_div_twoPow hm, ← hmantissa]
    exact log2_mono (mantissa_le_roundedMantissa em)
  have hsize' : k ≤ em.roundedMantissa.log2 + e₁ := by omega
  obtain ⟨hfinal, hlast⟩ := shiftToTargetExponent_of_le hrounded (Int.le_trans hk hsize') .exact
  have hlog := log2_div_twoPow hrounded
  rw [← hfinal] at hlog
  rw [dif_neg]
  · exact .finite _ hlog (by omega)
  · intro hzero
    rw [hzero] at hlog
    exact absurd hlog (by decide)

/-- A short mantissa is made longer before. -/
theorem isAtLeast_round {k : Int} (hm : m ≠ 0) (hk : 0 ≤ k) (hsize : k ≤ m.log2 + e) :
    IsAtLeast sign k (UnpackedFloat.round Format.binary64 sign m e) := by
  have hshift : (e - Format.targetExponent Format.binary64 (totalExponent m e)).toNat = 52 - m.log2 := by
    simp only [Format.targetExponent, totalExponent, Format.mantissaBits, Format.minExponent]
    omega
  have hlong : m.log2 + (52 - m.log2) ≤ (m <<< (52 - m.log2)).log2 := by
    rw [Nat.shiftLeft_eq]
    apply le_log2
    rw [twoPow_add]
    exact Nat.mul_le_mul_right _ (twoPow_log2_le hm)
  rw [UnpackedFloat.round, decreaseExponent, hshift]
  dsimp only
  exact isAtLeast_roundWithAccuracy (by omega) hk (by omega) _

/-! ## Sums and products -/

/-- What is at least one makes no number less. -/
theorem IsAtLeast.mul {k : Int} (hu : IsAtLeast .positive k u) (hk : 0 ≤ k) (hv : IsAtLeast .positive 0 v) :
    IsAtLeast .positive k (UnpackedFloat.mul Format.binary64 u v) := by
  cases hu with
  | infinite => cases hv <;> exact .infinite
  | @finite m e hpos hlog hsize =>
    cases hv with
    | infinite => exact .infinite
    | @finite n f hpos' hlog' hsize' =>
      have hlong : m.log2 + n.log2 ≤ (m * n).log2 := by
        apply le_log2
        rw [twoPow_add]
        exact Nat.mul_le_mul (twoPow_log2_le (Nat.ne_of_gt hpos)) (twoPow_log2_le (Nat.ne_of_gt hpos'))
      exact isAtLeast_roundWithAccuracy (by omega) hk (by omega) _

theorem le_log2_decreaseExponent (hm : m ≠ 0) {target : Int} (h : target ≤ e) :
    (decreaseExponent m e target).1 ≠ 0 ∧ m.log2 + e ≤ (decreaseExponent m e target).1.log2 + target := by
  have hlong : twoPow (m.log2 + (e - target).toNat) ≤ (decreaseExponent m e target).1 := by
    rw [decreaseExponent, Nat.shiftLeft_eq, twoPow_add]
    exact Nat.mul_le_mul_right _ (twoPow_log2_le hm)
  have hlog := le_log2 hlong
  exact ⟨Nat.ne_of_gt (Nat.lt_of_lt_of_le (twoPow_pos _) hlong), by omega⟩

theorem isAtLeast_normalize {k n : Int} (hm : m ≠ 0) (hmn : m ≤ n) (hk : 0 ≤ k) (hsize : k ≤ m.log2 + e) :
    IsAtLeast .positive k (UnpackedFloat.normalize Format.binary64 n e .positive) := by
  obtain ⟨n, rfl⟩ := Int.eq_ofNat_of_zero_le (Int.le_trans (Int.natCast_nonneg m) hmn)
  have hle : m ≤ n := Int.ofNat_le.mp hmn
  have hgreater : compare (n : Int) 0 = .gt := Int.compare_eq_gt.mpr (by omega)
  have hlog := log2_mono hle
  rw [UnpackedFloat.normalize, hgreater]
  dsimp only
  rw [Int.toNat_natCast]
  exact isAtLeast_round (by omega) hk (by omega)

/-- A positive number that is added makes no number less. -/
theorem IsAtLeast.add {k : Int} (hu : IsAtLeast .positive k u) (hk : 0 ≤ k) (hv : IsAtLeast .positive 0 v) :
    IsAtLeast .positive k (UnpackedFloat.add Format.binary64 u v) ∧
      IsAtLeast .positive k (UnpackedFloat.add Format.binary64 v u) := by
  cases hu with
  | infinite => cases hv <;> exact ⟨.infinite, .infinite⟩
  | @finite m e hpos hlog hsize =>
    cases hv with
    | infinite => exact ⟨.infinite, .infinite⟩
    | @finite n f hpos' hlog' hsize' =>
      have hm : m ≠ 0 := Nat.ne_of_gt hpos
      obtain ⟨hleft, hlogLeft⟩ := le_log2_decreaseExponent hm (Int.min_le_left e f)
      obtain ⟨hright, hlogRight⟩ := le_log2_decreaseExponent hm (Int.min_le_right f e)
      exact ⟨isAtLeast_normalize hleft (Int.le_add_of_nonneg_right (Int.natCast_nonneg _)) hk (by omega),
        isAtLeast_normalize hright (Int.le_add_of_nonneg_left (Int.natCast_nonneg _)) hk (by omega)⟩

/-! ## Numbers of 64 bits and more -/

/-- A number with zeros for its last digits is not rounded if the others are 53. -/
theorem roundNat_of_twoPow_dvd (hdvd : twoPow k ∣ m) (h : m ≤ twoPow (53 + k)) : roundNat m = m := by
  obtain ⟨a, rfl⟩ := hdvd
  rw [twoPow_add, Nat.mul_comm] at h
  exact roundNat_eq_self_iff.mpr ⟨a, k, Nat.le_of_mul_le_mul_right h (twoPow_pos k), Nat.mul_comm _ _⟩

/-- The number nearest to an integer is as great as that is when it is rounded. -/
theorem isAtLeast_ofInt {n : Nat} (h : twoPow k ≤ roundNat n) : IsAtLeast .positive k (ofInt n).toModel.unpack := by
  have hn : n ≠ 0 := by
    rintro rfl
    exact absurd h (Nat.not_le.mpr (twoPow_pos k))
  have hpositive : decide ((n : Int) < 0) = false := decide_eq_false (by omega)
  rw [ofInt, hpositive, Int.natAbs_natCast]
  rcases Nat.lt_or_ge ((n.log2 + 1022) * leadingBit + mantissaOf n) (2047 * leadingBit) with hfit | hover
  · obtain ⟨p, hp, hnegative, hunits⟩ := exists_parts?_ofRatio_one false hn hfit
    have hsign : p.sign = .positive := by
      rw [Parts.sign, hnegative]
      rfl
    rw [← hsign]
    apply isAtLeast_unpack hp
    rw [hunits]
    exact Nat.mul_le_mul_right _ h
  · rw [ofRatio_one false hn, Nat.min_eq_right hover]
    exact .infinite

section

variable {k : Int}

theorem isAtLeast_mul (hx : IsAtLeast .positive k x.toModel.unpack) (hk : 0 ≤ k)
    (hy : IsAtLeast .positive 0 y.toModel.unpack) : IsAtLeast .positive k (x * y).toModel.unpack :=
  (hx.mul hk hy).unpack_pack hk

theorem isAtLeast_add (hx : IsAtLeast .positive k x.toModel.unpack) (hk : 0 ≤ k)
    (hy : IsAtLeast .positive 0 y.toModel.unpack) :
    IsAtLeast .positive k (x + y).toModel.unpack ∧ IsAtLeast .positive k (y + x).toModel.unpack :=
  ⟨(hx.add hk hy).1.unpack_pack hk, (hx.add hk hy).2.unpack_pack hk⟩

theorem isAtLeast_add_zero (hx : IsAtLeast .positive k x.toModel.unpack) (hk : 0 ≤ k)
    (hy : y.toModel.unpack = .zero .positive) :
    IsAtLeast .positive k (x + y).toModel.unpack ∧ IsAtLeast .positive k (y + x).toModel.unpack := by
  have hsame : UnpackedFloat.add Format.binary64 x.toModel.unpack y.toModel.unpack = x.toModel.unpack ∧
      UnpackedFloat.add Format.binary64 y.toModel.unpack x.toModel.unpack = x.toModel.unpack := by
    rw [hy]
    generalize x.toModel.unpack = u at hx
    cases hx <;> exact ⟨rfl, rfl⟩
  have hleft := hx.unpack_pack hk
  constructor
  · rw [← hsame.1] at hleft
    exact hleft
  · rw [← hsame.2] at hleft
    exact hleft

theorem isAtLeast_neg {sign : Sign} (hx : IsAtLeast sign k x.toModel.unpack) (hk : 0 ≤ k) :
    IsAtLeast (-sign) k (-x).toModel.unpack :=
  hx.neg.unpack_pack hk

end

/-- A finite number of 64 bits or more is an integer. -/
theorem exists_integer_of_parts? (negative : Bool)
    (hx : IsAtLeast (if negative then .negative else .positive) 64 x.toModel.unpack) (hp : parts? x = some p) :
    p.negative = negative ∧ ∃ n : Nat, nat64Limit ≤ n ∧ scale p.mantissa p.exponent = (n, 1) := by
  have hsigned : p.sign = (if negative then .negative else .positive) → p.negative = negative := by
    rw [Parts.sign]
    cases negative <;> cases p.negative <;> simp
  rw [unpack_of_parts? hp] at hx
  generalize (if negative then Sign.negative else Sign.positive) = sign at hx hsigned
  generalize p.sign = s at hx hsigned
  by_cases hm : p.mantissa = 0
  · rw [dif_pos hm] at hx
    cases hx
  · rw [dif_neg hm] at hx
    cases hx with
    | finite hpos hlog hsize =>
      have hlead := twoPow_log2_le hm
      have hpow : twoPow 12 ≤ twoPow p.exponent.toNat := Nat.pow_le_pow_right (by decide) (by omega)
      rw [hlog] at hlead
      refine ⟨hsigned rfl, p.mantissa * twoPow p.exponent.toNat, Nat.mul_le_mul hlead hpow, ?_⟩
      rw [scale, if_pos (by omega)]

theorem ofFloat_of_isAtLeast (hx : IsAtLeast .positive 64 x.toModel.unpack) : Number.ofFloat x = .float x := by
  rw [Number.ofFloat, integer?]
  cases hp : parts? x with
  | none => rfl
  | some p =>
    obtain ⟨hnegative, n, hn, hscale⟩ := exists_integer_of_parts? false hx hp
    have hrange : Number.inRange (signed false n) = false := by
      have hbeyond : ¬ signed false n < nat64Limit := Int.not_lt.mpr (Int.ofNat_le.mpr hn)
      rw [Number.inRange, decide_eq_false hbeyond, Bool.and_false]
    rw [Option.bind_some, hscale, hnegative]
    dsimp only
    rw [if_pos (Nat.mod_one n), Nat.div_one]
    dsimp only
    rw [hrange, if_neg Bool.false_ne_true]

/-- A number of 64 bits or more is cut to the nearer end. -/
theorem toInt64_of_isAtLeast (negative : Bool)
    (hx : IsAtLeast (if negative then .negative else .positive) 64 x.toModel.unpack) :
    toInt64 x = if negative then -int64Limit else int64Limit - 1 := by
  rw [toInt64, truncate?]
  cases hp : parts? x with
  | none =>
    have hnan : x.isNaN = false := by
      change x.toModel.unpack.isNaN = false
      generalize x.toModel.unpack = u at hx
      cases hx <;> rfl
    have hless : x < 0 ↔ negative = true := by
      rw [lt_iff_compare]
      change UnpackedFloat.compare _ (.zero .positive) = _ ↔ _
      generalize x.toModel.unpack = u at hx
      cases hx <;> cases negative <;> simp [UnpackedFloat.compare]
    rw [Option.map_none]
    dsimp only
    rw [hnan, if_neg Bool.false_ne_true]
    simp only [hless]
  | some p =>
    obtain ⟨hnegative, n, hn, hscale⟩ := exists_integer_of_parts? negative hx hp
    rw [Option.map_some, hscale]
    dsimp only
    rw [Nat.div_one, hnegative, clampInt64, signed]
    rw [nat64Limit] at hn
    cases negative <;> simp [int64Limit] <;> omega

end Binary64

namespace Number

open Binary64 (IsAtLeast roundNat roundInt twoPow_pos)

/-- What stands for a natural number: itself if it has 64 bits, else a binary64 number that has not. -/
inductive Holds : Number → Nat → Prop
  | int {n : Nat} (h : n < nat64Limit) : Holds (.int n) n
  | float {x : Float} {n : Nat} (h : nat64Limit ≤ n) (hx : IsAtLeast .positive 64 x.toModel.unpack) : Holds (.float x) n

variable {a b : Number} {m n : Nat}

theorem nat64Limit_le_roundNat (h : nat64Limit ≤ n) : nat64Limit ≤ roundNat n := by
  have hlimit : roundNat nat64Limit = nat64Limit := by decide
  rw [← hlimit]
  exact Binary64.roundNat_mono h

theorem holds_ofExact (n : Nat) : Holds (ofExact n) (roundNat n) := by
  rw [ofExact, Binary64.roundInt_natCast]
  rcases Nat.lt_or_ge (roundNat n) nat64Limit with hlt | hge
  · have hrange : inRange (roundNat n) = true := by
      rw [inRange, int64Limit]
      simp
      omega
    rw [if_pos hrange]
    exact .int hlt
  · have hrange : inRange (roundNat n) = false := by
      rw [inRange]
      simp
      omega
    rw [hrange, if_neg Bool.false_ne_true]
    exact .float hge (Binary64.isAtLeast_ofInt hge)

theorem isAtLeast_one (h : n ≠ 0) : IsAtLeast .positive 0 (Binary64.ofInt n).toModel.unpack :=
  Binary64.isAtLeast_ofInt (Nat.le_trans (twoPow_pos _) (Binary64.twoPow_log2_le_roundNat h))

theorem Holds.mulRounded (h : Holds a m) (hn : n ≠ 0) : Holds (a.mulRounded (.int n)) (roundNat (m * n)) := by
  cases h with
  | int h => exact holds_ofExact (m * n)
  | @float x _ h hx =>
    have hproduct := Binary64.isAtLeast_mul hx (by decide) (isAtLeast_one hn)
    have hlimit := nat64Limit_le_roundNat (Nat.le_trans h (Nat.le_mul_of_pos_right m (Nat.pos_of_ne_zero hn)))
    change Holds (ofFloat (x * Binary64.ofInt n)) _
    rw [Binary64.ofFloat_of_isAtLeast hproduct]
    exact .float hlimit hproduct

/-- A great number and one that stands for a natural number have a great sum. -/
theorem Holds.isAtLeast_add (h : Holds a m) {x : Float} (hx : IsAtLeast .positive 64 x.toModel.unpack) :
    IsAtLeast .positive 64 (x + a.toFloat).toModel.unpack ∧ IsAtLeast .positive 64 (a.toFloat + x).toModel.unpack := by
  cases h with
  | float _ hy => exact Binary64.isAtLeast_add hx (by decide) (hy.mono (by decide))
  | int h =>
    by_cases hm : m = 0
    · rw [hm]
      exact Binary64.isAtLeast_add_zero hx (by decide) rfl
    · exact Binary64.isAtLeast_add hx (by decide) (isAtLeast_one hm)

theorem Holds.addRounded (h : Holds a m) (h' : Holds b n) : Holds (a.addRounded b) (roundNat (m + n)) := by
  have hgreat {x : Float} (hx : IsAtLeast .positive 64 x.toModel.unpack) (hlimit : nat64Limit ≤ m + n) :
      Holds (ofFloat x) (roundNat (m + n)) := by
    rw [Binary64.ofFloat_of_isAtLeast hx]
    exact .float (nat64Limit_le_roundNat hlimit) hx
  cases h with
  | float hm hx =>
    have hsum := (h'.isAtLeast_add hx).1
    have hlimit := Nat.le_add_right_of_le (k := n) hm
    cases h' <;> exact hgreat hsum hlimit
  | int hm =>
    cases h' with
    | int hn => exact holds_ofExact (m + n)
    | float hn hy => exact hgreat ((Holds.int hm).isAtLeast_add hy).2 (Nat.le_add_left_of_le hn)

end Number

end InfraConfig
