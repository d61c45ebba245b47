import Mathlib
import InfraConfig.Decimal.Binary64

/-!
# Integers among binary64 numbers

A word of 64 bits is a sign, an exponent and a mantissa. A finite number is kept in its word, which is made of its
parts, so numbers with the same parts are equal. It is a whole number of units of the last place of all, and it has one
mantissa and one exponent. So numbers are equal if they are the same integer, and the number nearest to an integer of up
to 64 bits is that integer rounded.
-/

namespace InfraConfig

namespace Binary64

open Float.Model (Format UnpackedFloat)
open Float.Model.UnpackedFloat (unpackExponent)

/-! ## Words -/

theorem toNat_unpackExponent (b : BitVec Format.binary64.numBits) :
    (unpackExponent b).toNat = b.toNat / leadingBit % 2048 := by
  simp [unpackExponent, BitVec.extractLsb, leadingBit, Nat.shiftRight_eq_div_pow]

/-- The last exponent is that of infinities and of what is no number. -/
theorem unpackExponent_eq_last_iff (b : BitVec Format.binary64.numBits) :
    unpackExponent b = -1#11 ↔ b.toNat / leadingBit % 2048 = 2047 := by
  rw [← BitVec.toNat_inj, toNat_unpackExponent]
  rfl

/-- The word of a finite number is kept. -/
theorem toNat_toBits_ofBits {w : Nat} (hw : w < nat64Limit) (hfinite : w / leadingBit % 2048 ≠ 2047) :
    (Float.ofBits (UInt64.ofNat w)).toBits.toNat = w := by
  obtain ⟨b, hb⟩ : ∃ b : BitVec Format.binary64.numBits, b = BitVec.ofNat 64 w := ⟨_, rfl⟩
  have hword : b.toNat = w := by
    rw [hb]
    exact Nat.mod_eq_of_lt hw
  have hnan : UnpackedFloat.isNaNBits b = false := by
    refine decide_eq_false fun h => hfinite ?_
    rw [← hword]
    exact (unpackExponent_eq_last_iff b).mp h.1
  change (UnpackedFloat.pack Format.binary64 (UnpackedFloat.unpack Format.binary64 (BitVec.ofNat 64 w))).toNat = w
  rw [← hb, UnpackedFloat.pack_unpack, hnan, if_neg Bool.false_ne_true]
  exact hword

/-- The parts of the number that a word stands for. -/
theorem parts?_ofBits {w : Nat} (hw : w < nat64Limit) (hfinite : w / leadingBit % 2048 ≠ 2047) :
    parts? (Float.ofBits (UInt64.ofNat w)) = if w / leadingBit % 2048 = 0 then some ⟨signBit ≤ w, w % leadingBit, -1074⟩
      else some ⟨signBit ≤ w, leadingBit + w % leadingBit, (w / leadingBit % 2048 : Nat) - 1075⟩ := by
  rw [parts?, toNat_toBits_ofBits hw hfinite, if_neg hfinite]

/-- A number with parts is finite. -/
theorem isFinite_of_parts? {x : Float} {p : Parts} (h : parts? x = some p) : x.isFinite = true := by
  have hlast : ¬ @unpackExponent Format.binary64 x.toModel.toBits.toBitVec = -1#11 := by
    intro hlast
    have hbits : x.toBits.toNat / leadingBit % 2048 = 2047 := (unpackExponent_eq_last_iff _).mp hlast
    rw [parts?, if_pos hbits] at h
    cases h
  change (UnpackedFloat.unpack Format.binary64 x.toModel.toBits.toBitVec).isFinite = true
  rw [UnpackedFloat.unpack]
  dsimp only
  rw [if_neg hlast]
  split_ifs <;> rfl

theorem ne_nan_of_parts? {x : Float} {p : Parts} (h : parts? x = some p) : x ≠ Float.nan := by
  rintro rfl
  cases isFinite_of_parts? h

/-- The parts that a number has: the mantissa is as long as its exponent allows. -/
structure Parts.IsCanonical (p : Parts) : Prop where
  mantissa_lt : p.mantissa < 2 * leadingBit
  le_exponent : -1074 ≤ p.exponent
  leading : leadingBit ≤ p.mantissa ∨ p.exponent = -1074

/-- The word that parts are written in. The leading bit of the mantissa is counted in the exponent. -/
def Parts.word (p : Parts) : Nat :=
  (if p.negative then signBit else 0) + ((p.exponent + 1074).toNat * leadingBit + p.mantissa)

/-- The sign of a word, and what is left of it without the sign. -/
theorem exists_signed_word (w : Nat) :
    ∃ rest, w = (if decide (signBit ≤ w) then signBit else 0) + rest ∧ (w < nat64Limit → rest < signBit)
      ∧ w / leadingBit % 2048 = rest / leadingBit % 2048 ∧ w % leadingBit = rest % leadingBit := by
  rw [signBit, leadingBit, nat64Limit]
  by_cases hsign : 9223372036854775808 ≤ w
  · refine ⟨w - 9223372036854775808, ?_⟩
    rw [decide_eq_true hsign, if_pos rfl]
    omega
  · refine ⟨w, ?_⟩
    rw [decide_eq_false hsign, if_neg Bool.false_ne_true]
    omega

theorem parts?_eq_some {x : Float} {p : Parts} (h : parts? x = some p) : p.IsCanonical ∧ x.toBits.toNat = p.word := by
  obtain ⟨rest, hword, hrest, hexponent, hmantissa⟩ := exists_signed_word x.toBits.toNat
  have hlt := hrest x.toBits.toBitVec.isLt
  have hfraction : rest % leadingBit < leadingBit := Nat.mod_lt _ (by decide)
  have hsplit := Nat.div_add_mod' rest leadingBit
  rw [parts?, hexponent, hmantissa] at h
  by_cases hlast : rest / leadingBit % 2048 = 2047
  · rw [if_pos hlast] at h
    cases h
  · rw [if_neg hlast] at h
    have hfield : rest / leadingBit % 2048 = rest / leadingBit :=
      Nat.mod_eq_of_lt (Nat.div_lt_of_lt_mul hlt)
    rw [hfield] at h hlast
    by_cases hzero : rest / leadingBit = 0
    · rw [if_pos hzero] at h
      obtain rfl := Option.some.inj h
      refine ⟨⟨by dsimp only; omega, Int.le_refl _, .inr rfl⟩, hword.trans (congrArg (Nat.add _) ?_)⟩
      rw [hzero] at hsplit
      exact hsplit.symm
    · rw [if_neg hzero] at h
      obtain rfl := Option.some.inj h
      refine ⟨⟨by dsimp only; omega, by dsimp only; omega, .inl (Nat.le_add_right _ _)⟩,
        hword.trans (congrArg (Nat.add _) ?_)⟩
      obtain ⟨k, hk⟩ := Nat.exists_eq_succ_of_ne_zero hzero
      have hk' : ((rest / leadingBit : Nat) - 1075 + 1074 : Int).toNat = k := by omega
      rw [hk, Nat.succ_mul] at hsplit
      dsimp only
      rw [hk', ← Nat.add_assoc]
      exact hsplit.symm

theorem eq_zero_of_mantissa_eq_zero {x : Float} {p : Parts} (h : parts? x = some p) (hzero : p.mantissa = 0) :
    x = if p.negative then -0 else 0 := by
  obtain ⟨hcanonical, hword⟩ := parts?_eq_some h
  have hexponent : p.exponent = -1074 := hcanonical.leading.resolve_left (by rw [hzero]; decide)
  rw [Parts.word, hexponent, hzero] at hword
  refine Float.toBits_inj.mp (UInt64.toNat_inj.mp ?_)
  rw [hword]
  cases p.negative <;> rfl

theorem beq_of_parts? {x y : Float} {p q : Parts} (hp : parts? x = some p) (hq : parts? y = some q)
    (hmantissa : p.mantissa = q.mantissa) (hexponent : p.exponent = q.exponent)
    (hsign : p.mantissa = 0 ∨ p.negative = q.negative) : (x == y) = true := by
  refine Float.beq_iff_ne_nan_and_eq.mpr ⟨ne_nan_of_parts? hp, ne_nan_of_parts? hq, ?_⟩
  rcases hsign with hzero | hsign
  · rw [eq_zero_of_mantissa_eq_zero hp hzero, eq_zero_of_mantissa_eq_zero hq (hmantissa ▸ hzero)]
    cases p.negative <;> cases q.negative <;> simp
  · refine .inl (Float.toBits_inj.mp (UInt64.toNat_inj.mp ?_))
    rw [(parts?_eq_some hp).2, (parts?_eq_some hq).2, Parts.word, Parts.word, hmantissa, hexponent, hsign]

/-! ## Values -/

theorem twoPow_pos (n : Nat) : 0 < twoPow n := Nat.two_pow_pos n

@[simp] theorem twoPow_zero : twoPow 0 = 1 := rfl

theorem twoPow_add (a b : Nat) : twoPow (a + b) = twoPow a * twoPow b := Nat.pow_add 2 a b

theorem twoPow_eq_mul {a b c : Nat} (h : a + b = c) : twoPow c = twoPow a * twoPow b := by
  rw [← h, twoPow_add]

theorem twoPow_succ (n : Nat) : twoPow (n + 1) = twoPow n * 2 := twoPow_add n 1

theorem twoPow_log2_le {m : Nat} (h : m ≠ 0) : twoPow m.log2 ≤ m := Nat.log2_self_le h

theorem lt_twoPow_log2 (m : Nat) : m < twoPow (m.log2 + 1) := Nat.lt_log2_self

theorem log2_lt_iff {m k : Nat} (h : m ≠ 0) : m.log2 < k ↔ m < twoPow k := Nat.log2_lt h

/-- The magnitude of a number in units of `2 ^ -1074`, the last place of all. -/
def Parts.units (p : Parts) : Nat :=
  p.mantissa * twoPow (p.exponent + 1074).toNat

/-- The units in one. -/
def unitsInOne : Nat := twoPow 1074

theorem unitsInOne_pos : 0 < unitsInOne := twoPow_pos 1074

theorem unitsInOne_eq {a b : Nat} (h : a + b = 1074) : unitsInOne = twoPow a * twoPow b :=
  twoPow_eq_mul h

theorem Parts.IsCanonical.exponent_le {p q : Parts} (hp : p.IsCanonical) (hq : q.IsCanonical) (h : p.units = q.units) :
    q.exponent ≤ p.exponent := by
  refine Int.not_lt.mp fun hlt => ?_
  obtain ⟨k, hk⟩ : ∃ k : Nat, (q.exponent + 1074).toNat = (p.exponent + 1074).toNat + (k + 1) :=
    ⟨(q.exponent - p.exponent - 1).toNat, by have := hp.le_exponent; omega⟩
  have hled : leadingBit ≤ q.mantissa := hq.leading.resolve_right (by have := hp.le_exponent; omega)
  have hmant : p.mantissa = q.mantissa * twoPow (k + 1) := by
    rw [units, units, hk, twoPow_add, Nat.mul_comm (twoPow _) (twoPow (k + 1)), ← Nat.mul_assoc] at h
    exact Nat.eq_of_mul_eq_mul_right (twoPow_pos _) h
  have hlong : leadingBit * 2 ≤ p.mantissa := by
    rw [hmant, twoPow_succ, ← Nat.mul_assoc]
    exact Nat.mul_le_mul_right 2 (Nat.le_trans hled (Nat.le_mul_of_pos_right _ (twoPow_pos k)))
  have := hp.mantissa_lt
  omega

/-- A magnitude has one mantissa and one exponent. -/
theorem Parts.IsCanonical.unique {p q : Parts} (hp : p.IsCanonical) (hq : q.IsCanonical) (h : p.units = q.units) :
    p.mantissa = q.mantissa ∧ p.exponent = q.exponent := by
  have hexp : p.exponent = q.exponent := Int.le_antisymm (hq.exponent_le hp h.symm) (hp.exponent_le hq h)
  rw [units, units, hexp] at h
  exact ⟨Nat.eq_of_mul_eq_mul_right (twoPow_pos _) h, hexp⟩

/-- A number is an integer if its magnitude is a multiple of one. -/
theorem integer?_eq_some_iff {x : Float} {p : Parts} (hp : parts? x = some p) {n : Int} :
    integer? x = some n ↔ ∃ k : Nat, p.units = k * unitsInOne ∧ n = signed p.negative k := by
  have hcanonical := (parts?_eq_some hp).1.le_exponent
  rw [integer?, hp, Option.bind_some]
  by_cases hexp : 0 ≤ p.exponent
  · have hunits : p.units = p.mantissa * twoPow p.exponent.toNat * unitsInOne := by
      have hsplit : (p.exponent + 1074).toNat = p.exponent.toNat + 1074 := by omega
      rw [Parts.units, hsplit, twoPow_add, ← Nat.mul_assoc, unitsInOne]
    rw [scale, if_pos hexp]
    dsimp only
    rw [if_pos (Nat.mod_one _), Nat.div_one, Option.some.injEq, hunits]
    constructor
    · rintro rfl
      exact ⟨_, rfl, rfl⟩
    · rintro ⟨k, hk, rfl⟩
      rw [Nat.eq_of_mul_eq_mul_right unitsInOne_pos hk]
  · have hone : unitsInOne = twoPow (-p.exponent).toNat * twoPow (p.exponent + 1074).toNat := unitsInOne_eq (by omega)
    have hdvd (k : Nat) : p.units = k * unitsInOne ↔ p.mantissa = k * twoPow (-p.exponent).toNat := by
      rw [hone, ← Nat.mul_assoc, Parts.units]
      exact ⟨Nat.eq_of_mul_eq_mul_right (twoPow_pos _), fun h => h ▸ rfl⟩
    rw [scale, if_neg hexp]
    dsimp only
    simp only [hdvd]
    constructor
    · intro h
      split_ifs at h with hmod
      exact ⟨_, (Nat.div_mul_cancel (Nat.dvd_of_mod_eq_zero hmod)).symm, (Option.some.inj h).symm⟩
    · rintro ⟨k, hk, rfl⟩
      rw [hk, if_pos (Nat.mul_mod_left _ _), Nat.mul_div_cancel _ (twoPow_pos _)]

theorem signed_inj {s t : Bool} {k l : Nat} (h : signed s k = signed t l) : k = l ∧ (k = 0 ∨ s = t) := by
  cases s <;> cases t <;> simp only [signed, Bool.false_eq_true, if_false, if_true] at h <;> simp <;> omega

/-- Numbers that are the same integer are equal. -/
theorem beq_of_integer? {x y : Float} {n : Int} (hx : integer? x = some n) (hy : integer? y = some n) :
    (x == y) = true := by
  obtain ⟨p, hp, -⟩ := Option.bind_eq_some_iff.mp hx
  obtain ⟨q, hq, -⟩ := Option.bind_eq_some_iff.mp hy
  obtain ⟨k, hk, hn⟩ := (integer?_eq_some_iff hp).mp hx
  obtain ⟨l, hl, hm⟩ := (integer?_eq_some_iff hq).mp hy
  obtain ⟨rfl, hsign⟩ := signed_inj (hn.symm.trans hm)
  obtain ⟨hmantissa, hexponent⟩ := (parts?_eq_some hp).1.unique (parts?_eq_some hq).1 (hk.trans hl.symm)
  refine beq_of_parts? hp hq hmantissa hexponent (hsign.imp_left fun hzero => ?_)
  rw [hzero, Nat.zero_mul, Parts.units] at hk
  exact (Nat.mul_eq_zero.mp hk).resolve_right (Nat.ne_of_gt (twoPow_pos _))

/-- A zero is the integer zero, whatever its sign. -/
theorem integer?_of_zero {x : Float} (h : x = 0 ∨ x = -0) : integer? x = some 0 := by
  obtain ⟨negative, hp⟩ : ∃ negative, parts? x = some ⟨negative, 0, -1074⟩ := by
    rcases h with rfl | rfl
    · exact ⟨false, rfl⟩
    · exact ⟨true, rfl⟩
  refine (integer?_eq_some_iff hp).mpr ⟨0, by rw [Parts.units, Nat.zero_mul, Nat.zero_mul], ?_⟩
  cases negative <;> rfl

/-- Equal numbers are the same integer, or neither is one. -/
theorem integer?_congr {x y : Float} (h : (x == y) = true) : integer? x = integer? y := by
  rcases Float.beq_iff_ne_nan_and_eq.mp h with ⟨-, -, rfl | ⟨hx, hy⟩ | ⟨hx, hy⟩⟩
  · rfl
  · rw [integer?_of_zero (.inl hx), integer?_of_zero (.inr hy)]
  · rw [integer?_of_zero (.inr hx), integer?_of_zero (.inl hy)]

/-- Numbers that are the same integer are the same, unless the integer is zero. -/
theorem eq_of_integer? {x y : Float} {n : Int} (hx : integer? x = some n) (hy : integer? y = some n) (hn : n ≠ 0) :
    x = y := by
  have hne (h : x = 0 ∨ x = -0) : False := by
    rw [integer?_of_zero h] at hx
    exact hn (Option.some.inj hx).symm
  rcases Float.beq_iff_ne_nan_and_eq.mp (beq_of_integer? hx hy) with ⟨-, -, heq | ⟨h, -⟩ | ⟨h, -⟩⟩
  · exact heq
  · exact (hne (.inl h)).elim
  · exact (hne (.inr h)).elim

/-! ## Numbers from integers -/

/-- The word of a number whose mantissa is written in full: its leading bit goes to the exponent, and so does one
more if the mantissa is too long by one. -/
theorem exists_parts?_ofBits (negative : Bool) {k m : Nat} (hlow : leadingBit ≤ m) (hhigh : m ≤ 2 * leadingBit)
    (hfit : k * leadingBit + m < 2047 * leadingBit) :
    ∃ p, parts? (Float.ofBits (UInt64.ofNat ((if negative then signBit else 0) + (k * leadingBit + m)))) = some p
      ∧ p.negative = negative ∧ p.units = m * twoPow k := by
  generalize hw : (if negative then signBit else 0) + (k * leadingBit + m) = w
  have hk : k < 2046 ∧ (m = 2 * leadingBit → k < 2045) := by
    rw [leadingBit] at hlow hfit ⊢
    omega
  have hsign : decide (signBit ≤ w) = negative := by
    cases negative <;> simp only [signBit, leadingBit, Bool.false_eq_true, if_false, if_true] at hlow hhigh hw ⊢
    · exact decide_eq_false (by omega)
    · exact decide_eq_true (by omega)
  have hbelow : w < nat64Limit := by
    rw [nat64Limit]
    cases negative <;> simp only [signBit, leadingBit, Bool.false_eq_true, if_false, if_true] at hlow hhigh hw <;> omega
  by_cases hcarry : m = 2 * leadingBit
  · have hfield : w / leadingBit % 2048 = k + 2 ∧ w % leadingBit = 0 := by
      cases negative <;> simp only [signBit, leadingBit, Bool.false_eq_true, if_false, if_true] at hcarry hw ⊢ <;> omega
    refine ⟨⟨negative, leadingBit, (k + 1 : Nat) - 1074⟩, ?_, rfl, ?_⟩
    · have hexp : ((k + 2 : Nat) - 1075 : Int) = (k + 1 : Nat) - 1074 := by omega
      rw [parts?_ofBits hbelow (by omega), hfield.1, hfield.2, if_neg (by omega), hsign, hexp, Nat.add_zero]
    · have hexp : ((k + 1 : Nat) - 1074 + 1074 : Int).toNat = k + 1 := by omega
      rw [Parts.units]
      dsimp only
      rw [hexp, hcarry, twoPow_succ, Nat.mul_comm (twoPow k) 2, ← Nat.mul_assoc, Nat.mul_comm leadingBit 2]
  · have hfield : w / leadingBit % 2048 = k + 1 ∧ w % leadingBit = m - leadingBit := by
      cases negative <;>
        simp only [signBit, leadingBit, Bool.false_eq_true, if_false, if_true] at hlow hhigh hcarry hw ⊢ <;> omega
    refine ⟨⟨negative, m, k - 1074⟩, ?_, rfl, ?_⟩
    · have hexp : ((k + 1 : Nat) - 1075 : Int) = k - 1074 := by omega
      rw [parts?_ofBits hbelow (by omega), hfield.1, hfield.2, if_neg (by omega), hsign, hexp, Nat.add_sub_cancel' hlow]
    · have hexp : ((k : Nat) - 1074 + 1074 : Int).toNat = k := by omega
      rw [Parts.units]
      dsimp only
      rw [hexp]

/-! ## Rounding to the nearest integer -/

theorem roundDiv_le {num den q : Nat} (hden : 0 < den) (h : num ≤ q * den) : roundDiv num den ≤ q := by
  have hq : num / den ≤ q := Nat.div_le_of_le_mul (Nat.mul_comm q den ▸ h)
  have hsplit := Nat.div_add_mod num den
  rw [roundDiv]
  rcases Nat.lt_or_eq_of_le hq with hlt | heq
  · split_ifs <;> omega
  · have hrest : num % den = 0 := by
      rw [heq, Nat.mul_comm] at hsplit
      omega
    rw [hrest, heq]
    split_ifs <;> omega

theorem le_roundDiv {num den q : Nat} (hden : 0 < den) (h : q * den ≤ num) : q ≤ roundDiv num den := by
  have hq : q ≤ num / den := (Nat.le_div_iff_mul_le hden).mpr h
  rw [roundDiv]
  split_ifs <;> omega

theorem roundDiv_one (n : Nat) : roundDiv n 1 = n :=
  Nat.le_antisymm (roundDiv_le Nat.one_pos (Nat.le_of_eq (Nat.mul_one n).symm))
    (le_roundDiv Nat.one_pos (Nat.le_of_eq (Nat.mul_one n)))

/-- A natural number rounded to the places that its leading bits take. -/
def roundNat (m : Nat) : Nat :=
  roundDiv m (twoPow (m.log2 - 52)) * twoPow (m.log2 - 52)

theorem roundNat_eq_self {m : Nat} (h : m ≤ 2 * leadingBit) : roundNat m = m := by
  rw [roundNat]
  rcases Nat.lt_or_eq_of_le h with hlt | rfl
  · have hlog : m.log2 - 52 = 0 := by
      rcases Nat.eq_zero_or_pos m with rfl | hpos
      · decide
      · have := (log2_lt_iff (Nat.ne_of_gt hpos)).mpr (show m < twoPow 53 from hlt)
        omega
    rw [hlog, twoPow_zero, Nat.mul_one, roundDiv_one]
  · decide

theorem roundInt_eq (n : Int) : roundInt n = signed (n < 0) (roundNat n.natAbs) := by
  rw [roundInt, signed]
  by_cases hsmall : n.natAbs ≤ 2 * leadingBit
  · rw [if_pos hsmall, roundNat_eq_self hsmall]
    by_cases hneg : n < 0 <;>
      simp only [hneg, decide_true, decide_false, if_true, if_false, Bool.false_eq_true] <;> omega
  · rw [if_neg hsmall, roundNat]
    by_cases hneg : n < 0 <;> simp [hneg]

theorem lastPlace_one {m : Nat} (hm : m ≠ 0) : lastPlace m 1 = m.log2 - 52 := by
  have hlow := twoPow_log2_le hm
  have hguess : ¬ m * twoPow (-((m.log2 : Int) - (0 : Nat))).toNat < 1 * twoPow ((m.log2 : Int) - (0 : Nat)).toNat := by
    have hneg : (-((m.log2 : Int) - (0 : Nat))).toNat = 0 := by omega
    have hpos : ((m.log2 : Int) - (0 : Nat)).toNat = m.log2 := by omega
    rw [hneg, hpos, Nat.one_mul]
    exact Nat.not_lt.mpr (Nat.le_trans hlow (Nat.le_mul_of_pos_right m (twoPow_pos 0)))
  have hone : Nat.log2 1 = 0 := by decide
  rw [lastPlace, hone, if_neg hguess]
  omega

/-- The mantissa that a natural number is rounded to. -/
def mantissaOf (m : Nat) : Nat :=
  roundDiv (m * twoPow (52 - m.log2)) (twoPow (m.log2 - 52))

/-- It has its leading bit, or is the next power of two. -/
theorem mantissaOf_bounds {m : Nat} (hm : m ≠ 0) : leadingBit ≤ mantissaOf m ∧ mantissaOf m ≤ 2 * leadingBit := by
  have hscale : leadingBit * twoPow (m.log2 - 52) = twoPow m.log2 * twoPow (52 - m.log2) := by
    have hlead : leadingBit = twoPow 52 := rfl
    rw [hlead, ← twoPow_add, ← twoPow_add]
    congr 1
    omega
  constructor
  · apply le_roundDiv (twoPow_pos _)
    rw [hscale]
    exact Nat.mul_le_mul_right _ (twoPow_log2_le hm)
  · apply roundDiv_le (twoPow_pos _)
    rw [Nat.mul_assoc, hscale, ← Nat.mul_assoc, Nat.mul_comm 2, ← twoPow_succ]
    exact Nat.mul_le_mul_right _ (Nat.le_of_lt (lt_twoPow_log2 m))

theorem units_mantissaOf (m : Nat) : mantissaOf m * twoPow (m.log2 + 1022) = roundNat m * unitsInOne := by
  rw [mantissaOf]
  rcases Nat.le_total m.log2 52 with hlog | hlog
  · have hunit : m.log2 - 52 = 0 := by omega
    rw [roundNat, hunit, twoPow_zero, roundDiv_one, roundDiv_one, Nat.mul_one, Nat.mul_assoc,
      unitsInOne_eq (a := 52 - m.log2) (b := m.log2 + 1022) (by omega)]
  · have hunit : 52 - m.log2 = 0 := by omega
    have hexp : m.log2 + 1022 = m.log2 - 52 + 1074 := by omega
    rw [roundNat, hunit, twoPow_zero, Nat.mul_one, hexp, twoPow_add, ← Nat.mul_assoc, unitsInOne]

/-- A power of two is not passed by rounding. -/
theorem roundNat_le {m k : Nat} (h : m ≤ twoPow k) : roundNat m ≤ twoPow k := by
  rcases Nat.eq_zero_or_pos m with rfl | hpos
  · exact Nat.zero_le _
  · have hlog : m.log2 ≤ k := by
      have hpow := Nat.le_trans (twoPow_log2_le (Nat.ne_of_gt hpos)) h
      exact (Nat.pow_le_pow_iff_right Nat.one_lt_two).mp hpow
    have hsplit : twoPow k = twoPow (k - (m.log2 - 52)) * twoPow (m.log2 - 52) := twoPow_eq_mul (by omega)
    rw [hsplit] at h ⊢
    exact Nat.mul_le_mul_right _ (roundDiv_le (twoPow_pos _) h)

theorem roundInt_bounds {n : Int} (hlow : -int64Limit ≤ n) (hhigh : n ≤ int64Limit) :
    -int64Limit ≤ roundInt n ∧ roundInt n ≤ int64Limit := by
  have hlimit : int64Limit = twoPow 63 := rfl
  have hround : roundNat n.natAbs ≤ twoPow 63 := roundNat_le (by omega)
  rw [roundInt_eq, signed]
  split_ifs <;> omega

/-- From `2 ^ 63` on, the last place of the integers of 64 bits is 2048. -/
theorem roundInt_of_int64Limit_le {n : Int} (hlow : int64Limit ≤ n) (hhigh : n < nat64Limit) :
    roundInt n = (roundDiv n.natAbs 2048 * 2048 : Nat) := by
  rw [int64Limit] at hlow
  rw [nat64Limit] at hhigh
  have hlog : n.natAbs.log2 = 63 := (Nat.log2_eq_iff (by omega)).mpr ⟨by omega, by omega⟩
  have hnegative : ¬ n < 0 := by omega
  rw [roundInt_eq, roundNat, hlog, decide_eq_false hnegative]
  rfl

theorem natAbs_le_nat64Limit {n : Int} (hlow : -int64Limit ≤ n) (hhigh : n < nat64Limit) : n.natAbs ≤ nat64Limit := by
  rw [int64Limit] at hlow
  rw [nat64Limit] at hhigh ⊢
  omega

/-- The word of a natural number, which is that of the infinity if it is too great. -/
theorem ofRatio_one (negative : Bool) {m : Nat} (hm : m ≠ 0) :
    ofRatio negative m 1 = Float.ofBits (UInt64.ofNat ((if negative then signBit else 0)
      + min ((m.log2 + 1022) * leadingBit + mantissaOf m) (2047 * leadingBit))) := by
  have hplace : (-((m.log2 : Int) - 52)).toNat = 52 - m.log2 := by omega
  have hplace' : ((m.log2 : Int) - 52).toNat = m.log2 - 52 := by omega
  have hfield : ((m.log2 : Int) - 52 + 1074).toNat = m.log2 + 1022 := by omega
  rw [ofRatio, if_neg hm, lastPlace_one hm]
  dsimp only
  rw [hplace, hplace', hfield, Nat.one_mul, mantissaOf]

theorem exists_parts?_ofRatio_one (negative : Bool) {m : Nat} (hm : m ≠ 0)
    (hfit : (m.log2 + 1022) * leadingBit + mantissaOf m < 2047 * leadingBit) :
    ∃ p, parts? (ofRatio negative m 1) = some p ∧ p.negative = negative ∧ p.units = roundNat m * unitsInOne := by
  obtain ⟨hlow, hhigh⟩ := mantissaOf_bounds hm
  rw [ofRatio_one negative hm, Nat.min_eq_left (Nat.le_of_lt hfit), ← units_mantissaOf]
  exact exists_parts?_ofBits negative hlow hhigh hfit

/-- The number nearest to an integer of up to 64 bits is the integer rounded. -/
theorem integer?_ofInt {n : Int} (h : n.natAbs ≤ nat64Limit) : integer? (ofInt n) = some (roundInt n) := by
  rw [roundInt_eq, ofInt]
  by_cases hzero : n.natAbs = 0
  · obtain rfl : n = 0 := by omega
    have hp : parts? (ofRatio (decide ((0 : Int) < 0)) (Int.natAbs 0) 1) = some ⟨false, 0, -1074⟩ := by
      rw [ofRatio, if_pos hzero, parts?_ofBits (by decide) (by decide), if_pos (by decide)]
      rfl
    exact (integer?_eq_some_iff hp).mpr ⟨0, by rw [Parts.units, Nat.zero_mul, Nat.zero_mul], rfl⟩
  · have hlog : n.natAbs.log2 < 65 :=
      (log2_lt_iff hzero).mpr (Nat.lt_of_le_of_lt h (by decide))
    have hhigh := (mantissaOf_bounds hzero).2
    have hfit : (n.natAbs.log2 + 1022) * leadingBit + mantissaOf n.natAbs < 2047 * leadingBit := by
      rw [leadingBit] at hhigh ⊢
      omega
    obtain ⟨p, hp, hnegative, hunits⟩ := exists_parts?_ofRatio_one (n < 0) hzero hfit
    exact (integer?_eq_some_iff hp).mpr ⟨roundNat n.natAbs, hunits, by rw [hnegative]⟩

end Binary64

end InfraConfig
