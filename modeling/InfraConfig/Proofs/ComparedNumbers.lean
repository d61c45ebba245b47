import InfraConfig.Value
import InfraConfig.Proofs.Binary64Integers

/-!
# Equality of numbers

Two integers of 64 bits with a sign are compared as they are, all other numbers after rounding to binary64. So equality
of numbers is reflexive, except where there is no number, and symmetric, and it is transitive except over a number that
is rounded while those it is compared with are not.
-/

namespace InfraConfig

namespace Number

/-- What is held as a number: an integer has 64 bits, with a sign or without. -/
def IsHeld : Number → Prop
  | .int n => inRange n = true
  | .float _ => True

/-- Whether a number is compared after rounding with integers that are not rounded when compared with each other:
as binary64 number, it is an integer from `-2 ^ 63` to `2 ^ 63`. -/
def Bridges (n : Number) : Prop :=
  n.int64? = none ∧ ∃ i, Binary64.integer? n.toFloat = some i ∧ -int64Limit ≤ i ∧ i ≤ int64Limit

theorem IsHeld.bounds {i : Int} (h : (Number.int i).IsHeld) : -int64Limit ≤ i ∧ i < nat64Limit := by
  simpa [IsHeld, inRange] using h

theorem IsHeld.integer?_toFloat {i : Int} (h : (Number.int i).IsHeld) :
    Binary64.integer? (Number.int i).toFloat = some (Binary64.roundInt i) :=
  Binary64.integer?_ofInt (Binary64.natAbs_le_nat64Limit h.bounds.1 h.bounds.2)

theorem int64?_eq_some_iff {n : Number} {i : Int} : n.int64? = some i ↔ n = .int i ∧ i < int64Limit := by
  cases n with
  | int j =>
    rw [int64?, int.injEq, Option.ite_none_right_eq_some, Option.some.injEq]
    exact ⟨fun h => ⟨h.2, h.2 ▸ h.1⟩, fun h => ⟨h.1 ▸ h.2, h.1⟩⟩
  | float x => exact ⟨fun h => (nomatch h), fun h => nomatch h.1⟩

theorem int64?_int_eq_none_iff {n : Int} : (int n).int64? = none ↔ int64Limit ≤ n := by
  rw [← Int.not_lt, int64?]
  simp

/-- The integers that bridge lie right above `2 ^ 63`, to which they are rounded. -/
theorem bridges_int_iff {n : Int} (hn : (int n).IsHeld) :
    (int n).Bridges ↔ int64Limit ≤ n ∧ n ≤ int64Limit + 1024 := by
  have hround : Binary64.integer? (int n).toFloat = some (Binary64.roundInt n) := hn.integer?_toFloat
  rw [Bridges, int64?_int_eq_none_iff]
  refine and_congr_right fun hlow => ?_
  rw [Binary64.roundInt_of_int64Limit_le hlow hn.bounds.2, Binary64.roundDiv] at hround
  simp only [hround, Option.some.injEq, exists_eq_left']
  rw [int64Limit] at hlow ⊢
  split_ifs <;> omega

end Number

namespace Value

theorem sameNumber_of_int64? {a b : Number} {i j : Int} (ha : a.int64? = some i) (hb : b.int64? = some j) :
    sameNumber a b = (i == j) := by
  simp only [sameNumber, ha, hb]

/-- Integers are rounded to the same integer if the numbers nearest to them are equal. -/
theorem toFloat_int_beq_iff {i j : Int} (hi : (Number.int i).IsHeld) (hj : (Number.int j).IsHeld) :
    ((Number.int i).toFloat == (Number.int j).toFloat) = true ↔ Binary64.roundInt i = Binary64.roundInt j := by
  have hround := hi.integer?_toFloat
  have hround' := hj.integer?_toFloat
  constructor
  · intro h
    have hsame := Binary64.integer?_congr h
    rwa [hround, hround', Option.some.injEq] at hsame
  · intro h
    rw [← h] at hround'
    exact Binary64.beq_of_integer? hround hround'

section

variable {a b c : Number}

theorem sameNumber_of_none (ha : a.IsHeld) (hb : b.IsHeld) (h : a.int64? = none ∨ b.int64? = none) :
    sameNumber a b = (a.toFloat == b.toFloat) := by
  cases a with
  | float x => cases b <;> simp [sameNumber, Number.int64?]
  | int i =>
    cases b with
    | float y => cases hi : (Number.int i).int64? <;> simp [sameNumber, Number.int64?]
    | int j =>
      rw [Bool.eq_iff_iff, toFloat_int_beq_iff ha hb]
      rcases h with h | h
      · simp [sameNumber, h]
      · cases hint : (Number.int i).int64? <;> simp [sameNumber, h, hint]

/-- Two integers are the same number if they are the same integer, or if one of them needs all 64 bits and they are
rounded to the same. -/
theorem sameNumber_int_iff (i j : Int) : sameNumber (.int i) (.int j) = true ↔
    i = j ∨ (int64Limit ≤ max i j ∧ Binary64.roundInt i = Binary64.roundInt j) := by
  by_cases h : i < int64Limit ∧ j < int64Limit
  · rw [sameNumber_of_int64? (Number.int64?_eq_some_iff.mpr ⟨rfl, h.1⟩) (Number.int64?_eq_some_iff.mpr ⟨rfl, h.2⟩),
      beq_iff_eq]
    exact (or_iff_left fun hor => by omega).symm
  · have hmax : int64Limit ≤ max i j := by omega
    have hround : sameNumber (.int i) (.int j) = (Binary64.roundInt i == Binary64.roundInt j) := by
      have hnone : (Number.int i).int64? = none ∨ (Number.int j).int64? = none := by
        rw [Number.int64?_int_eq_none_iff, Number.int64?_int_eq_none_iff]
        omega
      rcases hnone with hi | hj
      · simp [sameNumber, hi]
      · cases hi : (Number.int i).int64? <;> simp [sameNumber, hi, hj]
    rw [hround, beq_iff_eq]
    constructor
    · exact fun heq => .inr ⟨hmax, heq⟩
    · rintro (rfl | ⟨-, heq⟩)
      · rfl
      · exact heq

theorem sameNumber_self_iff : sameNumber a a = true ↔ a.isNaN = false := by
  cases a with
  | int i => exact iff_of_true ((sameNumber_int_iff i i).mpr (.inl rfl)) rfl
  | float x =>
    rw [Number.isNaN, Float.isNaN_eq_decide_eq_nan, decide_eq_false_iff_not]
    exact Float.beq_self_iff

theorem sameNumber_symm (h : sameNumber a b = true) (ha : a.IsHeld) (hb : b.IsHeld) : sameNumber b a = true := by
  cases hi : a.int64? with
  | none =>
    rw [sameNumber_of_none ha hb (.inl hi)] at h
    rw [sameNumber_of_none hb ha (.inr hi)]
    exact PartialEquivBEq.symm h
  | some i =>
    cases hj : b.int64? with
    | none =>
      rw [sameNumber_of_none ha hb (.inr hj)] at h
      rw [sameNumber_of_none hb ha (.inl hj)]
      exact PartialEquivBEq.symm h
    | some j =>
      rw [sameNumber_of_int64? hi hj, beq_iff_eq] at h
      rw [sameNumber_of_int64? hj hi, beq_iff_eq]
      exact h.symm

/-- Over a number that is not rounded to an integer of 64 bits with a sign, equality is transitive. -/
theorem sameNumber_trans (hab : sameNumber a b = true) (hbc : sameNumber b c = true) (ha : a.IsHeld) (hb : b.IsHeld)
    (hc : c.IsHeld) (hbridge : ¬ b.Bridges) : sameNumber a c = true := by
  cases hj : b.int64? with
  | none =>
    rw [sameNumber_of_none ha hb (.inr hj)] at hab
    rw [sameNumber_of_none hb hc (.inl hj)] at hbc
    cases hi : a.int64? with
    | none =>
      rw [sameNumber_of_none ha hc (.inl hi)]
      exact PartialEquivBEq.trans hab hbc
    | some i =>
      -- A rounded number that equals an integer which is not rounded is a bridge.
      obtain ⟨rfl, hlt⟩ := Number.int64?_eq_some_iff.mp hi
      have hround := ha.integer?_toFloat
      rw [Binary64.integer?_congr hab] at hround
      exact absurd ⟨hj, _, hround, Binary64.roundInt_bounds ha.bounds.1 (Int.le_of_lt hlt)⟩ hbridge
  | some j =>
    obtain ⟨rfl, -⟩ := Number.int64?_eq_some_iff.mp hj
    cases hi : a.int64? with
    | some i =>
      obtain ⟨rfl, -⟩ := Number.int64?_eq_some_iff.mp hi
      rw [sameNumber_of_int64? hi hj, beq_iff_eq] at hab
      rwa [hab]
    | none =>
      cases hk : c.int64? with
      | some k =>
        obtain ⟨rfl, -⟩ := Number.int64?_eq_some_iff.mp hk
        rw [sameNumber_of_int64? hj hk, beq_iff_eq] at hbc
        rwa [← hbc]
      | none =>
        rw [sameNumber_of_none ha hb (.inl hi)] at hab
        rw [sameNumber_of_none hb hc (.inr hk)] at hbc
        rw [sameNumber_of_none ha hc (.inl hi)]
        exact PartialEquivBEq.trans hab hbc

end

/-- An integer bridges if it equals two that differ. -/
theorem bridges_int_iff_exists {n : Int} (hn : (Number.int n).IsHeld) : (Number.int n).Bridges ↔
    ∃ i j : Int, Number.inRange i = true ∧ Number.inRange j = true ∧ sameNumber (.int i) (.int n) = true
      ∧ sameNumber (.int n) (.int j) = true ∧ sameNumber (.int i) (.int j) = false := by
  constructor
  · intro h
    have hbounds := (Number.bridges_int_iff hn).mp h
    have hround : Binary64.roundInt n = int64Limit := by
      rw [Binary64.roundInt_of_int64Limit_le hbounds.1 hn.bounds.2, Binary64.roundDiv]
      rw [int64Limit] at hbounds ⊢
      split_ifs <;> omega
    have hfirst : Binary64.roundInt (int64Limit - 1) = int64Limit := by decide
    have hsecond : Binary64.roundInt (int64Limit - 2) = int64Limit := by decide
    refine ⟨int64Limit - 1, int64Limit - 2, by decide, by decide, ?_, ?_, by decide⟩
    · exact (sameNumber_int_iff _ _).mpr (.inr ⟨by omega, hfirst.trans hround.symm⟩)
    · exact (sameNumber_int_iff _ _).mpr (.inr ⟨by omega, hround.trans hsecond.symm⟩)
  · rintro ⟨i, j, hi, hj, hin, hnj, hij⟩
    by_cases hbridge : (Number.int n).Bridges
    · exact hbridge
    · rw [sameNumber_trans hin hnj hi hn hj hbridge] at hij
      cases hij

end Value

end InfraConfig
