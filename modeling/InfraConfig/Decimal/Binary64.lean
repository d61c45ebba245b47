import InfraConfig.Power

/-!
# Binary64 numbers as exact fractions

A finite `Float` is `± mantissa · 2 ^ exponent`. This module takes a `Float` apart, builds the `Float`
nearest to a fraction, and derives from both the operations that need exact arithmetic: truncation to
an integer and the remainder of a division.
-/

namespace InfraConfig

namespace Binary64

/-- The value `± mantissa · 2 ^ exponent`. -/
structure Parts where
  negative : Bool
  mantissa : Nat
  exponent : Int
  deriving DecidableEq

/-- `2 ^ 52`: the first bit of a mantissa, which is not written. -/
def leadingBit : Nat := 4503599627370496

/-- `2 ^ 63`: the bit that tells the sign. -/
def signBit : Nat := 9223372036854775808

/-- The parts of a finite number; none for infinities and for what is no number. -/
def parts? (x : Float) : Option Parts :=
  let bits : Nat := x.toBits.toNat
  let negative : Bool := signBit ≤ bits
  let biased : Nat := bits / leadingBit % 2048
  let fraction : Nat := bits % leadingBit
  if biased = 2047 then none
  else if biased = 0 then some ⟨negative, fraction, -1074⟩
  else some ⟨negative, leadingBit + fraction, (biased : Int) - 1075⟩

/-- The parts that stand for a number in its text. An infinity is written as the power of two after the last
one, and what is no number as three halves of it, negated. -/
def writtenParts (x : Float) : Parts :=
  match parts? x with
  | some p => p
  | none => if x.isNaN then ⟨true, leadingBit + leadingBit / 2, 972⟩ else ⟨x < 0, leadingBit, 972⟩

/-- `num / den` rounded to the nearest integer, a half to the even neighbour. -/
def roundDiv (num den : Nat) : Nat :=
  let q := num / den
  let r := num % den
  if 2 * r < den then q
  else if den < 2 * r then q + 1
  else if q % 2 = 0 then q else q + 1

/-- A numerator and a denominator for `n · 2 ^ e`. -/
def scale (n : Nat) (e : Int) : Nat × Nat :=
  if 0 ≤ e then (n * twoPow e.toNat, 1) else (n, twoPow (-e).toNat)

/-- The exponent of the last binary place that a number near `num / den` has. -/
def lastPlace (num den : Nat) : Int :=
  let guess : Int := (num.log2 : Int) - den.log2
  let exact := if num * twoPow (-guess).toNat < den * twoPow guess.toNat then guess - 1 else guess
  max (exact - 52) (-1074)

/-- The infinity of a sign. -/
def infinite (negative : Bool) : Float :=
  Float.ofBits (UInt64.ofNat ((if negative then signBit else 0) + 2047 * leadingBit))

/-- The number nearest to `± num / den`; too large a fraction gives an infinity. -/
def ofRatio (negative : Bool) (num den : Nat) : Float :=
  let sign := if negative then signBit else 0
  if num = 0 then Float.ofBits (UInt64.ofNat sign)
  else
    let e := lastPlace num den
    let m := roundDiv (num * twoPow (-e).toNat) (den * twoPow e.toNat)
    let bits := (e + 1074).toNat * leadingBit + m
    Float.ofBits (UInt64.ofNat (sign + min bits (2047 * leadingBit)))

/-- The number nearest to an integer. -/
def ofInt (n : Int) : Float :=
  ofRatio (n < 0) n.natAbs 1

/-- An integer rounded to 53 binary digits, a half to the even neighbour: its nearest binary64 value, as
long as that is finite. -/
def roundInt (n : Int) : Int :=
  let m := n.natAbs
  if m ≤ 2 * leadingBit then n
  else
    let unit := twoPow (m.log2 - 52)
    let r : Nat := roundDiv m unit * unit
    if n < 0 then -(r : Int) else r

def signed (negative : Bool) (n : Nat) : Int :=
  if negative then -(n : Int) else n

/-- The integer part, rounded toward zero. -/
def truncate? (x : Float) : Option Int :=
  (parts? x).map fun p =>
    let (num, den) := scale p.mantissa p.exponent
    signed p.negative (num / den)

/-- The value of a number without a fractional part. -/
def integer? (x : Float) : Option Int :=
  (parts? x).bind fun p =>
    let (num, den) := scale p.mantissa p.exponent
    if num % den = 0 then some (signed p.negative (num / den)) else none

/-- A whole number next to `x`: the one further from zero for the signs that are told, else the nearer to zero. What is
whole already, or not finite, stays as it is. -/
def wholeBeside (further : Bool → Bool) (x : Float) : Float :=
  match parts? x with
  | none => x
  | some p =>
    let (num, den) := scale p.mantissa p.exponent
    if num % den = 0 then x
    else ofInt (signed p.negative (num / den + if further p.negative then 1 else 0))

/-- The greatest whole number that is not above `x`. -/
def floor (x : Float) : Float :=
  wholeBeside id x

/-- The least whole number that is not below `x`. -/
def ceil (x : Float) : Float :=
  wholeBeside not x

/-- Truncation into `[-2 ^ 63, 2 ^ 63)`: out of range gives the nearer end, no number gives zero. -/
def toInt64 (x : Float) : Int :=
  match truncate? x with
  | some n => clampInt64 n
  | none => if x.isNaN then 0 else if x < 0 then -int64Limit else int64Limit - 1

/-- The exact remainder `x - y · trunc (x / y)`, which has the sign of `x`. -/
def remainder (x y : Float) : Float :=
  match parts? x, parts? y with
  | some a, some b =>
    if b.mantissa = 0 then 0.0 / 0.0
    else
      let e := min a.exponent b.exponent
      let m := a.mantissa * twoPow (a.exponent - e).toNat
      let d := b.mantissa * twoPow (b.exponent - e).toNat
      let (num, den) := scale (m % d) e
      ofRatio a.negative num den
  | some _, none => if y.isNaN then y else x
  | none, _ => 0.0 / 0.0

end Binary64

end InfraConfig
