import InfraConfig.Decimal.Binary64

/-!
# Shortest decimal text of a number

A binary64 number stands for the interval of reals that round to it. Of the decimals in that interval
those with the fewest digits are taken, and of these the one nearest to the number.
-/

namespace InfraConfig

/-- The value `± digits · 10 ^ exponent`. -/
structure Decimal where
  negative : Bool
  digits : Nat
  exponent : Int
  deriving DecidableEq

/-- How a decimal is laid out as text. -/
structure DecimalLayout where
  /-- Greatest position of the point, counted from the first digit, that is written without exponent. -/
  greatest : Int
  /-- Number of zeros after the point from which on an exponent is written. -/
  zeros : Int
  /-- Whether a positive exponent has a sign. -/
  plus : Bool

namespace Decimal

/-- Number of decimal digits; zero has one. -/
def width (n : Nat) : Nat :=
  (Nat.toDigits 10 n).length

/-- The position of the decimal point of `num / den` relative to its first digit. -/
def pointPosition (num den : Nat) : Int :=
  (width (num * tenPow 400 / den) : Int) - 400

/-- `n` without the zeros at its end, and their number. -/
def dropZeros : Nat → Nat → Nat × Nat
  | 0, n => (n, 0)
  | fuel + 1, n =>
    if n ≠ 0 ∧ n % 10 = 0 then
      let (m, z) := dropZeros fuel (n / 10)
      (m, z + 1)
    else (n, 0)

/-- The interval of a mantissa and exponent in units of `2 ^ (exponent - 2)`: lower end, number, upper
end, and whether the ends belong to it. -/
def interval (m : Nat) (exponent : Int) : Nat × Nat × Nat × Bool :=
  let below := if m = Binary64.leadingBit ∧ -1074 < exponent then 4 * m - 1 else 4 * m - 2
  (below, 4 * m, 4 * m + 2, m % 2 = 0)

/-- The decimal with `n` digits nearest to the number, if one of its two neighbours on that grid lies
in the interval `lo` to `hi`; all three are numerators over `den`. -/
def onGrid? (lo v hi den : Nat) (closed : Bool) (point : Int) (n : Nat) : Option Decimal :=
  let e := point - n
  let up := tenPow e.toNat
  let down := tenPow (-e).toNat
  let inside (d : Nat) : Bool :=
    let x := d * up * den
    if closed then lo * down ≤ x && x ≤ hi * down else lo * down < x && x < hi * down
  let d := v * down / (den * up)
  let below := v * down - d * up * den
  let above := (d + 1) * up * den - v * down
  let pick (d : Nat) : Option Decimal :=
    let (digits, zeros) := dropZeros 20 d
    some ⟨false, digits, e + zeros⟩
  match inside d, inside (d + 1) with
  | false, false => none
  | true, false => pick d
  | false, true => pick (d + 1)
  | true, true =>
    if below < above then pick d
    else if above < below then pick (d + 1)
    else if d % 2 = 0 then pick d else pick (d + 1)

/-- The shortest decimal of the number with these parts. -/
def shortest (p : Binary64.Parts) : Decimal :=
  if p.mantissa = 0 then ⟨p.negative, 0, 0⟩
  else
    let (lo, v, hi, closed) := interval p.mantissa p.exponent
    let (v', den) := Binary64.scale v (p.exponent - 2)
    let factor := if 0 ≤ p.exponent - 2 then twoPow (p.exponent - 2).toNat else 1
    let point := pointPosition v' den
    let grids := (List.range 17).findSome? fun n =>
      onGrid? (lo * factor) v' (hi * factor) den closed point (n + 1)
    { grids.getD ⟨false, 0, 0⟩ with negative := p.negative }

def zeros (n : Nat) : List Char :=
  List.replicate n '0'

/-- The text of a decimal in a layout; a decimal without fraction keeps one zero after the point. -/
def layOut (layout : DecimalLayout) (d : Decimal) : String :=
  let ds := Nat.toDigits 10 d.digits
  let n : Int := ds.length
  let point := n + d.exponent
  let body :=
    if 0 ≤ d.exponent ∧ point ≤ layout.greatest then
      ds ++ zeros d.exponent.toNat ++ ['.', '0']
    else if 0 < point ∧ point ≤ layout.greatest then
      ds.take point.toNat ++ ['.'] ++ ds.drop point.toNat
    else if -layout.zeros < point ∧ point ≤ 0 then
      ['0', '.'] ++ zeros (-point).toNat ++ ds
    else
      let e := point - 1
      let sign := if e < 0 then ['-'] else if layout.plus then ['+'] else []
      let mantissa := match ds with
        | [] => []
        | [c] => [c]
        | c :: rest => c :: '.' :: rest
      mantissa ++ ['e'] ++ sign ++ Nat.toDigits 10 e.natAbs
  .ofList (if d.negative then '-' :: body else body)

/-- Shortest text of a number in a layout. -/
def textOf (layout : DecimalLayout) (x : Float) : String :=
  layOut layout (shortest (Binary64.writtenParts x))

end Decimal

end InfraConfig
