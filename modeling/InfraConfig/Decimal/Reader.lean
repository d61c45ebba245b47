import InfraConfig.Decimal.Binary64

/-!
# Reading decimal text

Integers with an optional sign, and decimals with an optional point and exponent, which give the
nearest binary64 number.
-/

namespace InfraConfig

/-- The number written by decimal digits. -/
def decimalNat (digits : List Char) : Nat :=
  digits.foldl (fun n c => 10 * n + (c.toNat - 48)) 0

/-- Reads one or more digits and nothing else. -/
def readNat? (cs : List Char) : Option Nat :=
  if !cs.isEmpty && cs.all Char.isDigit then some (decimalNat cs) else none

/-- A sign in front, taken off: whether it was a minus, and the rest. -/
def takeSign : List Char → Bool × List Char
  | '-' :: rest => (true, rest)
  | '+' :: rest => (false, rest)
  | rest => (false, rest)

/-- An integer with an optional sign. -/
def readInt? (cs : List Char) : Option Int :=
  let (negative, digits) := takeSign cs
  (readNat? digits).map (Binary64.signed negative)

/-- An integer with an optional sign that lies in `[-2 ^ 63, 2 ^ 63)`. -/
def readInt64? (cs : List Char) : Option Int :=
  (readInt? cs).filter isInt64

/-- The number nearest to `± digits · 10 ^ exponent`. Beyond some hundreds of places the result is an
infinity or a zero whatever the digits are. -/
def nearest (negative : Bool) (digits : Nat) (exponent : Int) : Float :=
  if digits = 0 then Binary64.ofRatio negative 0 1
  else
    let point := ((Nat.toDigits 10 digits).length : Int) + exponent
    if 400 < point then Binary64.infinite negative
    else if point < -400 then Binary64.ofRatio negative 0 1
    else if 0 ≤ exponent then Binary64.ofRatio negative (digits * tenPow exponent.toNat) 1
    else Binary64.ofRatio negative digits (tenPow (-exponent).toNat)

/-- An exponent, if one follows: the mark `e`, an optional sign, and digits to the end. -/
def readExponent? : List Char → Option Int
  | [] => some 0
  | c :: rest => if c == 'e' || c == 'E' then readInt? rest else none

/-- Decimal text: an optional sign, digits with at most one point among or around them, and an optional
exponent; or the words for what is not finite, in any case. -/
def readFloat? (cs : List Char) : Option Float :=
  let (negative, body) := takeSign cs
  let word := String.ofList (body.map Char.toLower)
  if word = "inf" ∨ word = "infinity" then some (Binary64.infinite negative)
  else if word = "nan" then some (0.0 / 0.0)
  else
    let whole := body.takeWhile Char.isDigit
    let rest := body.dropWhile Char.isDigit
    let (fraction, rest) := match rest with
      | '.' :: rest => (rest.takeWhile Char.isDigit, rest.dropWhile Char.isDigit)
      | _ => ([], rest)
    if whole.isEmpty && fraction.isEmpty then none
    else
      (readExponent? rest).map fun e =>
        nearest negative (decimalNat (whole ++ fraction)) (e - fraction.length)

end InfraConfig
