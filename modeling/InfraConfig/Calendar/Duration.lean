import InfraConfig.Number

/-!
# Durations

Texts such as `1h30m` or `-1.5s`: an optional sign, then amounts with units. The sum is taken in binary64
nanoseconds and cut to 64 bits.
-/

namespace InfraConfig

namespace Duration

/-- Nanoseconds in a unit. -/
def unitNanos? (unit : List Char) : Option Int :=
  match unit with
  | ['h'] => some 3600000000000
  | ['m'] => some 60000000000
  | ['s'] => some 1000000000
  | ['m', 's'] => some 1000000
  | ['u', 's'] => some 1000
  | [c, 's'] => if c.toNat = 0xB5 then some 1000 else if c == 'n' then some 1 else none
  | _ => none

def isAmountChar (c : Char) : Bool :=
  c.isDigit || c == '.'

/-- An amount: digits with at most one point. -/
def readAmount? (cs : List Char) : Option Number :=
  match readNat? cs with
  | some n => some (.ofExact n)
  | none => (readFloat? cs).map .ofFloat

/-- Amounts with units, added to `total`. -/
def readParts : Nat → Number → List Char → Option Number
  | 0, _, _ => none
  | fuel + 1, total, cs =>
    if cs.isEmpty then some total
    else do
      let digits := cs.takeWhile isAmountChar
      let rest := cs.drop digits.length
      let unit := rest.takeWhile (!isAmountChar ·)
      let amount ← readAmount? digits
      let scale ← unitNanos? unit
      readParts fuel (total.addRounded (amount.mulRounded (.int scale))) (rest.drop unit.length)

/-- The integer part of `± n`, cut to 64 bits with a sign. -/
def signedNanos (negative : Bool) (n : Number) : Int :=
  match n with
  | .int n => clampInt64 (if negative then -n else n)
  | .float x => Binary64.toInt64 (if negative then -x else x)

/-- The nanoseconds of a duration text. -/
def read? (text : String) : Option Int :=
  let (negative, body) := takeSign text.toList
  if body.isEmpty then none
  else (readParts (body.length + 1) (.int 0) body).map (signedNanos negative)

end Duration

end InfraConfig
