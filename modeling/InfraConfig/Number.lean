import InfraConfig.Decimal.Shortest
import InfraConfig.Decimal.Reader

/-!
# Numbers of the expression language

A number is an integer from `-2 ^ 63` to `2 ^ 64 - 1`, kept exactly, or a binary64 number. Numbers
without fractional part in that range are always integers. Two integers of one sign are combined
exactly; every other pair, and every division, goes through binary64. Integers pass through binary64
without leaving the integers: they are rounded to 53 binary digits.
-/

namespace InfraConfig

inductive Number where
  | int (n : Int)
  | float (x : Float)

namespace Number

/-- Text of fractions in expressions: positional from `0.00001` to sixteen places before the point. -/
def expressionLayout : DecimalLayout := ⟨16, 5, false⟩

/-- Text of fractions in JSON: as in expressions, but positive exponents have their sign. -/
def jsonLayout : DecimalLayout := ⟨16, 5, true⟩

def inRange (n : Int) : Bool :=
  -int64Limit ≤ n && n < nat64Limit

/-- The number with the value of `x`. -/
def ofFloat (x : Float) : Number :=
  match Binary64.integer? x with
  | some n => if inRange n then .int n else .float x
  | none => .float x

/-- The number with the value of `x`, unless `x` is not finite. -/
def ofFloat? (x : Float) : Option Number :=
  if x.isFinite then some (ofFloat x) else none

/-- The binary64 number nearest to an integer. -/
def ofExact (n : Int) : Number :=
  let r := Binary64.roundInt n
  if inRange r then .int r else .float (Binary64.ofInt n)

def toFloat : Number → Float
  | .int n => Binary64.ofInt n
  | .float x => x

/-- A number rounded to binary64. -/
def rounded : Number → Number
  | .int n => ofExact n
  | .float x => .float x

/-- An integer that fits 64 bits with a sign. -/
def int64? : Number → Option Int
  | .int n => if n < int64Limit then some n else none
  | .float _ => none

/-- A non-negative integer. -/
def nat? : Number → Option Nat
  | .int n => if 0 ≤ n then some n.toNat else none
  | .float _ => none

/-- The integer part, cut to 64 bits with a sign. -/
def toInt64 : Number → Int
  | .int n => min n (int64Limit - 1)
  | .float x => Binary64.toInt64 x

def text : Number → String
  | .int n => toString n
  | .float x => Decimal.textOf expressionLayout x

/-- Text in JSON, where what is not finite is null. -/
def json : Number → String
  | .int n => toString n
  | .float x => if x.isFinite then Decimal.textOf jsonLayout x else "null"

def beq : Number → Number → Bool
  | .int a, .int b => a == b
  | .float a, .float b => a == b
  | _, _ => false

instance : BEq Number := ⟨beq⟩

/-- Whether a number is none: the result of `0 / 0` and of what follows from it. -/
def isNaN : Number → Bool
  | .int _ => false
  | .float x => x.isNaN

/-- Whether a number is zero. -/
def isZero : Number → Bool
  | .int n => n == 0
  | .float x => x == 0

/-- Whether `a < b` by value. -/
def less : Number → Number → Bool
  | .int a, .int b => a < b
  | a, b => a.toFloat < b.toFloat

/-- Whether `a ≤ b` by value. -/
def atMost : Number → Number → Bool
  | .int a, .int b => a ≤ b
  | a, b => a.toFloat ≤ b.toFloat

/-- Binary64 addition of rounded numbers. -/
def addRounded : Number → Number → Number
  | .int a, .int b => ofExact (a + b)
  | a, b => ofFloat (a.toFloat + b.toFloat)

/-- Binary64 multiplication of rounded numbers. -/
def mulRounded : Number → Number → Number
  | .int a, .int b => ofExact (a * b)
  | a, b => ofFloat (a.toFloat * b.toFloat)

/-- An integer modulo `2 ^ 64`, without sign. -/
def wrapNat (n : Int) : Number :=
  .int (n % nat64Limit)

/-- An integer modulo `2 ^ 64`, with sign. -/
def wrapInt (n : Int) : Number :=
  .int (n.bmod nat64Limit)

/-- The negated number; an integer below the range is rounded to binary64. -/
def neg : Number → Number
  | .int n => if n ≤ int64Limit then .int (-n) else .float (-Binary64.ofInt n)
  | .float x => ofFloat (-x)

def add : Number → Number → Number
  | .int a, .int b =>
    if 0 ≤ a ∧ 0 ≤ b then wrapNat (a + b)
    else if a < 0 ∧ b < 0 then wrapInt (a + b)
    else addRounded (ofExact a) (ofExact b)
  | a, b => addRounded a.rounded b.rounded

def sub : Number → Number → Number
  | .int a, .int b =>
    if 0 ≤ a ∧ 0 ≤ b then if a < b then wrapInt (a - b) else .int (a - b)
    else if a < 0 ∧ b < 0 then .int (a - b)
    else addRounded (ofExact a) (ofExact (-b))
  | a, b => ofFloat (a.toFloat - b.toFloat)

def mul : Number → Number → Number
  | .int a, .int b =>
    if 0 ≤ a ∧ 0 ≤ b then wrapNat (a * b)
    else if a < 0 ∧ b < 0 then wrapInt (a * b)
    else mulRounded (ofExact a) (ofExact b)
  | a, b => mulRounded a.rounded b.rounded

def div (a b : Number) : Number :=
  ofFloat (a.toFloat / b.toFloat)

def rem : Number → Number → Number
  | .int a, .int b =>
    if 0 ≤ a ∧ 0 < b then .int (a % b)
    else ofFloat (Binary64.remainder (Binary64.ofInt a) (Binary64.ofInt b))
  | a, b => ofFloat (Binary64.remainder a.toFloat b.toFloat)

def abs : Number → Number
  | .int n => ofExact n.natAbs
  | .float x => ofFloat x.abs

def floor : Number → Number
  | .int n => .int n
  | .float x => ofFloat (Binary64.floor x)

def ceil : Number → Number
  | .int n => .int n
  | .float x => ofFloat (Binary64.ceil x)

/-- `-1`, `0` or `1`. -/
def sign : Number → Int
  | .int n => n.sign
  | .float x => if x > 0 then 1 else if x < 0 then -1 else 0

end Number

end InfraConfig
