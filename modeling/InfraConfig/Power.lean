/-!
# Powers and limits

Powers of two and ten, and the limits of integers with a fixed number of bits.
-/

namespace InfraConfig

/-- Two to the power of `n`. -/
def twoPow (n : Nat) : Nat :=
  Nat.pow 2 n

/-- Ten to the power of `n`. -/
def tenPow (n : Nat) : Nat :=
  Nat.pow 10 n

/-- `2 ^ 63`: integers of 64 bits with a sign lie below it, and not below its opposite. -/
def int64Limit : Int := 9223372036854775808

/-- `2 ^ 64`: integers of 64 bits without a sign lie below it. -/
def nat64Limit : Nat := 18446744073709551616

/-- `2 ^ 32`: integers of 32 bits without a sign lie below it. -/
def nat32Limit : Nat := 4294967296

/-- `2 ^ 31`: integers of 32 bits with a sign lie below it. -/
def int32Limit : Nat := 2147483648

/-- Whether an integer fits 64 bits with a sign. -/
def isInt64 (n : Int) : Bool :=
  -int64Limit ≤ n && n < int64Limit

/-- An integer cut to 64 bits with a sign: out of range it becomes the nearer limit. -/
def clampInt64 (n : Int) : Int :=
  max (-int64Limit) (min n (int64Limit - 1))

end InfraConfig
