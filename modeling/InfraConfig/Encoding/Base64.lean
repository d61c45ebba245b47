import InfraConfig.Encoding.Bytes

/-!
# Base64

Three bytes are written as four symbols. The last group is filled up with padding, which has to be
there when reading, and the bits that padding leaves over have to be zero.
-/

namespace InfraConfig

inductive Base64Problem where
  | symbol (byte : UInt8) (offset : Nat)
  | length (n : Nat)
  | lastSymbol (byte : UInt8) (offset : Nat)
  | padding
  deriving DecidableEq

def Base64Problem.message : Base64Problem → String
  | .symbol b offset => "Invalid symbol " ++ toString b.toNat ++ ", offset " ++ toString offset ++ "."
  | .length n => "Invalid input length: " ++ toString n
  | .lastSymbol b offset =>
    "Invalid last symbol " ++ toString b.toNat ++ ", offset " ++ toString offset ++ "."
  | .padding => "Invalid padding"

namespace Base64

def symbol (n : Nat) : Char :=
  if n < 26 then Char.ofNat (65 + n)
  else if n < 52 then Char.ofNat (71 + n)
  else if n < 62 then Char.ofNat (n - 4)
  else if n = 62 then '+'
  else '/'

def value? (b : UInt8) : Option Nat :=
  let n := b.toNat
  if 65 ≤ n ∧ n ≤ 90 then some (n - 65)
  else if 97 ≤ n ∧ n ≤ 122 then some (n - 71)
  else if 48 ≤ n ∧ n ≤ 57 then some (n + 4)
  else if n = 43 then some 62
  else if n = 47 then some 63
  else none

def encode : List UInt8 → List Char
  | [] => []
  | [a] => [symbol (a.toNat / 4), symbol (a.toNat % 4 * 16), '=', '=']
  | [a, b] =>
    [symbol (a.toNat / 4), symbol (a.toNat % 4 * 16 + b.toNat / 16), symbol (b.toNat % 16 * 4), '=']
  | a :: b :: c :: rest =>
    symbol (a.toNat / 4) :: symbol (a.toNat % 4 * 16 + b.toNat / 16)
      :: symbol (b.toNat % 16 * 4 + c.toNat / 64) :: symbol (c.toNat % 64) :: encode rest

def isPadding (b : UInt8) : Bool := b == 61

/-- Reads groups of four symbols, the first of which stands at `offset`. -/
def decode (offset : Nat) : List UInt8 → Except Base64Problem (List UInt8)
  | [] => .ok []
  | [a, b, c, d] =>
    match value? a, value? b, value? c, value? d with
    | none, _, _, _ => .error (.symbol a offset)
    | _, none, _, _ => .error (.symbol b (offset + 1))
    | some x, some y, none, _ =>
      if isPadding c && isPadding d then
        if y % 16 = 0 then .ok [UInt8.ofNat (x * 4 + y / 16)] else .error (.lastSymbol b (offset + 1))
      else if isPadding c then .error (.symbol c (offset + 2))
      else .error (.symbol c (offset + 2))
    | some x, some y, some z, none =>
      if isPadding d then
        if z % 4 = 0 then .ok [UInt8.ofNat (x * 4 + y / 16), UInt8.ofNat (y % 16 * 16 + z / 4)]
        else .error (.lastSymbol c (offset + 2))
      else .error (.symbol d (offset + 3))
    | some x, some y, some z, some w =>
      .ok [UInt8.ofNat (x * 4 + y / 16), UInt8.ofNat (y % 16 * 16 + z / 4),
        UInt8.ofNat (z % 4 * 64 + w)]
  | a :: b :: c :: d :: rest =>
    match value? a, value? b, value? c, value? d with
    | none, _, _, _ => .error (.symbol a offset)
    | _, none, _, _ => .error (.symbol b (offset + 1))
    | _, _, none, _ => .error (.symbol c (offset + 2))
    | _, _, _, none => .error (.symbol d (offset + 3))
    | some x, some y, some z, some w => do
      let tail ← decode (offset + 4) rest
      .ok (UInt8.ofNat (x * 4 + y / 16) :: UInt8.ofNat (y % 16 * 16 + z / 4)
        :: UInt8.ofNat (z % 4 * 64 + w) :: tail)
  | short =>
    match (short.zipIdx offset).find? fun (b, _) => (value? b).isNone with
    | some (b, i) => if isPadding b then .error .padding else .error (.symbol b i)
    | none => if short.length = 1 then .error (.length (offset + 1)) else .error .padding

end Base64

end InfraConfig
