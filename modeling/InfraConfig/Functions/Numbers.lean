import InfraConfig.Functions.Signature

/-!
# Functions on numbers
-/

namespace InfraConfig

namespace Functions

/-- Number arguments. -/
def numbersFrom (i : Nat) : List Datum → Except FunctionError (List Number)
  | [] => .ok []
  | .number n :: rest => (numbersFrom (i + 1) rest).map (n.rounded :: ·)
  | _ :: _ => .error (.argumentKind i .number)

/-- The lesser of two; what is no number counts for nothing. -/
def least (a b : Number) : Number :=
  if a.isNaN || b.less a then b else a

/-- The greater of two; what is no number counts for nothing. -/
def greatest (a b : Number) : Number :=
  if a.isNaN || a.less b then b else a

/-- The result of combining numbers one after another. -/
def foldNumbers (f : Number → Number → Number) : List Number → Datum
  | [] => .null
  | n :: rest => .ofNumber (rest.foldl f n)

/-- A digit in a base up to 36. -/
def digitIn? (base : Nat) (c : Char) : Option Nat :=
  let n := if c.isDigit then c.toNat - 48
    else if c.isLower then c.toNat - 87
    else if c.isUpper then c.toNat - 55
    else base
  if n < base then some n else none

/-- The number written by digits in a base. -/
def natInBase? (base : Nat) (total : Nat) : List Char → Option Nat
  | [] => some total
  | c :: rest => (digitIn? base c).bind fun d => natInBase? base (total * base + d) rest

/-- An integer in a base, with an optional sign, that fits 64 bits. -/
def parseInt (s : String) (base : Nat) : Except FunctionError Int :=
  if base < 2 ∨ 36 < base then .error (.base base)
  else
    let (negative, digits) := takeSign s.toList
    let value := if digits.isEmpty then none else natInBase? base 0 digits
    match value.map (Binary64.signed negative) with
    | some n => if isInt64 n then .ok n else .error (.notInteger s base)
    | none => .error (.notInteger s base)

/-- A number as a base: cut to 32 bits without sign. -/
def baseOf (n : Number) : Nat :=
  min n.toInt64.toNat (nat32Limit - 1)

def ofNumber (f : Number → Datum) : Function :=
  ⟨[.number], none, fun args => do return f (← numberAt args 0)⟩

def numberFunctions : List (String × Function) :=
  [("min", ⟨[.number], some .number, fun args => do return foldNumbers least (← numbersFrom 0 args)⟩),
    ("max", ⟨[.number], some .number, fun args => do
      return foldNumbers greatest (← numbersFrom 0 args)⟩),
    ("abs", ofNumber fun n => .ofNumber n.abs),
    ("ceil", ofNumber fun n => .ofNumber n.ceil),
    ("floor", ofNumber fun n => .ofNumber n.floor),
    ("signum", ofNumber fun n => .int n.sign),
    ("parseint", ⟨[.string, .number], none, fun args => do
      return .int (← parseInt (← textAt args 0) (baseOf (← numberAt args 1)))⟩)]

end Functions

end InfraConfig
