import InfraConfig.Functions.Signature

/-!
# Functions on address prefixes
-/

namespace InfraConfig

namespace Functions

def prefixAt (args : List Datum) (i : Nat) : Except FunctionError AddressPrefix := do
  (AddressPrefix.read (← textAt args i)).mapError .addresses

/-- A number of bits, below `2 ^ 32`. -/
def bitsAt (args : List Datum) (i : Nat) : Except FunctionError Nat := do
  let n ← integerAt args i
  if 0 ≤ n ∧ n < nat32Limit then .ok n.toNat else .error (.addresses .negativeBits)

def countAt (args : List Datum) (i : Nat) : Except FunctionError Nat := do
  let n ← integerAt args i
  if 0 ≤ n then .ok n.toNat else .error (.addresses .negativeNumber)

def addressFunctions : List (String × Function) :=
  [("cidrsubnet", ⟨[.string, .number, .number], none, fun args => do
      let p ← prefixAt args 0
      let bits ← bitsAt args 1
      let number ← countAt args 2
      let q ← (p.subnet bits number).mapError .addresses
      return .text q.text⟩),
    ("cidrhost", ⟨[.string, .number], none, fun args => do
      let p ← prefixAt args 0
      let number ← integerAt args 1
      let address ← (p.host number).mapError .addresses
      return .text (Address.text p.family address.toNat)⟩),
    ("cidrnetmask", ⟨[.string], none, fun args => do
      let p ← prefixAt args 0
      let mask ← p.netmask.mapError .addresses
      return .text (Address.text p.family mask.toNat)⟩)]

end Functions

end InfraConfig
