import InfraConfig.Network.Address

/-!
# Address prefixes

A prefix is a block of addresses that share their first bits. Subnets extend the prefix by bits; hosts are
counted from its first address, or backwards from its last. Addresses of both families are kept in the last bits
of words of 128 bits.
-/

namespace InfraConfig

/-- The word in which the last bits are set; all are if it has no more. -/
def lowMask (bits : Nat) : BitVec 128 :=
  if bits < 128 then (1#128 <<< bits) - 1 else BitVec.allOnes 128

/-- The addresses whose first `length` bits are those of `address`, in which all other bits are zero. -/
structure AddressPrefix where
  family : AddressFamily
  address : BitVec 128
  length : Nat
  deriving DecidableEq

inductive PrefixProblem where
  | address (text : String)
  | length (text : String)
  | tooLong (length : Nat) (text : String)
  | negativeBits
  | negativeNumber
  | noRoom (length bits : Nat)
  | noSubnet (bits number : Nat)
  | noHost (length : Nat) (number : Int)
  | noNetmask
  deriving DecidableEq

def PrefixProblem.message : PrefixProblem → String
  | address text => "invalid CIDR address " ++ quoted text
  | length text => "invalid prefix length in " ++ quoted text
  | tooLong n text => "prefix length " ++ toString n ++ " is too long for " ++ quoted text
  | negativeBits => "newbits must not be negative"
  | negativeNumber => "netnum must not be negative"
  | noRoom n bits =>
    "insufficient address space to extend prefix of " ++ toString n ++ " by " ++ toString bits
  | noSubnet bits number =>
    "prefix extension of " ++ toString bits ++ " does not accommodate a subnet numbered "
      ++ toString number
  | noHost n number =>
    "prefix of " ++ toString n ++ " does not accommodate a host numbered " ++ toString number
  | noNetmask => "only IPv4 prefixes have a netmask"

namespace AddressPrefix

/-- A length in decimal digits, with an optional plus sign, below `2 ^ 32`. -/
def readLength? (cs : List Char) : Option Nat :=
  let digits := match cs with
    | '+' :: rest => rest
    | _ => cs
  (readNat? digits).filter (· < nat32Limit)

/-- Bits of an address that the prefix leaves free. -/
def hostBits (p : AddressPrefix) : Nat :=
  p.family.width - p.length

/-- A prefix with the free bits of an address cleared. -/
def of (family : AddressFamily) (address length : Nat) : AddressPrefix :=
  ⟨family, BitVec.ofNat 128 address &&& ~~~lowMask (family.width - length), length⟩

/-- Reads `address/length`. -/
def read (text : String) : Except PrefixProblem AddressPrefix :=
  match splitFirst? ['/'] text.toList with
  | none => .error (.address text)
  | some (front, back) =>
    match Address.read? front with
    | none => .error (.address text)
    | some (family, address) =>
      match readLength? back with
      | none => .error (.length text)
      | some length =>
        if family.width < length then .error (.tooLong length text)
        else .ok (of family address length)

/-- The subnet with a number among those that have `bits` bits more. -/
def subnet (p : AddressPrefix) (bits number : Nat) : Except PrefixProblem AddressPrefix :=
  if p.hostBits < bits then .error (.noRoom p.length bits)
  else if (lowMask bits).toNat < number then .error (.noSubnet bits number)
  else
    let length := p.length + bits
    let shift := p.family.width - length
    .ok ⟨p.family, p.address ||| if shift < 128 then BitVec.ofNat 128 number <<< shift else 0, length⟩

/-- The bits of an address with a number among the free ones; negative numbers count back from the end. -/
def offset? (p : AddressPrefix) (number : Int) : Option (BitVec 128) :=
  let last := lowMask p.hostBits
  if number < 0 then
    let back := BitVec.ofNat 128 (number.natAbs - 1)
    if back ≤ last then some (last - back) else none
  else (some (BitVec.ofNat 128 number.natAbs)).filter (· ≤ last)

/-- The address with a number in the prefix. -/
def host (p : AddressPrefix) (number : Int) : Except PrefixProblem (BitVec 128) :=
  match p.offset? number with
  | some offset => .ok (p.address ||| offset)
  | none => .error (.noHost p.length number)

/-- The address in which exactly the bits of the prefix are set. -/
def netmask (p : AddressPrefix) : Except PrefixProblem (BitVec 128) :=
  match p.family with
  | .v4 => .ok (~~~lowMask p.hostBits &&& lowMask 32)
  | .v6 => .error .noNetmask

def text (p : AddressPrefix) : String :=
  Address.text p.family p.address.toNat ++ "/" ++ toString p.length

end AddressPrefix

end InfraConfig
