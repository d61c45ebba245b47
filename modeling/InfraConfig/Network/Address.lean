import InfraConfig.Text.Search
import InfraConfig.Text.RangeTable
import InfraConfig.Text.Quoted
import InfraConfig.Decimal.Reader

/-!
# Internet addresses

Addresses as numbers, and their texts. An IPv6 address is written with its first longest run of zero groups
left out.
-/

namespace InfraConfig

inductive AddressFamily where
  | v4
  | v6
  deriving DecidableEq

/-- Bits of an address. -/
def AddressFamily.width : AddressFamily → Nat
  | v4 => 32
  | v6 => 128

namespace Address

/-- A number below 256 without leading zeros. -/
def readOctet (cs : List Char) : Option (Nat × List Char) :=
  let digits := cs.takeWhile Char.isDigit
  let n := decimalNat digits
  if digits.isEmpty ∨ 3 < digits.length ∨ 255 < n ∨ (1 < digits.length ∧ digits.head? = some '0') then
    none
  else some (n, cs.drop digits.length)

def readDot (cs : List Char) : Option (List Char) :=
  match cs with
  | '.' :: rest => some rest
  | _ => none

/-- Four octets separated by dots. -/
def readV4 (cs : List Char) : Option (Nat × List Char) := do
  let (a, cs) ← readOctet cs
  let (b, cs) ← (readDot cs).bind readOctet
  let (c, cs) ← (readDot cs).bind readOctet
  let (d, cs) ← (readDot cs).bind readOctet
  some (((a * 256 + b) * 256 + c) * 256 + d, cs)

/-- One to four hexadecimal digits. -/
def readGroup (cs : List Char) : Option (Nat × List Char) :=
  let digits := cs.takeWhile fun c => (hexDigit? c).isSome
  if digits.isEmpty ∨ 4 < digits.length then none else some (hexNat digits, cs.drop digits.length)

/-- A colon in front, except before the first group. -/
def readColon (first : Bool) (cs : List Char) : Option (List Char) :=
  if first then some cs
  else
    match cs with
    | ':' :: rest => some rest
    | _ => none

/-- At most `room` groups of 16 bits separated by colons. An IPv4 address stands for the last two groups,
which ends them: the flag tells whether it did. -/
def readGroups : Nat → Bool → List Char → List Nat × Bool × List Char
  | 0, _, cs => ([], false, cs)
  | room + 1, first, cs =>
    match if room = 0 then none else (readColon first cs).bind readV4 with
    | some (n, rest) => ([n / 65536, n % 65536], true, rest)
    | none =>
      match (readColon first cs).bind readGroup with
      | some (g, rest) =>
        let (groups, mapped, rest) := readGroups room false rest
        (g :: groups, mapped, rest)
      | none => ([], false, cs)

def ofGroups (groups : List Nat) : Nat :=
  groups.foldl (fun n g => n * 65536 + g) 0

/-- Eight groups, or fewer with `::` for a run of zero groups. -/
def readV6 (cs : List Char) : Option (Nat × List Char) :=
  let (head, mapped, rest) := readGroups 8 true cs
  if head.length = 8 then some (ofGroups head, rest)
  else if mapped then none
  else
    match rest with
    | ':' :: ':' :: rest =>
      let (tail, _, rest) := readGroups (7 - head.length) true rest
      some (ofGroups (head ++ List.replicate (8 - head.length - tail.length) 0 ++ tail), rest)
    | _ => none

/-- Reads an address of either family. -/
def read? (cs : List Char) : Option (AddressFamily × Nat) :=
  match readV4 cs with
  | some (n, []) => some (.v4, n)
  | some _ => none
  | none =>
    match readV6 cs with
    | some (n, []) => some (.v6, n)
    | _ => none

def octets (n : Nat) : List Nat :=
  [n / 16777216 % 256, n / 65536 % 256, n / 256 % 256, n % 256]

def textV4 (n : Nat) : String :=
  joinText "." ((octets n).map toString)

def groupsOf (n : Nat) : List Nat :=
  (List.range 8).map fun i => n / twoPow (16 * (7 - i)) % 65536

/-- Length of the run of zeros at the front. -/
def zeros (groups : List Nat) : Nat :=
  (groups.takeWhile (· == 0)).length

/-- Start and length of the first longest run of zeros, as far as `position`. -/
def longestZeros (position : Nat) (best : Nat × Nat) : List Nat → Nat × Nat
  | [] => best
  | g :: rest =>
    let run := zeros (g :: rest)
    longestZeros (position + 1) (if best.2 < run then (position, run) else best) rest

def textGroups (groups : List Nat) : String :=
  joinText ":" (groups.map hexText)

def textV6 (n : Nat) : String :=
  let groups := groupsOf n
  if n / nat32Limit = 65535 then "::ffff:" ++ textV4 (n % nat32Limit)
  else
    let (start, length) := longestZeros 0 (0, 0) groups
    if 1 < length then textGroups (groups.take start) ++ "::" ++ textGroups (groups.drop (start + length))
    else textGroups groups

def text : AddressFamily → Nat → String
  | .v4, n => textV4 n
  | .v6, n => textV6 n

end Address

end InfraConfig
