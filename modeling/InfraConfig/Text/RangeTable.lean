/-!
# Sets of characters given by ranges

A property of characters is published as a list of code point ranges. A `RangeTable` holds such a
list; the written form is hexadecimal, one range or single code point after another, ascending.
-/

namespace InfraConfig

/-- The value of a hexadecimal digit of either case. -/
def hexDigit? (c : Char) : Option Nat :=
  if '0' ≤ c ∧ c ≤ '9' then some (c.toNat - 48)
  else if 'a' ≤ c ∧ c ≤ 'f' then some (c.toNat - 87)
  else if 'A' ≤ c ∧ c ≤ 'F' then some (c.toNat - 55)
  else none

/-- The number written by hexadecimal digits; a character that is no digit counts as zero. -/
def hexNat (digits : List Char) : Nat :=
  digits.foldl (fun n c => 16 * n + (hexDigit? c).getD 0) 0

/-- Splits a list at every element that satisfies `sep`; the separators are dropped. -/
def splitList {α : Type} (sep : α → Bool) : List α → List (List α)
  | [] => [[]]
  | a :: rest =>
    if sep a then [] :: splitList sep rest
    else match splitList sep rest with
      | [] => [[a]]
      | part :: parts => (a :: part) :: parts

/-- The words of a table, between blanks and line ends. -/
def tableWords (text : String) : List (List Char) :=
  (splitList (fun c => c == ' ' || c == '\n') text.toList).filter (!·.isEmpty)

/-- Ascending, disjoint, inclusive ranges of code points. -/
structure RangeTable where
  ranges : Array (Nat × Nat)

namespace RangeTable

/-- Reads `41-5A 61-7A AA`. -/
def ofHex (text : String) : RangeTable :=
  let entry (word : List Char) : Nat × Nat :=
    match splitList (· == '-') word with
    | [a, b] => (hexNat a, hexNat b)
    | _ => (hexNat word, hexNat word)
  ⟨((tableWords text).map entry).toArray⟩

/-- Whether a code point lies in one of the ranges. -/
def containsNat (t : RangeTable) (n : Nat) : Bool :=
  t.ranges.any fun r => r.1 ≤ n && n ≤ r.2

def contains (t : RangeTable) (c : Char) : Bool :=
  t.containsNat c.toNat

end RangeTable

end InfraConfig
