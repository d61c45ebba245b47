import InfraConfig.Datum

/-!
# JSON values

What a JSON text says, before it is read as plain data, as an expression or as the value of a variable. A number
is an integer of 64 bits or a binary64 number, as it was written. The entries of an object stand in the order of
the text, each key once.
-/

namespace InfraConfig

/-- A number in JSON: an integer without a sign, a negative one, or a number with a fraction or beyond these. -/
inductive JsonNumeral where
  | natural (n : UInt64)
  | negative (n : Int64)
  | fraction (x : Float)

namespace JsonNumeral

/-- The integer, if it is one that fits 64 bits with a sign. -/
def int64? : JsonNumeral → Option Int
  | natural n => if (n.toNat : Int) < int64Limit then some n.toNat else none
  | negative n => some n.toInt
  | fraction _ => none

/-- The integer, if it is one without a sign. -/
def nat64? : JsonNumeral → Option Nat
  | natural n => some n.toNat
  | negative _ => none
  | fraction _ => none

def toFloat : JsonNumeral → Float
  | natural n => Binary64.ofInt n.toNat
  | negative n => Binary64.ofInt n.toInt
  | fraction x => x

/-- The number as plain data. -/
def datum : JsonNumeral → Datum
  | natural n => .int n.toNat
  | negative n => .int n.toInt
  | fraction x => .ofFloat x

end JsonNumeral

inductive JsonValue where
  | null
  | bool (b : Bool)
  | number (n : JsonNumeral)
  | text (s : String)
  | list (items : List JsonValue)
  | object (entries : List (String × JsonValue))
  deriving Inhabited

namespace JsonValue

mutual

/-- JSON as plain data. -/
def datum : JsonValue → Datum
  | .null => .null
  | .bool b => .bool b
  | .number n => n.datum
  | .text s => .text s
  | .list items => .list (itemData items)
  | .object entries => .object (entryData entries)

def itemData : List JsonValue → List Datum
  | [] => []
  | v :: rest => v.datum :: itemData rest

def entryData : List (String × JsonValue) → List (String × Datum)
  | [] => []
  | (k, v) :: rest => (k, v.datum) :: entryData rest

end

mutual

/-- The value with the entries of all objects in ascending order of keys. -/
def sortKeys : JsonValue → JsonValue
  | .list items => .list (sortKeysItems items)
  | .object entries => .object (Entries.sorted (sortKeysEntries entries))
  | v => v

def sortKeysItems : List JsonValue → List JsonValue
  | [] => []
  | v :: rest => v.sortKeys :: sortKeysItems rest

def sortKeysEntries : List (String × JsonValue) → List (String × JsonValue)
  | [] => []
  | (k, v) :: rest => (k, v.sortKeys) :: sortKeysEntries rest

end

end JsonValue

end InfraConfig
