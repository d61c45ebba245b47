import InfraConfig.Datum
import InfraConfig.Text.Search
import InfraConfig.Decimal.Reader

/-!
# Values of a configuration

A value is what an attribute stands for in a scope. Beyond plain data there is the unknown value, which
is not settled yet, and collections know whether they are lists or sets, maps or objects.
-/

namespace InfraConfig

inductive Value where
  | null
  | unknown
  | bool (b : Bool)
  | number (n : Number)
  | text (s : String)
  | list (items : List Value)
  | set (items : List Value)
  | map (entries : List (String × Value))
  | object (entries : List (String × Value))
  deriving Inhabited

/-- The types a variable can be declared with by one word. -/
inductive Primitive where
  | string
  | number
  | bool
  deriving DecidableEq

def Primitive.ofKeyword? (word : String) : Option Primitive :=
  match word with
  | "string" => some .string
  | "number" => some .number
  | "bool" => some .bool
  | _ => none

/-- Reads a number written in a text, with blanks around it. -/
def readNumber? (s : String) : Option Number :=
  let cs := trimList isBlank s.toList
  match readInt64? cs with
  | some n => some (.int n)
  | none => (readFloat? cs).bind Number.ofFloat?

namespace Value

def int (n : Int) : Value :=
  .number (.int n)

def ofFloat (x : Float) : Value :=
  match Number.ofFloat? x with
  | some n => .number n
  | none => .null

def typeName : Value → String
  | .null => "null"
  | .unknown => "unknown"
  | .bool _ => "bool"
  | .number _ => "number"
  | .text _ => "string"
  | .list _ => "list"
  | .set _ => "set"
  | .map _ => "map"
  | .object _ => "object"

def isNull : Value → Bool
  | .null => true
  | _ => false

def isUnknown : Value → Bool
  | .unknown => true
  | _ => false

mutual

/-- Whether nothing in the value is unknown. -/
def isWhollyKnown : Value → Bool
  | .unknown => false
  | .list items => allKnown items
  | .set items => allKnown items
  | .map entries => entriesKnown entries
  | .object entries => entriesKnown entries
  | _ => true

def allKnown : List Value → Bool
  | [] => true
  | v :: rest => isWhollyKnown v && allKnown rest

def entriesKnown : List (String × Value) → Bool
  | [] => true
  | (_, v) :: rest => isWhollyKnown v && entriesKnown rest

end

/-- The items of a list or set. -/
def items? : Value → Option (List Value)
  | .list items => some items
  | .set items => some items
  | _ => none

/-- The entries of a map or object. -/
def entries? : Value → Option (Entries Value)
  | .map entries => some entries
  | .object entries => some entries
  | _ => none

def isListLike (v : Value) : Bool :=
  v.items?.isSome

def isMapLike (v : Value) : Bool :=
  v.entries?.isSome

def isIterable (v : Value) : Bool :=
  v.isListLike || v.isMapLike

def text? : Value → Option String
  | .text s => some s
  | _ => none

def bool? : Value → Option Bool
  | .bool b => some b
  | _ => none

def number? : Value → Option Number
  | .number n => some n
  | _ => none

def float? (v : Value) : Option Float :=
  v.number?.map Number.toFloat

/-- The integer part of a number. -/
def int64? (v : Value) : Option Int :=
  v.number?.map Number.toInt64

/-- The entry of a map or object under a key. -/
def get? (v : Value) (key : String) : Option Value :=
  v.entries?.bind (·.get? key)

/-- Characters of a text, items or entries of a collection. -/
def size? : Value → Option Nat
  | .text s => some s.length
  | .list items => some items.length
  | .set items => some items.length
  | .map entries => some entries.length
  | .object entries => some entries.length
  | _ => none

/-- Keys and values of a collection: positions for lists and sets, keys in ascending order for maps and
objects. -/
def elements (v : Value) : List (Value × Value) :=
  match v.items?, v.entries? with
  | some items, _ => items.zipIdx.map fun (x, i) => (.int i, x)
  | none, some entries => (Entries.sorted entries).map fun (k, x) => (.text k, x)
  | none, none => []

mutual

/-- The plain data of a value. Unknown has none; unknown items become null, unknown entries vanish. -/
def toDatum? : Value → Option Datum
  | .null => some .null
  | .unknown => none
  | .bool b => some (.bool b)
  | .number n => some (.number n)
  | .text s => some (.text s)
  | .list items => some (.list (datumItems items))
  | .set items => some (.list (datumItems items))
  | .map entries => some (.object (datumEntries entries))
  | .object entries => some (.object (datumEntries entries))

def datumItems : List Value → List Datum
  | [] => []
  | v :: rest => (toDatum? v).getD .null :: datumItems rest

def datumEntries : List (String × Value) → List (String × Datum)
  | [] => []
  | (k, v) :: rest =>
    match toDatum? v with
    | some d => (k, d) :: datumEntries rest
    | none => datumEntries rest

end

mutual

/-- Plain data as a value. -/
def ofDatum : Datum → Value
  | .null => .null
  | .bool b => .bool b
  | .number n => .number n
  | .text s => .text s
  | .list items => .list (ofDatumItems items)
  | .object entries => .object (ofDatumEntries entries)

def ofDatumItems : List Datum → List Value
  | [] => []
  | d :: rest => ofDatum d :: ofDatumItems rest

def ofDatumEntries : List (String × Datum) → List (String × Value)
  | [] => []
  | (k, d) :: rest => (k, ofDatum d) :: ofDatumEntries rest

end

/-- Conversion to a primitive type, if the value can be written in it. Null and unknown have every
type. -/
def convert? (type : Primitive) : Value → Option Value
  | .null => some .null
  | .unknown => some .unknown
  | .text s =>
    match type with
    | .string => some (.text s)
    | .number => (readNumber? s).map .number
    | .bool => if s = "true" then some (.bool true) else if s = "false" then some (.bool false) else none
  | .number n =>
    match type with
    | .string => some (.text n.text)
    | .number => some (.number n)
    | .bool => none
  | .bool b =>
    match type with
    | .string => some (.text (if b then "true" else "false"))
    | .number => none
    | .bool => some (.bool b)
  | _ => none

/-- Numbers are equal by value; two that fit 64 bits with a sign are compared as integers, all others
as binary64 numbers. -/
def sameNumber (a b : Number) : Bool :=
  match a.int64?, b.int64?, a, b with
  | some i, some j, _, _ => i == j
  | _, _, .int i, .int j => Binary64.roundInt i == Binary64.roundInt j
  | _, _, a, b => a.toFloat == b.toFloat

mutual

/-- Equality of values. A set equals another of the same size that has all its members. -/
def beq : Value → Value → Bool
  | .null, .null => true
  | .unknown, .unknown => true
  | .bool a, .bool b => a == b
  | .number a, .number b => sameNumber a b
  | .text a, .text b => a == b
  | .list a, .list b => beqItems a b
  | .set a, .set b => a.length == b.length && beqMembers a b
  | .map a, .map b => a.length == b.length && beqEntries a b
  | .object a, .object b => a.length == b.length && beqEntries a b
  | _, _ => false

def beqItems : List Value → List Value → Bool
  | [], [] => true
  | a :: as, b :: bs => beq a b && beqItems as bs
  | _, _ => false

/-- Whether some item of the second list equals each item of the first. -/
def beqMembers : List Value → List Value → Bool
  | [], _ => true
  | a :: as, bs => bs.any (fun b => eqb a b) && beqMembers as bs

/-- Whether every entry of the first list is in the second. -/
def beqEntries : List (String × Value) → List (String × Value) → Bool
  | [], _ => true
  | (k, v) :: rest, b =>
    (match b.lookup k with
    | some w => beq v w
    | none => false) && beqEntries rest b

/-- The equality `beq b a`, by recursion on `a`. -/
def eqb : Value → Value → Bool
  | .null, .null => true
  | .unknown, .unknown => true
  | .bool a, .bool b => b == a
  | .number a, .number b => sameNumber b a
  | .text a, .text b => b == a
  | .list a, .list b => eqbItems a b
  | .set a, .set b => b.length == a.length && b.all (fun y => hasMember a y)
  | .map a, .map b => b.length == a.length && b.all (fun e => hasEntry a e.1 e.2)
  | .object a, .object b => b.length == a.length && b.all (fun e => hasEntry a e.1 e.2)
  | _, _ => false

def eqbItems : List Value → List Value → Bool
  | [], [] => true
  | a :: as, b :: bs => eqb a b && eqbItems as bs
  | _, _ => false

/-- Whether an item equals `y`. -/
def hasMember : List Value → Value → Bool
  | [], _ => false
  | x :: xs, y => beq x y || hasMember xs y

/-- Whether the entry under `k` equals `w`, which stands on the left. -/
def hasEntry : List (String × Value) → String → Value → Bool
  | [], _, _ => false
  | (j, v) :: rest, k, w => if k == j then eqb v w else hasEntry rest k w

end

instance : BEq Value := ⟨beq⟩

mutual

/-- Compact JSON in stored order; unknown is written as null. -/
def json : Value → String
  | .null => "null"
  | .unknown => "null"
  | .bool b => if b then "true" else "false"
  | .number n => n.json
  | .text s => Datum.quoteJson s
  | .list items => "[" ++ jsonItems items ++ "]"
  | .set items => "[" ++ jsonItems items ++ "]"
  | .map entries => "\x7b" ++ jsonEntries entries ++ "\x7d"
  | .object entries => "\x7b" ++ jsonEntries entries ++ "\x7d"

def jsonItems : List Value → String
  | [] => ""
  | [a] => json a
  | a :: b :: rest => json a ++ "," ++ jsonItems (b :: rest)

def jsonEntries : List (String × Value) → String
  | [] => ""
  | [(k, v)] => Datum.quoteJson k ++ ":" ++ json v
  | (k, v) :: e :: rest => Datum.quoteJson k ++ ":" ++ json v ++ "," ++ jsonEntries (e :: rest)

end

/-- Text of a value: primitives as they are, collections as compact JSON. -/
def display : Value → String
  | .null => "null"
  | .unknown => "(unknown)"
  | .bool b => if b then "true" else "false"
  | .number n => n.text
  | .text s => s
  | v => v.json

end Value

end InfraConfig
