/-!
# Ordered entries

Objects and maps keep their entries in the order in which the keys were first written. A key stands
for one entry: writing it again replaces the value where it stands.
-/

namespace InfraConfig

/-- Keys with values, in stored order. -/
abbrev Entries (α : Type) := List (String × α)

namespace Entries

variable {α : Type}

/-- The value stored under a key. -/
def get? (entries : Entries α) (key : String) : Option α :=
  entries.lookup key

def hasKey (entries : Entries α) (key : String) : Bool :=
  (entries.get? key).isSome

/-- Stores a value under a key: in place when the key is present, else at the end. -/
def put (entries : Entries α) (key : String) (value : α) : Entries α :=
  match entries with
  | [] => [(key, value)]
  | (k, v) :: rest => if k = key then (k, value) :: rest else (k, v) :: put rest key value

/-- Stores all of `more`, in order. -/
def putAll (entries more : Entries α) : Entries α :=
  more.foldl (fun acc e => acc.put e.1 e.2) entries

/-- Entries from pairs in which a key may occur again. -/
def ofPairs (pairs : List (String × α)) : Entries α :=
  putAll [] pairs

def keys (entries : Entries α) : List String :=
  entries.map (·.1)

/-- Puts an entry in front of the first one with a greater key. -/
def insertSorted (e : String × α) : Entries α → Entries α
  | [] => [e]
  | f :: rest => if e.1 < f.1 then e :: f :: rest else f :: insertSorted e rest

/-- The entries in ascending order of their keys. -/
def sorted (entries : Entries α) : Entries α :=
  entries.foldr insertSorted []

end Entries

/-- Puts a text in front of the first greater one. -/
def insertText (s : String) : List String → List String
  | [] => [s]
  | t :: rest => if s < t then s :: t :: rest else t :: insertText s rest

/-- Texts in ascending order of code points. -/
def sortTexts (texts : List String) : List String :=
  texts.foldr insertText []

end InfraConfig
