import InfraConfig.Functions.Signature

/-!
# Functions on lists and maps
-/

namespace InfraConfig

namespace Functions

def lengthOf : Datum → Except FunctionError Nat
  | .text s => .ok s.length
  | .list items => .ok items.length
  | .object entries => .ok entries.length
  | d => .error (.noLength d)

mutual

/-- The items of a list, with those of lists among them in their place, at any depth. -/
def flatten : List Datum → List Datum
  | [] => []
  | d :: rest => flattenItem d ++ flatten rest

def flattenItem : Datum → List Datum
  | .list items => flatten items
  | d => [d]

end

def member (d : Datum) (items : List Datum) : Bool :=
  items.any (· == d)

/-- The items that are not in `seen` yet, the first of equal ones. -/
def distinctFrom (seen : List Datum) : List Datum → List Datum
  | [] => []
  | d :: rest =>
    if member d seen then distinctFrom seen rest else d :: distinctFrom (d :: seen) rest

/-- The first of equal items. -/
def distinct (items : List Datum) : List Datum :=
  distinctFrom [] items

/-- The items from position `start` up to but without `stop`. -/
def slice (items : List Datum) (start stop : Int) : Except FunctionError (List Datum) :=
  if start < 0 ∨ stop < start ∨ (items.length : Int) < stop then
    .error (.sliceBounds start stop items.length)
  else .ok ((items.take stop.toNat).drop start.toNat)

/-- Neither null nor an empty text. -/
def isPresent : Datum → Bool
  | .null => false
  | .text s => !s.isEmpty
  | _ => true

/-- The entries of all maps, the first of which is at position `i`; later ones replace earlier ones, and null
has none. -/
def mergeFrom (i : Nat) (merged : Entries Datum) : List Datum → Except FunctionError (Entries Datum)
  | [] => .ok merged
  | .null :: rest => mergeFrom (i + 1) merged rest
  | .object entries :: rest => mergeFrom (i + 1) (merged.putAll entries) rest
  | _ :: _ => .error (.argumentKind i .map)

/-- The item at a position, counted around the list. -/
def element (items : List Datum) (position : Int) : Except FunctionError Datum :=
  if items.isEmpty then .error .emptyList
  else if position < 0 then .error .negativeIndex
  else .ok (items.getD (position.toNat % items.length) .null)

/-- A map of keys and values in parallel. -/
def zipMap (keys values : List Datum) : Except FunctionError (Entries Datum) :=
  if keys.length ≠ values.length then .error .unequalKeys
  else do
    let texts ← plainTexts keys
    .ok (Entries.ofPairs (texts.zip values))

/-- The first list that is not empty. -/
def firstFilled (i : Nat) : List Datum → Except FunctionError Datum
  | [] => .ok (.list [])
  | .list items :: rest => if items.isEmpty then firstFilled (i + 1) rest else .ok (.list items)
  | _ :: _ => .error (.argumentKind i .list)

/-- Terms from `current` by `step` as long as they are before `limit`, at most `n - 1` of them. -/
def terms (limit step : Number) : Nat → Number → Option (List Number)
  | 0, _ => none
  | n + 1, current =>
    let before := (0 < step.sign && current.less limit) || (step.sign < 0 && limit.less current)
    if before then (terms limit step n (current.addRounded step)).map (current :: ·) else some []

/-- An arithmetic progression of at most 1024 terms. -/
def progression (start limit step : Number) : Except FunctionError (List Number) :=
  if step.isZero then .error .zeroStep
  else
    match terms limit step 1025 start with
    | some ns => .ok ns
    | none => .error .rangeLength

/-- Start, limit and step of a progression; the direction of two bounds is the one from the first to the
second. -/
def range (args : List Datum) : Except FunctionError (List Number) := do
  match args with
  | [_] => progression (.int 0) (← numberAt args 0) (.int 1)
  | [_, _] =>
    let start ← numberAt args 0
    let limit ← numberAt args 1
    progression start limit (.int (if limit.less start then -1 else 1))
  | [_, _, _] => progression (← numberAt args 0) (← numberAt args 1) (← numberAt args 2)
  | _ => .error .rangeArguments

def setUnion (sets : List (List Datum)) : List Datum :=
  distinct (sets.flatMap distinct)

/-- The items of the first list that are in all others. -/
def setIntersection : List (List Datum) → List Datum
  | [] => []
  | first :: rest =>
    let others := rest.map distinct
    (distinct first).filter fun d => others.all (member d)

def setSubtract (items removed : List Datum) : List Datum :=
  (distinct items).filter fun d => !member d removed

/-- A function from one list. -/
def ofList (f : List Datum → Datum) : Function :=
  ⟨[.any], none, fun args => do return f (← listAt args 0)⟩

/-- A function from one or more lists. -/
def ofLists (f : List (List Datum) → Datum) : Function :=
  ⟨[.any], some .any, fun args => do return f (← listsFrom 0 args)⟩

def listFunctions : List (String × Function) :=
  [("length", ⟨[.any], none, fun args => do
      return .int (← lengthOf (args.headD .null))⟩),
    ("concat", ofLists fun lists => .list lists.flatten),
    ("flatten", ofList fun items => .list (flatten items)),
    ("distinct", ofList fun items => .list (distinct items)),
    ("slice", ⟨[.any, .number, .number], none, fun args => do
      return .list (← slice (← listAt args 0) (← integerAt args 1) (← integerAt args 2))⟩),
    ("sort", ⟨[.any], none, fun args => do
      return .list ((sortTexts (← plainTexts (← listAt args 0))).map .text)⟩),
    ("reverse", ofList fun items => .list items.reverse),
    ("index", ⟨[.any, .any], none, fun args => do
      match (← listAt args 0).findIdx? (· == args.getD 1 .null) with
      | some i => return .int i
      | none => throw .notFound⟩),
    ("contains", ⟨[.any, .any], none, fun args => do
      return .bool (member (args.getD 1 .null) (← listAt args 0))⟩),
    ("keys", ⟨[.any], none, fun args => do
      return .list ((sortTexts (← mapAt args 0).keys).map .text)⟩),
    ("values", ⟨[.any], none, fun args => do
      return .list ((← mapAt args 0).sorted.map (·.2))⟩),
    ("lookup", ⟨[.any, .string], some .any, fun args => do
      let entries ← mapAt args 0
      let key ← textAt args 1
      match entries.get? key, args[2]? with
      | some d, _ => return d
      | none, some default => return default
      | none, none => throw (.noKey key)⟩),
    ("merge", ⟨[], some .any, fun args => do return .object (← mergeFrom 0 [] args)⟩),
    ("element", ⟨[.any, .number], none, fun args => do
      let items ← listAt args 0
      element items (← integerAt args 1)⟩),
    ("zipmap", ⟨[.any, .any], none, fun args => do
      return .object (← zipMap (← listAt args 0) (← listAt args 1))⟩),
    ("compact", ofList fun items => .list (items.filter isPresent)),
    ("coalesce", ⟨[.any], some .any, fun args =>
      match args.find? isPresent with
      | some d => .ok d
      | none => .error .allNull⟩),
    ("coalescelist", ⟨[.any], some .any, fun args => firstFilled 0 args⟩),
    ("range", ⟨[.number], some .number, fun args => do
      return .list ((← range args).map .number)⟩),
    ("setunion", ofLists fun sets => .list (setUnion sets)),
    ("setintersection", ofLists fun sets => .list (setIntersection sets)),
    ("setsubtract", ⟨[.any, .any], none, fun args => do
      let removed ← listAt args 1
      return .list (setSubtract (← listAt args 0) removed)⟩)]

end Functions

end InfraConfig
