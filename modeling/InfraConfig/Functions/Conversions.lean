import InfraConfig.Functions.Lists
import InfraConfig.Value
import InfraConfig.Json.Reader

/-!
# Conversions between types
-/

namespace InfraConfig

namespace Functions

def toNumber : Datum → Except FunctionError Datum
  | .number n => .ok (.number n)
  | .null => .ok .null
  | .text s =>
    match readNumber? s with
    | some n => .ok (.number n)
    | none => .error (.notNumber s)
  | d => .error (.conversion d "number")

def toBool : Datum → Except FunctionError Datum
  | .bool b => .ok (.bool b)
  | .null => .ok .null
  | .text "true" => .ok (.bool true)
  | .text "false" => .ok (.bool false)
  | d => .error (.conversion d "bool")

/-- A list as it is, the values of a map, or a list of the one value. -/
def toList : Datum → Datum
  | .list items => .list items
  | .object entries => .list (entries.map (·.2))
  | .null => .null
  | d => .list [d]

def toSet : Datum → Except FunctionError Datum
  | .list items => .ok (.list (distinct items))
  | .null => .ok .null
  | d => .error (.conversion d "set")

def toMap : Datum → Except FunctionError Datum
  | .object entries => .ok (.object entries)
  | .null => .ok .null
  | d => .error (.conversion d "map")

def decodeJson (s : String) : Except FunctionError Datum :=
  ((Json.read s).map JsonValue.datum).mapError .json

/-- A function from one value of any type. -/
def ofAny (f : Datum → Except FunctionError Datum) : Function :=
  ⟨[.any], none, fun args => f (args.headD .null)⟩

def conversionFunctions : List (String × Function) :=
  [("tostring", ofAny fun d => (plainText d).map .text),
    ("tonumber", ofAny toNumber),
    ("tobool", ofAny toBool),
    ("tolist", ofAny fun d => .ok (toList d)),
    ("toset", ofAny toSet),
    ("tomap", ofAny toMap),
    ("jsonencode", ofAny fun d => .ok (.text d.json)),
    ("jsondecode", ⟨[.string], none, fun args => do decodeJson (← textAt args 0)⟩)]

end Functions

end InfraConfig
