import InfraConfig.Functions.Signature
import InfraConfig.Calendar.Duration

/-!
# Functions on timestamps

The present is a fixed timestamp: a configuration has the same values whenever it is evaluated.
-/

namespace InfraConfig

namespace Functions

def present : String := "2022-01-01T00:00:00Z"

def timestampAt (args : List Datum) (i : Nat) : Except FunctionError Timestamp := do
  let text ← textAt args i
  (Timestamp.read text).mapError (.timestamp text)

def durationAt (args : List Datum) (i : Nat) : Except FunctionError Int := do
  let text ← textAt args i
  match Duration.read? text with
  | some nanos => .ok nanos
  | none => .error (.duration text)

def sign : Ordering → Int
  | .lt => -1
  | .eq => 0
  | .gt => 1

def timeFunctions : List (String × Function) :=
  [("timestamp", ⟨[], none, fun _ => .ok (.text present)⟩),
    ("formatdate", ⟨[.string, .string], none, fun args => do
      let items ← (layoutItems (← textAt args 0)).mapError .layout
      let t ← timestampAt args 1
      return .text (showLayout items t)⟩),
    ("timeadd", ⟨[.string, .string], none, fun args => do
      let t ← timestampAt args 0
      let nanos ← durationAt args 1
      return .text (Timestamp.ofInstant (t.instant.add nanos)).textUtc⟩),
    ("timecmp", ⟨[.string, .string], none, fun args => do
      let a ← timestampAt args 0
      let b ← timestampAt args 1
      return .int (sign (a.instant.compare b.instant))⟩)]

end Functions

end InfraConfig
