import InfraConfig.Toml.Reader
import InfraConfig.FilePath
import InfraConfig.Value

/-!
# Settings

What a run can be told: in the table `settings` of a settings file, and after that on the command line.
-/

namespace InfraConfig

/-- The settings of a file. -/
structure Settings where
  variableFiles : List String
  inputs : Entries Value
  workspace : Option String
  stopOnError : Bool

/-- What a run is told. -/
structure Options where
  /-- Variable files after the automatic ones, in order. -/
  variableFiles : List String
  /-- Values over those of all variable files. -/
  inputs : Entries Value
  workspace : String
  /-- Whether the first file that cannot be read stops the run. -/
  stopOnError : Bool
  /-- How many passes may be made over a module until its values settle. -/
  maxPasses : Nat

def Options.default : Options :=
  ⟨[], [], "default", false, 32⟩

namespace Toml

mutual

/-- The value that a document gives to a variable; its integers have 64 bits. -/
def toValue? : Toml → Option Value
  | .text s => some (.text s)
  | .integer n => if isInt64 n then some (.int n) else none
  | .float x => some (.ofFloat x)
  | .bool b => some (.bool b)
  | .time s => some (.text s)
  | .list items => (itemValues? items).map .list
  | .tables items => (itemValues? items).map .list
  | .table _ entries => (entryValues? entries).map fun entries => .object (Entries.sorted entries)

def itemValues? : List Toml → Option (List Value)
  | [] => some []
  | t :: rest => do
    let v ← t.toValue?
    let values ← itemValues? rest
    some (v :: values)

def entryValues? : List (String × Toml) → Option (List (String × Value))
  | [] => some []
  | (k, t) :: rest => do
    let v ← t.toValue?
    let values ← entryValues? rest
    some ((k, v) :: values)

end

mutual

/-- Whether all integers have at most 128 bits. -/
def isBounded : Toml → Bool
  | .integer n => -(twoPow 127 : Int) ≤ n && n < twoPow 128
  | .list items => itemsBounded items
  | .tables items => itemsBounded items
  | .table _ entries => entriesBounded entries
  | _ => true

def itemsBounded : List Toml → Bool
  | [] => true
  | t :: rest => t.isBounded && itemsBounded rest

def entriesBounded : List (String × Toml) → Bool
  | [] => true
  | (_, t) :: rest => t.isBounded && entriesBounded rest

end

def text? : Toml → Option String
  | .text s => some s
  | _ => none

def bool? : Toml → Option Bool
  | .bool b => some b
  | _ => none

def list? : Toml → Option (List Toml)
  | .list items => some items
  | .tables items => some items
  | _ => none

def entries? : Toml → Option (Entries Toml)
  | .table _ entries => some entries
  | _ => none

end Toml

namespace Settings

def empty : Settings :=
  ⟨[], [], none, false⟩

/-- The value of a setting that can be left out. -/
def setting? {α : Type} (read : Toml → Option α) (missing : α) : Option Toml → Option α
  | none => some missing
  | some t => read t

def readFiles? (t : Toml) : Option (List String) :=
  t.list?.bind fun items => items.mapM Toml.text?

def readVariables? (t : Toml) : Option (Entries Value) :=
  t.entries?.bind fun entries => (Toml.entryValues? entries).map Entries.sorted

/-- Settings by name. Settings of other names do not count. -/
def ofEntries? (entries : Entries Toml) : Option Settings := do
  let files ← setting? readFiles? [] (entries.get? "var_files")
  let inputs ← setting? readVariables? [] (entries.get? "vars")
  let workspace ← setting? (·.text?.map some) none (entries.get? "workspace")
  let stop ← setting? Toml.bool? false (entries.get? "stop_on_hcl_error")
  some ⟨files, inputs, workspace, stop⟩

/-- Settings in a fixed order. The first three have to be there. -/
def ofList? (items : List Toml) : Option Settings := do
  let files ← readFiles? (← items[0]?)
  let inputs ← readVariables? (← items[1]?)
  let workspace ← (← items[2]?).text?
  let stop ← setting? Toml.bool? false items[3]?
  some ⟨files, inputs, some workspace, stop⟩

def ofToml? (t : Toml) : Option Settings :=
  match t.list? with
  | some items => ofList? items
  | none => t.entries?.bind ofEntries?

/-- The settings in a text. Other tables do not count. -/
def read? (source : String) : Option Settings := do
  let entries ← Toml.read? source
  if Toml.entriesBounded entries then setting? ofToml? empty (entries.get? "settings") else none

/-- The options that settings make in the directory `base`. -/
def options (s : Settings) (base : String) : Options :=
  { Options.default with
    variableFiles := s.variableFiles.map (FilePath.join base)
    inputs := s.inputs
    workspace := s.workspace.getD Options.default.workspace
    stopOnError := s.stopOnError }

end Settings

end InfraConfig
