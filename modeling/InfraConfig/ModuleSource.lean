import InfraConfig.Sources.Loader
import InfraConfig.Json.Reader

/-!
# Sources of modules

A module call names a source. Modules that were installed before are listed with their directories in a file
of the project; a source that is a relative path is a directory seen from the calling module.
-/

namespace InfraConfig

/-- A module with the directory where it is installed. -/
structure InstalledModule where
  source : String
  directory : String
  deriving DecidableEq

namespace InstalledModule

/-- The file that lists the installed modules of a project. -/
def listPath (root : String) : String :=
  FilePath.join root ".terraform/modules/modules.json"

/-- The text under a key, which can be left out but must be a text. -/
def textField? (entries : Entries JsonValue) (key : String) : Option String :=
  match entries.get? key with
  | none => some ""
  | some (.text s) => some s
  | some _ => none

def isTextOrNull : JsonValue → Bool
  | .text _ => true
  | .null => true
  | _ => false

def ofJson? : JsonValue → Option InstalledModule
  | .object entries => do
    let _ ← textField? entries "Key"
    let source ← textField? entries "Source"
    let directory ← textField? entries "Dir"
    if (Entries.get? entries "Version").all isTextOrNull then some ⟨source, directory⟩ else none
  | _ => none

def listOfJson? : JsonValue → Option (List InstalledModule)
  | .object entries =>
    match Entries.get? entries "Modules" with
    | none => some []
    | some (.list items) => items.mapM ofJson?
    | some _ => none
  | _ => none

/-- The installed modules of a project; none if there is no list that can be read. -/
def load (l : Loader) (root : String) : List InstalledModule :=
  match l.load (listPath root) with
  | .ok text => ((Json.read? text).bind listOfJson?).getD []
  | .error _ => []

end InstalledModule

/-- The directory that a source leads to from a calling module. -/
def moduleDirectory? (installed : List InstalledModule) (root path source : String) : Option String :=
  match installed.find? fun m => m.source == source || m.source == "registry.terraform.io/" ++ source with
  | some m => some (FilePath.absolute root (FilePath.join root m.directory))
  | none =>
    if startsWithText source "./" || startsWithText source "../" then
      some (FilePath.absolute path (FilePath.join path source))
    else none

end InfraConfig
