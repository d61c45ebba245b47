import InfraConfig.Text.Search
import InfraConfig.Entries

/-!
# Arguments

What the words of a command line ask for. Words are read from left to right, and the first one that cannot be
read, or that asks for help, decides.
-/

namespace InfraConfig

inductive OutputFormat where
  /-- One line for each block. -/
  | summary
  /-- All modules with their blocks and values. -/
  | json
  deriving DecidableEq

/-- What a command line asks for. -/
structure Arguments where
  path : Option String
  /-- Values of variables, in the order of the command line. -/
  inputs : List (String × String)
  variableFiles : List String
  workspace : Option String
  stopOnError : Bool
  config : Option String
  format : Option OutputFormat

/-- Why a command line is not carried out: it asks for the long or short help, or it cannot be read. -/
inductive ArgumentsProblem where
  | help (long : Bool)
  | misuse (word : String)
  deriving DecidableEq

namespace Arguments

def empty : Arguments :=
  ⟨none, [], [], none, false, none, none⟩

/-- An option that takes a value. -/
inductive ValueOption where
  | variable
  | variableFile
  | workspace
  | config
  | format
  deriving DecidableEq

def ValueOption.ofName? (name : String) : Option ValueOption :=
  match name with
  | "var" => some .variable
  | "var-file" => some .variableFile
  | "workspace" => some .workspace
  | "config" => some .config
  | "format" => some .format
  | _ => none

/-- A name and a value with an equals sign between them. -/
def readPair? (text : String) : Option (String × String) :=
  (splitFirst? ['='] text.toList).map fun (key, value) => (.ofList key, .ofList value)

/-- A path, which cannot be empty. -/
def readPath? (text : String) : Option String :=
  if text.isEmpty then none else some text

def readFormat? (text : String) : Option OutputFormat :=
  match text with
  | "summary" => some .summary
  | "json" => some .json
  | _ => none

/-- Stores what can be given only once. -/
def once? {α : Type} (found : Option α) (value : Option α) : Option (Option α) :=
  if found.isSome then none else value.map some

/-- Stores the value of an option. -/
def put? (a : Arguments) (value : String) : ValueOption → Option Arguments
  | .variable => (readPair? value).map fun pair => { a with inputs := a.inputs ++ [pair] }
  | .variableFile => (readPath? value).map fun path => { a with variableFiles := a.variableFiles ++ [path] }
  | .workspace => (once? a.workspace (some value)).map fun workspace => { a with workspace }
  | .config => (once? a.config (readPath? value)).map fun config => { a with config }
  | .format => (once? a.format (readFormat? value)).map fun format => { a with format }

/-- Stores a word that belongs to no option. -/
def putPath? (a : Arguments) (word : String) : Option Arguments :=
  (once? a.path (readPath? word)).map fun path => { a with path }

/-- Reads words that belong to no option. -/
def readPaths (a : Arguments) : List String → Except ArgumentsProblem Arguments
  | [] => .ok a
  | word :: rest =>
    match a.putPath? word with
    | some a => a.readPaths rest
    | none => .error (.misuse word)

/-- An option with its value, when an equals sign stands between them. -/
def splitOption (body : List Char) : String × Option String :=
  match splitFirst? ['='] body with
  | some (name, value) => (.ofList name, some (.ofList value))
  | none => (.ofList body, none)

/-- An option that takes no value. -/
def readFlag (a : Arguments) (word name : String) : Except ArgumentsProblem Arguments :=
  if name = "help" then .error (.help true)
  else if name = "stop-on-error" ∧ a.stopOnError = false then .ok { a with stopOnError := true }
  else .error (.misuse word)

/-- Whether a word can be the value of the option before it. -/
def isPlainWord (word : String) : Bool :=
  match word.toList with
  | '-' :: _ :: _ => false
  | _ => true

/-- Reads the words of a command line. -/
def readAll (a : Arguments) : List String → Except ArgumentsProblem Arguments
  | [] => .ok a
  | word :: rest =>
    match word.toList with
    | ['-', '-'] => a.readPaths rest
    | '-' :: '-' :: body =>
      let (name, value) := splitOption body
      match ValueOption.ofName? name, value, rest with
      | some option, some value, rest =>
        match a.put? value option with
        | some a => a.readAll rest
        | none => .error (.misuse word)
      | some option, none, value :: rest =>
        match isPlainWord value, a.put? value option with
        | true, some a => a.readAll rest
        | _, _ => .error (.misuse value)
      | some _, none, [] => .error (.misuse word)
      | none, some _, _ => .error (.misuse word)
      | none, none, rest =>
        match a.readFlag word name with
        | .ok a => a.readAll rest
        | .error problem => .error problem
    | '-' :: 'h' :: _ => .error (.help false)
    | '-' :: _ :: _ => .error (.misuse word)
    | _ =>
      match a.putPath? word with
      | some a => a.readAll rest
      | none => .error (.misuse word)

/-- What the words after the name of the command ask for. -/
def read (words : List String) : Except ArgumentsProblem Arguments :=
  empty.readAll words

end Arguments

end InfraConfig
