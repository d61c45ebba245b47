import InfraConfig.CommandLine.Arguments
import InfraConfig.CommandLine.Help
import InfraConfig.Json.Writer
import InfraConfig.Project
import InfraConfig.Sources.FileTree

/-!
# Carrying out a command

A command reads its settings, evaluates the project in a directory and prints it. A command line that cannot
be read ends with 2, any other problem with 1.
-/

namespace InfraConfig

/-- How a command ends: with a number, with what it has printed, and with what it says about problems. -/
structure CommandResult where
  exitCode : Nat
  output : String
  errors : List String

/-- Why a command fails. -/
inductive CommandProblem where
  | missingSettings (path : String)
  | unreadableSettings (path reason : String)
  | malformedSettings (path : String)
  | project (problem : ProjectProblem)

def CommandProblem.messages : CommandProblem → List String
  | missingSettings path => [path ++ " not found"]
  | unreadableSettings path reason => ["reading " ++ path, reason]
  | malformedSettings path => ["parsing " ++ path]
  | project problem => problem.messages

/-- The settings file that is used without being named. -/
def defaultSettingsPath : String := "tfeval.toml"

namespace Project

/-- A line for each block with its name and place. -/
def summary (p : Project) : String :=
  String.join (p.blocks.map fun b => p.arena.fullName b ++ "\t" ++ b.range.text ++ "\n")

/-- What is shown of a block. -/
def blockDatum (a : Arena) (b : Block) : Datum :=
  .object [("kind", .text b.kind.name), ("name", .text (a.fullName b)), ("values", (a.values b).shown)]

/-- What is shown of a module. -/
def moduleDatum (a : Arena) (m : ModuleInstance) : Datum :=
  .object [("blocks", .list ((m.blocksIn a).map (blockDatum a))), ("path", .text m.path)]

/-- What is shown of all modules. -/
def datum (p : Project) : Datum :=
  .object [("modules", .list (p.modules.map (moduleDatum p.arena)))]

def print (p : Project) : OutputFormat → String
  | .summary => p.summary
  | .json => p.datum.pretty 0 ++ "\n"

end Project

namespace Arguments

/-- The settings file that is used, if there is one. -/
def settingsPath? (t : FileTree) (a : Arguments) : Except CommandProblem (Option String) :=
  match a.config with
  | some path => if t.contains path then .ok (some path) else .error (.missingSettings path)
  | none => .ok (if t.contains defaultSettingsPath then some defaultSettingsPath else none)

/-- The options that the settings file makes. -/
def settingsOptions (t : FileTree) (a : Arguments) : Except CommandProblem Options :=
  match a.settingsPath? t with
  | .error problem => .error problem
  | .ok none => .ok .default
  | .ok (some path) =>
    match t.load path with
    | .error reason => .error (.unreadableSettings path reason)
    | .ok text =>
      match Settings.read? text with
      | some settings => .ok (settings.options t.workingDir)
      | none => .error (.malformedSettings path)

/-- Options with those of the command line over them. -/
def override (a : Arguments) (o : Options) : Options :=
  { o with
    variableFiles := o.variableFiles ++ a.variableFiles
    inputs := o.inputs.putAll (a.inputs.map fun (name, text) => (name, .text text))
    workspace := a.workspace.getD o.workspace
    stopOnError := o.stopOnError || a.stopOnError }

def options (t : FileTree) (a : Arguments) : Except CommandProblem Options :=
  (a.settingsOptions t).map a.override

/-- The directory of the project. -/
def directory (a : Arguments) : String :=
  a.path.getD "."

/-- The project that a command line asks for. -/
def project (t : FileTree) (a : Arguments) : Except CommandProblem Project :=
  match a.options t with
  | .error problem => .error problem
  | .ok o => (Project.load t.loader t.workingDir a.directory o).mapError .project

def run (t : FileTree) (a : Arguments) : CommandResult :=
  match a.project t with
  | .ok p => ⟨0, p.print (a.format.getD .summary), p.missing.map (· ++ " has no value and no default")⟩
  | .error problem => ⟨1, "", problem.messages⟩

end Arguments

namespace CommandLine

/-- Carries out a command line on some files. -/
def run (t : FileTree) (words : List String) : CommandResult :=
  match Arguments.read words with
  | .ok a => a.run t
  | .error (.help true) => ⟨0, Help.long, []⟩
  | .error (.help false) => ⟨0, Help.short, []⟩
  | .error (.misuse word) => ⟨2, "", ["unexpected argument: " ++ word]⟩

end CommandLine

end InfraConfig
