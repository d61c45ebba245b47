import InfraConfig.Sources.Directory
import InfraConfig.Evaluation

/-!
# Variable files

Values of input variables stand in files of their own. Some are found by their name in the root directory,
others are named by the user; a later file overrides an earlier one. Their expressions can call functions,
but there are no variables in them.
-/

namespace InfraConfig

/-- Why the text of a variable file has no values. -/
inductive VariableTextProblem where
  | malformed
  | evaluation (name : String) (reason : EvalError)

/-- Why there are no input variables. -/
inductive VariableProblem where
  | unlistable (dir reason : String)
  | unreadable (path reason : String)
  | malformedJson (path : String)
  | notAnObject (path : String)
  | text (path : String) (problem : VariableTextProblem)

/-- What is said of a text, the outermost first. -/
def VariableTextProblem.messages : VariableTextProblem → List String
  | malformed => []
  | evaluation name _ => ["evaluating variable '" ++ name ++ "'"]

def VariableProblem.messages : VariableProblem → List String
  | unlistable dir reason => ["listing " ++ dir, reason]
  | unreadable path reason => ["reading variable file " ++ path, reason]
  | malformedJson path => ["parsing JSON in " ++ path]
  | notAnObject path => [path ++ " must contain a JSON object"]
  | text path problem => ("parsing " ++ path) :: problem.messages

/-! ## Values in JSON -/

/-- The value of a JSON number; null for one that is not finite. -/
def Value.ofJsonNumeral (n : JsonNumeral) : Value :=
  match n.int64? with
  | some i => .int i
  | none =>
    match n.nat64? with
    | some u => .int u
    | none => .ofFloat n.toFloat

theorem Value.ofJsonNumeral_ne_object (n : JsonNumeral) (entries : List (String × Value)) :
    Value.ofJsonNumeral n ≠ .object entries := by
  rw [Value.ofJsonNumeral]
  split
  · simp [Value.int]
  · split
    · simp [Value.int]
    · rw [Value.ofFloat]
      split <;> simp

mutual

/-- The value that a JSON value stands for. -/
def Value.ofJson : JsonValue → Value
  | .null => .null
  | .bool b => .bool b
  | .number n => .ofJsonNumeral n
  | .text s => .text s
  | .list items => .list (valuesOfJson items)
  | .object entries => .object (bindingsOfJson entries)

def valuesOfJson : List JsonValue → List Value
  | [] => []
  | v :: rest => .ofJson v :: valuesOfJson rest

def bindingsOfJson : List (String × JsonValue) → List (String × Value)
  | [] => []
  | (k, v) :: rest => (k, .ofJson v) :: bindingsOfJson rest

end

/-! ## Values in native texts -/

/-- Puts the values of a body's attributes after those in `acc`. -/
def evaluateVariables (acc : Entries Value) : List Item → Except VariableTextProblem (Entries Value)
  | [] => .ok acc
  | .block .. :: rest => evaluateVariables acc rest
  | .attribute name e _ :: rest =>
    match e.eval (.ofVariables []) with
    | .ok d => evaluateVariables (acc.put name (.ofDatum d)) rest
    | .error reason => .error (.evaluation name reason)

/-- The values in the text of a native variable file. Its blocks do not count. -/
def readVariables (source : String) : Except VariableTextProblem (Entries Value) :=
  match Syntax.readSource? source with
  | some body => evaluateVariables [] body
  | none => .error .malformed

/-- Whether a file is a variable file that is used without being named. -/
def isAutomatic (path : String) : Bool :=
  let name := FilePath.fileName path
  name == "terraform.tfvars" || name == "terraform.tfvars.json"
    || endsWithText name ".auto.tfvars" || endsWithText name ".auto.tfvars.json"

/-! ## Files -/

namespace Loader

/-- The values in a variable file. -/
def loadVariables (l : Loader) (path : String) : Except VariableProblem (Entries Value) :=
  match l.load path with
  | .error reason => .error (.unreadable path reason)
  | .ok text =>
    if endsWithText path ".json" then
      match Json.read? text with
      | none => .error (.malformedJson path)
      | some v =>
        match Value.ofJson v.sortKeys with
        | .object entries => .ok entries
        | _ => .error (.notAnObject path)
    else (readVariables text).mapError (.text path)

/-- The values in files, those of later files over those of earlier ones. -/
def loadAllVariables (l : Loader) (acc : Entries Value) :
    List String → Except VariableProblem (Entries Value)
  | [] => .ok acc
  | path :: rest =>
    match l.loadVariables path with
    | .ok more => l.loadAllVariables (acc.putAll more) rest
    | .error problem => .error problem

/-- The values of the automatic files in `root`, and over them those of the files in `named`. -/
def inputVariables (l : Loader) (root : String) (named : List String) :
    Except VariableProblem (Entries Value) :=
  match l.list root with
  | .error reason => .error (.unlistable root reason)
  | .ok paths => l.loadAllVariables [] (sortByName (paths.filter isAutomatic) ++ named)

end Loader

end InfraConfig
