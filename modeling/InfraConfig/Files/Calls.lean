import InfraConfig.Evaluation
import InfraConfig.Files.Table
import InfraConfig.Syntax.Template

/-!
# Calls that read files

The functions `file`, `fileexists`, `filebase64` and `templatefile` depend on what has been read. A call of
one of them is replaced by its result before the expression around it is evaluated; a call that has no
result yet stays, and its file is asked for. Bodies of `for` and keys of objects are not looked into.
-/

namespace InfraConfig

inductive FileFunction where
  | file
  | exists
  | base64
  | template
  deriving DecidableEq

namespace FileFunction

def names : List (String × FileFunction) :=
  [("file", file), ("fileexists", .exists), ("filebase64", base64), ("templatefile", template)]

/-- The file function that a name in a call stands for. -/
def ofName? (f : FunctionName) : Option FileFunction :=
  if f.spaces.isEmpty then names.lookup f.name else none

/-- The variables of a template file. -/
def templateVariables? : Option Datum → Option (List (String × Datum))
  | some (.object entries) => some entries
  | some .null => some []
  | none => some []
  | some _ => none

/-- The text of a template file with its variables filled in. -/
def render? (source : String) (bindings : Option Datum) : Option String := do
  let parts ← Syntax.readTemplate? source
  let bindings ← templateVariables? bindings
  (evalParts (.ofVariables bindings.reverse) false false parts).toOption

/-- The result of a call, as far as the table has it. -/
def result? (state : FileState) (args : List Datum) : FileFunction → Option Expr
  | file =>
    match state with
    | .text s => some (.text s)
    | _ => none
  | .exists =>
    match state with
    | .text _ => some (.bool true)
    | .missing => some (.bool false)
    | _ => none
  | base64 =>
    match state with
    | .text s => some (.text (Functions.encodeBase64 (utf8Bytes s)))
    | _ => none
  | template =>
    match state with
    | .text s => (render? s args[1]?).map .text
    | _ => none

/-- The result of a call with its arguments evaluated, and the paths it asks for. -/
def run (t : FileTable) (f : FileFunction) (args : List Datum) : Option Expr × List String :=
  match args.head? with
  | some (.text name) =>
    match t.lookup name with
    | .unread path => (none, [path])
    | state => (f.result? state args, [])
  | _ => (none, [])

/-- Whether the text of a template has a call of a file function in it. -/
def inTemplate (source : String) : Bool :=
  names.any fun (name, _) => containsText source (name ++ "(")

end FileFunction

mutual

/-- Whether an expression calls a file function somewhere. -/
def Expr.mentionsFiles : Expr → Bool
  | .call f args _ => (FileFunction.ofName? f).isSome || anyMentionsFiles args
  | .template source _ => FileFunction.inTemplate source
  | .list items => anyMentionsFiles items
  | .object entries => entriesMentionFiles entries
  | .paren e => e.mentionsFiles
  | .conditional c yes no => c.mentionsFiles || yes.mentionsFiles || no.mentionsFiles
  | .unary _ e => e.mentionsFiles
  | .binary _ a b => a.mentionsFiles || b.mentionsFiles
  | .traversal root steps => root.mentionsFiles || stepsMentionFiles steps
  | .forEach _ _ collection _ _ _ _ => collection.mentionsFiles
  | .null => false
  | .bool _ => false
  | .number _ => false
  | .text _ => false
  | .variable _ => false

def anyMentionsFiles : List Expr → Bool
  | [] => false
  | e :: rest => e.mentionsFiles || anyMentionsFiles rest

def entriesMentionFiles : List (Key × Expr) → Bool
  | [] => false
  | (_, e) :: rest => e.mentionsFiles || entriesMentionFiles rest

def stepsMentionFiles : List Step → Bool
  | [] => false
  | .index e :: rest => e.mentionsFiles || stepsMentionFiles rest
  | .attribute _ :: rest => stepsMentionFiles rest
  | .position _ :: rest => stepsMentionFiles rest
  | .attributeSplat :: rest => stepsMentionFiles rest
  | .fullSplat :: rest => stepsMentionFiles rest

end

mutual

/-- The expression with the calls of file functions replaced by their results, and the paths asked for on
the way. -/
def Expr.inlineFiles (env : Environment) (t : FileTable) : Expr → Expr × List String
  | .call f args spread =>
    let (args, asked) := inlineAll env t args
    let call := Expr.call f args spread
    match FileFunction.ofName? f with
    | none => (call, asked)
    | some function =>
      match (evalItems env args).toOption with
      | none => (call, asked)
      | some values =>
        let (result, more) := function.run t values
        (result.getD call, asked ++ more)
  | .template source parts =>
    if FileFunction.inTemplate source then
      let (text, asked) := renderTemplate env t parts
      (match text with
        | some text => .text text
        | none => .template source parts, asked)
    else (.template source parts, [])
  | .list items =>
    let (items, asked) := inlineAll env t items
    (.list items, asked)
  | .object entries =>
    let (entries, asked) := inlineEntries env t entries
    (.object entries, asked)
  | .paren e =>
    let (e, asked) := e.inlineFiles env t
    (.paren e, asked)
  | .conditional c yes no =>
    let (c, a) := c.inlineFiles env t
    let (yes, b) := yes.inlineFiles env t
    let (no, d) := no.inlineFiles env t
    (.conditional c yes no, a ++ b ++ d)
  | .unary op e =>
    let (e, asked) := e.inlineFiles env t
    (.unary op e, asked)
  | .binary op a b =>
    let (a, asked) := a.inlineFiles env t
    let (b, more) := b.inlineFiles env t
    (.binary op a b, asked ++ more)
  | .traversal root steps =>
    let (root, asked) := root.inlineFiles env t
    let (steps, more) := inlineSteps env t steps
    (.traversal root steps, asked ++ more)
  | .forEach key value collection resultKey result condition grouping =>
    let (collection, asked) := collection.inlineFiles env t
    (.forEach key value collection resultKey result condition grouping, asked)
  | .null => (.null, [])
  | .bool b => (.bool b, [])
  | .number n => (.number n, [])
  | .text s => (.text s, [])
  | .variable name => (.variable name, [])

def inlineAll (env : Environment) (t : FileTable) : List Expr → List Expr × List String
  | [] => ([], [])
  | e :: rest =>
    let (e, asked) := e.inlineFiles env t
    let (rest, more) := inlineAll env t rest
    (e :: rest, asked ++ more)

def inlineEntries (env : Environment) (t : FileTable) :
    List (Key × Expr) → List (Key × Expr) × List String
  | [] => ([], [])
  | (k, e) :: rest =>
    let (e, asked) := e.inlineFiles env t
    let (rest, more) := inlineEntries env t rest
    ((k, e) :: rest, asked ++ more)

def inlineSteps (env : Environment) (t : FileTable) : List Step → List Step × List String
  | [] => ([], [])
  | .index e :: rest =>
    let (e, asked) := e.inlineFiles env t
    let (rest, more) := inlineSteps env t rest
    (.index e :: rest, asked ++ more)
  | .attribute name :: rest =>
    let (rest, asked) := inlineSteps env t rest
    (.attribute name :: rest, asked)
  | .position n :: rest =>
    let (rest, asked) := inlineSteps env t rest
    (.position n :: rest, asked)
  | .attributeSplat :: rest =>
    let (rest, asked) := inlineSteps env t rest
    (.attributeSplat :: rest, asked)
  | .fullSplat :: rest =>
    let (rest, asked) := inlineSteps env t rest
    (.fullSplat :: rest, asked)

/-- The text of a template with file calls, if it has no directives and all its interpolations are primitive
values. Its literal parts are taken as they are. -/
def renderTemplate (env : Environment) (t : FileTable) :
    Option (List Part) → Option String × List String
  | none => (none, [])
  | some parts => renderParts env t parts

def renderParts (env : Environment) (t : FileTable) : List Part → Option String × List String
  | [] => (some "", [])
  | .literal s :: rest =>
    let (text, asked) := renderParts env t rest
    (text.map (s ++ ·), asked)
  | .interpolation e _ :: rest =>
    let (e, asked) := e.inlineFiles env t
    match (e.eval env).toOption.bind fun d => (plainText d).toOption with
    | some s =>
      let (text, more) := renderParts env t rest
      (text.map (s ++ ·), asked ++ more)
    | none => (none, asked)
  | .branch .. :: _ => (none, [])
  | .loop .. :: _ => (none, [])

end

/-- The value of an expression that may read files. -/
def Expr.evalWithFiles (env : Environment) (t : FileTable) (e : Expr) : Except EvalError Datum :=
  if e.mentionsFiles then (e.inlineFiles env t).1.eval env else e.eval env

/-- The paths that an expression asks for. -/
def Expr.askedFiles (env : Environment) (t : FileTable) (e : Expr) : List String :=
  if e.mentionsFiles then (e.inlineFiles env t).2 else []

end InfraConfig
