import InfraConfig.Block.Basic
import InfraConfig.Files.Calls
import InfraConfig.ScopePath

/-!
# Values of attributes

An attribute has the value of its expression in the scope of its block, or it is unknown, or it has none.
Nothing is stored: a value is what the bindings give at the time.
-/

namespace InfraConfig

/-- Why an attribute has no value: it depends on an unknown one, or its expression fails. -/
inductive AttributeProblem where
  | unknown
  | expression (reason : EvalError)

namespace Scopes

/-- Whether a path or a beginning of it leads to an unknown value. -/
def meetsUnknown (s : Scopes) (id : ScopeId) (p : ScopePath) : Bool :=
  (List.range p.names.length).any fun n => (s.get? id (p.names.take (n + 1))).any Value.isUnknown

/-- Whether an expression reads something unknown. -/
def readsUnknown (s : Scopes) (id : ScopeId) (e : Expr) : Bool :=
  e.scopePaths.any (s.meetsUnknown id)

end Scopes

namespace Arena

def evaluate (a : Arena) (scope : ScopeId) (e : Expr) : Except AttributeProblem Value :=
  match e.evalWithFiles (a.scopes.environment scope) a.files with
  | .ok d => .ok (.ofDatum d)
  | .error reason =>
    if a.scopes.readsUnknown scope e then .error .unknown else .error (.expression reason)

/-- The value of an attribute; unknown if it has none. -/
def resolve (a : Arena) (b : Block) (attr : Attribute) : Value :=
  (a.evaluate b.scope attr.value).toOption.getD .unknown

/-- The value of an attribute; null if it has none. -/
def value (a : Arena) (b : Block) (attr : Attribute) : Value :=
  (a.evaluate b.scope attr.value).toOption.getD .null

/-- The values of all attributes of a block by name. -/
def values (a : Arena) (b : Block) : Value :=
  .object (Entries.ofPairs (b.attributes.map fun attr => (attr.name, a.resolve b attr)))

/-- The files that an attribute asks for. -/
def asked (a : Arena) (b : Block) (attr : Attribute) : List String :=
  if attr.value.mentionsFiles then attr.value.askedFiles (a.scopes.environment b.scope) a.files else []

/-- The arena in which the files that some attributes of a block ask for are wanted. -/
def noting (a : Arena) (b : Block) (attrs : List Attribute) : Arena :=
  { a with files := a.files.want (attrs.flatMap (a.asked b)) }

end Arena

namespace Attribute

/-- Whether an attribute reads nothing from its scope. -/
def isLiteral (attr : Attribute) : Bool :=
  attr.value.scopePaths.isEmpty

/-- The variable that a plain traversal starts at. -/
def rootName? (attr : Attribute) : Option String :=
  match attr.value with
  | .variable name => some name
  | .traversal (.variable name) _ => some name
  | _ => none

/-- The variable that the attribute consists of. -/
def keyword? (attr : Attribute) : Option String :=
  match attr.value with
  | .variable name => some name
  | _ => none

end Attribute

mutual

/-- The texts in an expression: literal ones, and the values of the parts that are texts. -/
def Expr.texts (env : Environment) : Expr → List String
  | .list items => itemTexts env items
  | .text s => [s]
  | .call f args spread => valueText env (.call f args spread)
  | .traversal root steps => valueText env (.traversal root steps)
  | .variable name => valueText env (.variable name)
  | .conditional c yes no => valueText env (.conditional c yes no)
  | .template source parts => valueText env (.template source parts)
  | _ => []

def itemTexts (env : Environment) : List Expr → List String
  | [] => []
  | e :: rest => e.texts env ++ itemTexts env rest

/-- The value of an expression when it is a text. -/
def valueText (env : Environment) (e : Expr) : List String :=
  match e.eval env with
  | .ok (.text s) => [s]
  | _ => []

end

/-! ## References -/

/-- The instance key that an index expression stands for. -/
def indexKey? (env : Environment) : Expr → Option InstanceKey
  | .number n => n.int64?.map .index
  | .text s => some (.name s)
  | e => ((e.eval env).toOption).bind fun d => InstanceKey.ofValue? (.ofDatum d)

/-- Adds text to the last name. -/
def extendLast (parts : List String) (text : String) : List String :=
  match parts.reverse with
  | last :: front => ((last ++ text) :: front).reverse
  | [] => []

/-- The names that steps lead through, after those in `parts`. Keys belong to the name before them; a splat
ends the names. -/
def referenceParts (env : Environment) (parts : List String) : List Step → List String
  | [] => parts
  | .attribute name :: rest => referenceParts env (parts ++ [name]) rest
  | .index e :: rest =>
    match indexKey? env e with
    | some key => referenceParts env (extendLast parts key.text) rest
    | none => referenceParts env parts rest
  | .position n :: rest =>
    referenceParts env (extendLast parts ("[" ++ toString n ++ "]")) rest
  | .attributeSplat :: _ => parts
  | .fullSplat :: _ => parts

/-- The reference that a scope path makes. -/
def ScopePath.reference (env : Environment) (p : ScopePath) : Reference :=
  .build (referenceParts env [p.root] p.steps)

/-- The references of an expression. -/
def Expr.references (env : Environment) (e : Expr) : List Reference :=
  e.scopePaths.map (·.reference env)

/-- References in the parts of a template or list. -/
def Expr.partReferences (env : Environment) (e : Expr) : List Reference :=
  match e with
  | .template .. => e.references env
  | .list _ => e.references env
  | _ => []

/-- References in the branches of a conditional, then in its condition. -/
def Expr.branchReferences (env : Environment) (e : Expr) : List Reference :=
  match e with
  | .conditional c yes no => yes.references env ++ no.references env ++ c.references env
  | _ => []

/-- The reference that an expression is: a traversal, or the first one in a template. -/
def Expr.reference (env : Environment) (e : Expr) : Except ReferenceProblem Reference :=
  match e with
  | .template .. =>
    match e.references env with
    | r :: _ => .ok r
    | [] => .error .emptyTemplate
  | .variable _ | .traversal .. =>
    match e.references env with
    | r :: _ => .ok r
    | [] => .error .notATraversal
  | _ => .error .notATraversal

/-- All references of an expression, the one that it is itself at the end. -/
def Expr.allReferences (env : Environment) (e : Expr) : List Reference :=
  e.partReferences env ++ e.branchReferences env ++ (e.reference env).toOption.toList

namespace Arena

def reference (a : Arena) (b : Block) (attr : Attribute) : Except ReferenceProblem Reference :=
  attr.value.reference (a.scopes.environment b.scope)

def allReferences (a : Arena) (b : Block) (attr : Attribute) : List Reference :=
  attr.value.allReferences (a.scopes.environment b.scope)

/-- Whether an attribute refers to a block. -/
def refersTo (a : Arena) (b : Block) (attr : Attribute) (target : Block) : Bool :=
  (a.allReferences b attr).any (·.refersTo target.reference)

/-- The texts in an attribute. -/
def texts (a : Arena) (b : Block) (attr : Attribute) : List String :=
  attr.value.texts (a.scopes.environment b.scope)

end Arena

end InfraConfig
