import InfraConfig.Syntax.Expr

/-!
# Scope paths

Where an expression reads its scope: the variables in it, with the steps taken from them. Variables that a
`for` binds do not come from the scope, and directives of templates are not looked into.
-/

namespace InfraConfig

structure ScopePath where
  root : String
  steps : List Step

/-- The attribute names at the start of steps. -/
def leadingNames : List Step → List String
  | .attribute name :: rest => name :: leadingNames rest
  | _ => []

/-- The root and the names that follow it directly. -/
def ScopePath.names (p : ScopePath) : List String :=
  p.root :: leadingNames p.steps

/-- Whether a path starts at a variable that a `for` binds. -/
def ScopePath.isBoundBy (p : ScopePath) (key : Option String) (value : String) : Bool :=
  p.root == value || some p.root == key

mutual

/-- The scope paths of an expression, from left to right; those inside an index come after the path that is
indexed. -/
def Expr.scopePaths : Expr → List ScopePath
  | .variable name => [⟨name, []⟩]
  | .traversal (.variable name) steps => ⟨name, steps⟩ :: stepPaths steps
  | .traversal root steps => root.scopePaths ++ stepPaths steps
  | .list items => itemPaths items
  | .object entries => entryPaths entries
  | .template _ parts => templatePaths parts
  | .call _ args _ => itemPaths args
  | .paren e => e.scopePaths
  | .conditional c yes no => c.scopePaths ++ yes.scopePaths ++ no.scopePaths
  | .unary _ e => e.scopePaths
  | .binary _ a b => a.scopePaths ++ b.scopePaths
  | .forEach key value collection resultKey result condition _ =>
    collection.scopePaths
      ++ (optionPaths resultKey ++ result.scopePaths ++ optionPaths condition).filter
        fun p => !p.isBoundBy key value
  | .null => []
  | .bool _ => []
  | .number _ => []
  | .text _ => []

def itemPaths : List Expr → List ScopePath
  | [] => []
  | e :: rest => e.scopePaths ++ itemPaths rest

def entryPaths : List (Key × Expr) → List ScopePath
  | [] => []
  | (k, e) :: rest => k.scopePaths ++ e.scopePaths ++ entryPaths rest

def Key.scopePaths : Key → List ScopePath
  | .name _ => []
  | .expr e => e.scopePaths

def optionPaths : Option Expr → List ScopePath
  | none => []
  | some e => e.scopePaths

def stepPaths : List Step → List ScopePath
  | [] => []
  | .index e :: rest => e.scopePaths ++ stepPaths rest
  | .attribute _ :: rest => stepPaths rest
  | .position _ :: rest => stepPaths rest
  | .attributeSplat :: rest => stepPaths rest
  | .fullSplat :: rest => stepPaths rest

def templatePaths : Option (List Part) → List ScopePath
  | none => []
  | some parts => partPaths parts

def partPaths : List Part → List ScopePath
  | [] => []
  | .interpolation e _ :: rest => e.scopePaths ++ partPaths rest
  | .literal _ :: rest => partPaths rest
  | .branch .. :: rest => partPaths rest
  | .loop .. :: rest => partPaths rest

end

end InfraConfig
