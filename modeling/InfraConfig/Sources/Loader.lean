import InfraConfig.Block.Basic

/-!
# Loading files

All files come through a loader. It tells the text of a file and which files stand in a directory, or the
reason why it cannot.
-/

namespace InfraConfig

structure Loader where
  load : String → Except String String
  /-- The paths of the files directly inside a directory, in any order. -/
  list : String → Except String (List String)

/-- Why configuration files cannot be used. -/
inductive LoadProblem where
  | unreadable (path reason : String)
  | malformed (path : String)
  | malformedJson (path : String)
  | notAnObject (path : String)
  /-- Module calls are nested beyond every bound. -/
  | tooDeep
  deriving DecidableEq

def LoadProblem.message : LoadProblem → String
  | unreadable path reason => "failed to read " ++ path ++ ": " ++ reason
  | malformed path => "failed to parse " ++ path
  | malformedJson path => "invalid JSON in " ++ path
  | notAnObject path =>
    "failed to parse " ++ path ++ ": top-level JSON value must be an object"
  | tooDeep => "module calls are nested too deeply"

/-- A configuration file with its top-level blocks. -/
structure SourceFile where
  path : String
  text : String
  blocks : List BlockTree

end InfraConfig
