import InfraConfig.Sources.Native
import InfraConfig.Sources.Document

/-!
# Configuration directories

The configuration of a directory is in its files, which are read in the order of their names. What cannot be
read is left out, unless the first problem is to stop everything.
-/

namespace InfraConfig

/-- Whether a file holds configuration. -/
def isConfigFile (path : String) : Bool :=
  let name := FilePath.fileName path
  endsWithText name ".tf" || endsWithText name ".tf.json"

/-- Puts a path in front of the first one with a greater file name. -/
def insertByName (path : String) : List String → List String
  | [] => [path]
  | p :: rest =>
    if FilePath.fileName path < FilePath.fileName p then path :: p :: rest
    else p :: insertByName path rest

/-- Paths in the order of their file names. -/
def sortByName (paths : List String) : List String :=
  paths.foldl (fun acc p => insertByName p acc) []

namespace Loader

def loadFile (l : Loader) (path : String) : Except LoadProblem SourceFile :=
  match l.load path with
  | .error reason => .error (.unreadable path reason)
  | .ok text =>
    (if endsWithText path ".json" then readDocument path text else readNative path text).map
      fun blocks => ⟨path, text, blocks⟩

/-- The files that can be read; with `stop` all of them, or the first problem. -/
def loadFiles (l : Loader) (stop : Bool) : List String → Except LoadProblem (List SourceFile)
  | [] => .ok []
  | path :: rest =>
    match l.loadFile path with
    | .ok file => (l.loadFiles stop rest).map (file :: ·)
    | .error problem => if stop then .error problem else l.loadFiles stop rest

/-- The configuration files of a directory. -/
def loadDirectory (l : Loader) (dir : String) (stop : Bool) : Except LoadProblem (List SourceFile) :=
  match l.list dir with
  | .error reason => .error (.unreadable dir reason)
  | .ok paths => l.loadFiles stop (sortByName (paths.filter isConfigFile))

end Loader

end InfraConfig
