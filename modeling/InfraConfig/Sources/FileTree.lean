import InfraConfig.Sources.Loader

/-!
# File trees

The files that a command sees, held in memory: their texts by absolute path, and the working directory from
which other paths are read. There is a directory wherever something stands below it.
-/

namespace InfraConfig

structure FileTree where
  workingDir : String
  files : Entries String

namespace FileTree

/-- The tree of some files, whose paths are read from the working directory. -/
def ofFiles (workingDir : String) (files : Entries String) : FileTree :=
  ⟨workingDir, Entries.ofPairs (files.map fun (path, text) => (FilePath.absolute workingDir path, text))⟩

def isDirectory (t : FileTree) (dir : String) : Bool :=
  FilePath.isWithin dir t.workingDir || t.files.any fun (path, _) => path != dir && FilePath.isWithin dir path

/-- Where segments lead to from a directory. Everything on the way has to be a directory. -/
def walk? (t : FileTree) (dir : String) : List String → Option String
  | [] => some dir
  | s :: rest =>
    if t.isDirectory dir then
      t.walk? (if s = ".." then FilePath.parent dir else FilePath.join dir s) rest
    else none

/-- The absolute path of a file or directory, if the way to it exists. -/
def find? (t : FileTree) (path : String) : Option String :=
  t.walk? "/" (FilePath.segments (FilePath.join t.workingDir path))

/-- Whether there is a file or directory of a path. -/
def contains (t : FileTree) (path : String) : Bool :=
  (t.find? path).any fun path => t.isDirectory path || t.files.hasKey path

def load (t : FileTree) (path : String) : Except String String :=
  match (t.find? path).bind t.files.get? with
  | some text => .ok text
  | none => .error "no such file"

/-- The files in a directory. A file has no files in it. -/
def list (t : FileTree) (dir : String) : Except String (List String) :=
  if t.contains dir then
    .ok (((t.files.map (·.1)).filter fun path => some (FilePath.parent path) == t.find? dir))
  else .error "no such directory"

def loader (t : FileTree) : Loader :=
  ⟨t.load, t.list⟩

end FileTree

end InfraConfig
