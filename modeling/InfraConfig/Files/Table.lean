import InfraConfig.FilePath
import InfraConfig.Entries

/-!
# Files that expressions read

Expressions read files from a table. It knows the texts of the files that have been read and which files
could not be; a path that is not in the table yet is wanted. Nothing outside the base directory can be
read or wanted.
-/

namespace InfraConfig

structure FileTable where
  base : String
  contents : Entries (Option String)
  /-- Paths to be read, in ascending order. -/
  wanted : List String
  deriving Inhabited

/-- What the table knows of a file. -/
inductive FileState where
  | outside
  | unread (path : String)
  | missing
  | text (s : String)
  deriving DecidableEq

namespace FileTable

def empty (base : String) : FileTable :=
  ⟨base, [], []⟩

/-- The absolute path that a name stands for, if it lies in the base directory. -/
def resolve? (t : FileTable) (name : String) : Option String :=
  let path := FilePath.absolute t.base name
  if FilePath.isWithin t.base path then some path else none

def lookup (t : FileTable) (name : String) : FileState :=
  match t.resolve? name with
  | none => .outside
  | some path =>
    match t.contents.get? path with
    | none => .unread path
    | some none => .missing
    | some (some s) => .text s

/-- Records the text of a file, or that it cannot be read. -/
def insert (t : FileTable) (path : String) (text : Option String) : FileTable :=
  { t with contents := t.contents.put (FilePath.tidy path) text }

/-- Records that files are wanted. -/
def want (t : FileTable) (paths : List String) : FileTable :=
  { t with wanted := paths.foldl (fun acc p => FilePath.insertSorted p acc) t.wanted }

/-- The wanted paths, which are no longer wanted then. -/
def takeWanted (t : FileTable) : List String × FileTable :=
  (t.wanted, { t with wanted := [] })

end FileTable

end InfraConfig
