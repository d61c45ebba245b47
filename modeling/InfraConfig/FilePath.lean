import InfraConfig.Text.Search

/-!
# Paths of files

Paths are texts whose segments are separated by slashes. Dots are resolved by their meaning alone, without
looking at any file.
-/

namespace InfraConfig

namespace FilePath

/-- Whether a path starts at the root of the file system. -/
def isAbsolute (path : String) : Bool :=
  path.toList.head? == some '/'

/-- The segments of a path. Empty ones do not count, nor do single dots. -/
def segments (path : String) : List String :=
  (splitText "/" path).filter fun s => !(s.isEmpty || s == ".")

/-- The path with these segments. -/
def ofSegments (absolute : Bool) (segments : List String) : String :=
  (if absolute then "/" else "") ++ joinText "/" segments

/-- The same path in its shortest form, without resolving double dots. -/
def tidy (path : String) : String :=
  ofSegments (isAbsolute path) (segments path)

/-- `path` as seen from `base`; an absolute path is itself. -/
def join (base path : String) : String :=
  if isAbsolute path then path
  else if base.isEmpty then path
  else if base.toList.getLast? == some '/' then base ++ path
  else base ++ "/" ++ path

/-- Resolves segments after those in `done`, which are in reverse: two dots take the last one away. -/
def resolve (done : List String) : List String → List String
  | [] => done.reverse
  | s :: rest => if s = ".." then resolve done.tail rest else resolve (s :: done) rest

/-- The absolute path that `path` means in the directory `base`. -/
def absolute (base path : String) : String :=
  if isAbsolute path then ofSegments true (resolve [] (segments path))
  else if path.isEmpty then base
  else ofSegments (isAbsolute base) (resolve (segments base).reverse (segments path))

/-- Whether a path lies in a directory, or is that directory. -/
def isWithin (base path : String) : Bool :=
  (base.isEmpty || isAbsolute base == isAbsolute path) && (segments base).isPrefixOf (segments path)

/-- The last segment. -/
def fileName (path : String) : String :=
  (segments path).getLastD ""

/-- The directory that a file stands in. -/
def parent (path : String) : String :=
  ofSegments (isAbsolute path) (segments path).dropLast

/-- How many segments two paths share at their start. -/
def sharedLength : List String → List String → Nat
  | a :: as, b :: bs => if a = b then sharedLength as bs + 1 else 0
  | _, _ => 0

/-- The way from directory `base` to `path`; a dot when they are the same. -/
def relative (base path : String) : String :=
  let start := segments base
  let goal := segments path
  let shared := sharedLength start goal
  let way := List.replicate (start.length - shared) ".." ++ goal.drop shared
  if way.isEmpty then "." else joinText "/" way

/-- Whether `a` comes before `b`, segment by segment. -/
def before (a b : String) : Bool :=
  segments a < segments b

/-- Puts a path in its place among ascending ones, unless it is there. -/
def insertSorted (path : String) : List String → List String
  | [] => [path]
  | p :: rest =>
    if path = p then p :: rest
    else if before path p then path :: p :: rest
    else p :: insertSorted path rest

end FilePath

end InfraConfig
