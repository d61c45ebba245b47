import InfraConfig.Text.Search

/-!
# Source ranges

Where a block or attribute stands: a file and its first and last line, counted from one.
-/

namespace InfraConfig

structure SourceRange where
  file : String
  first : Nat
  last : Nat
  deriving DecidableEq, Inhabited

/-- The text of a comment line, without its mark. -/
def commentText? (line : String) : Option String :=
  let cs := line.toList.dropWhile isBlank
  match afterStart? ['#'] cs with
  | some rest => some (trimBlanks (.ofList rest))
  | none => (afterStart? ['/', '/'] cs).map fun rest => trimBlanks (.ofList rest)

/-- The texts of comment lines up to the first line that is none. -/
def commentRun : List String → List String
  | [] => []
  | line :: rest =>
    match commentText? line with
    | some text => text :: commentRun rest
    | none => []

namespace SourceRange

/-- The lines of a range, and the comments right above it. -/
def readLines (r : SourceRange) (source : String) : List String × List String :=
  let all := textLines source
  if r.first = 0 ∨ all.length < r.first then ([], [])
  else
    let last := max r.first (min r.last all.length)
    let comments := (commentRun (all.take (r.first - 1)).reverse).reverse
    ((all.take last).drop (r.first - 1), comments)

def linesText (r : SourceRange) : String :=
  toString r.first ++ "-" ++ toString r.last

def text (r : SourceRange) : String :=
  r.file ++ ":" ++ r.linesText

end SourceRange

/-! ## Lines of offsets -/

/-- Where a number stands in an ascending array, or where it would stand. -/
inductive SearchResult where
  | found (i : Nat)
  | missing (i : Nat)
  deriving DecidableEq

/-- Looks for a number among those from `low` up to but without `high`, of which the half that cannot hold it is
left out in each step. -/
def searchBetween (xs : Array Nat) (x low high : Nat) (h : high ≤ xs.size) : SearchResult :=
  if hlow : low < high then
    have hmiddle : (low + high) / 2 < xs.size := by omega
    let y := xs[(low + high) / 2]
    if y = x then .found ((low + high) / 2)
    else if y < x then searchBetween xs x ((low + high) / 2 + 1) high h
    else searchBetween xs x low ((low + high) / 2) (by omega)
  else .missing low
termination_by high - low

/-- The bytes at which the lines of a source start, in ascending order. -/
structure LineIndex where
  starts : Array Nat
  ascending : starts.toList.Pairwise (· < ·)

namespace LineIndex

/-- The offsets right behind the line feeds in the rest of a source, which starts at `offset`. -/
def startsFrom (offset : Nat) : List Char → List Nat
  | [] => []
  | c :: rest =>
    let next := offset + c.utf8Size
    if c = '\n' then next :: startsFrom next rest else startsFrom next rest

theorem lt_of_mem_startsFrom {offset start : Nat} {source : List Char} (h : start ∈ startsFrom offset source) :
    offset < start := by
  induction source generalizing offset with
  | nil => cases h
  | cons c rest ih =>
    have hsize := c.utf8Size_pos
    rw [startsFrom] at h
    split at h
    · rcases List.mem_cons.mp h with rfl | hrest
      · omega
      · have := ih hrest
        omega
    · have := ih h
      omega

theorem pairwise_startsFrom (offset : Nat) (source : List Char) :
    (startsFrom offset source).Pairwise (· < ·) := by
  induction source generalizing offset with
  | nil => exact .nil
  | cons c rest ih =>
    rw [startsFrom]
    split
    · exact .cons (fun _ => lt_of_mem_startsFrom) (ih _)
    · exact ih _

def ofText (source : String) : LineIndex :=
  ⟨(0 :: startsFrom 0 source.toList).toArray, .cons (fun _ => lt_of_mem_startsFrom) (pairwise_startsFrom 0 _)⟩

/-- The number of the line that holds the byte at an offset. -/
def lineOf (lines : LineIndex) (offset : Nat) : Nat :=
  match searchBetween lines.starts offset 0 lines.starts.size (Nat.le_refl _) with
  | .found i => i + 1
  | .missing i => i

/-- The range of the bytes from `start` up to but without `stop`. -/
def range (lines : LineIndex) (file : String) (start stop : Nat) : SourceRange :=
  ⟨file, lines.lineOf start, lines.lineOf (if start < stop then stop - 1 else stop)⟩

/-- Number of lines, the one after the last line feed included. -/
def lineCount (lines : LineIndex) : Nat :=
  lines.starts.size

end LineIndex

end InfraConfig
