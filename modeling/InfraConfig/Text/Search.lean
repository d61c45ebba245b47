import InfraConfig.Text.Property

/-!
# Trimming and searching text

Removal of leading and trailing characters, of line ends and of fixed affixes. First occurrences, splitting and
replacing: an empty pattern occurs before every character and at the end.
-/

namespace InfraConfig

/-! ## Trimming -/

/-- Drops the characters of `p` at the end. -/
def dropEndWhile {α : Type} (p : α → Bool) (cs : List α) : List α :=
  (cs.reverse.dropWhile p).reverse

def trimList (p : Char → Bool) (cs : List Char) : List Char :=
  dropEndWhile p (cs.dropWhile p)

def trimBlanks (s : String) : String :=
  .ofList (trimList isBlank s.toList)

def isLineBlank (c : Char) : Bool :=
  isBlank c && c != '\n' && c != '\r'

/-- Drops the blanks at the start of a line, and the line end after them. -/
def trimLineStart (s : String) : String :=
  match s.toList.dropWhile isLineBlank with
  | '\n' :: rest => .ofList rest
  | '\r' :: '\n' :: rest => .ofList rest
  | rest => .ofList rest

/-- Drops the blanks at the end of a text, and the line end before them. -/
def trimLineEnd (s : String) : String :=
  match s.toList.reverse.dropWhile isLineBlank with
  | '\n' :: '\r' :: front => .ofList front.reverse
  | '\n' :: front => .ofList front.reverse
  | front => .ofList front.reverse

/-- The rest of `cs` after `p`, when `cs` starts with it. -/
def afterStart? {α : Type} [BEq α] (p cs : List α) : Option (List α) :=
  if p.isPrefixOf cs then some (cs.drop p.length) else none

/-- What stands before `p` in `cs`, when `cs` ends with it. -/
def beforeEnd? {α : Type} [BEq α] (p cs : List α) : Option (List α) :=
  if p.isSuffixOf cs then some (cs.take (cs.length - p.length)) else none

def withoutStart (p s : String) : String :=
  match afterStart? p.toList s.toList with
  | some rest => .ofList rest
  | none => s

def withoutEnd (p s : String) : String :=
  match beforeEnd? p.toList s.toList with
  | some front => .ofList front
  | none => s

def startsWithText (s p : String) : Bool :=
  p.toList.isPrefixOf s.toList

def endsWithText (s p : String) : Bool :=
  p.toList.isSuffixOf s.toList

/-! ## Searching -/

/-- What stands before and after the first occurrence of `p`. -/
def splitFirst? {α : Type} [BEq α] (p : List α) : List α → Option (List α × List α)
  | [] => if p.isEmpty then some ([], []) else none
  | c :: rest =>
    match afterStart? p (c :: rest) with
    | some after => some ([], after)
    | none => (splitFirst? p rest).map fun (before, after) => (c :: before, after)

def containsList {α : Type} [BEq α] (p cs : List α) : Bool :=
  (splitFirst? p cs).isSome

def containsText (s p : String) : Bool :=
  containsList p.toList s.toList

/-- The pieces of `cs` between the occurrences of the non-empty pattern `p`, which are found from
left to right without overlap; `skip` characters of a found occurrence are still to be passed over. -/
def splitPieces {α : Type} [BEq α] (p : List α) : Nat → List α → List (List α)
  | _, [] => [[]]
  | skip + 1, _ :: rest => splitPieces p skip rest
  | 0, c :: rest =>
    if p.isPrefixOf (c :: rest) then [] :: splitPieces p (p.length - 1) rest
    else match splitPieces p 0 rest with
      | [] => [[c]]
      | piece :: pieces => (c :: piece) :: pieces

/-- The pieces of `cs` around the occurrences of `p`. The empty pattern separates all characters and
leaves an empty piece at both ends. -/
def splitAll {α : Type} [BEq α] (p cs : List α) : List (List α) :=
  if p.isEmpty then [] :: cs.map (fun c => [c]) ++ [[]] else splitPieces p 0 cs

/-- The lists of `parts` one after another with `sep` between them. -/
def intercalateList {α : Type} (sep : List α) : List (List α) → List α
  | [] => []
  | [part] => part
  | part :: parts => part ++ sep ++ intercalateList sep parts

def splitText (sep s : String) : List String :=
  (splitAll sep.toList s.toList).map String.ofList

def joinText (sep : String) (parts : List String) : String :=
  .ofList (intercalateList sep.toList (parts.map String.toList))

/-- Every occurrence of `p` replaced by `by'`. -/
def replaceText (s p by' : String) : String :=
  joinText by' (splitText p s)

/-- The lines of a text given the pieces between its line feeds: every piece but the last was ended by
a line feed and loses a carriage return before it; nothing follows the last line feed. -/
def linesOfPieces : List (List Char) → List String
  | [] => []
  | [last] => if last.isEmpty then [] else [.ofList last]
  | piece :: pieces => .ofList ((beforeEnd? ['\r'] piece).getD piece) :: linesOfPieces pieces

/-- The lines of a text, without their ends. -/
def textLines (s : String) : List String :=
  linesOfPieces (splitList (· == '\n') s.toList)

end InfraConfig
