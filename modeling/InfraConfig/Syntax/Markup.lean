import InfraConfig.Syntax.Literal
import InfraConfig.Text.Search

/-!
# The text of a template

A template is kept as a text, which is read again as it stands. Its literal text is kept with the escapes
replaced and the markers doubled, its code as it was written, with the blanks and comments. Texts and
templates inside the code are quoted anew.

Escapes are written from the opening mark of a quoted template to the next closing one. So the literal
text that follows an inner template is kept without them.
-/

namespace InfraConfig

namespace Markup

open Syntax

inductive Piece where
  /-- Literal text with its escapes replaced. -/
  | literal (text : List Char)
  /-- Literal text that a directive encloses. -/
  | enclosed (text : List Char)
  /-- A character of an interpolation or directive. -/
  | code (c : Char)
  /-- A quoted text or template in the code. -/
  | quoted (content : List Piece)
  /-- A heredoc in the code; `closing` is its last line. -/
  | heredoc (start : HeredocStart) (content : List Piece) (closing : List Char)

/-! ## Indentation -/

/-- The lines of a literal text, changed where they begin in it: the first one does at the start of a
template only. -/
def mapLines (atStart : Bool) (f : List Char → List Char) (text : List Char) : List Char :=
  let lines := (textLines (.ofList text)).map String.toList
  let lines := if atStart then lines.map f else lines.take 1 ++ (lines.drop 1).map f
  intercalateList ['\n'] lines ++ (if text.getLast? == some '\n' then ['\n'] else [])

/-- The least number of blanks that the lines beginning in a literal text start with. Empty lines do not
count. -/
def leastBlanks? (atStart : Bool) (text : List Char) : Option Nat :=
  let lines := (textLines (.ofList text)).map String.toList
  let lines := (if atStart then lines else lines.drop 1).filter (!·.isEmpty)
  (lines.map fun line => (line.takeWhile isBlank).length).min?

/-- The indentation of a template: the least of its literal texts' that have one. -/
def indentation? (pieces : List Piece) : Option Nat :=
  (pieces.zipIdx.filterMap fun (piece, i) =>
    match piece with
    | .literal text => (leastBlanks? (i == 0) text).filter (0 < ·)
    | _ => none).min?

/-- Changes the lines that begin in the literal texts of a template. -/
def mapLiteralLines (f : List Char → List Char) (pieces : List Piece) : List Piece :=
  pieces.zipIdx.map fun (piece, i) =>
    match piece with
    | .literal text => .literal (mapLines (i == 0) f text)
    | piece => piece

/-- Takes the indentation from every line. -/
def unindent (pieces : List Piece) : List Piece :=
  match indentation? pieces with
  | some n => mapLiteralLines (·.drop n) pieces
  | none => pieces

/-- Puts blanks in the place of the indentation, on lines that have more than it. -/
def blankIndent (pieces : List Piece) : List Piece :=
  match indentation? pieces with
  | some n =>
    mapLiteralLines (fun line =>
      let shown := line.drop n
      if shown.isEmpty then [] else .replicate n ' ' ++ shown) pieces
  | none => pieces

/-! ## Pieces of a written template -/

/-- Adds text to the literal text at the end. -/
def extend (text : List Char) : List Piece → List Piece
  | [] => [.literal text]
  | [.literal last] => [.literal (last ++ text)]
  | piece :: rest => piece :: extend text rest

/-- How many directives are open after one whose opening mark is read, when `depth` were before it. -/
def depthAfter (depth : Nat) (cs : List Char) : Nat :=
  let word := skipAll (readStrip cs).2
  if (after? "if" word).isSome || (after? "for" word).isSome then depth + 1
  else if (after? "end" word).isSome then depth - 1
  else depth

/-- What stands in `cs` before its end `rest`. -/
def before (cs rest : List Char) : List Char :=
  cs.take (cs.length - rest.length)

mutual

/-- The pieces of a well-formed template up to its end, inside `depth` directives. -/
def scan (form : TemplateForm) : Nat → Nat → List Char → List Piece × List Char
  | 0, _, cs => ([], cs)
  | fuel + 1, depth, cs =>
    if depth = 0 ∧ form.endsAt cs then ([], cs)
    else
      match cs with
      | [] => ([], [])
      | '$' :: '\x7b' :: rest =>
        let (code, rest) := scanCode fuel 0 rest
        let (more, rest) := scan form fuel depth rest
        (.code '$' :: .code '\x7b' :: code ++ more, rest)
      | '%' :: '\x7b' :: rest =>
        let depth := depthAfter depth rest
        let (code, rest) := scanCode fuel 0 rest
        let (more, rest) := scan form fuel depth rest
        (.code '%' :: .code '\x7b' :: code ++ more, rest)
      | _ =>
        match readLiteral (if depth = 0 then form else .bare) (cs.length + 1) cs with
        | some (text, rest) =>
          let (more, rest) := scan form fuel depth rest
          ((if depth = 0 then .literal text else .enclosed text) :: more, rest)
        | none => ([], cs)

/-- The pieces of code up to and with the brace that closes it, inside `braces` more of them. -/
def scanCode : Nat → Nat → List Char → List Piece × List Char
  | 0, _, cs => ([], cs)
  | fuel + 1, braces, cs =>
    match cs with
    | [] => ([], [])
    | '"' :: rest =>
      let (content, rest) := scan .quoted fuel 0 rest
      let (more, rest) := scanCode fuel braces (rest.drop 1)
      (.quoted content :: more, rest)
    | c :: rest =>
      match readHeredocStart cs with
      | some (start, rest) =>
        let (content, closing, rest) := scanHeredoc fuel start rest
        let (more, rest) := scanCode fuel braces rest
        (.heredoc start (if start.flush then blankIndent content else content) closing :: more, rest)
      | none =>
        match afterComment? true cs with
        | some rest =>
          let (more, after) := scanCode fuel braces rest
          ((before cs rest).map .code ++ more, after)
        | none =>
          if c == '\x7d' && braces == 0 then ([.code c], rest)
          else
            let braces := if c == '\x7b' then braces + 1 else if c == '\x7d' then braces - 1 else braces
            let (more, rest) := scanCode fuel braces rest
            (.code c :: more, rest)

/-- The pieces of a heredoc whose mark is read, and its last line. -/
def scanHeredoc : Nat → HeredocStart → List Char → List Piece × List Char × List Char
  | 0, _, cs => ([], [], cs)
  | fuel + 1, start, cs =>
    match afterDelimiter? start.delimiter cs with
    | some rest => ([], before cs rest, rest)
    | none =>
      let (content, rest) := scan (.heredoc start.delimiter) fuel 0 cs
      match readLineEnd rest with
      | some (lineEnd, last) =>
        let rest := (afterDelimiter? start.delimiter last).getD []
        (extend lineEnd content, before last rest, rest)
      | none => (content, [], rest)

end

/-! ## Writing pieces -/

/-- The literal text of a quoted text without code. -/
def plainText? : List Piece → Option (List Char)
  | [] => some []
  | [.literal text] => some text
  | _ => none

def writeLiteral (escaping : Bool) (text : List Char) : List Char :=
  let text := Escape.markers text
  if escaping then text.flatMap Escape.write else text

/-- The mark of a heredoc with its line end. -/
def writeStart (start : HeredocStart) : List Char :=
  ['<', '<'] ++ (if start.flush then ['-'] else []) ++ start.delimiter.toList ++ ['\n']

mutual

/-- The text of a piece. `escaping` tells whether literal text gets its escapes here; the second result tells
it for what follows. -/
def writePiece (escaping : Bool) : Piece → List Char × Bool
  | .literal text => (writeLiteral escaping text, escaping)
  | .enclosed text => (writeLiteral escaping text, escaping)
  | .code c => ([c], escaping)
  | .quoted content =>
    match plainText? content with
    | some text => (Escape.quote (Escape.markers text), escaping)
    | none => ('"' :: (writePieces true content).1 ++ ['"'], false)
  | .heredoc start content closing =>
    let (text, escaping) := writePieces escaping content
    (writeStart start ++ text ++ closing, escaping)

def writePieces (escaping : Bool) : List Piece → List Char × Bool
  | [] => ([], escaping)
  | piece :: rest =>
    let (text, escaping) := writePiece escaping piece
    let (more, escaping) := writePieces escaping rest
    (text ++ more, escaping)

end

def write (pieces : List Piece) : String :=
  .ofList (writePieces false pieces).1

/-- The text of a quoted template whose opening mark is read. -/
def ofQuoted (cs : List Char) : String :=
  write (scan .quoted (2 * cs.length + 2) 0 cs).1

/-- The text of a heredoc whose mark is read. -/
def ofHeredoc (start : HeredocStart) (cs : List Char) : String :=
  let (content, _, _) := scanHeredoc (2 * cs.length + 3) start cs
  write (if start.flush then unindent content else content)

end Markup

end InfraConfig
