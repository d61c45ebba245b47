import InfraConfig.Text.Property
import InfraConfig.Text.Escape
import InfraConfig.Decimal.Reader
import InfraConfig.Number

/-!
# Lexical elements

Names, numbers, and blanks with comments. A reader takes the unread text and gives what it read with the
rest.
-/

namespace InfraConfig

namespace Syntax

def isNameStart (c : Char) : Bool :=
  c == '_' || isIdentifierStart c

def isNameRest (c : Char) : Bool :=
  c == '-' || isIdentifierContinue c

/-- A name: a letter or underscore, then letters, marks, digits, underscores and hyphens. -/
def readName (cs : List Char) : Option (String × List Char) :=
  match cs with
  | c :: rest =>
    if isNameStart c then some (.ofList (c :: rest.takeWhile isNameRest), rest.dropWhile isNameRest)
    else none
  | [] => none

/-- What follows a fixed sequence at the front. -/
def after? (p : String) (cs : List Char) : Option (List Char) :=
  if p.toList.isPrefixOf cs then some (cs.drop p.length) else none

/-! ## Blanks and comments -/

def isSpace (c : Char) : Bool :=
  c == ' ' || c == '\t'

def isLineEnd (c : Char) : Bool :=
  c == '\n' || c == '\r'

/-- A line end at the front, and what follows it. -/
def readLineEnd (cs : List Char) : Option (List Char × List Char) :=
  match cs with
  | '\n' :: rest => some (['\n'], rest)
  | '\r' :: '\n' :: rest => some (['\r', '\n'], rest)
  | _ => none

/-- Drops the rest of a line, up to its end. A carriage return elsewhere than in a line end is refused. -/
def afterLine? (cs : List Char) : Option (List Char) :=
  match cs.dropWhile (!isLineEnd ·) with
  | [] => some []
  | rest => (readLineEnd rest).map fun _ => rest

/-- What follows a comment at the front that ends with its line. -/
def afterLineComment? (cs : List Char) : Option (List Char) :=
  match cs with
  | '#' :: rest => afterLine? rest
  | '/' :: '/' :: rest => afterLine? rest
  | _ => none

/-- What follows the end of a block comment. -/
def afterBlockEnd? : List Char → Option (List Char)
  | '*' :: '/' :: rest => some rest
  | _ :: rest => afterBlockEnd? rest
  | [] => none

/-- What follows a comment at the front with marks on both sides. -/
def afterBlockComment? (cs : List Char) : Option (List Char) :=
  match cs with
  | '/' :: '*' :: rest => afterBlockEnd? rest
  | _ => none

/-- What follows a comment at the front, which may be a line comment when `lines` holds. -/
def afterComment? (lines : Bool) (cs : List Char) : Option (List Char) :=
  match if lines then afterLineComment? cs else none with
  | some rest => some rest
  | none => afterBlockComment? cs

/-- Drops blanks and block comments within a line, and when `lines` holds also line ends and line
comments. An unfinished comment stays. -/
def skip (lines : Bool) : Nat → List Char → List Char
  | 0, cs => cs
  | fuel + 1, cs =>
    match cs with
    | [] => []
    | c :: rest =>
      if isSpace c || (lines && isLineEnd c) then skip lines fuel rest
      else
        match afterComment? lines cs with
        | some rest => skip lines fuel rest
        | none => cs

/-- Drops blanks and comments; `lines` tells whether line ends are blanks here. -/
def skipBlanks (lines : Bool) (cs : List Char) : List Char :=
  skip lines cs.length cs

/-- Drops blanks and comments, with line ends. -/
def skipAll (cs : List Char) : List Char :=
  skipBlanks true cs

/-- Drops the blanks and the comment at the end of a line. The line must end there, or the text. -/
def afterLineEnd? (cs : List Char) : Option (List Char) :=
  let rest := skipBlanks false cs
  match (afterLineComment? rest).getD rest with
  | [] => some []
  | rest => (readLineEnd rest).map (·.2)

/-! ## Numbers -/

/-- The digits of a fraction at the front: a point and at least one digit. -/
def readFraction (cs : List Char) : List Char × List Char :=
  match cs with
  | '.' :: rest =>
    let ds := rest.takeWhile Char.isDigit
    if ds.isEmpty then ([], cs) else (ds, rest.dropWhile Char.isDigit)
  | _ => ([], cs)

/-- An exponent at the front. -/
def readExponentMark (cs : List Char) : Option Int × List Char :=
  match cs with
  | c :: rest =>
    if c == 'e' || c == 'E' then
      let (minus, body) := takeSign rest
      let ds := body.takeWhile Char.isDigit
      if ds.isEmpty then (none, cs)
      else (some (Binary64.signed minus (decimalNat ds)), body.dropWhile Char.isDigit)
    else (none, cs)
  | [] => (none, [])

/-- A number literal. Without fraction and exponent it is an integer below `2 ^ 64`; otherwise it is
a finite binary64 number. -/
def readNumberLiteral (cs : List Char) : Option (Number × List Char) :=
  let whole := cs.takeWhile Char.isDigit
  if whole.isEmpty then none
  else
    let (fraction, rest) := readFraction (cs.dropWhile Char.isDigit)
    let (exponent, rest) := readExponentMark rest
    if fraction.isEmpty && exponent.isNone then
      let n := decimalNat whole
      if n < nat64Limit then some (.int n, rest) else none
    else
      let x := nearest false (decimalNat (whole ++ fraction)) (exponent.getD 0 - fraction.length)
      (Number.ofFloat? x).map fun n => (n, rest)

/-- A number literal with a minus sign before it, on the same line. -/
def readNegativeLiteral (cs : List Char) : Option (Number × List Char) :=
  match cs with
  | '-' :: rest => (readNumberLiteral (skipBlanks false rest)).map fun (n, rest) => (n.neg, rest)
  | _ => none

/-- A position in a list: below `2 ^ 64`, and without leading zeros. -/
def readPosition (cs : List Char) : Option (Nat × List Char) :=
  match cs with
  | '0' :: rest => some (0, rest)
  | _ =>
    let ds := cs.takeWhile Char.isDigit
    let n := decimalNat ds
    if ds.isEmpty || nat64Limit ≤ n then none else some (n, cs.dropWhile Char.isDigit)

end Syntax

end InfraConfig
