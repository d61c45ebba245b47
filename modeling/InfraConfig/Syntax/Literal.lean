import InfraConfig.Syntax.Lexical
import InfraConfig.Syntax.Expr

/-!
# Literal text of templates

The text between interpolations and directives, which ends differently in quotation marks, in the lines of
a heredoc and in the text that a directive encloses. Only quotation marks know escapes.
-/

namespace InfraConfig

namespace Syntax

/-- How a template is written. -/
inductive TemplateForm where
  | quoted
  /-- In lines, up to one that starts with the delimiter. -/
  | heredoc (delimiter : String)
  /-- As it stands: a whole text, or what a directive encloses. -/
  | bare
  deriving DecidableEq

/-- The mark of a heredoc: whether its lines lose their common indentation, and the delimiter. -/
structure HeredocStart where
  flush : Bool
  delimiter : String

/-- The mark of a heredoc with the line end after it. -/
def readHeredocStart (cs : List Char) : Option (HeredocStart × List Char) := do
  let rest ← after? "<<" cs
  let (flush, rest) := match rest with
    | '-' :: rest => (true, rest)
    | _ => (false, rest)
  let (delimiter, rest) ← readName rest
  let (_, rest) ← readLineEnd rest
  some (⟨flush, delimiter⟩, rest)

/-- What follows the delimiter of a heredoc at the start of a line. A longer name is no delimiter. -/
def afterDelimiter? (delimiter : String) (cs : List Char) : Option (List Char) := do
  let rest ← after? delimiter (cs.dropWhile isSpace)
  if rest.head?.any isNameRest then none else some rest

/-- What follows the end of a heredoc: the end of its last line, and the delimiter. -/
def afterHeredoc? (delimiter : String) (cs : List Char) : Option (List Char) := do
  let (_, rest) ← readLineEnd cs
  afterDelimiter? delimiter rest

/-- Whether a template of a form ends here. -/
def TemplateForm.endsAt (form : TemplateForm) (cs : List Char) : Bool :=
  match form with
  | quoted => cs.head? == some '"'
  | heredoc delimiter => (afterHeredoc? delimiter cs).isSome
  | bare => false

/-- Literal text up to an interpolation, a directive or the end. A doubled mark stands for itself. -/
def readLiteral (form : TemplateForm) : Nat → List Char → Option (List Char × List Char)
  | 0, _ => none
  | fuel + 1, cs =>
    match cs with
    | [] => some ([], [])
    | '$' :: '$' :: '\x7b' :: rest => do
      let (text, rest) ← readLiteral form fuel rest
      some ('$' :: '\x7b' :: text, rest)
    | '%' :: '%' :: '\x7b' :: rest => do
      let (text, rest) ← readLiteral form fuel rest
      some ('%' :: '\x7b' :: text, rest)
    | '$' :: '\x7b' :: _ => some ([], cs)
    | '%' :: '\x7b' :: _ => some ([], cs)
    | c :: rest =>
      if form.endsAt cs then some ([], cs)
      else if form = .quoted ∧ c = '\\' then do
        let (c, rest) ← Escape.read rest
        let (text, rest) ← readLiteral form fuel rest
        some (c :: text, rest)
      else do
        let (text, rest) ← readLiteral form fuel rest
        some (c :: text, rest)

/-- Quoted text without interpolation, whose opening quotation mark is read. -/
def readQuoted (cs : List Char) : Option (String × List Char) := do
  let (text, rest) ← readLiteral .quoted (cs.length + 1) cs
  let rest ← after? "\"" rest
  some (.ofList text, rest)

/-! ## Strip markers -/

/-- A strip marker at the front. -/
def readStrip (cs : List Char) : Bool × List Char :=
  match cs with
  | '~' :: rest => (true, rest)
  | _ => (false, cs)

/-- The end of an interpolation or directive, with its strip marker. -/
def readClose (cs : List Char) : Option (Bool × List Char) :=
  let (strip, rest) := readStrip (skipAll cs)
  (after? "\x7d" rest).map fun rest => (strip, rest)

/-- A directive that consists of one word, such as `else`. -/
def readWordDirective (word : String) (cs : List Char) : Option (Strip × List Char) := do
  let rest ← after? "%\x7b" cs
  let (before, rest) := readStrip rest
  let rest ← after? word (skipAll rest)
  let (closing, rest) ← readClose rest
  some (⟨before, closing⟩, rest)

/-- Whether a directive here closes an enclosing one. -/
def closesDirective (cs : List Char) : Bool :=
  ["else", "endif", "endfor"].any fun word => (readWordDirective word cs).isSome

end Syntax

end InfraConfig
