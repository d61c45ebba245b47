import InfraConfig.Encoding.Bytes
import InfraConfig.Syntax.Template

/-!
# Bodies

A source file is a body: attributes and blocks, each ended by its line. A block on one line holds at
most one attribute. Every attribute and block knows which bytes of the source it covers.
-/

namespace InfraConfig

/-- The bytes of a source from `start` up to but without `stop`. -/
structure Span where
  start : Nat
  stop : Nat
  deriving DecidableEq, Inhabited

inductive Item where
  | attribute (name : String) (value : Expr) (span : Span)
  | block (kind : String) (labels : List String) (body : List Item) (span : Span)
  deriving Inhabited

namespace Syntax

/-- A label of a block: a name, or quoted text without interpolation. -/
def readLabel (cs : List Char) : Option (String × List Char) :=
  match cs with
  | '"' :: rest => readQuoted rest
  | _ => readName cs

/-- Labels up to the opening brace, which is read. -/
def readLabels : Nat → List Char → Option (List String × List Char)
  | 0, _ => none
  | fuel + 1, cs =>
    match skipBlanks false cs with
    | '\x7b' :: rest => some ([], rest)
    | rest => do
      let (label, rest) ← readLabel rest
      let (labels, rest) ← readLabels fuel rest
      some (label :: labels, rest)

/-- The bytes of a source of `total` bytes that were read from `start` on, before `rest`. -/
def spanRead (total : Nat) (start rest : List Char) : Span :=
  ⟨total - utf8Length start, total - utf8Length rest⟩

/-- The only attribute of a block on one line, and the closing brace. -/
def readOneLine (total : Nat) (cs : List Char) : Option (List Item × List Char) :=
  match cs with
  | '\x7d' :: rest => some ([], rest)
  | _ => do
    let (name, rest) ← readName cs
    match skipBlanks false rest with
    | '=' :: rest => do
      let (value, rest) ← readValue (skipBlanks false rest)
      let item := Item.attribute name value (spanRead total cs rest)
      let rest ← after? "\x7d" (skipBlanks false rest)
      some ([item], rest)
    | _ => none

mutual

/-- Attributes and blocks up to the end of the text or of the enclosing block. `seen` holds the names of
the attributes so far, of which none may come again. -/
def readBody : Nat → Nat → List String → List Char → Option (List Item × List Char)
  | 0, _, _, _ => none
  | fuel + 1, total, seen, cs =>
    match skipAll cs with
    | [] => some ([], [])
    | '\x7d' :: rest => some ([], '\x7d' :: rest)
    | start => do
      let (name, rest) ← readName start
      match skipBlanks false rest with
      | '=' :: rest =>
        if seen.contains name then none
        else do
          let (value, rest) ← readValue (skipBlanks false rest)
          let item := Item.attribute name value (spanRead total start rest)
          let rest ← afterLineEnd? rest
          let (items, rest) ← readBody fuel total (name :: seen) rest
          some (item :: items, rest)
      | rest => do
        let (labels, rest) ← readLabels (rest.length + 1) rest
        let (body, rest) ← readBlock fuel total rest
        let item := Item.block name labels body (spanRead total start rest)
        let rest ← afterLineEnd? rest
        let (items, rest) ← readBody fuel total seen rest
        some (item :: items, rest)

/-- The body of a block whose opening brace is read, up to and with its closing brace. -/
def readBlock : Nat → Nat → List Char → Option (List Item × List Char)
  | 0, _, _ => none
  | fuel + 1, total, cs =>
    match afterLineEnd? cs with
    | some rest => do
      let (items, rest) ← readBody fuel total [] rest
      let rest ← after? "\x7d" rest
      some (items, rest)
    | none => readOneLine total (skipBlanks false cs)

end

/-- The body of a whole source text. -/
def readSource? (source : String) : Option (List Item) :=
  let cs := source.toList
  match readBody (2 * cs.length + 2) (utf8Length cs) [] cs with
  | some (items, []) => some items
  | _ => none

end Syntax

end InfraConfig
