import InfraConfig.Regex.Pattern
import InfraConfig.Text.RangeTable
import InfraConfig.Decimal.Reader

/-!
# Reading patterns

A pattern is a choice of sequences of repeated items. Flags in a group hold to its end. A text that is
no pattern gives nothing.
-/

namespace InfraConfig

namespace Regex

structure Flags where
  ignoreCase : Bool
  multiLine : Bool
  dotAll : Bool
  swapGreed : Bool
  verbose : Bool

/-- What is known while reading: the flags in force and the groups opened so far. -/
structure ReadState where
  flags : Flags
  groups : List (Option String)

/-- The class that the flags make of `cls`. Case is ignored before a class is complemented. -/
def Flags.adapt (f : Flags) (cls : CharClass) : CharClass :=
  if f.ignoreCase then
    match cls with
    | .complement a => .complement (.caseless a)
    | a => .caseless a
  else cls

def isMeta (c : Char) : Bool :=
  "\\.+*?()|[]\x7b\x7d^$#&-~".toList.contains c

/-- Characters that a backslash makes stand for themselves. -/
def isEscapable (c : Char) : Bool :=
  isMeta c || (c.toNat < 128 && !c.isAlphanum && c != '<' && c != '>')

/-- In verbose patterns, drops blanks and comments. -/
def skipVerbose (verbose : Bool) : Nat → List Char → List Char
  | 0, cs => cs
  | fuel + 1, cs =>
    if !verbose then cs
    else
      match cs with
      | c :: rest =>
        if isBlank c then skipVerbose verbose fuel rest
        else if c == '#' then skipVerbose verbose fuel (rest.dropWhile (· != '\n'))
        else cs
      | [] => []

def ReadState.skip (s : ReadState) (cs : List Char) : List Char :=
  skipVerbose s.flags.verbose (cs.length + 1) cs

/-- The character with a code in hexadecimal digits. -/
def charOfHex? (digits : List Char) : Option Char :=
  let code := hexNat digits
  if !digits.isEmpty && digits.all (fun c => (hexDigit? c).isSome) && code.isValidChar then
    some (Char.ofNat code)
  else none

/-- A code point of `width` digits, or of any number of digits in braces. -/
def readHex (width : Nat) (cs : List Char) : Option (Char × List Char) :=
  match cs with
  | '\x7b' :: rest => do
    let digits := rest.takeWhile (· != '\x7d')
    let c ← charOfHex? digits
    if digits.length < rest.length then some (c, rest.drop (digits.length + 1)) else none
  | _ => do
    if cs.length < width then none
    let c ← charOfHex? (cs.take width)
    some (c, cs.drop width)

/-- The class of a property: its name alone, or with a value that it has or, after `!=`, has not. -/
def propertyClass? (negated : Bool) (text : List Char) : Option CharClass := do
  let name := text.takeWhile fun c => c != '=' && c != ':'
  let differs := name.length < text.length && name.getLast? == some '!'
  let p ← if name.length = text.length then CharProperty.ofName? name
    else CharProperty.ofValue? (if differs then name.dropLast else name) (text.drop (name.length + 1))
  some (if negated != differs then .complement (.property p) else .property p)

/-- A property after `\p`: one letter, or a name in braces. -/
def readProperty (negated : Bool) (cs : List Char) : Option (CharClass × List Char) :=
  match cs with
  | '\x7b' :: rest => do
    let name := rest.takeWhile (· != '\x7d')
    if name.length = rest.length then none
    let cls ← match name with
      | '^' :: name => propertyClass? (!negated) name
      | _ => propertyClass? negated name
    some (cls, rest.drop (name.length + 1))
  | c :: rest => (propertyClass? negated [c]).map fun cls => (cls, rest)
  | [] => none

/-- What an escape stands for. -/
inductive Escaped where
  | char (c : Char)
  | cls (cls : CharClass)
  | assertion (a : Assertion)

/-- A word boundary with its kind in braces. -/
def boundaryKinds : List (String × Assertion) :=
  [("\x7bstart\x7d", .wordStart), ("\x7bend\x7d", .wordEnd), ("\x7bstart-half\x7d", .wordStartHalf),
    ("\x7bend-half\x7d", .wordEndHalf)]

def readBoundary (cs : List Char) : Assertion × List Char :=
  match boundaryKinds.find? fun (mark, _) => mark.toList.isPrefixOf cs with
  | some (mark, a) => (a, cs.drop mark.length)
  | none => (.wordBoundary, cs)

/-- An escape whose backslash is read. -/
def readEscaped (cs : List Char) : Option (Escaped × List Char) :=
  match cs with
  | [] => none
  | c :: rest =>
    if isEscapable c then some (.char c, rest)
    else
      match c with
      | 'x' => (readHex 2 rest).map fun (c, rest) => (.char c, rest)
      | 'u' => (readHex 4 rest).map fun (c, rest) => (.char c, rest)
      | 'U' => (readHex 8 rest).map fun (c, rest) => (.char c, rest)
      | 'p' => (readProperty false rest).map fun (cls, rest) => (.cls cls, rest)
      | 'P' => (readProperty true rest).map fun (cls, rest) => (.cls cls, rest)
      | 'd' => some (.cls .digit, rest)
      | 'D' => some (.cls (.complement .digit), rest)
      | 's' => some (.cls .space, rest)
      | 'S' => some (.cls (.complement .space), rest)
      | 'w' => some (.cls .word, rest)
      | 'W' => some (.cls (.complement .word), rest)
      | 'a' => some (.char (Char.ofNat 7), rest)
      | 'f' => some (.char (Char.ofNat 12), rest)
      | 't' => some (.char '\t', rest)
      | 'n' => some (.char '\n', rest)
      | 'r' => some (.char '\r', rest)
      | 'v' => some (.char (Char.ofNat 11), rest)
      | 'A' => some (.assertion .textStart, rest)
      | 'z' => some (.assertion .textEnd, rest)
      | 'b' =>
        let (a, rest) := readBoundary rest
        some (.assertion a, rest)
      | 'B' => some (.assertion .notWordBoundary, rest)
      | '<' => some (.assertion .wordStart, rest)
      | '>' => some (.assertion .wordEnd, rest)
      | _ => none

/-- A named ASCII class inside brackets, `[:name:]` or `[:^name:]`. -/
def readAsciiClass (cs : List Char) : Option (CharClass × List Char) :=
  match cs with
  | '[' :: ':' :: rest => do
    let (negated, rest) := match rest with
      | '^' :: rest => (true, rest)
      | _ => (false, rest)
    let name := rest.takeWhile Char.isAlphanum
    let after ← afterStart? [':', ']'] (rest.drop name.length)
    let ranges ← CharClass.asciiNames.lookup (String.ofList name)
    let cls := CharClass.ofRanges ranges
    some (if negated then .complement cls else cls, after)
  | _ => none

/-- One item of a bracket class: a character, or a class that an escape names. -/
def readClassItem (cs : List Char) : Option (Escaped × List Char) :=
  match cs with
  | [] => none
  | '\\' :: rest =>
    match readEscaped rest with
    | some (.assertion _, _) => none
    | other => other
  | c :: rest => some (.char c, rest)

/-- A range inside brackets, or a single item. -/
def readClassRange (s : ReadState) (cs : List Char) : Option (CharClass × List Char) := do
  let (first, rest) ← readClassItem cs
  let rest := s.skip rest
  let alone : Option (CharClass × List Char) := match first with
    | .char c => some (.single c, rest)
    | .cls cls => some (cls, rest)
    | .assertion _ => none
  match rest with
  | '-' :: after =>
    match s.skip after with
    | ']' :: _ => alone
    | '-' :: _ => alone
    | after => do
      let (second, rest) ← readClassItem after
      match first, second with
      | .char lo, .char hi => if lo ≤ hi then some (.range lo hi, s.skip rest) else none
      | _, _ => none
  | _ => alone

/-- Operators between the parts of a bracket class. -/
def classOperator? (cs : List Char) : Option ((CharClass → CharClass → CharClass) × List Char) :=
  match cs with
  | '&' :: '&' :: rest => some (.inter, rest)
  | '-' :: '-' :: rest => some (.minus, rest)
  | '~' :: '~' :: rest => some (fun a b => .union (.minus a b) (.minus b a), rest)
  | _ => none

mutual

/-- A bracket class whose bracket is read. -/
def readClass : Nat → ReadState → List Char → Option (CharClass × List Char)
  | 0, _, _ => none
  | fuel + 1, s, cs =>
    let rest := s.skip cs
    let (negated, rest) := match rest with
      | '^' :: rest => (true, s.skip rest)
      | _ => (false, rest)
    let hyphens := rest.takeWhile (· == '-')
    let rest := s.skip (rest.drop hyphens.length)
    let first : CharClass := if hyphens.isEmpty then .none else .single '-'
    let (first, rest) := match hyphens, rest with
      | [], ']' :: rest => (CharClass.single ']', rest)
      | _, rest => (first, rest)
    match readClassParts fuel s none first rest with
    | some (cls, rest) => some (if negated then .complement cls else cls, rest)
    | none => none

/-- The rest of a bracket class. `done` is what stands left of the last operator, with the operator;
`acc` is what has been read since. -/
def readClassParts : Nat → ReadState → Option (CharClass → CharClass) → CharClass → List Char →
    Option (CharClass × List Char)
  | 0, _, _, _, _ => none
  | fuel + 1, s, done, acc, cs =>
    let finish := fun cls => match done with
      | some f => f cls
      | none => cls
    let cs := s.skip cs
    match classOperator? cs with
    | some (op, rest) => readClassParts fuel s (some (op (finish acc))) .none rest
    | none =>
      match cs with
      | [] => none
      | ']' :: rest => some (finish acc, rest)
      | '[' :: rest =>
        match readAsciiClass cs with
        | some (cls, rest) => readClassParts fuel s done (.union acc (s.flags.adapt cls)) rest
        | none =>
          match readClass fuel s rest with
          | some (cls, rest) => readClassParts fuel s done (.union acc cls) rest
          | none => none
      | _ =>
        match readClassRange s cs with
        | some (cls, rest) => readClassParts fuel s done (.union acc (s.flags.adapt cls)) rest
        | none => none

end

/-- A number in a counted repetition. -/
def readCount (cs : List Char) : Option (Nat × List Char) :=
  let cs := cs.dropWhile isBlank
  let digits := cs.takeWhile Char.isDigit
  if digits.isEmpty ∨ nat32Limit ≤ decimalNat digits then none
  else some (decimalNat digits, (cs.drop digits.length).dropWhile isBlank)

/-- The bounds of a repetition at the front: how often at least and at most. -/
def readBounds (s : ReadState) (cs : List Char) : Option ((Nat × Option Nat) × List Char) :=
  match cs with
  | '*' :: rest => some ((0, none), rest)
  | '+' :: rest => some ((1, none), rest)
  | '?' :: rest => some ((0, some 1), rest)
  | '\x7b' :: rest => do
    let (least, rest) ← readCount (s.skip rest)
    match s.skip rest with
    | '\x7d' :: rest => some ((least, some least), rest)
    | ',' :: rest =>
      match s.skip rest with
      | '\x7d' :: rest => some ((least, none), rest)
      | rest => do
        let (most, rest) ← readCount rest
        match s.skip rest with
        | '\x7d' :: rest => if least ≤ most then some ((least, some most), rest) else none
        | _ => none
    | _ => none
  | _ => none

def isRepetition (c : Char) : Bool :=
  c == '*' || c == '+' || c == '?' || c == '\x7b'

/-- Sets or clears a flag by its letter. -/
def Flags.set? (f : Flags) (value : Bool) : Char → Option Flags
  | 'i' => some { f with ignoreCase := value }
  | 'm' => some { f with multiLine := value }
  | 's' => some { f with dotAll := value }
  | 'U' => some { f with swapGreed := value }
  | 'x' => some { f with verbose := value }
  | 'u' => some f
  | 'R' => some f
  | _ => none

/-- Flags up to `)` or `:`, neither of which is read. No flag comes twice, and a minus sign has flags
behind it. -/
def readFlags : Flags → Bool → List Char → List Char → Option (Flags × List Char)
  | _, _, _, [] => none
  | f, value, seen, c :: rest =>
    if c == ')' || c == ':' then if seen.head? == some '-' then none else some (f, c :: rest)
    else if seen.contains c then none
    else if c == '-' then readFlags f false (c :: seen) rest
    else
      match f.set? value c with
      | some f => readFlags f value (c :: seen) rest
      | none => none

def isGroupNameStart (c : Char) : Bool :=
  c == '_' || isAlphabetic c

def isGroupNameRest (c : Char) : Bool :=
  isGroupNameStart c || isNumeric c || c == '.' || c == '[' || c == ']'

/-- The name of a group up to `>`, which is read. -/
def readGroupName (cs : List Char) : Option (String × List Char) :=
  let name := cs.takeWhile (· != '>')
  match name with
  | [] => none
  | c :: more =>
    if name.length < cs.length ∧ isGroupNameStart c ∧ more.all isGroupNameRest then
      some (.ofList name, cs.drop (name.length + 1))
    else none

/-- The node of an item that is no group. -/
def nodeOf (flags : Flags) : Escaped → Node
  | .char c => .char (flags.adapt (.single c))
  | .cls cls => .char (flags.adapt cls)
  | .assertion a => .assert a

/-- Every character but the line feed, or every character. -/
def Flags.dot (f : Flags) : CharClass :=
  if f.dotAll then .property .any else .complement (.single '\n')

/-- Sequence of items given in reverse; an item may be no node at all, such as flags. -/
def sequence (items : List (Option Node)) : Node :=
  items.reverse.foldr (fun item rest => match item, rest with
    | some node, .empty => node
    | some node, rest => .seq node rest
    | none, rest => rest) .empty

mutual

/-- Alternatives up to a closing parenthesis or the end, which is not read. -/
def readChoice : Nat → ReadState → List Char → Option (Node × ReadState × List Char)
  | 0, _, _ => none
  | fuel + 1, s, cs => do
    let (first, s, rest) ← readSequence fuel s [] cs
    match rest with
    | '|' :: rest => do
      let (other, s, rest) ← readChoice fuel s rest
      some (.alt first other, s, rest)
    | _ => some (first, s, rest)

/-- Items one after another; those read so far are in `items`, the last first. -/
def readSequence : Nat → ReadState → List (Option Node) → List Char →
    Option (Node × ReadState × List Char)
  | 0, _, _, _ => none
  | fuel + 1, s, items, cs =>
    match s.skip cs with
    | [] => some (sequence items, s, [])
    | '|' :: rest => some (sequence items, s, '|' :: rest)
    | ')' :: rest => some (sequence items, s, ')' :: rest)
    | '(' :: rest => do
      let (item, s, rest) ← readGroup fuel s rest
      readSequence fuel s (item :: items) rest
    | '[' :: rest => do
      let (cls, rest) ← readClass fuel s rest
      readSequence fuel s (some (.char cls) :: items) rest
    | c :: rest =>
      if isRepetition c then do
        let ((least, most), rest) ← readBounds s (c :: rest)
        let (lazy, rest) := match s.skip rest with
          | '?' :: rest => (true, rest)
          | rest => (false, rest)
        match items with
        | some node :: items =>
          let greedy := lazy == s.flags.swapGreed
          readSequence fuel s (some (.repeated node least most greedy) :: items) rest
        | _ => none
      else if c == '\\' then do
        let (item, rest) ← readEscaped rest
        readSequence fuel s (some (nodeOf s.flags item) :: items) rest
      else
        let node := match c with
          | '.' => Node.char s.flags.dot
          | '^' => .assert (if s.flags.multiLine then .lineStart else .textStart)
          | '$' => .assert (if s.flags.multiLine then .lineEnd else .textEnd)
          | c => .char (s.flags.adapt (.single c))
        readSequence fuel s (some node :: items) rest

/-- A group whose parenthesis is read, up to and with its closing one. Flags alone are no node. -/
def readGroup : Nat → ReadState → List Char → Option (Option Node × ReadState × List Char)
  | 0, _, _ => none
  | fuel + 1, s, cs =>
    match cs with
    | '?' :: 'P' :: '<' :: rest => readNamed fuel s rest
    | '?' :: '<' :: rest =>
      match rest with
      | '=' :: _ => none
      | '!' :: _ => none
      | _ => readNamed fuel s rest
    | '?' :: rest => do
      let (flags, after) ← readFlags s.flags true [] rest
      match after with
      | ')' :: after => if rest.head? == some ')' then none else some (none, { s with flags }, after)
      | ':' :: after => do
        let (node, inner, after) ← readChoice fuel { s with flags } after
        match after with
        | ')' :: after => some (some node, { inner with flags := s.flags }, after)
        | _ => none
      | _ => none
    | _ => readCaptured fuel s none cs

/-- A group with a name, which is read next. -/
def readNamed : Nat → ReadState → List Char → Option (Option Node × ReadState × List Char)
  | 0, _, _ => none
  | fuel + 1, s, cs => do
    let (name, rest) ← readGroupName cs
    if s.groups.contains (some name) then none else readCaptured fuel s (some name) rest

/-- The body of a group that is captured. -/
def readCaptured : Nat → ReadState → Option String → List Char →
    Option (Option Node × ReadState × List Char)
  | 0, _, _, _ => none
  | fuel + 1, s, name, cs => do
    let index := s.groups.length + 1
    let (node, inner, rest) ← readChoice fuel { s with groups := s.groups ++ [name] } cs
    match rest with
    | ')' :: rest => some (some (.group index node), { inner with flags := s.flags }, rest)
    | _ => none

end

/-- The pattern that a text stands for. -/
def read? (text : String) : Option Pattern :=
  let cs := text.toList
  match readChoice (4 * cs.length + 8) ⟨⟨false, false, false, false, false⟩, []⟩ cs with
  | some (node, s, []) => some ⟨node, s.groups⟩
  | _ => none

/-- A reference to a group in a replacement whose dollar sign is read: a number or a name, bare or in
braces. -/
def readReference (cs : List Char) : Option (List Char × List Char) :=
  match cs with
  | '\x7b' :: rest =>
    let name := rest.takeWhile (· != '\x7d')
    if name.length < rest.length then some (name, rest.drop (name.length + 1)) else none
  | _ =>
    let name := cs.takeWhile fun c => c.isAlphanum || c == '_'
    if name.isEmpty then none else some (name, cs.drop name.length)

/-- A replacement with its references to groups filled in from a match. Groups that do not exist or did
not match are empty. -/
def expand (pattern : Pattern) (m : Match) (text : List Char) : Nat → List Char → List Char
  | 0, _ => []
  | fuel + 1, cs =>
    match cs with
    | [] => []
    | '$' :: '$' :: rest => '$' :: expand pattern m text fuel rest
    | '$' :: rest =>
      match readReference rest with
      | some (name, rest) =>
        let part := match readNat? name with
          | some i => m.group? text i
          | none => m.named? pattern text (String.ofList name)
        (part.getD "").toList ++ expand pattern m text fuel rest
      | none => '$' :: expand pattern m text fuel rest
    | c :: rest => c :: expand pattern m text fuel rest

/-- The text with every match replaced, from `position` on. -/
def replaceFrom (pattern : Pattern) (text replacement : List Char) (position : Nat) :
    List Match → List Char
  | [] => text.drop position
  | m :: rest =>
    (text.drop position).take (m.start - position)
      ++ expand pattern m text (replacement.length + 1) replacement
      ++ replaceFrom pattern text replacement m.stop rest

/-- Replaces every match of a pattern in a text. -/
def replaceAll (pattern : Pattern) (text replacement : String) : String :=
  .ofList (replaceFrom pattern text.toList replacement.toList 0 (pattern.findAll text.toList))

end Regex

end InfraConfig
