import InfraConfig.Functions.Signature
import InfraConfig.Regex.Reader
import InfraConfig.Encoding.Base64
import InfraConfig.Encoding.Digests

/-!
# Functions on text
-/

namespace InfraConfig

namespace Functions

/-- The text with the letter at the start of every word in upper case. -/
def titleFrom (atStart : Bool) : List Char → List Char
  | [] => []
  | c :: rest =>
    (if atStart && isAlphabetic c then upperChar c else [c]) ++ titleFrom (!isAlphanumeric c) rest

def title (s : String) : String :=
  .ofList (titleFrom true s.toList)

/-- The text without the characters of `cut` at both ends. -/
def trim (s cut : String) : String :=
  .ofList (trimList (cut.toList.contains ·) s.toList)

/-- The text without line ends at its end. -/
def chomp (s : String) : String :=
  .ofList (dropEndWhile (fun c => c == '\n' || c == '\r') s.toList)

/-- At most `length` characters from `offset` on, or all when `length` is negative. A negative offset counts
from the end. -/
def substring (cs : List Char) (offset length : Int) : Except FunctionError (List Char) :=
  let start := if offset < 0 then offset + cs.length else offset
  if start < 0 ∨ (cs.length : Int) < start then .error .offset
  else if length < 0 then .ok (cs.drop start.toNat)
  else if int64Limit ≤ start + length then .error .overflow
  else .ok ((cs.drop start.toNat).take length.toNat)

/-- A pattern between slashes, taken out of them. -/
def slashed? (s : String) : Option String :=
  match s.toList with
  | '/' :: rest => (beforeEnd? ['/'] rest).map String.ofList
  | _ => none

def readPattern (s : String) : Except FunctionError Regex.Pattern :=
  match Regex.read? s with
  | some p => .ok p
  | none => .error .pattern

/-- Every occurrence replaced; what is between slashes is a pattern. -/
def replace (s find by' : String) : Except FunctionError String :=
  match slashed? find with
  | some text => (readPattern text).map fun p => Regex.replaceAll p s by'
  | none => .ok (replaceText s find by')

/-- Whether a character after a percent sign stands for an argument. -/
def isVerb (c : Char) : Bool :=
  c == 's' || c == 'v' || c == 'd'

/-- The text of an argument for a verb of a layout. -/
def verbText (verb : Char) (d : Datum) : Except FunctionError String :=
  if verb == 'd' then
    match d with
    | .number n => .ok (toString n.rounded.toInt64)
    | _ => .error .layoutNumber
  else plainText d

/-- A layout with its verbs replaced by the arguments in turn. -/
def formatFrom : List Char → List Datum → Except FunctionError (List Char)
  | [], _ => .ok []
  | '%' :: '%' :: rest, args => (formatFrom rest args).map ('%' :: ·)
  | ['%'], _ => .error .layoutEnd
  | '%' :: verb :: rest, args =>
    if isVerb verb then
      match args with
      | [] => .error .layoutArguments
      | arg :: args => do
        let text ← verbText verb arg
        let tail ← formatFrom rest args
        .ok (text.toList ++ tail)
    else .error (.layoutVerb verb)
  | c :: rest, args => (formatFrom rest args).map (c :: ·)

def format (layout : String) (args : List Datum) : Except FunctionError String :=
  (formatFrom layout.toList args).map String.ofList

/-- The common length of the lists among the arguments; none without lists. -/
def commonLength : List Datum → Except FunctionError (Option Nat)
  | [] => .ok none
  | .list items :: rest => do
    match ← commonLength rest with
    | none => .ok (some items.length)
    | some n => if n = items.length then .ok (some n) else .error .unequalLengths
  | _ :: rest => commonLength rest

/-- The arguments of one row: an item of each list, and everything else as it is. -/
def row (i : Nat) (args : List Datum) : List Datum :=
  args.map fun
    | .list items => items.getD i .null
    | d => d

def formatRows (layout : String) (args : List Datum) : List Nat → Except FunctionError (List Datum)
  | [] => .ok []
  | i :: rest => do
    let text ← format layout (row i args)
    let more ← formatRows layout args rest
    .ok (.text text :: more)

def formatList (layout : String) (args : List Datum) : Except FunctionError (List Datum) := do
  let count ← commonLength args
  formatRows layout args (List.range (count.getD 1))

def groupDatum : Option String → Datum
  | some s => .text s
  | none => .null

/-- What a match is worth: the whole text without groups, an object of the named groups, or else a list of
all groups. -/
def matchDatum (p : Regex.Pattern) (text : List Char) (m : Regex.Match) : Datum :=
  let names := p.groups.filterMap id
  if p.groups.isEmpty then groupDatum (m.group? text 0)
  else if names.isEmpty then
    .list ((List.range p.groups.length).map fun i => groupDatum (m.group? text (i + 1)))
  else .object (Entries.ofPairs (names.map fun name => (name, groupDatum (m.named? p text name))))

/-- The texts of all items of lists, the first of which is at position `i`. -/
def listTexts (i : Nat) : List Datum → Except FunctionError (List String)
  | [] => .ok []
  | .list items :: rest => do
    let texts ← plainTexts items
    let more ← listTexts (i + 1) rest
    .ok (texts ++ more)
  | _ :: _ => .error (.argumentKind i .list)

/-- The pieces of a text between separators; an empty text has none. -/
def split (separator s : String) : List String :=
  if s.isEmpty then [] else splitText separator s

/-- A function from one text. -/
def ofText (f : String → Datum) : Function :=
  ⟨[.string], none, fun args => do return f (← textAt args 0)⟩

/-- A function from two texts. -/
def ofTexts (f : String → String → Datum) : Function :=
  ⟨[.string, .string], none, fun args => do return f (← textAt args 0) (← textAt args 1)⟩

def textFunctions : List (String × Function) :=
  [("upper", ofText fun s => .text (upperText s)),
    ("lower", ofText fun s => .text (lowerText s)),
    ("title", ofText fun s => .text (title s)),
    ("trimspace", ofText fun s => .text (trimBlanks s)),
    ("trim", ofTexts fun s cut => .text (trim s cut)),
    ("trimprefix", ofTexts fun s p => .text (withoutStart p s)),
    ("trimsuffix", ofTexts fun s p => .text (withoutEnd p s)),
    ("chomp", ofText fun s => .text (chomp s)),
    ("replace", ⟨[.string, .string, .string], none, fun args => do
      return .text (← replace (← textAt args 0) (← textAt args 1) (← textAt args 2))⟩),
    ("substr", ⟨[.string, .number, .number], none, fun args => do
      let cs := (← textAt args 0).toList
      return .text (.ofList (← substring cs (← integerAt args 1) (← integerAt args 2)))⟩),
    ("startswith", ofTexts fun s p => .bool (startsWithText s p)),
    ("endswith", ofTexts fun s p => .bool (endsWithText s p)),
    ("strcontains", ofTexts fun s p => .bool (containsText s p)),
    ("strrev", ofText fun s => .text (.ofList s.toList.reverse)),
    ("format", ⟨[.string], some .any, fun args => do
      return .text (← format (← textAt args 0) (args.drop 1))⟩),
    ("join", ⟨[.string], some .any, fun args => do
      return .text (joinText (← textAt args 0) (← listTexts 1 (args.drop 1)))⟩),
    ("split", ofTexts fun separator s => .list ((split separator s).map .text)),
    ("formatlist", ⟨[.string], some .any, fun args => do
      return .list (← formatList (← textAt args 0) (args.drop 1))⟩),
    ("regex", ⟨[.string, .string], none, fun args => do
      let p ← readPattern (← textAt args 0)
      let text := (← textAt args 1).toList
      match p.find? text with
      | some m => return matchDatum p text m
      | none => throw .noMatch⟩),
    ("regexall", ⟨[.string, .string], none, fun args => do
      let p ← readPattern (← textAt args 0)
      let text := (← textAt args 1).toList
      return .list ((p.findAll text).map (matchDatum p text))⟩)]

/-! ## Digests and encodings -/

def encodeBase64 (bytes : List UInt8) : String :=
  .ofList (Base64.encode bytes)

/-- The text whose bytes a base64 text stands for. -/
def decodeBase64 (s : String) : Except FunctionError Datum := do
  let bytes ← (Base64.decode 0 (utf8Bytes s)).mapError .base64
  match utf8Text? bytes with
  | some text => .ok (.text text)
  | none => .error .notUtf8

def codeFunctions : List (String × Function) :=
  [("md5", ofText fun s => .text (hexOfBytes (Md5.digest (utf8Bytes s)))),
    ("sha256", ofText fun s => .text (hexOfBytes (Sha256.digest (utf8Bytes s)))),
    ("sha512", ofText fun s => .text (hexOfBytes (Sha512.digest (utf8Bytes s)))),
    ("base64encode", ofText fun s => .text (encodeBase64 (utf8Bytes s))),
    ("base64decode", ⟨[.string], none, fun args => do decodeBase64 (← textAt args 0)⟩),
    ("base64sha256", ofText fun s => .text (encodeBase64 (Sha256.digest (utf8Bytes s))))]

end Functions

end InfraConfig
