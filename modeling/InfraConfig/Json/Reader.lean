import InfraConfig.Json.Value
import InfraConfig.Text.RangeTable

/-!
# Reading JSON

`Json.read?` finds the value of a JSON text. Entries of an object keep their order, and of a key that
occurs again the last value counts. Integers up to 64 bits are exact. A fraction is the quotient or
product of its first digits, as many as fit 64 bits, and a power of ten, each rounded to binary64.

A failure says why a text is no JSON value, and where: the line, and the bytes of that line up to the place.
-/

namespace InfraConfig

/-! ## Problems -/

inductive JsonProblem where
  | endInList
  | endInObject
  | endInText
  | endInValue
  | expectedColon
  | expectedListEnd
  | expectedObjectEnd
  | expectedIdent
  | expectedValue
  | invalidEscape
  | invalidNumber
  | numberOutOfRange
  | controlCharacter
  | keyNotText
  | loneSurrogate
  | endInEscape
  | trailingComma
  | trailingCharacters
  | tooDeep
  deriving DecidableEq, Inhabited

/-- A problem with the text that was still unread. `peeked` holds when the first unread character is the
offending one. -/
structure JsonFailure where
  problem : JsonProblem
  rest : List Char
  peeked : Bool
  deriving Inhabited

namespace JsonProblem

def message : JsonProblem → String
  | endInList => "EOF while parsing a list"
  | endInObject => "EOF while parsing an object"
  | endInText => "EOF while parsing a string"
  | endInValue => "EOF while parsing a value"
  | expectedColon => "expected `:`"
  | expectedListEnd => "expected `,` or `]`"
  | expectedObjectEnd => "expected `,` or `\x7d`"
  | expectedIdent => "expected ident"
  | expectedValue => "expected value"
  | invalidEscape => "invalid escape"
  | invalidNumber => "invalid number"
  | numberOutOfRange => "number out of range"
  | controlCharacter => "control character (\\u0000-\\u001F) found while parsing a string"
  | keyNotText => "key must be a string"
  | loneSurrogate => "lone leading surrogate in hex escape"
  | endInEscape => "unexpected end of hex escape"
  | trailingComma => "trailing comma"
  | trailingCharacters => "trailing characters"
  | tooDeep => "recursion limit exceeded"

end JsonProblem

/-- Line and column after the characters `cs`, starting from a given line and column. A column counts
the bytes since the last line feed. -/
def placeAfter : Nat → Nat → List Char → Nat × Nat
  | line, column, [] => (line, column)
  | line, column, c :: cs =>
    if c == '\n' then placeAfter (line + 1) 0 cs else placeAfter line (column + c.utf8Size) cs

/-- The message of a failure in `source`, with line and column. -/
def JsonFailure.message (f : JsonFailure) (source : List Char) : String :=
  let read := source.take (source.length - f.rest.length)
  let (line, column) := placeAfter 1 0 read
  let (line, column) := match f.peeked, f.rest with
    | true, c :: _ => if c == '\n' then (line + 1, 0) else (line, column + 1)
    | _, _ => (line, column)
  f.problem.message ++ " at line " ++ toString line ++ " column " ++ toString column

/-! ## Values -/

namespace Json

def fail {α : Type} (problem : JsonProblem) (rest : List Char) (peeked : Bool) : Except JsonFailure α :=
  .error ⟨problem, rest, peeked⟩

def skipBlanks (cs : List Char) : List Char :=
  cs.dropWhile fun c => c == ' ' || c == '\n' || c == '\t' || c == '\r'

/-- Reads the letters of a word whose first letter has been read. -/
def readWord (word : List Char) (value : JsonValue) (cs : List Char) : Except JsonFailure (JsonValue × List Char) :=
  match word, cs with
  | [], rest => .ok (value, rest)
  | _ :: _, [] => fail .endInValue [] false
  | w :: word, c :: rest => if w == c then readWord word value rest else fail .expectedIdent rest false

/-- Four hexadecimal digits. -/
def readHex4 (cs : List Char) : Except JsonFailure (Nat × List Char) :=
  match cs with
  | a :: b :: c :: d :: rest =>
    match hexDigit? a, hexDigit? b, hexDigit? c, hexDigit? d with
    | some a, some b, some c, some d => .ok (a * 4096 + b * 256 + c * 16 + d, rest)
    | _, _, _, _ => fail .invalidEscape rest false
  | _ => fail .endInText [] false

/-- The character of an escape whose backslash and `u` have been read; a leading surrogate needs its
partner. -/
def readUnicode (cs : List Char) : Except JsonFailure (Char × List Char) := do
  let (n, rest) ← readHex4 cs
  if 0xDC00 ≤ n ∧ n ≤ 0xDFFF then fail .loneSurrogate rest false
  else if 0xD800 ≤ n ∧ n < 0xDC00 then
    match rest with
    | '\\' :: 'u' :: rest =>
      let (m, rest) ← readHex4 rest
      if 0xDC00 ≤ m ∧ m ≤ 0xDFFF then
        .ok (Char.ofNat (0x10000 + (n - 0xD800) * 1024 + (m - 0xDC00)), rest)
      else fail .loneSurrogate rest false
    | '\\' :: _ :: rest => fail .endInEscape rest false
    | _ :: rest => fail .endInEscape rest false
    | [] => fail .endInText [] false
  else .ok (Char.ofNat n, rest)

/-- The character of an escape whose backslash has been read. -/
def readEscape (cs : List Char) : Except JsonFailure (Char × List Char) :=
  match cs with
  | [] => fail .endInText [] false
  | c :: rest =>
    if c == '"' || c == '\\' || c == '/' then .ok (c, rest)
    else if c == 'b' then .ok (Char.ofNat 8, rest)
    else if c == 'f' then .ok (Char.ofNat 12, rest)
    else if c == 'n' then .ok ('\n', rest)
    else if c == 'r' then .ok ('\r', rest)
    else if c == 't' then .ok ('\t', rest)
    else if c == 'u' then readUnicode rest
    else fail .invalidEscape rest false

/-- The rest of a text whose opening quote has been read; `done` holds its characters, last first. -/
def readText : Nat → List Char → List Char → Except JsonFailure (String × List Char)
  | 0, _, cs => fail .endInText cs false
  | fuel + 1, done, cs =>
    match cs with
    | [] => fail .endInText [] false
    | '"' :: rest => .ok (.ofList done.reverse, rest)
    | '\\' :: rest => do
      let (c, rest) ← readEscape rest
      readText fuel (c :: done) rest
    | c :: rest =>
      if c.toNat < 32 then fail .controlCharacter rest false
      else readText fuel (c :: done) rest

/-- `digits · 10 ^ exponent` by one binary64 product or quotient; beyond the greatest power of ten the
quotient is taken in steps. -/
def scaleByTen (digits : Nat) (exponent : Int) : Option Float :=
  let f := Binary64.ofInt digits
  if exponent.natAbs ≤ 308 then
    let power := nearest false 1 exponent.natAbs
    let x := if 0 ≤ exponent then f * power else f / power
    if x.isInf then none else some x
  else if digits = 0 then some 0.0
  else if 0 ≤ exponent then none
  else if exponent < -1000 then some 0.0
  else if exponent.natAbs ≤ 616 then
    some (f / nearest false 1 308 / nearest false 1 (exponent.natAbs - 308))
  else some (f / nearest false 1 308 / nearest false 1 308 / nearest false 1 (exponent.natAbs - 616))

def fraction (negative : Bool) (digits : Nat) (exponent : Int) (rest : List Char) :
    Except JsonFailure (JsonNumeral × List Char) :=
  match scaleByTen digits exponent with
  | some x => .ok (.fraction (if negative then -x else x), rest)
  | none => fail .numberOutOfRange rest false

/-- The leading digits of `ds` that keep the number `start` below `2 ^ 64`: that number and how many
were taken. -/
def takeDigits : Nat → List Char → Nat × Nat
  | start, [] => (start, 0)
  | start, d :: ds =>
    let n := 10 * start + (d.toNat - 48)
    if n < nat64Limit then
      let (m, taken) := takeDigits n ds
      (m, taken + 1)
    else (start, 0)

/-- The exponent of a number whose digits give `digits · 10 ^ exponent`. -/
def readExponent (negative : Bool) (digits : Nat) (exponent : Int) (cs : List Char) :
    Except JsonFailure (JsonNumeral × List Char) :=
  let (minus, body) := match cs with
    | '-' :: rest => (true, rest)
    | '+' :: rest => (false, rest)
    | rest => (false, rest)
  match body with
  | [] => fail .endInValue [] false
  | c :: after =>
    if c.isDigit then
      let ds := body.takeWhile Char.isDigit
      let rest := body.dropWhile Char.isDigit
      let e := decimalNat ds
      if int32Limit ≤ e then
        if digits ≠ 0 ∧ !minus then fail .numberOutOfRange rest false
        else .ok (.fraction (if negative then -0.0 else 0.0), rest)
      else fraction negative digits (exponent + (if minus then -(e : Int) else e)) rest
    else fail .invalidNumber after false

/-- What follows the digits before the point. -/
def readFraction (negative : Bool) (digits : Nat) (exponent : Int) (exact : Bool) (cs : List Char) :
    Except JsonFailure (JsonNumeral × List Char) :=
  match cs with
  | '.' :: rest =>
    let ds := rest.takeWhile Char.isDigit
    let after := rest.dropWhile Char.isDigit
    if ds.isEmpty then
      match after with
      | [] => fail .endInValue [] true
      | _ => fail .invalidNumber after true
    else
      let (digits, taken) := takeDigits digits ds
      let exponent := exponent - taken
      match after with
      | c :: more =>
        if c == 'e' || c == 'E' then readExponent negative digits exponent more
        else fraction negative digits exponent after
      | [] => fraction negative digits exponent after
  | c :: rest =>
    if c == 'e' || c == 'E' then readExponent negative digits exponent rest else plain
  | [] => plain
where
  plain : Except JsonFailure (JsonNumeral × List Char) :=
    if exact then
      if !negative then .ok (.natural (.ofNat digits), cs)
      else if 0 < digits ∧ (digits : Int) ≤ int64Limit then .ok (.negative (.ofInt (-digits)), cs)
      else .ok (.fraction (-(Binary64.ofInt digits)), cs)
    else fraction negative digits exponent cs

/-- A number whose sign has been read. -/
def readNumber (negative : Bool) (cs : List Char) : Except JsonFailure (JsonNumeral × List Char) :=
  match cs with
  | [] => fail .endInValue [] false
  | '0' :: rest =>
    match rest with
    | c :: _ => if c.isDigit then fail .invalidNumber rest true else readFraction negative 0 0 true rest
    | [] => readFraction negative 0 0 true rest
  | c :: rest =>
    if c.isDigit then
      let ds := cs.takeWhile Char.isDigit
      let after := cs.dropWhile Char.isDigit
      let (digits, taken) := takeDigits 0 ds
      readFraction negative digits (ds.length - taken) (taken == ds.length) after
    else fail .invalidNumber rest false

mutual

/-- One value. `depth` is how many more levels of lists and objects are allowed. -/
def readValue : Nat → Nat → List Char → Except JsonFailure (JsonValue × List Char)
  | 0, _, cs => fail .tooDeep cs false
  | fuel + 1, depth, cs =>
    match skipBlanks cs with
    | [] => fail .endInValue [] true
    | 'n' :: rest => readWord ['u', 'l', 'l'] .null rest
    | 't' :: rest => readWord ['r', 'u', 'e'] (.bool true) rest
    | 'f' :: rest => readWord ['a', 'l', 's', 'e'] (.bool false) rest
    | '"' :: rest => do
      let (s, rest) ← readText (rest.length + 1) [] rest
      .ok (.text s, rest)
    | '-' :: rest => do
      let (n, rest) ← readNumber true rest
      .ok (.number n, rest)
    | '[' :: rest =>
      if depth ≤ 1 then fail .tooDeep ('[' :: rest) true
      else do
        let (items, rest) ← readItems fuel (depth - 1) true rest
        .ok (.list items, rest)
    | '\x7b' :: rest =>
      if depth ≤ 1 then fail .tooDeep ('\x7b' :: rest) true
      else do
        let (entries, rest) ← readEntries fuel (depth - 1) [] true rest
        .ok (.object entries, rest)
    | c :: rest =>
      if c.isDigit then do
        let (n, rest) ← readNumber false (c :: rest)
        .ok (.number n, rest)
      else fail .expectedValue (c :: rest) true

/-- The items of a list up to its end; `first` holds before the first item. -/
def readItems : Nat → Nat → Bool → List Char → Except JsonFailure (List JsonValue × List Char)
  | 0, _, _, cs => fail .tooDeep cs false
  | fuel + 1, depth, first, cs =>
    match skipBlanks cs with
    | [] => fail .endInList [] true
    | ']' :: rest => .ok ([], rest)
    | c :: rest =>
      if first then do
        let (item, rest) ← readValue fuel depth (c :: rest)
        let (items, rest) ← readItems fuel depth false rest
        .ok (item :: items, rest)
      else if c == ',' then
        match skipBlanks rest with
        | [] => fail .endInValue [] true
        | ']' :: rest => fail .trailingComma (']' :: rest) true
        | rest => do
          let (item, rest) ← readValue fuel depth rest
          let (items, rest) ← readItems fuel depth false rest
          .ok (item :: items, rest)
      else fail .expectedListEnd (c :: rest) true

/-- The entries of an object up to its end, added to those already read. -/
def readEntries : Nat → Nat → Entries JsonValue → Bool → List Char →
    Except JsonFailure (Entries JsonValue × List Char)
  | 0, _, _, _, cs => fail .tooDeep cs false
  | fuel + 1, depth, done, first, cs =>
    match skipBlanks cs with
    | [] => fail .endInObject [] true
    | '\x7d' :: rest => .ok (done, rest)
    | c :: rest =>
      if first then readEntry fuel depth done (c :: rest)
      else if c == ',' then
        match skipBlanks rest with
        | [] => fail .endInValue [] true
        | '\x7d' :: rest => fail .trailingComma ('\x7d' :: rest) true
        | rest => readEntry fuel depth done rest
      else fail .expectedObjectEnd (c :: rest) true

/-- A key with its value, and the entries after it. -/
def readEntry : Nat → Nat → Entries JsonValue → List Char → Except JsonFailure (Entries JsonValue × List Char)
  | 0, _, _, cs => fail .tooDeep cs false
  | fuel + 1, depth, done, cs =>
    match cs with
    | '"' :: rest => do
      let (key, rest) ← readText (rest.length + 1) [] rest
      match skipBlanks rest with
      | ':' :: rest => do
        let (value, rest) ← readValue fuel depth rest
        readEntries fuel depth (done.put key value) false rest
      | [] => fail .endInObject [] true
      | rest => fail .expectedColon rest true
    | rest => fail .keyNotText rest true

end

/-- Reads a text that is one JSON value with blanks around it. -/
def readAll (cs : List Char) : Except JsonFailure JsonValue := do
  let (value, rest) ← readValue (3 * cs.length + 3) 128 cs
  match skipBlanks rest with
  | [] => .ok value
  | rest => fail .trailingCharacters rest true

/-- The value of a JSON text, or the message of what is wrong with it. -/
def read (source : String) : Except String JsonValue :=
  match readAll source.toList with
  | .ok value => .ok value
  | .error failure => .error (failure.message source.toList)

/-- The value of a JSON text, if it is one. -/
def read? (source : String) : Option JsonValue :=
  (readAll source.toList).toOption

end Json

end InfraConfig
