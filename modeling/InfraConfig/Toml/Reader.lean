import InfraConfig.Toml.Scalar

/-!
# Reading TOML documents

A document is read line by line: pairs of keys and values, and headers, below which pairs belong to the table
of the header.
-/

namespace InfraConfig

namespace Toml

/-! ## Blanks -/

def skipSpaces (cs : List Char) : List Char :=
  cs.dropWhile isSpace

/-- What follows a comment, if there is one; the line end stays. -/
def skipComment? (cs : List Char) : Option (List Char) :=
  match cs with
  | '#' :: rest =>
    let rest := rest.dropWhile isPlain
    if rest.isEmpty || (afterNewline? rest).isSome then some rest else none
  | _ => some cs

/-- What follows blanks, comments and line ends. -/
def skipLines : Nat → List Char → Option (List Char)
  | 0, _ => none
  | fuel + 1, cs => do
    let rest ← skipComment? (skipSpaces cs)
    match afterNewline? rest with
    | some rest => skipLines fuel rest
    | none => some rest

def skipAll? (cs : List Char) : Option (List Char) :=
  skipLines (cs.length + 1) cs

/-- What follows the end of a line, before which a comment can stand. -/
def afterLine? (cs : List Char) : Option (List Char) := do
  let rest ← skipComment? (skipSpaces cs)
  if rest.isEmpty then some [] else afterNewline? rest

/-! ## Keys -/

def isBare (c : Char) : Bool :=
  c.isAlphanum || c == '_' || c == '-'

/-- A part of a key: bare or quoted. -/
def readKeyPart? (cs : List Char) : Option (String × List Char) :=
  match readQuotedLine? cs with
  | some found => some found
  | none =>
    let bare := cs.takeWhile isBare
    if bare.isEmpty then none else some (.ofList bare, cs.drop bare.length)

/-- A key of parts with dots between them; the blanks after it are dropped. -/
def readKey : Nat → List Char → Option (List String × List Char)
  | 0, _ => none
  | fuel + 1, cs => do
    let (part, rest) ← readKeyPart? (skipSpaces cs)
    match skipSpaces rest with
    | '.' :: rest => do
      let (parts, rest) ← readKey fuel rest
      some (part :: parts, rest)
    | rest => some ([part], rest)

/-! ## Values -/

/-- A word without quotes in front. A time of day after a date and one blank belongs to it. -/
def takeWord (cs : List Char) : List Char × List Char :=
  let ends (c : Char) : Bool := isSpace c || ['\n', '\r', ',', ']', '\x7d', '#', '='].contains c
  let word := cs.takeWhile fun c => !ends c
  match cs.drop word.length with
  | ' ' :: rest =>
    let clock := rest.takeWhile fun c => !ends c
    match readDate? word, clock with
    | some (_, []), c :: _ =>
      if c.isDigit then (word ++ ' ' :: clock, rest.drop clock.length) else (word, ' ' :: rest)
    | _, _ => (word, ' ' :: rest)
  | rest => (word, rest)

mutual

/-- A value in front; `depth` is how many lists and tables may still be opened. -/
def readValue : Nat → Nat → List Char → Option (Toml × List Char)
  | 0, _, _ => none
  | fuel + 1, depth, cs =>
    match cs with
    | '[' :: rest =>
      match depth with
      | 0 => none
      | depth + 1 => (readItems fuel depth rest).map fun (items, rest) => (.list items, rest)
    | '\x7b' :: rest =>
      match depth with
      | 0 => none
      | depth + 1 => do
        let (pairs, rest) ← readInline fuel depth rest
        let entries ← putKeys [] pairs
        some (.table .inline entries, rest)
    | _ =>
      match readQuoted? cs with
      | some (found, rest) => some (.text found, rest)
      | none =>
        let (word, rest) := takeWord cs
        (readWord? word).map fun value => (value, rest)

/-- The items of a list whose opening bracket has been read. -/
def readItems : Nat → Nat → List Char → Option (List Toml × List Char)
  | 0, _, _ => none
  | fuel + 1, depth, cs => do
    match ← skipAll? cs with
    | ']' :: rest => some ([], rest)
    | rest => do
      let (item, rest) ← readValue fuel depth rest
      match ← skipAll? rest with
      | ',' :: rest => do
        let (items, rest) ← readItems fuel depth rest
        some (item :: items, rest)
      | ']' :: rest => some ([item], rest)
      | _ => none

/-- The pairs of an inline table whose opening brace has been read. -/
def readInline : Nat → Nat → List Char → Option (List (List String × Toml) × List Char)
  | 0, _, _ => none
  | fuel + 1, depth, cs => do
    match ← skipAll? cs with
    | '\x7d' :: rest => some ([], rest)
    | rest => do
      let (key, rest) ← readKey (rest.length + 1) rest
      let rest ← afterStart? ['='] rest
      let (value, rest) ← readValue fuel depth (skipSpaces rest)
      match ← skipAll? rest with
      | ',' :: rest => do
        let (pairs, rest) ← readInline fuel depth rest
        some ((key, value) :: pairs, rest)
      | '\x7d' :: rest => some ([(key, value)], rest)
      | _ => none

end

/-- How deeply lists and inline tables can be nested. -/
def depthLimit : Nat := 80

/-! ## Documents -/

/-- The pairs up to the next header or the end of the document. -/
def readPairs : Nat → List Char → Option (List (List String × Toml) × List Char)
  | 0, _ => none
  | fuel + 1, cs => do
    match ← skipAll? cs with
    | [] => some ([], [])
    | '[' :: rest => some ([], '[' :: rest)
    | rest => do
      let (key, rest) ← readKey (rest.length + 1) rest
      let rest ← afterStart? ['='] rest
      let (value, rest) ← readValue (2 * rest.length + 2) depthLimit (skipSpaces rest)
      let rest ← afterLine? rest
      let (pairs, rest) ← readPairs fuel rest
      some ((key, value) :: pairs, rest)

/-- A header in front: whether it is a repeated one, and its name. -/
def readHeader? (cs : List Char) : Option (Bool × List String × List Char) := do
  let rest ← afterStart? ['['] cs
  let repeated := rest.head? == some '['
  let rest := if repeated then rest.tail else rest
  let (name, rest) ← readKey (rest.length + 1) rest
  let rest ← afterStart? (if repeated then [']', ']'] else [']']) rest
  let rest ← afterLine? rest
  some (repeated, name, rest)

/-- Stores the sections from a header on. -/
def readSections : Nat → Entries Toml → List Char → Option (Entries Toml)
  | 0, _, _ => none
  | fuel + 1, entries, cs =>
    if cs.isEmpty then some entries
    else do
      let (repeated, name, rest) ← readHeader? cs
      let (pairs, rest) ← readPairs (rest.length + 1) rest
      let entries ← putSection repeated pairs name entries
      readSections fuel entries rest

/-- The table that a document is. A byte order mark in front does not count. -/
def read? (source : String) : Option (Entries Toml) := do
  let cs := match source.toList with
    | c :: rest => if c.toNat = 65279 then rest else c :: rest
    | [] => []
  let (pairs, rest) ← readPairs (cs.length + 1) cs
  let entries ← putKeys [] pairs
  readSections (rest.length + 1) entries rest

end Toml

end InfraConfig
