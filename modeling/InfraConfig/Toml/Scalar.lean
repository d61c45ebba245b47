import InfraConfig.Toml.Basic
import InfraConfig.Calendar.Date
import InfraConfig.Decimal.Reader
import InfraConfig.Text.Search

/-!
# TOML scalars

Numbers, dates and times as they stand in a document, and quoted texts.
-/

namespace InfraConfig

namespace Toml

/-! ## Numbers -/

/-- The value of a digit in bases up to sixteen. -/
def digitValue? (base : Nat) (c : Char) : Option Nat :=
  (hexDigit? c).filter (· < base)

/-- Digits of a base, with single underscores allowed between them. -/
def readDigits? (base : Nat) (cs : List Char) : Option Nat :=
  let groups := splitList (· == '_') cs
  if groups.any List.isEmpty then none
  else (groups.flatten.mapM (digitValue? base)).map fun ds => ds.foldl (fun n d => base * n + d) 0

/-- Whether the digits of a number have no zero in front that could be left out. -/
def isCanonical (digits : List Char) : Bool :=
  digits == ['0'] || digits.head? != some '0'

/-- An integer in the bases that have marks, or in base ten with a sign. -/
def readInteger? (cs : List Char) : Option Int :=
  match cs with
  | '0' :: 'x' :: digits => (readDigits? 16 digits).map Int.ofNat
  | '0' :: 'o' :: digits => (readDigits? 8 digits).map Int.ofNat
  | '0' :: 'b' :: digits => (readDigits? 2 digits).map Int.ofNat
  | _ =>
    let (negative, digits) := takeSign cs
    if isCanonical digits then (readDigits? 10 digits).map (Binary64.signed negative) else none

/-- The number of digits in a text of digits and underscores. -/
def digitCount (cs : List Char) : Nat :=
  cs.countP Char.isDigit

/-- An exponent: its mark, a sign, and digits to the end. -/
def readPower? : List Char → Option Int
  | [] => some 0
  | c :: rest =>
    if c == 'e' || c == 'E' then
      let (negative, digits) := takeSign rest
      (readDigits? 10 digits).map (Binary64.signed negative)
    else none

/-- A number with a fraction or an exponent, or one that is not finite. A finite number must not be too great
for binary64. -/
def readFloating? (cs : List Char) : Option Float :=
  let (negative, body) := takeSign cs
  let isMark (c : Char) : Bool := c == '.' || c == 'e' || c == 'E'
  let whole := body.takeWhile fun c => !isMark c
  if body == "inf".toList then some (Binary64.infinite negative)
  else if body == "nan".toList then some (0.0 / 0.0)
  else if !isCanonical whole then none
  else do
    let digits ← readDigits? 10 whole
    let rest := body.dropWhile fun c => !isMark c
    let (digits, places, rest) ← match rest with
      | '.' :: rest => do
        let fraction := rest.takeWhile fun c => !isMark c
        let value ← readDigits? 10 fraction
        let places := digitCount fraction
        some (digits * tenPow places + value, places, rest.dropWhile fun c => !isMark c)
      | [] => none
      | rest => some (digits, 0, rest)
    let power ← readPower? rest
    let x := nearest negative digits (power - places)
    if x.isInf then none else some x

/-! ## Dates and times -/

/-- A number of exactly two digits, which is at most `greatest`. -/
def readTwo? (greatest : Nat) (cs : List Char) : Option (Nat × List Char) := do
  let n ← readNat? (cs.take 2)
  if 2 ≤ cs.length ∧ n ≤ greatest then some (n, cs.drop 2) else none

def two (n : Nat) : String :=
  (if n < 10 then "0" else "") ++ toString n

/-- A date in front. -/
def readDate? (cs : List Char) : Option (String × List Char) := do
  let year ← readNat? (cs.take 4)
  let rest ← afterStart? ['-'] (cs.drop 4)
  let (month, rest) ← readTwo? 12 rest
  let rest ← afterStart? ['-'] rest
  let (day, rest) ← readTwo? 31 rest
  if (Date.mk year month day).isValid then
    some (.ofList (cs.take 4) ++ "-" ++ two month ++ "-" ++ two day, rest)
  else none

/-- The fraction of a second in front, nine digits of it at most, without zeros at the end. -/
def readSecondFraction? (cs : List Char) : Option (String × List Char) :=
  match cs with
  | '.' :: rest =>
    let digits := rest.takeWhile Char.isDigit
    let kept := dropEndWhile (· == '0') (digits.take 9)
    if digits.isEmpty then none
    else some (if kept.isEmpty then "" else "." ++ .ofList kept, rest.drop digits.length)
  | _ => some ("", cs)

/-- A time of day in front. The seconds can be left out. -/
def readClock? (cs : List Char) : Option (String × List Char) := do
  let (hour, rest) ← readTwo? 23 cs
  let rest ← afterStart? [':'] rest
  let (minute, rest) ← readTwo? 59 rest
  let (second, fraction, rest) ← match rest with
    | ':' :: rest => do
      let (second, rest) ← readTwo? 60 rest
      let (fraction, rest) ← readSecondFraction? rest
      some (second, fraction, rest)
    | rest => some (0, "", rest)
  some (two hour ++ ":" ++ two minute ++ ":" ++ two second ++ fraction, rest)

/-- The offset of a local time, up to the end; there may be none. -/
def readOffset? (cs : List Char) : Option String :=
  match cs with
  | [] => some ""
  | ['Z'] => some "Z"
  | ['z'] => some "Z"
  | _ => do
    let (negative, rest) := takeSign cs
    if rest.length = cs.length then none
    else do
      let (hours, rest) ← readTwo? 23 rest
      let rest ← afterStart? [':'] rest
      let (minutes, rest) ← readTwo? 59 rest
      let sign := if negative ∧ (0 < hours ∨ 0 < minutes) then "-" else "+"
      if rest.isEmpty then some (sign ++ two hours ++ ":" ++ two minutes) else none

/-- A date, a time of day, or both, which may have an offset. -/
def readTime? (cs : List Char) : Option String :=
  match readDate? cs with
  | none => (readClock? cs).bind fun (clock, rest) => if rest.isEmpty then some clock else none
  | some (date, []) => some date
  | some (date, mark :: rest) =>
    if mark == 'T' || mark == 't' || mark == ' ' then do
      let (clock, rest) ← readClock? rest
      let offset ← readOffset? rest
      some (date ++ "T" ++ clock ++ offset)
    else none

/-- The value of a word without quotes. -/
def readWord? (cs : List Char) : Option Toml :=
  if cs == "true".toList then some (.bool true)
  else if cs == "false".toList then some (.bool false)
  else match readInteger? cs with
    | some n => some (.integer n)
    | none =>
      match readFloating? cs with
      | some x => some (.float x)
      | none => (readTime? cs).map .time

/-! ## Quoted texts -/

/-- Whether a character can stand in a text as it is; line ends cannot. -/
def isPlain (c : Char) : Bool :=
  c == '\t' || 32 ≤ c.toNat && c.toNat != 127

/-- The character with a number of exactly `n` digits in base sixteen. -/
def readHexChar? (n : Nat) (cs : List Char) : Option (Char × List Char) := do
  let digits ← (cs.take n).mapM hexDigit?
  let code := digits.foldl (fun v d => 16 * v + d) 0
  if digits.length = n ∧ code.isValidChar then some (.ofNat code, cs.drop n) else none

/-- The character that an escape stands for, after its backslash. -/
def readEscape? (cs : List Char) : Option (Char × List Char) :=
  match cs with
  | 'b' :: rest => some (.ofNat 8, rest)
  | 't' :: rest => some ('\t', rest)
  | 'n' :: rest => some ('\n', rest)
  | 'f' :: rest => some (.ofNat 12, rest)
  | 'r' :: rest => some ('\r', rest)
  | 'e' :: rest => some (.ofNat 27, rest)
  | '"' :: rest => some ('"', rest)
  | '\\' :: rest => some ('\\', rest)
  | 'x' :: rest => readHexChar? 2 rest
  | 'u' :: rest => readHexChar? 4 rest
  | 'U' :: rest => readHexChar? 8 rest
  | _ => none

/-- The end of a line in front, taken off. -/
def afterNewline? (cs : List Char) : Option (List Char) :=
  match cs with
  | '\n' :: rest => some rest
  | '\r' :: '\n' :: rest => some rest
  | _ => none

def isSpace (c : Char) : Bool :=
  c == ' ' || c == '\t'

/-- What follows a backslash at the end of a line: blanks and line ends do not count there. -/
def afterFolding? (cs : List Char) : Option (List Char) :=
  (afterNewline? (cs.dropWhile isSpace)).map fun rest =>
    rest.dropWhile fun c => isSpace c || c == '\n' || c == '\r'

/-- A text on one line up to its closing quote; `escapes` says whether a backslash has a meaning. -/
def readLine (quote : Char) (escapes : Bool) : Nat → List Char → Option (List Char × List Char)
  | 0, _ => none
  | fuel + 1, cs =>
    match cs with
    | [] => none
    | c :: rest =>
      if c == quote then some ([], rest)
      else if escapes && c == '\\' then do
        let (c, rest) ← readEscape? rest
        let (more, rest) ← readLine quote escapes fuel rest
        some (c :: more, rest)
      else if isPlain c then do
        let (more, rest) ← readLine quote escapes fuel rest
        some (c :: more, rest)
      else none

/-- A text on several lines up to its three closing quotes. Up to two quotes more belong to the text. -/
def readLines (quote : Char) (escapes : Bool) : Nat → List Char → Option (List Char × List Char)
  | 0, _ => none
  | fuel + 1, cs =>
    match cs with
    | [] => none
    | c :: rest =>
      if c == quote then
        let quotes := min 5 (cs.takeWhile (· == quote)).length
        if 3 ≤ quotes then some (List.replicate (quotes - 3) quote, cs.drop quotes)
        else do
          let (more, rest) ← readLines quote escapes fuel (cs.drop quotes)
          some (List.replicate quotes quote ++ more, rest)
      else if escapes && c == '\\' then
        match afterFolding? rest with
        | some rest => readLines quote escapes fuel rest
        | none => do
          let (c, rest) ← readEscape? rest
          let (more, rest) ← readLines quote escapes fuel rest
          some (c :: more, rest)
      else if isPlain c || c == '\n' || c == '\r' && rest.head? == some '\n' then do
        let (more, rest) ← readLines quote escapes fuel rest
        some (c :: more, rest)
      else none

/-- A quoted text in front. A line end right after three opening quotes does not count. -/
def readQuoted? (cs : List Char) : Option (String × List Char) :=
  match cs with
  | quote :: rest =>
    if quote == '"' || quote == '\'' then
      let escapes := quote == '"'
      let result := match afterStart? [quote, quote] rest with
        | some rest => readLines quote escapes (rest.length + 1) ((afterNewline? rest).getD rest)
        | none => readLine quote escapes (rest.length + 1) rest
      result.map fun (found, rest) => (.ofList found, rest)
    else none
  | [] => none

/-- A quoted text on one line in front. -/
def readQuotedLine? (cs : List Char) : Option (String × List Char) :=
  match cs with
  | quote :: rest =>
    if quote == '"' || quote == '\'' then
      (readLine quote (quote == '"') (rest.length + 1) rest).map fun (found, rest) => (.ofList found, rest)
    else none
  | [] => none

end Toml

end InfraConfig
