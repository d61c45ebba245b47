import InfraConfig.Text.RangeTable

/-!
# Escapes

Text in double quotes, written and read: a backslash before quotes, backslashes and control characters.
In a template a dollar or percent sign before a brace starts an interpolation or directive; doubled it
stands for itself.
-/

namespace InfraConfig

namespace Escape

/-- The written form of a character in double quotes. -/
def write (c : Char) : List Char :=
  if c == '"' then ['\\', '"']
  else if c == '\\' then ['\\', '\\']
  else if c == '\n' then ['\\', 'n']
  else if c == '\r' then ['\\', 'r']
  else if c == '\t' then ['\\', 't']
  else if c.toNat == 8 then ['\\', 'b']
  else if c.toNat == 12 then ['\\', 'f']
  else if c.toNat < 32 then
    ['\\', 'u', '0', '0', Nat.digitChar (c.toNat / 16), Nat.digitChar (c.toNat % 16)]
  else [c]

/-- The character of exactly `n` hexadecimal digits. -/
def readCodePoint (n : Nat) (cs : List Char) : Option (Char × List Char) :=
  let ds := cs.take n
  let code := hexNat ds
  if ds.length = n ∧ ds.all (fun c => (hexDigit? c).isSome) ∧ code.isValidChar then
    some (Char.ofNat code, cs.drop n)
  else none

/-- The character of an escape whose backslash has been read. -/
def read (cs : List Char) : Option (Char × List Char) :=
  match cs with
  | [] => none
  | c :: rest =>
    if c == 'n' then some ('\n', rest)
    else if c == 'r' then some ('\r', rest)
    else if c == 't' then some ('\t', rest)
    else if c == '\\' || c == '"' || c == '/' then some (c, rest)
    else if c == 'b' then some (Char.ofNat 8, rest)
    else if c == 'f' then some (Char.ofNat 12, rest)
    else if c == 'u' then readCodePoint 4 rest
    else if c == 'U' then readCodePoint 8 rest
    else none

def isMarker (c : Char) : Bool :=
  c == '$' || c == '%'

/-- Doubles markers before a brace. A marker takes the character after it along, so the second of two
markers counts as no marker. -/
def doubleMarkers : List Char → List Char
  | c :: d :: rest =>
    if isMarker c then
      if d == '\x7b' then c :: c :: d :: doubleMarkers rest else c :: d :: doubleMarkers rest
    else c :: doubleMarkers (d :: rest)
  | rest => rest

/-- Text with its markers doubled, from the first one that stands before a brace. -/
def markers : List Char → List Char
  | c :: d :: rest =>
    if isMarker c && d == '\x7b' then doubleMarkers (c :: d :: rest) else c :: markers (d :: rest)
  | rest => rest

/-- Text in double quotes. -/
def quote (cs : List Char) : List Char :=
  '"' :: cs.flatMap write ++ ['"']

end Escape

end InfraConfig
