import InfraConfig.Text.Property

/-!
# Quoted text

The written form of a text inside messages: in double quotes, with a backslash before quotes and
backslashes, short escapes for tab, line feed, carriage return and the null character, and a code
point in braces for whatever would not print or would attach to the character before it.
-/

namespace InfraConfig

/-- Lower case hexadecimal digits of a number, without leading zeros. -/
def hexText (n : Nat) : String :=
  .ofList (Nat.toDigits 16 n)

namespace Quoted

def encodeChar (c : Char) : List Char :=
  if c == '"' then ['\\', '"']
  else if c == '\\' then ['\\', '\\']
  else if c == '\t' then ['\\', 't']
  else if c == '\n' then ['\\', 'n']
  else if c == '\r' then ['\\', 'r']
  else if c.toNat == 0 then ['\\', '0']
  else if isExtending c || !isPrintable c then
    ['\\', 'u', '\x7b'] ++ (hexText c.toNat).toList ++ ['\x7d']
  else [c]

def encode (cs : List Char) : List Char :=
  '"' :: cs.flatMap encodeChar ++ ['"']

end Quoted

/-- The text in double quotes with escapes. -/
def quoted (s : String) : String :=
  .ofList (Quoted.encode s.toList)

end InfraConfig
