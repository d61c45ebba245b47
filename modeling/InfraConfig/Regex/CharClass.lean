import InfraConfig.Text.Property
import InfraConfig.Text.Case
import InfraConfig.Text.Script
import InfraConfig.Text.Search

/-!
# Character classes of patterns

Sets of characters as patterns write them: ranges, properties, and their Boolean combinations. Where
case is ignored, a range also holds every character that differs from a member in case only.
-/

namespace InfraConfig

namespace Regex

/-- Properties that a pattern can name. -/
inductive CharProperty where
  | any
  | ascii
  | assigned
  | category (major : Char)
  | subcategory (major minor : Char)
  | casedLetter
  | alphabetic
  | lowercase
  | uppercase
  | whiteSpace
  | script (code : String)
  deriving DecidableEq

inductive CharClass where
  | range (lo hi : Char)
  | property (p : CharProperty)
  | word
  | complement (a : CharClass)
  | union (a b : CharClass)
  | inter (a b : CharClass)
  | minus (a b : CharClass)
  /-- Members and what differs from them in case only. -/
  | caseless (a : CharClass)

namespace CharProperty

def holds (p : CharProperty) (c : Char) : Bool :=
  let g := Category.ofChar c
  match p with
  | any => true
  | ascii => c.toNat < 128
  | assigned => !(g == ⟨'C', 'n'⟩)
  | category major => g.major == major
  | subcategory major minor => g == ⟨major, minor⟩
  | casedLetter => g == ⟨'L', 'u'⟩ || g == ⟨'L', 'l'⟩ || g == ⟨'L', 't'⟩
  | alphabetic => isAlphabetic c
  | lowercase => isLowercase c
  | uppercase => isUppercase c
  | whiteSpace => isBlank c
  | script code => Script.ofChar c == code

/-- Long names of the general categories. -/
def categoryNames : List (String × CharProperty) :=
  [("letter", category 'L'), ("casedletter", casedLetter), ("uppercaseletter", subcategory 'L' 'u'),
    ("lowercaseletter", subcategory 'L' 'l'), ("titlecaseletter", subcategory 'L' 't'),
    ("modifierletter", subcategory 'L' 'm'), ("otherletter", subcategory 'L' 'o'),
    ("mark", category 'M'), ("combiningmark", category 'M'), ("nonspacingmark", subcategory 'M' 'n'),
    ("spacingmark", subcategory 'M' 'c'), ("enclosingmark", subcategory 'M' 'e'),
    ("number", category 'N'), ("decimalnumber", subcategory 'N' 'd'), ("digit", subcategory 'N' 'd'),
    ("letternumber", subcategory 'N' 'l'), ("othernumber", subcategory 'N' 'o'),
    ("punctuation", category 'P'), ("punct", category 'P'),
    ("connectorpunctuation", subcategory 'P' 'c'), ("dashpunctuation", subcategory 'P' 'd'),
    ("openpunctuation", subcategory 'P' 's'), ("closepunctuation", subcategory 'P' 'e'),
    ("initialpunctuation", subcategory 'P' 'i'), ("finalpunctuation", subcategory 'P' 'f'),
    ("otherpunctuation", subcategory 'P' 'o'), ("symbol", category 'S'),
    ("mathsymbol", subcategory 'S' 'm'), ("currencysymbol", subcategory 'S' 'c'),
    ("modifiersymbol", subcategory 'S' 'k'), ("othersymbol", subcategory 'S' 'o'),
    ("separator", category 'Z'), ("spaceseparator", subcategory 'Z' 's'),
    ("lineseparator", subcategory 'Z' 'l'), ("paragraphseparator", subcategory 'Z' 'p'),
    ("other", category 'C'), ("control", subcategory 'C' 'c'), ("cntrl", subcategory 'C' 'c'),
    ("format", subcategory 'C' 'f'), ("unassigned", subcategory 'C' 'n'),
    ("privateuse", subcategory 'C' 'o'), ("lc", casedLetter), ("any", any), ("ascii", ascii),
    ("assigned", assigned)]

def binaryNames : List (String × CharProperty) :=
  [("alphabetic", alphabetic), ("alpha", alphabetic), ("lowercase", lowercase), ("lower", lowercase),
    ("uppercase", uppercase), ("upper", uppercase), ("whitespace", whiteSpace), ("wspace", whiteSpace),
    ("space", whiteSpace)]

/-- Second letters of the general categories, by first letter. -/
def categoryLetters : List (Char × List Char) :=
  [('L', ['u', 'l', 't', 'm', 'o']), ('M', ['n', 'c', 'e']), ('N', ['d', 'l', 'o']),
    ('P', ['c', 'd', 's', 'e', 'i', 'f', 'o']), ('S', ['m', 'c', 'k', 'o']), ('Z', ['s', 'l', 'p']),
    ('C', ['c', 'f', 'n', 'o'])]

/-- A name without spaces, hyphens and underscores, in lower case. -/
def normalize (name : List Char) : List Char :=
  (name.filter fun c => !(c == ' ' || c == '-' || c == '_')).map Char.toLower

def ofLetters? (name : List Char) : Option CharProperty :=
  match name with
  | [a] => (categoryLetters.lookup a.toUpper).map fun _ => category a.toUpper
  | [a, b] =>
    match categoryLetters.lookup a.toUpper with
    | some minors => if minors.contains b then some (subcategory a.toUpper b) else none
    | none => none
  | _ => none

/-- The general category with a name. -/
def ofCategory? (key : List Char) : Option CharProperty :=
  match ofLetters? key with
  | some p => some p
  | none => categoryNames.lookup (String.ofList key)

def ofScript? (key : List Char) : Option CharProperty :=
  (Script.ofName? (String.ofList key)).map script

/-- The property with a name: a property of two values, a general category or a script. -/
def ofName? (name : List Char) : Option CharProperty :=
  let key := normalize name
  let key := match key with
    | 'i' :: 's' :: rest => if rest.isEmpty then key else rest
    | _ => key
  match ofCategory? key, binaryNames.lookup (String.ofList key) with
  | some p, _ => some p
  | none, some p => some p
  | none, none => ofScript? key

/-- The property with a value, such as `sc=Greek`. -/
def ofValue? (property value : List Char) : Option CharProperty :=
  let value := normalize value
  match String.ofList (normalize property) with
  | "gc" | "generalcategory" => ofCategory? value
  | "sc" | "script" => ofScript? value
  | _ => none

end CharProperty

/-- A character of words: letters, marks, digits, connectors and joiners. -/
def isWord (c : Char) : Bool :=
  let g := Category.ofChar c
  isAlphabetic c || g.major == 'M' || g == ⟨'N', 'd'⟩ || g == ⟨'P', 'c'⟩ || c.toNat == 0x200C
    || c.toNat == 0x200D

namespace CharClass

def contains : CharClass → Char → Bool
  | range lo hi, c => lo ≤ c && c ≤ hi
  | property p, c => p.holds c
  | word, c => isWord c
  | complement a, c => !a.contains c
  | union a b, c => a.contains c || b.contains c
  | inter a b, c => a.contains c && b.contains c
  | minus a b, c => a.contains c && !b.contains c
  | caseless a, c => (caseMates c).any fun d => a.contains d

def single (c : Char) : CharClass :=
  range c c

/-- The class of no character. -/
def none : CharClass :=
  complement (property .any)

def digit : CharClass :=
  property (.subcategory 'N' 'd')

def space : CharClass :=
  property .whiteSpace

def ofRanges (ranges : List (Char × Char)) : CharClass :=
  ranges.foldr (fun (lo, hi) rest => union (range lo hi) rest) none

/-- Classes of ASCII characters by name. -/
def asciiNames : List (String × List (Char × Char)) :=
  [("alnum", [('0', '9'), ('A', 'Z'), ('a', 'z')]), ("alpha", [('A', 'Z'), ('a', 'z')]),
    ("ascii", [(Char.ofNat 0, Char.ofNat 127)]), ("blank", [('\t', '\t'), (' ', ' ')]),
    ("cntrl", [(Char.ofNat 0, Char.ofNat 31), (Char.ofNat 127, Char.ofNat 127)]),
    ("digit", [('0', '9')]), ("graph", [('!', '~')]), ("lower", [('a', 'z')]),
    ("print", [(' ', '~')]), ("punct", [('!', '/'), (':', '@'), ('[', '`'), ('\x7b', '~')]),
    ("space", [('\t', '\r'), (' ', ' ')]), ("upper", [('A', 'Z')]),
    ("word", [('0', '9'), ('A', 'Z'), ('_', '_'), ('a', 'z')]),
    ("xdigit", [('0', '9'), ('A', 'F'), ('a', 'f')])]

end CharClass

end Regex

end InfraConfig
