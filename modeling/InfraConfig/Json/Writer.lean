import InfraConfig.Value
import InfraConfig.Text.Search

/-!
# Writing JSON text

Plain data as JSON on several lines, one item or entry a line, two blanks deeper for each level.
-/

namespace InfraConfig

namespace Datum

/-- The text of parts on lines of their own between brackets; without parts the brackets alone. -/
def bracketed (opening closing : String) (depth : Nat) (parts : List String) : String :=
  if parts.isEmpty then opening ++ closing
  else
    opening ++ "\n" ++ joinText ",\n" (parts.map (margin (depth + 1) ++ ·)) ++ "\n" ++ margin depth ++ closing

mutual

/-- JSON text that starts at a depth. -/
def pretty (depth : Nat) : Datum → String
  | .list items => bracketed "[" "]" depth (prettyItems (depth + 1) items)
  | .object entries => bracketed "\x7b" "\x7d" depth (prettyEntries (depth + 1) entries)
  | d => d.json

def prettyItems (depth : Nat) : List Datum → List String
  | [] => []
  | d :: rest => d.pretty depth :: prettyItems depth rest

def prettyEntries (depth : Nat) : List (String × Datum) → List String
  | [] => []
  | (k, d) :: rest => (quoteJson k ++ ": " ++ d.pretty depth) :: prettyEntries depth rest

end

end Datum

namespace Value

mutual

/-- The plain data that is shown for a value: null for unknown ones, entries in ascending order of keys. -/
def shown : Value → Datum
  | .null => .null
  | .unknown => .null
  | .bool b => .bool b
  | .number n => .number n
  | .text s => .text s
  | .list items => .list (shownItems items)
  | .set items => .list (shownItems items)
  | .map entries => .object (Entries.sorted (shownEntries entries))
  | .object entries => .object (Entries.sorted (shownEntries entries))

def shownItems : List Value → List Datum
  | [] => []
  | v :: rest => v.shown :: shownItems rest

def shownEntries : List (String × Value) → List (String × Datum)
  | [] => []
  | (k, v) :: rest => (k, v.shown) :: shownEntries rest

end

end Value

end InfraConfig
