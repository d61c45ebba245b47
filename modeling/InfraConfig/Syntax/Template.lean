import InfraConfig.Syntax.Reader

/-!
# Templates as they are kept

The parts of a template are those of the text that it is kept as, and so for the templates inside them. A kept
text may be no template, when literal text without its escapes closes a quotation mark; then there are no
parts.
-/

namespace InfraConfig

mutual

/-- The expression with the parts of every template taken from its text. -/
def Expr.mapTemplates (f : String → Option (List Part)) : Expr → Expr
  | .template source _ => .template source (f source)
  | .list items => .list (mapTemplatesItems f items)
  | .object entries => .object (mapTemplatesEntries f entries)
  | .traversal root steps => .traversal (root.mapTemplates f) (mapTemplatesSteps f steps)
  | .call function args spread => .call function (mapTemplatesItems f args) spread
  | .paren e => .paren (e.mapTemplates f)
  | .conditional c yes no => .conditional (c.mapTemplates f) (yes.mapTemplates f) (no.mapTemplates f)
  | .unary op e => .unary op (e.mapTemplates f)
  | .binary op a b => .binary op (a.mapTemplates f) (b.mapTemplates f)
  | .forEach key value collection resultKey result condition grouping =>
    .forEach key value (collection.mapTemplates f) (mapTemplatesOption f resultKey) (result.mapTemplates f)
      (mapTemplatesOption f condition) grouping
  | .null => .null
  | .bool b => .bool b
  | .number n => .number n
  | .text s => .text s
  | .variable name => .variable name

def mapTemplatesItems (f : String → Option (List Part)) : List Expr → List Expr
  | [] => []
  | e :: rest => e.mapTemplates f :: mapTemplatesItems f rest

def mapTemplatesOption (f : String → Option (List Part)) : Option Expr → Option Expr
  | none => none
  | some e => some (e.mapTemplates f)

def mapTemplatesEntries (f : String → Option (List Part)) : List (Key × Expr) → List (Key × Expr)
  | [] => []
  | (k, e) :: rest => (k.mapTemplates f, e.mapTemplates f) :: mapTemplatesEntries f rest

def Key.mapTemplates (f : String → Option (List Part)) : Key → Key
  | .name s => .name s
  | .expr e => .expr (e.mapTemplates f)

def mapTemplatesSteps (f : String → Option (List Part)) : List Step → List Step
  | [] => []
  | .index e :: rest => .index (e.mapTemplates f) :: mapTemplatesSteps f rest
  | .attribute name :: rest => .attribute name :: mapTemplatesSteps f rest
  | .position n :: rest => .position n :: mapTemplatesSteps f rest
  | .attributeSplat :: rest => .attributeSplat :: mapTemplatesSteps f rest
  | .fullSplat :: rest => .fullSplat :: mapTemplatesSteps f rest

def mapTemplatesParts (f : String → Option (List Part)) : List Part → List Part
  | [] => []
  | .literal s :: rest => .literal s :: mapTemplatesParts f rest
  | .interpolation e strip :: rest =>
    .interpolation (e.mapTemplates f) strip :: mapTemplatesParts f rest
  | .branch c yes no opening middle closing :: rest =>
    .branch (c.mapTemplates f) (mapTemplatesParts f yes) (mapTemplatesOther f no) opening middle closing
      :: mapTemplatesParts f rest
  | .loop key value collection body opening closing :: rest =>
    .loop key value (collection.mapTemplates f) (mapTemplatesParts f body) opening closing
      :: mapTemplatesParts f rest

def mapTemplatesOther (f : String → Option (List Part)) : Option (List Part) → Option (List Part)
  | none => none
  | some parts => some (mapTemplatesParts f parts)

end

namespace Syntax

/-- The parts of a text as a template, with the templates in them, `levels` deep, as they are kept. -/
def templateParts? : Nat → String → Option (List Part)
  | 0, _ => none
  | levels + 1, text => (readParts? text).map (mapTemplatesParts (templateParts? levels))

/-- The parts of a text that is a template. Each template stands in an interpolation or directive of the one
around it, so there are no more of them than levels. -/
def readTemplate? (text : String) : Option (List Part) :=
  templateParts? (nestingLimit + 2) text

/-- An expression up to the end of its line. -/
def readValue (cs : List Char) : Option (Expr × List Char) := do
  let (e, rest) ← readExpr (recursionBound cs) nestingLimit false cs
  some (e.mapTemplates readTemplate?, rest)

end Syntax

end InfraConfig
