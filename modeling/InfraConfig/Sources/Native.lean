import InfraConfig.Sources.Loader
import InfraConfig.Syntax.Body

/-!
# Blocks of native files

The blocks of a source text, with the lines they cover. Attributes outside all blocks are left out.
-/

namespace InfraConfig

namespace Item

/-- The attributes directly in a body. -/
def attributes (file : String) (lines : LineIndex) (body : List Item) : List Attribute :=
  body.filterMap fun
    | .attribute name value span => some ⟨name, value, lines.range file span.start span.stop⟩
    | .block .. => none

mutual

/-- The block that an item is. -/
def tree? (file : String) (lines : LineIndex) : Item → Option BlockTree
  | .attribute .. => none
  | .block kind labels body span =>
    some (.node kind labels (attributes file lines body) (trees file lines body)
      (lines.range file span.start span.stop))

/-- The blocks directly in a body. -/
def trees (file : String) (lines : LineIndex) : List Item → List BlockTree
  | [] => []
  | item :: rest =>
    match item.tree? file lines with
    | some tree => tree :: trees file lines rest
    | none => trees file lines rest

end

end Item

/-- The blocks of a native source text. -/
def readNative (path source : String) : Except LoadProblem (List BlockTree) :=
  match Syntax.readSource? source with
  | some body => .ok (Item.trees path (.ofText source) body)
  | none => .error (.malformed path)

end InfraConfig
