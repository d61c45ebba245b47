import InfraConfig.ModuleRun.Basic
import InfraConfig.Instances

/-!
# Bindings of a module

What the blocks of a module bind in its scope. Each kind of block is bound from the bindings so far, in a
fixed order; earlier passes show in later ones.
-/

namespace InfraConfig

/-- Names of variables that hold credentials or images. -/
def sensitiveNames : Option Regex.Pattern :=
  Regex.read? <| "^image[_|-]|[_|-]image$|saml[_|-]role$|secrets$|aws[_|-]profile$|key[_|-]id$"
    ++ "|secret[_|-]key$|access[_|-]key$|[_|-]token$|^token[_|-]|[_|-]secret$"

/-- Whether a variable is declared sensitive or named like it. -/
def isSensitive (a : Arena) (b : Block) : Bool :=
  (b.attribute? "sensitive").any (fun attr => a.value b attr == .bool true)
    || sensitiveNames.any (·.isMatch (lowerText b.typeLabel))

/-- A value in the primitive type that a variable declares, if it can be written in it. -/
def coerce (b : Block) (v : Value) : Value :=
  match ((b.attribute? "type").bind Attribute.keyword?).bind Primitive.ofKeyword? with
  | some type => (v.convert? type).getD v
  | none => v

namespace ModuleRun

/-! ## Variables -/

/-- The value of a variable: the one given to it, or its default; unknown if there is neither. -/
def variableValue (r : ModuleRun) (b : Block) : Value :=
  coerce b (match r.inputs.get? b.typeLabel with
    | some v => v
    | none =>
      match b.attribute? "default" with
      | some attr => r.arena.resolve b attr
      | none => .unknown)

/-- Whether a variable has neither a given value nor a default. -/
def lacksValue (r : ModuleRun) (b : Block) : Bool :=
  (r.inputs.get? b.typeLabel).isNone && (b.attribute? "default").isNone

/-- The attributes that the value of a variable depends on. -/
def variableReads (r : ModuleRun) (b : Block) : List Attribute :=
  if r.inputs.hasKey b.typeLabel then []
  else match b.attribute? "default" with
    | some attr => [attr]
    | none => (b.attribute? "sensitive").toList

def bindVariables (r : ModuleRun) : ModuleRun :=
  let blocks := r.blocksOf .variable
  let values := Entries.ofPairs (blocks.map fun b => (b.typeLabel, r.variableValue b))
  let missing := (blocks.filter fun b => r.lacksValue b && !isSensitive r.arena b).map
    fun b => "variable." ++ b.typeLabel
  let r := r.noting (blocks.map fun b => (b, r.variableReads b))
  { r with missing }.bind (.object values) ["var"]

/-! ## Locals, providers and outputs -/

def bindLocals (r : ModuleRun) : ModuleRun :=
  let blocks := r.blocksOf .locals
  let values := Entries.ofPairs (blocks.flatMap fun b =>
    b.attributes.map fun attr => (attr.name, r.arena.resolve b attr))
  (r.noting (blocks.map fun b => (b, b.attributes))).bind (.object values) ["local"]

/-- Adds the values of a provider block: under its alias, or directly under the provider. -/
def addProvider (a : Arena) (providers : Entries (Entries Value)) (b : Block) : Entries (Entries Value) :=
  let entries := (providers.get? b.typeLabel).getD []
  let key := (b.attribute? "alias").bind fun attr => (a.value b attr).text?
  providers.put b.typeLabel (match key with
    | some key => entries.put key (a.values b)
    | none => entries.putAll ((a.values b).entries?.getD []))

def bindProviders (r : ModuleRun) : ModuleRun :=
  let blocks := r.blocksOf .provider
  let providers := blocks.foldl (addProvider r.arena) []
  let value := Value.object (providers.map fun (name, entries) => (name, .object entries))
  (r.noting (blocks.map fun b => (b, b.attributes))).bind value ["provider"]

/-- The value of an output; null if none is declared. -/
def outputValue (a : Arena) (b : Block) : Value :=
  match b.attribute? "value" with
  | some attr => a.resolve b attr
  | none => .null

def bindOutputs (r : ModuleRun) : ModuleRun :=
  let blocks := r.blocksOf .output
  let values := Entries.ofPairs (blocks.map fun b => (b.typeLabel, outputValue r.arena b))
  (r.noting (blocks.map fun b => (b, (b.attribute? "value").toList))).bind (.object values) ["output"]

/-! ## Resources and data sources -/

/-- Binds the values of the blocks of a kind by type and name, below `above`. -/
def bindInstances (kind : BlockKind) (above : ValuePath) (r : ModuleRun) : ModuleRun :=
  let blocks := (r.blocksOf kind).filter fun b => 2 ≤ b.labels.length
  let groups := groupInstances (blocks.map fun b => (b.typeLabel, b.nameLabel, r.arena.values b))
  let r := r.noting (blocks.map fun b => (b, b.attributes))
  groups.foldl (fun r (type, group) => r.bind group.toValue (above ++ [type])) r

/-- Binds everything but the outputs of module calls. -/
def bindBlocks (r : ModuleRun) : ModuleRun :=
  (((r.bindVariables.bindLocals).bindProviders.bindInstances .resource []).bindInstances .data
    ["data"]).bindOutputs

end ModuleRun

end InfraConfig
