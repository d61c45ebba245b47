import InfraConfig.Block.Placement

/-!
# Expansion

Blocks with `count` or `for_each` are replaced by their instances, and `dynamic` blocks by what they render.
An instance is never expanded again. What an instance is called by others is bound in the scope at the top of
its module.
-/

namespace InfraConfig

namespace Block

/-- Whether `count` and `for_each` make instances of the block. -/
def isExpandable (b : Block) : Bool :=
  match b.kind with
  | .resource => !b.expanded
  | .data => !b.expanded
  | .module => !b.expanded
  | _ => false

/-- Where the values of the block are bound. -/
def address? (b : Block) : Option ValuePath :=
  match b.kind with
  | .resource => some [b.typeLabel, b.nameLabel]
  | .data => some ["data", b.typeLabel, b.nameLabel]
  | .module => some ["module", b.typeLabel]
  | _ => none

/-- The name that an element of `for_each` has in the block. -/
def iteratorName (b : Block) : String :=
  ((b.attribute? "iterator").bind Attribute.keyword?).getD b.typeLabel

end Block

/-- How many instances a `count` makes: one if it is no number or out of range. -/
def instanceCount (count : Value) : Nat :=
  match (count.convert? .number).bind Value.int64? with
  | some n => if 0 ≤ n ∧ n < int32Limit then n.toNat else 1
  | none => 1

/-- The elements of a `for_each` with their keys. The texts of a list are keys themselves when `byValue`. -/
def instanceElements (collection : Value) (byValue : Bool) : List (Value × Value) :=
  if byValue then collection.elements.map fun (_, v) => (v, v) else collection.elements

/-- Whether a collection is a list of texts. -/
def isTextList (collection : Value) : Bool :=
  collection.items?.any fun items => items.all fun v => v.text?.isSome

namespace Arena

/-- Copies what is bound at the address of one block to that of another. -/
def copyBinding (a : Arena) (root : ScopeId) (source target : BlockId) : Arena :=
  match (a.block source).address?, (a.block target).address? with
  | some origin, some address =>
    match a.scopes.get? root origin with
    | some value => a.bind root value address
    | none => a
  | _, _ => a

/-- Binds a value at the address of a block, if it has one. -/
def bindAt (a : Arena) (root : ScopeId) (id : BlockId) (value : Value) : Arena :=
  match (a.block id).address? with
  | some path => a.bind root value path
  | none => a

/-! ## Counts -/

/-- Makes the instance of an index, and gives its values. -/
def cloneIndex (root : ScopeId) (id : BlockId) (a : Arena) (i : Nat) : (BlockId × Value) × Arena :=
  let (copy, a) := a.clone id (.int i)
  let a := a.copyBinding root id copy
  let b := a.block copy
  ((copy, a.values b), a.noting b b.attributes)

/-- The instances that stand for a block with `count`. -/
def expandCount (root : ScopeId) (a : Arena) (id : BlockId) : List BlockId × Arena :=
  let b := a.block id
  match b.attribute? "count" with
  | none => ([id], a)
  | some attr =>
    if b.isExpandable then
      let n := instanceCount (a.value b attr)
      let (made, a) := mapThrough (cloneIndex root id) (a.noting b [attr]) (List.range n)
      (made.map (·.1), a.bindAt root id (.list (made.map (·.2))))
    else ([id], a)

def expandCounts (a : Arena) (root : ScopeId) (ids : List BlockId) : List BlockId × Arena :=
  let (groups, a) := mapThrough (expandCount root) a ids
  (groups.flatten, a)

/-! ## Elements -/

/-- Makes the instance of an element. -/
def cloneElement (root : ScopeId) (id : BlockId) (binding : String) (isDynamic : Bool) (a : Arena)
    (element : Value × Value) : BlockId × Arena :=
  let (key, value) := element
  let (copy, a) := a.clone id key
  let scope := (a.block copy).scope
  let names := ["each", binding] ++ (if isDynamic then ["dynamic"] else [])
  let a := names.foldl (fun a name => (a.bind scope key [name, "key"]).bind scope value [name, "value"]) a
  (copy, a.copyBinding root id copy)

/-- The instances that stand for a block with `for_each`. The values of the block itself are no longer
bound. -/
def expandElements (root : ScopeId) (a : Arena) (id : BlockId) : List BlockId × Arena :=
  let b := a.block id
  let isDynamic := b.kind == .dynamic
  match b.attribute? "for_each" with
  | none => ([id], a)
  | some attr =>
    if b.isExpandable || isDynamic && !b.expanded then
      let collection := a.value b attr
      let a := a.noting b [attr]
      if collection.isIterable then
        let elements := instanceElements collection (!isDynamic && isTextList collection)
        let (made, a) := mapThrough (cloneElement root id b.iteratorName isDynamic) a elements
        (made, a.bindAt root id (.object []))
      else ([id], a)
    else ([id], a)

def expandForEach (a : Arena) (root : ScopeId) (ids : List BlockId) : List BlockId × Arena :=
  let (groups, a) := mapThrough (expandElements root) a ids
  (groups.flatten, a)

/-! ## Dynamic blocks -/

/-- The number of the first child of a kind. -/
def childId? (a : Arena) (b : Block) (kind : String) : Option BlockId :=
  b.children.find? fun id => (a.block id).kind.name == kind

/-- Replaces the dynamic blocks inside a block, down to a depth, by their rendered contents. A dynamic block
whose elements are not known renders its content once. -/
def expandDynamicUpTo (root : ScopeId) : Nat → Arena → BlockId → Arena
  | 0, a, _ => a
  | depth + 1, a, id =>
    let children := (a.block id).children
    let isDynamic (child : BlockId) : Bool := (a.block child).kind == .dynamic
    let (dynamics, plain) := children.partition isDynamic
    let a := plain.foldl (expandDynamicUpTo root depth) a
    dynamics.foldl (fun a dynamic =>
      let b := a.block dynamic
      if b.expanded then a
      else
        let (made, a) := (a.removeChild id dynamic).expandForEach root [dynamic]
        made.foldl (fun a copy =>
          match a.childId? (a.block copy) "content" with
          | some content => (expandDynamicUpTo root depth a content).inject id content b.typeLabel
          | none => a) a) a

/-- Replaces all dynamic blocks inside a block. -/
def expandDynamic (a : Arena) (root : ScopeId) (id : BlockId) : Arena :=
  a.expandDynamicUpTo root a.blocks.size id

end Arena

end InfraConfig
