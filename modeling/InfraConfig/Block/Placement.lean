import InfraConfig.Block.Attribute

/-!
# Placing blocks

Blocks are added to the arena with all blocks inside them, copied as instances, moved to other scopes, and
given to other parents. A block that has left its parent stays in the arena. The depth of a tree is at most
the number of blocks, which bounds the recursion over children.
-/

namespace InfraConfig

/-- Maps a list from left to right while a state changes. -/
def mapThrough {σ α β : Type} (f : σ → α → β × σ) (s : σ) : List α → List β × σ
  | [] => ([], s)
  | x :: rest =>
    let (y, s) := f s x
    let (ys, s) := mapThrough f s rest
    (y :: ys, s)

namespace Arena

/-- Adds a block, which gets the next number. -/
def push (a : Arena) (b : Block) : BlockId × Arena :=
  (a.blocks.size, { a with blocks := a.blocks.push b })

/-- Changes one block. -/
def modify (a : Arena) (id : BlockId) (f : Block → Block) : Arena :=
  { a with blocks := a.blocks.modify id f }

/-- Writes a value into a scope. -/
def bind (a : Arena) (scope : ScopeId) (value : Value) (path : ValuePath) : Arena :=
  { a with scopes := a.scopes.set scope value path }

/-- A new scope without parent. -/
def newRoot (a : Arena) : ScopeId × Arena :=
  let (id, scopes) := a.scopes.newRoot
  (id, { a with scopes })

/-- A new scope below another. -/
def newChild (a : Arena) (parent : ScopeId) : ScopeId × Arena :=
  let (id, scopes) := a.scopes.newChild parent
  (id, { a with scopes })

mutual

/-- Adds a block as it is written, after the blocks inside it. -/
def insert (scope : ScopeId) (caller : Option BlockId) (a : Arena) : BlockTree → BlockId × Arena
  | .node kind labels attributes children range =>
    let (children, a) := insertAll scope caller a children
    a.push ⟨.ofName kind, labels, attributes, children, scope, caller, range, false, 0, none⟩

def insertAll (scope : ScopeId) (caller : Option BlockId) (a : Arena) : List BlockTree → List BlockId × Arena
  | [] => ([], a)
  | tree :: rest =>
    let (id, a) := insert scope caller a tree
    let (ids, a) := insertAll scope caller a rest
    (id :: ids, a)

end

/-- Copies a block and what is inside it, down to a depth, into one scope. -/
def copyUpTo (scope : ScopeId) : Nat → Arena → BlockId → BlockId × Arena
  | 0, a, id => a.push { a.block id with children := [], scope, expanded := false, clones := 0, key := none }
  | depth + 1, a, id =>
    let b := a.block id
    let (children, a) := mapThrough (copyUpTo scope depth) a b.children
    a.push { b with children, scope, expanded := false, clones := 0, key := none }

/-- Copies a block and everything inside it. -/
def copyTree (a : Arena) (id : BlockId) (scope : ScopeId) : BlockId × Arena :=
  a.copyUpTo scope a.blocks.size id

/-- Adds text to the last label. -/
def extendLabel (labels : List String) (text : String) : List String :=
  match labels.getLast? with
  | some last => labels.dropLast ++ [last ++ text]
  | none => []

/-- Whether a value is a number. -/
def isNumber : Value → Bool
  | .number _ => true
  | _ => false

/-- Makes an instance of a block, in a scope of its own below that of the block. The key of the instance is
appended to its last label; a value that is no key is replaced by the number of instances made before. A
number is bound as `count.index`. -/
def clone (a : Arena) (id : BlockId) (index : Value) : BlockId × Arena :=
  let b := a.block id
  let (scope, a) := a.newChild b.scope
  let (copy, a) := a.copyTree id scope
  let key := (InstanceKey.ofValue? index).getD (.index b.clones)
  let a := a.modify copy fun c =>
    { c with labels := extendLabel c.labels key.text, expanded := true, key := some key }
  let a := if isNumber index then a.bind scope index ["count", "index"] else a
  (copy, a.modify id fun b => { b with clones := b.clones + 1 })

/-- Puts a block into a scope, and what is inside it, down to a depth, into new scopes below. -/
def rescopeUpTo : Nat → Arena → BlockId → ScopeId → Arena
  | 0, a, id, scope => a.modify id fun b => { b with scope }
  | depth + 1, a, id, scope =>
    let a := a.modify id fun b => { b with scope }
    (a.block id).children.foldl (fun a child =>
      let (inner, a) := a.newChild scope
      a.rescopeUpTo depth child inner) a

/-- Puts a block into a scope, and every block inside it into a new scope below that of its parent. -/
def rescope (a : Arena) (id : BlockId) (scope : ScopeId) : Arena :=
  a.rescopeUpTo a.blocks.size id scope

/-- Takes a block away from its parent. -/
def removeChild (a : Arena) (parent child : BlockId) : Arena :=
  a.modify parent fun b => { b with children := b.children.filter (· != child) }

/-- Makes a block a child of another one, with a new kind and without labels. Its values are bound below the
name of the parent in the scope at the top. -/
def inject (a : Arena) (parent child : BlockId) (kind : String) : Arena :=
  let a := a.modify child fun b => { b with kind := .ofName kind, labels := [] }
  let b := a.block child
  let above := (a.block parent).localName ++ "." ++ kind
  let values := b.attributes.map fun attr => (attr.name, a.value b attr)
  let a := a.noting b b.attributes
  let root := a.scopes.root (a.block parent).scope
  let a := values.foldl (fun a (name, v) => a.bind root v (dotPath (above ++ "." ++ name))) a
  a.modify parent fun b => { b with children := b.children ++ [child] }

end Arena

end InfraConfig
