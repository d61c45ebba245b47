import InfraConfig.Value
import InfraConfig.Evaluation
import InfraConfig.Text.Search

/-!
# Scopes

Scopes form a tree: each has bindings of its own and sees those of its parent. Values inside maps and objects
are addressed by paths. A path is looked up in the scope itself, then in its parent, and so on; a write
touches the one scope that it names.
-/

namespace InfraConfig

/-- A scope by its number, in the order of creation. -/
abbrev ScopeId := Nat

/-- Names that lead from a binding into its value. -/
abbrev ValuePath := List String

structure ScopeNode where
  parent : Option ScopeId
  bindings : Entries Value
  deriving Inhabited

/-- All scopes of a run. A parent is always older than its children. -/
structure Scopes where
  nodes : Array ScopeNode
  deriving Inhabited

/-- The segments of a dotted path. -/
def dotPath (path : String) : ValuePath :=
  splitText "." path

namespace Value

/-- The value under a path inside `v`. -/
def getPath? (v : Value) : ValuePath → Option Value
  | [] => some v
  | name :: rest => (v.get? name).bind (·.getPath? rest)

/-- The same kind of collection with other entries. -/
def withEntries (v : Value) (entries : Entries Value) : Value :=
  match v with
  | .map _ => .map entries
  | _ => .object entries

/-- A value written over another: the entries of a map go over those of a map, unless one of them is empty;
everything else replaces what was there. -/
def mergeInto (old new : Value) : Value :=
  match old.entries?, new.entries? with
  | some a, some b => if a.isEmpty || b.isEmpty then new else old.withEntries (a.putAll b)
  | _, _ => new

mutual

/-- A value of an inner scope over one of an outer scope: maps are merged at every depth. -/
def deepMerge (old : Value) : Value → Value
  | .map entries =>
    match old.entries? with
    | some a => old.withEntries (mergeEntries a entries)
    | none => .map entries
  | .object entries =>
    match old.entries? with
    | some a => old.withEntries (mergeEntries a entries)
    | none => .object entries
  | v => v

/-- Entries of an inner scope over those of an outer scope. -/
def mergeEntries (old : Entries Value) : List (String × Value) → Entries Value
  | [] => old
  | (k, v) :: rest =>
    let merged := match Entries.get? old k with
      | some w => deepMerge w v
      | none => v
    mergeEntries (Entries.put old k merged) rest

end

end Value

namespace Entries

/-- The value under a path. The empty path leads nowhere. -/
def getPath? (entries : Entries Value) : ValuePath → Option Value
  | [] => none
  | name :: rest => (entries.get? name).bind (·.getPath? rest)

/-- Writes a value under a path. What stands in the way and is no map is replaced by an object. -/
def setPath (entries : Entries Value) (value : Value) : ValuePath → Entries Value
  | [] => entries
  | [name] =>
    match entries.get? name with
    | some old => entries.put name (old.mergeInto value)
    | none => entries.put name value
  | name :: rest =>
    match entries.get? name with
    | some (.map inner) => entries.put name (.map (setPath inner value rest))
    | some (.object inner) => entries.put name (.object (setPath inner value rest))
    | _ => entries.put name (.object (setPath [] value rest))

end Entries

namespace Scopes

def empty : Scopes := ⟨#[]⟩

def size (s : Scopes) : Nat :=
  s.nodes.size

def node (s : Scopes) (id : ScopeId) : ScopeNode :=
  s.nodes.getD id ⟨none, []⟩

def parent? (s : Scopes) (id : ScopeId) : Option ScopeId :=
  (s.node id).parent

/-- The bindings of a scope itself. -/
def bindings (s : Scopes) (id : ScopeId) : Entries Value :=
  (s.node id).bindings

/-- A new scope, which gets the next number. -/
def push (s : Scopes) (parent : Option ScopeId) : ScopeId × Scopes :=
  (s.size, ⟨s.nodes.push ⟨parent, []⟩⟩)

def newRoot (s : Scopes) : ScopeId × Scopes :=
  s.push none

def newChild (s : Scopes) (parent : ScopeId) : ScopeId × Scopes :=
  s.push (some parent)

/-- At most `n` scopes from `id` on towards the root. -/
def chainUpTo (s : Scopes) : Nat → ScopeId → List ScopeId
  | 0, _ => []
  | n + 1, id =>
    match s.parent? id with
    | some p => id :: chainUpTo s n p
    | none => [id]

/-- A scope and all that it sees, the nearest first. Parents are older, so there are at most `id + 1`. -/
def chain (s : Scopes) (id : ScopeId) : List ScopeId :=
  s.chainUpTo (id + 1) id

/-- The scope at the top of the chain. -/
def root (s : Scopes) (id : ScopeId) : ScopeId :=
  (s.chain id).getLastD id

/-- The value under a path in the nearest scope where the path leads somewhere. -/
def get? (s : Scopes) (id : ScopeId) (path : ValuePath) : Option Value :=
  (s.chain id).findSome? fun i => (s.bindings i).getPath? path

/-- Writes a value under a path in the scope itself. -/
def set (s : Scopes) (id : ScopeId) (value : Value) (path : ValuePath) : Scopes :=
  ⟨s.nodes.modify id fun n => { n with bindings := n.bindings.setPath value path }⟩

/-- All bindings that a scope sees. Maps of nearer scopes are merged into those of farther ones. -/
def merged (s : Scopes) (id : ScopeId) : Entries Value :=
  (s.chain id).foldr (fun i acc => Value.mergeEntries acc (s.bindings i)) []

/-- The variables of a scope as expressions see them: unknown ones are not there. -/
def environment (s : Scopes) (id : ScopeId) : Environment :=
  .ofVariables ((s.merged id).filterMap fun (k, v) => v.toDatum?.map fun d => (k, d))

end Scopes

end InfraConfig
