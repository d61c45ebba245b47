import InfraConfig.Reference

/-!
# Instances by name

The values of blocks of one type by their names. Those of instances are also gathered under the name without
key: in a list by their indexes, with null where there is none, or in an object by their keys.
-/

namespace InfraConfig

structure Instances where
  named : Entries Value
  indexed : Entries (List (Int × Value))
  keyed : Entries (Entries Value)

namespace Instances

def empty : Instances :=
  ⟨[], [], []⟩

/-- Adds the value of a block by its name, in which the key of an instance stands. -/
def insert (g : Instances) (label : String) (value : Value) : Instances :=
  let g := { g with named := g.named.put label value }
  match splitKey label with
  | (base, some (.index i)) =>
    { g with indexed := g.indexed.put base ((g.indexed.get? base).getD [] ++ [(i, value)]) }
  | (base, some (.name key)) =>
    { g with keyed := g.keyed.put base (((g.keyed.get? base).getD []).put key value) }
  | (_, none) => g

/-- The positions up to the greatest index that is not negative. -/
def listLength (items : List (Int × Value)) : Nat :=
  items.foldl (fun n (i, _) => max n (i + 1).toNat) 0

/-- The list with values at their indexes, the later ones over the earlier ones. -/
def placed (items : List (Int × Value)) : List Value :=
  items.foldl (fun values (i, v) => if i < 0 then values else values.set i.toNat v)
    (List.replicate (listLength items) .null)

/-- All values as one object. -/
def toValue (g : Instances) : Value :=
  let lists := g.indexed.map fun (base, items) => (base, Value.list (placed items))
  let objects := g.keyed.map fun (base, entries) => (base, Value.object entries)
  .object (g.named.putAll (lists ++ objects))

end Instances

/-- The values of blocks by type and name. -/
def groupInstances (items : List (String × String × Value)) : Entries Instances :=
  items.foldl (fun groups (type, label, value) =>
    groups.put type (((groups.get? type).getD .empty).insert label value)) []

end InfraConfig
