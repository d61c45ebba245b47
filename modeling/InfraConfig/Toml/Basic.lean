import InfraConfig.Entries

/-!
# TOML documents

A document is a table of values. Tables come about by headers, by longer headers, by dotted keys, or as
values, and how a table came about decides what may still be added to it. Nothing is ever defined twice.
-/

namespace InfraConfig

inductive TableOrigin where
  | header
  /-- By a header that leads through the table. -/
  | implied
  | dotted
  | inline
  deriving DecidableEq

inductive Toml where
  | text (s : String)
  | integer (n : Int)
  | float (x : Float)
  | bool (b : Bool)
  /-- A date, a time of day, or both, in the usual form. -/
  | time (s : String)
  | list (items : List Toml)
  | table (origin : TableOrigin) (entries : List (String × Toml))
  /-- Tables under headers of one name. -/
  | tables (items : List Toml)
  deriving Inhabited

namespace Toml

/-- Stores a value under a key that is dotted or not. A dotted key leads through tables of dotted keys; it
can pass a table that is only implied, but not end there. -/
def putKey (value : Toml) : List String → Entries Toml → Option (Entries Toml)
  | [], _ => none
  | [key], entries => if entries.hasKey key then none else some (entries ++ [(key, value)])
  | key :: rest, entries =>
    match entries.get? key with
    | none => (putKey value rest []).map fun inner => entries ++ [(key, .table .dotted inner)]
    | some (.table .dotted inner) =>
      (putKey value rest inner).map fun inner => entries.put key (.table .dotted inner)
    | some (.table .implied inner) =>
      if rest.length = 1 then none
      else (putKey value rest inner).map fun inner => entries.put key (.table .implied inner)
    | some (.tables items) =>
      match items.getLast? with
      | some (.table origin inner) =>
        if rest.length = 1 then none
        else (putKey value rest inner).map fun inner =>
          entries.put key (.tables (items.dropLast ++ [.table origin inner]))
      | _ => none
    | some _ => none

/-- Stores all pairs of keys and values. -/
def putKeys (entries : Entries Toml) : List (List String × Toml) → Option (Entries Toml)
  | [] => some entries
  | (key, value) :: rest => (putKey value key entries).bind fun entries => putKeys entries rest

/-- Stores the pairs below a header; `repeated` headers make one more table of their name each time. -/
def putSection (repeated : Bool) (pairs : List (List String × Toml)) :
    List String → Entries Toml → Option (Entries Toml)
  | [], _ => none
  | [name], entries =>
    match repeated, entries.get? name with
    | true, none =>
      (putKeys [] pairs).map fun inner => entries ++ [(name, .tables [.table .header inner])]
    | true, some (.tables items) =>
      (putKeys [] pairs).map fun inner => entries.put name (.tables (items ++ [.table .header inner]))
    | false, none => (putKeys [] pairs).map fun inner => entries ++ [(name, .table .header inner)]
    | false, some (.table .implied inner) =>
      (putKeys inner pairs).map fun inner => entries.put name (.table .header inner)
    | _, some _ => none
  | name :: rest, entries =>
    match entries.get? name with
    | none => (putSection repeated pairs rest []).map fun inner => entries ++ [(name, .table .implied inner)]
    | some (.table origin inner) =>
      if origin = .inline then none
      else (putSection repeated pairs rest inner).map fun inner => entries.put name (.table origin inner)
    | some (.tables items) =>
      match items.getLast? with
      | some (.table origin inner) =>
        (putSection repeated pairs rest inner).map fun inner =>
          entries.put name (.tables (items.dropLast ++ [.table origin inner]))
      | _ => none
    | some _ => none

end Toml

end InfraConfig
