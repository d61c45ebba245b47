import InfraConfig.Proofs.EntryLaws
import InfraConfig.Toml.Reader

/-!
# Tables of TOML documents

In a document that can be read nothing is defined twice: every table in it, at any depth, has each of its keys once.
-/

namespace InfraConfig

namespace Toml

/-- Every table inside has each key once. -/
inductive Keyed : Toml → Prop where
  | text (s) : Keyed (.text s)
  | integer (n) : Keyed (.integer n)
  | float (x) : Keyed (.float x)
  | bool (b) : Keyed (.bool b)
  | time (s) : Keyed (.time s)
  | list {items} (h : ∀ t ∈ items, Keyed t) : Keyed (.list items)
  | table (origin) {entries} (keys : (Entries.keys entries).Nodup) (values : ∀ e ∈ entries, Keyed e.2) :
      Keyed (.table origin entries)
  | tables {items} (h : ∀ t ∈ items, Keyed t) : Keyed (.tables items)

/-- Entries with each key once, whose values are so inside. -/
structure KeyedEntries (entries : Entries Toml) : Prop where
  keys : entries.keys.Nodup
  values : ∀ e ∈ entries, Keyed e.2

variable {t value : Toml} {items : List Toml} {entries old next : Entries Toml} {key : String} {origin : TableOrigin}
  {name : List String} {pairs : List (List String × Toml)} {cs rest : List Char}

theorem Keyed.keyedEntries (h : Keyed (.table origin entries)) : KeyedEntries entries := by
  cases h with
  | table origin keys values => exact ⟨keys, values⟩

theorem Keyed.forall_tables (h : Keyed (.tables items)) : ∀ t ∈ items, Keyed t := by
  cases h with
  | tables h => exact h

theorem Keyed.forall_items (h : Keyed (.list items)) : ∀ t ∈ items, Keyed t := by
  cases h with
  | list h => exact h

namespace KeyedEntries

theorem nil : KeyedEntries [] :=
  ⟨List.nodup_nil, fun _ he => absurd he List.not_mem_nil⟩

theorem table (h : KeyedEntries entries) (origin : TableOrigin) : Keyed (.table origin entries) :=
  .table origin h.keys h.values

theorem get (h : KeyedEntries entries) (hget : entries.get? key = some t) : t.Keyed :=
  h.values (key, t) (Entries.mem_of_get? hget)

theorem put (h : KeyedEntries entries) (ht : t.Keyed) (key : String) : KeyedEntries (entries.put key t) := by
  refine ⟨Entries.nodup_keys_put h.keys key t, fun e he => ?_⟩
  have hget := Entries.get?_of_mem (Entries.nodup_keys_put h.keys key t) he
  rw [Entries.get?_put] at hget
  split at hget
  · exact Option.some.inj hget ▸ ht
  · exact h.get hget

/-- A new key goes to the end. -/
theorem append (h : KeyedEntries entries) (ht : t.Keyed) (hnew : entries.get? key = none) :
    KeyedEntries (entries ++ [(key, t)]) := by
  rw [← Entries.put_of_not_mem ((Entries.get?_eq_none_iff entries key).mp hnew)]
  exact h.put ht key

/-- A table is added after other tables under a key. -/
theorem putMore (h : KeyedEntries entries) (hitems : ∀ u ∈ items, Keyed u) (ht : t.Keyed) (key : String) :
    KeyedEntries (entries.put key (.tables (items ++ [t]))) := by
  refine h.put (.tables fun u hu => ?_) key
  rcases List.mem_append.mp hu with hu | hu
  · exact hitems u hu
  · exact List.mem_singleton.mp hu ▸ ht

/-- The last of the tables under a key is replaced by one with entries that are made from its own. -/
theorem putLast (h : KeyedEntries entries) (hget : entries.get? key = some (.tables items))
    (hlast : items.getLast? = some (.table origin old)) (hnext : KeyedEntries old → KeyedEntries next) :
    KeyedEntries (entries.put key (.tables (items.dropLast ++ [.table origin next]))) := by
  have hitems := (h.get hget).forall_tables
  have hold := (hitems _ (List.mem_of_getLast? hlast)).keyedEntries
  exact h.putMore (fun u hu => hitems u (List.dropLast_subset items hu)) ((hnext hold).table origin) key

end KeyedEntries

/-! ## Storing -/

theorem putKey_keyed (hvalue : value.Keyed) (h : KeyedEntries entries) (hput : putKey value name entries = some next) :
    KeyedEntries next := by
  induction name generalizing entries next with
  | nil => cases hput
  | cons key rest ih =>
    cases rest with
    | nil =>
      rw [putKey] at hput
      split at hput
      · cases hput
      · next hnew =>
        obtain rfl := Option.some.inj hput
        exact h.append hvalue (by simpa [Entries.hasKey] using hnew)
    | cons next' rest =>
      rw [putKey] at hput
      · split at hput
        · next hnew =>
          obtain ⟨inner, hinner, rfl⟩ := Option.map_eq_some_iff.mp hput
          exact h.append ((ih .nil hinner).table .dotted) hnew
        · next old hold =>
          obtain ⟨inner, hinner, rfl⟩ := Option.map_eq_some_iff.mp hput
          exact h.put ((ih (h.get hold).keyedEntries hinner).table .dotted) key
        · next old hold =>
          split at hput
          · cases hput
          · obtain ⟨inner, hinner, rfl⟩ := Option.map_eq_some_iff.mp hput
            exact h.put ((ih (h.get hold).keyedEntries hinner).table .implied) key
        · next items hold =>
          split at hput
          · next origin old hlast =>
            split at hput
            · cases hput
            · obtain ⟨inner, hinner, rfl⟩ := Option.map_eq_some_iff.mp hput
              exact h.putLast hold hlast fun hentries => ih hentries hinner
          · cases hput
        · cases hput
      · exact List.cons_ne_nil _ _

theorem putKeys_keyed (hpairs : ∀ pair ∈ pairs, pair.2.Keyed) (h : KeyedEntries entries)
    (hput : putKeys entries pairs = some next) : KeyedEntries next := by
  induction pairs generalizing entries with
  | nil => exact Option.some.inj hput ▸ h
  | cons pair pairs ih =>
    obtain ⟨hpair, hrest⟩ := List.forall_mem_cons.mp hpairs
    obtain ⟨mid, hmid, hput⟩ := Option.bind_eq_some_iff.mp hput
    exact ih hrest (putKey_keyed hpair h hmid) hput

theorem putSection_keyed {repeated : Bool} (hpairs : ∀ pair ∈ pairs, pair.2.Keyed) (h : KeyedEntries entries)
    (hput : putSection repeated pairs name entries = some next) : KeyedEntries next := by
  induction name generalizing entries next with
  | nil => cases hput
  | cons key rest ih =>
    cases rest with
    | nil =>
      unfold putSection at hput
      split at hput
      · next hnew =>
        obtain ⟨inner, hinner, rfl⟩ := Option.map_eq_some_iff.mp hput
        refine h.append (.tables fun t ht => ?_) hnew
        exact List.mem_singleton.mp ht ▸ (putKeys_keyed hpairs .nil hinner).table .header
      · next items hold =>
        obtain ⟨inner, hinner, rfl⟩ := Option.map_eq_some_iff.mp hput
        exact h.putMore (h.get hold).forall_tables ((putKeys_keyed hpairs .nil hinner).table .header) key
      · next hnew =>
        obtain ⟨inner, hinner, rfl⟩ := Option.map_eq_some_iff.mp hput
        exact h.append ((putKeys_keyed hpairs .nil hinner).table .header) hnew
      · next old hold =>
        obtain ⟨inner, hinner, rfl⟩ := Option.map_eq_some_iff.mp hput
        exact h.put ((putKeys_keyed hpairs (h.get hold).keyedEntries hinner).table .header) key
      · cases hput
    | cons next' rest =>
      rw [putSection] at hput
      · split at hput
        · next hnew =>
          obtain ⟨inner, hinner, rfl⟩ := Option.map_eq_some_iff.mp hput
          exact h.append ((ih .nil hinner).table .implied) hnew
        · next origin old hold =>
          split at hput
          · cases hput
          · obtain ⟨inner, hinner, rfl⟩ := Option.map_eq_some_iff.mp hput
            exact h.put ((ih (h.get hold).keyedEntries hinner).table origin) key
        · next items hold =>
          split at hput
          · next origin old hlast =>
            obtain ⟨inner, hinner, rfl⟩ := Option.map_eq_some_iff.mp hput
            exact h.putLast hold hlast fun hentries => ih hentries hinner
          · cases hput
        · cases hput
      · exact List.cons_ne_nil _ _

/-! ## Reading -/

theorem readWord_keyed (h : readWord? cs = some t) : t.Keyed := by
  unfold readWord? at h
  split at h
  · exact Option.some.inj h ▸ .bool true
  · split at h
    · exact Option.some.inj h ▸ .bool false
    · split at h
      · exact Option.some.inj h ▸ .integer _
      · split at h
        · exact Option.some.inj h ▸ .float _
        · obtain ⟨time, -, rfl⟩ := Option.map_eq_some_iff.mp h
          exact .time time

/-- What is read with some fuel has each key once; the three readers call each other with less of it. -/
structure ReadsKeyed (fuel : Nat) : Prop where
  value : ∀ depth cs t rest, readValue fuel depth cs = some (t, rest) → t.Keyed
  items : ∀ depth cs items rest, readItems fuel depth cs = some (items, rest) → ∀ t ∈ items, t.Keyed
  pairs : ∀ depth cs pairs rest, readInline fuel depth cs = some (pairs, rest) → ∀ pair ∈ pairs, pair.2.Keyed

variable {fuel depth : Nat}

theorem ReadsKeyed.succ_value (h : ReadsKeyed fuel) (hread : readValue (fuel + 1) depth cs = some (t, rest)) :
    t.Keyed := by
  unfold readValue at hread
  split at hread
  · split at hread
    · cases hread
    · obtain ⟨⟨items, after⟩, hitems, heq⟩ := Option.map_eq_some_iff.mp hread
      obtain ⟨rfl, -⟩ := Prod.mk.inj heq
      exact .list (h.items _ _ _ _ hitems)
  · split at hread
    · cases hread
    · obtain ⟨⟨pairs, after⟩, hpairs, hread⟩ := Option.bind_eq_some_iff.mp hread
      obtain ⟨entries, hentries, hread⟩ := Option.bind_eq_some_iff.mp hread
      obtain ⟨rfl, -⟩ := Prod.mk.inj (Option.some.inj hread)
      exact (putKeys_keyed (h.pairs _ _ _ _ hpairs) .nil hentries).table .inline
  · split at hread
    · obtain ⟨rfl, -⟩ := Prod.mk.inj (Option.some.inj hread)
      exact .text _
    · obtain ⟨value, hvalue, heq⟩ := Option.map_eq_some_iff.mp hread
      obtain ⟨rfl, -⟩ := Prod.mk.inj heq
      exact readWord_keyed hvalue

theorem ReadsKeyed.succ_items (h : ReadsKeyed fuel) (hread : readItems (fuel + 1) depth cs = some (items, rest)) :
    ∀ t ∈ items, t.Keyed := by
  unfold readItems at hread
  obtain ⟨start, -, hread⟩ := Option.bind_eq_some_iff.mp hread
  split at hread
  · obtain ⟨rfl, -⟩ := Prod.mk.inj (Option.some.inj hread)
    exact fun t ht => absurd ht List.not_mem_nil
  · obtain ⟨⟨item, after⟩, hitem, hread⟩ := Option.bind_eq_some_iff.mp hread
    obtain ⟨following, -, hread⟩ := Option.bind_eq_some_iff.mp hread
    have hfirst := h.value _ _ _ _ hitem
    split at hread
    · obtain ⟨⟨others, last⟩, hothers, hread⟩ := Option.bind_eq_some_iff.mp hread
      obtain ⟨rfl, -⟩ := Prod.mk.inj (Option.some.inj hread)
      exact List.forall_mem_cons.mpr ⟨hfirst, h.items _ _ _ _ hothers⟩
    · obtain ⟨rfl, -⟩ := Prod.mk.inj (Option.some.inj hread)
      exact List.forall_mem_singleton.mpr hfirst
    · cases hread

theorem ReadsKeyed.succ_pairs (h : ReadsKeyed fuel) (hread : readInline (fuel + 1) depth cs = some (pairs, rest)) :
    ∀ pair ∈ pairs, pair.2.Keyed := by
  unfold readInline at hread
  obtain ⟨start, -, hread⟩ := Option.bind_eq_some_iff.mp hread
  split at hread
  · obtain ⟨rfl, -⟩ := Prod.mk.inj (Option.some.inj hread)
    exact fun t ht => absurd ht List.not_mem_nil
  · obtain ⟨⟨key, afterKey⟩, -, hread⟩ := Option.bind_eq_some_iff.mp hread
    obtain ⟨afterSign, -, hread⟩ := Option.bind_eq_some_iff.mp hread
    obtain ⟨⟨value, afterValue⟩, hvalue, hread⟩ := Option.bind_eq_some_iff.mp hread
    obtain ⟨following, -, hread⟩ := Option.bind_eq_some_iff.mp hread
    have hfirst := h.value _ _ _ _ hvalue
    split at hread
    · obtain ⟨⟨others, last⟩, hothers, hread⟩ := Option.bind_eq_some_iff.mp hread
      obtain ⟨rfl, -⟩ := Prod.mk.inj (Option.some.inj hread)
      exact List.forall_mem_cons.mpr ⟨hfirst, h.pairs _ _ _ _ hothers⟩
    · obtain ⟨rfl, -⟩ := Prod.mk.inj (Option.some.inj hread)
      exact List.forall_mem_singleton.mpr hfirst
    · cases hread

theorem readsKeyed (fuel : Nat) : ReadsKeyed fuel := by
  induction fuel with
  | zero => refine ⟨?_, ?_, ?_⟩ <;> exact fun _ _ _ _ h => nomatch h
  | succ fuel ih => exact ⟨fun _ _ _ _ => ih.succ_value, fun _ _ _ _ => ih.succ_items, fun _ _ _ _ => ih.succ_pairs⟩

theorem readPairs_keyed (h : readPairs fuel cs = some (pairs, rest)) : ∀ pair ∈ pairs, pair.2.Keyed := by
  induction fuel generalizing cs pairs rest with
  | zero => cases h
  | succ fuel ih =>
    unfold readPairs at h
    obtain ⟨start, -, h⟩ := Option.bind_eq_some_iff.mp h
    split at h
    · obtain ⟨rfl, -⟩ := Prod.mk.inj (Option.some.inj h)
      exact fun t ht => absurd ht List.not_mem_nil
    · obtain ⟨rfl, -⟩ := Prod.mk.inj (Option.some.inj h)
      exact fun t ht => absurd ht List.not_mem_nil
    · obtain ⟨⟨key, afterKey⟩, -, h⟩ := Option.bind_eq_some_iff.mp h
      obtain ⟨afterSign, -, h⟩ := Option.bind_eq_some_iff.mp h
      obtain ⟨⟨value, afterValue⟩, hvalue, h⟩ := Option.bind_eq_some_iff.mp h
      obtain ⟨following, -, h⟩ := Option.bind_eq_some_iff.mp h
      obtain ⟨⟨others, last⟩, hothers, h⟩ := Option.bind_eq_some_iff.mp h
      obtain ⟨rfl, -⟩ := Prod.mk.inj (Option.some.inj h)
      exact List.forall_mem_cons.mpr ⟨(readsKeyed _).value _ _ _ _ hvalue, ih hothers⟩

theorem readSections_keyed (h : KeyedEntries entries) (hread : readSections fuel entries cs = some next) :
    KeyedEntries next := by
  induction fuel generalizing entries cs with
  | zero => cases hread
  | succ fuel ih =>
    unfold readSections at hread
    split at hread
    · exact Option.some.inj hread ▸ h
    · obtain ⟨⟨repeated, name, afterName⟩, -, hread⟩ := Option.bind_eq_some_iff.mp hread
      obtain ⟨⟨pairs, afterPairs⟩, hpairs, hread⟩ := Option.bind_eq_some_iff.mp hread
      obtain ⟨mid, hmid, hread⟩ := Option.bind_eq_some_iff.mp hread
      exact ih (putSection_keyed (readPairs_keyed hpairs) h hmid) hread

/-- A document that can be read defines nothing twice. -/
theorem read_keyed {source : String} (h : read? source = some entries) : KeyedEntries entries := by
  unfold read? at h
  obtain ⟨⟨pairs, afterPairs⟩, hpairs, h⟩ := Option.bind_eq_some_iff.mp h
  obtain ⟨first, hfirst, h⟩ := Option.bind_eq_some_iff.mp h
  exact readSections_keyed (putKeys_keyed (readPairs_keyed hpairs) .nil hfirst) h

end Toml

end InfraConfig
