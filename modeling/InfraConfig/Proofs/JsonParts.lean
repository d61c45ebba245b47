import InfraConfig.Json.Reader
import InfraConfig.Proofs.EntryLaws
import InfraConfig.Proofs.Persistence
import InfraConfig.Proofs.RunLaws

/-!
# Parts of JSON values

What holds of all texts and keys of a JSON value stays true when its keys are sorted. In a value that is read no key is
double, however often it was written.
-/

namespace InfraConfig

/-! ## Properties of all parts -/

namespace JsonValue

mutual

/-- Whether all texts of a value have a property, and the keys of every object another. -/
def AllParts (texts : String → Prop) (keys : List String → Prop) : JsonValue → Prop
  | .null => True
  | .bool _ => True
  | .number _ => True
  | .text s => texts s
  | .list items => AllItems texts keys items
  | .object entries => keys (Entries.keys entries) ∧ AllEntries texts keys entries

def AllItems (texts : String → Prop) (keys : List String → Prop) : List JsonValue → Prop
  | [] => True
  | v :: rest => v.AllParts texts keys ∧ AllItems texts keys rest

def AllEntries (texts : String → Prop) (keys : List String → Prop) : List (String × JsonValue) → Prop
  | [] => True
  | (_, v) :: rest => v.AllParts texts keys ∧ AllEntries texts keys rest

end

/-- Whether every object has each key once. -/
def HasDistinctKeys (v : JsonValue) : Prop :=
  v.AllParts (fun _ => True) List.Nodup

/-- A text without interpolations. -/
def IsLiteralText (s : String) : Prop :=
  containsText s "$\x7b" = false

/-- Whether no text has an interpolation. Keys may look like one. -/
def IsLiteral (v : JsonValue) : Prop :=
  v.AllParts IsLiteralText fun _ => True

section

variable {texts : String → Prop} {keys : List String → Prop}

theorem allItems_iff {items : List JsonValue} : AllItems texts keys items ↔ ∀ v ∈ items, v.AllParts texts keys := by
  induction items with
  | nil => simp [AllItems]
  | cons v rest ih => simp [AllItems, ih]

theorem allEntries_iff {entries : List (String × JsonValue)} :
    AllEntries texts keys entries ↔ ∀ e ∈ entries, e.2.AllParts texts keys := by
  induction entries with
  | nil => simp [AllEntries]
  | cons e rest ih => simp [AllEntries, ih]

mutual

/-- What the texts of a value are has nothing to do with its keys. -/
theorem AllParts.mix {texts' : String → Prop} {keys' : List String → Prop} :
    ∀ {v : JsonValue}, v.AllParts texts keys' → v.AllParts texts' keys → v.AllParts texts keys
  | .null, _, _ => trivial
  | .bool _, _, _ => trivial
  | .number _, _, _ => trivial
  | .text _, h, _ => h
  | .list _, h, h' => AllParts.mixItems h h'
  | .object _, h, h' => ⟨h'.1, AllParts.mixEntries h.2 h'.2⟩

theorem AllParts.mixItems {texts' : String → Prop} {keys' : List String → Prop} :
    ∀ {items : List JsonValue}, AllItems texts keys' items → AllItems texts' keys items → AllItems texts keys items
  | [], _, _ => trivial
  | _ :: _, h, h' => ⟨AllParts.mix h.1 h'.1, AllParts.mixItems h.2 h'.2⟩

theorem AllParts.mixEntries {texts' : String → Prop} {keys' : List String → Prop} :
    ∀ {entries : List (String × JsonValue)}, AllEntries texts keys' entries → AllEntries texts' keys entries →
      AllEntries texts keys entries
  | [], _, _ => trivial
  | _ :: _, h, h' => ⟨AllParts.mix h.1 h'.1, AllParts.mixEntries h.2 h'.2⟩

end

/-! ### Sorted keys -/

/-- The entries of an object whose keys are sorted. -/
def sortedEntries (entries : Entries JsonValue) : Entries JsonValue :=
  .sorted (sortKeysEntries entries)

theorem sortKeysEntries_eq_map (entries : List (String × JsonValue)) :
    sortKeysEntries entries = entries.map fun e => (e.1, e.2.sortKeys) := by
  induction entries with
  | nil => rfl
  | cons e rest ih => rw [sortKeysEntries, ih]; rfl

theorem sortKeysItems_eq_map (items : List JsonValue) : sortKeysItems items = items.map sortKeys := by
  induction items with
  | nil => rfl
  | cons v rest ih => rw [sortKeysItems, ih]; rfl

theorem perm_sortedEntries (entries : Entries JsonValue) :
    (sortedEntries entries).Perm (entries.map fun e => (e.1, e.2.sortKeys)) :=
  sortKeysEntries_eq_map entries ▸ Entries.perm_sorted _

theorem mem_sortedEntries {entries : Entries JsonValue} {k : String} {v : JsonValue} (h : (k, v) ∈ entries) :
    (k, v.sortKeys) ∈ sortedEntries entries :=
  (perm_sortedEntries entries).mem_iff.mpr (List.mem_map.mpr ⟨(k, v), h, rfl⟩)

theorem keys_sortedEntries (entries : Entries JsonValue) : (sortedEntries entries).keys.Perm entries.keys := by
  simpa [Entries.keys, Function.comp_def] using (perm_sortedEntries entries).map Prod.fst

mutual

/-- Sorting keeps what does not hang on the order of keys. -/
theorem AllParts.sortKeys (hkeys : ∀ ks js : List String, ks.Perm js → keys js → keys ks) :
    ∀ {v : JsonValue}, v.AllParts texts keys → v.sortKeys.AllParts texts keys
  | .null, h => h
  | .bool _, h => h
  | .number _, h => h
  | .text _, h => h
  | .list _, h => AllParts.sortItems hkeys h
  | .object entries, h => by
    refine ⟨hkeys _ _ (keys_sortedEntries entries) h.1, allEntries_iff.mpr fun e he => ?_⟩
    have hmem : e ∈ sortKeysEntries entries := (Entries.perm_sorted (sortKeysEntries entries)).mem_iff.mp he
    exact allEntries_iff.mp (AllParts.sortEntries hkeys h.2) e hmem

theorem AllParts.sortItems (hkeys : ∀ ks js : List String, ks.Perm js → keys js → keys ks) :
    ∀ {items : List JsonValue}, AllItems texts keys items → AllItems texts keys (sortKeysItems items)
  | [], h => h
  | _ :: _, h => ⟨AllParts.sortKeys hkeys h.1, AllParts.sortItems hkeys h.2⟩

theorem AllParts.sortEntries (hkeys : ∀ ks js : List String, ks.Perm js → keys js → keys ks) :
    ∀ {entries : List (String × JsonValue)}, AllEntries texts keys entries →
      AllEntries texts keys (sortKeysEntries entries)
  | [], h => h
  | _ :: _, h => ⟨AllParts.sortKeys hkeys h.1, AllParts.sortEntries hkeys h.2⟩

end

end

theorem HasDistinctKeys.sortKeys {v : JsonValue} (h : v.HasDistinctKeys) : v.sortKeys.HasDistinctKeys :=
  AllParts.sortKeys (fun _ _ hperm hnodup => hperm.symm.nodup hnodup) h

theorem IsLiteral.sortKeys {v : JsonValue} (h : v.IsLiteral) : v.sortKeys.IsLiteral :=
  AllParts.sortKeys (fun _ _ _ _ => trivial) h

/-! ## Keys of what is read -/

/-- Entries without double keys, in whose values no key is double either. -/
def Distinct (entries : Entries JsonValue) : Prop :=
  (JsonValue.object entries).HasDistinctKeys

theorem Distinct.put {entries : Entries JsonValue} (h : Distinct entries) (key : String) {v : JsonValue}
    (hv : v.HasDistinctKeys) : Distinct (entries.put key v) := by
  refine ⟨Entries.nodup_keys_put h.1 key v, allEntries_iff.mpr fun e he => ?_⟩
  have hget : (entries.put key v).get? e.1 = some e.2 :=
    Entries.get?_of_mem (Entries.nodup_keys_put h.1 key v) he
  rw [Entries.get?_put] at hget
  split at hget
  · exact Option.some.inj hget ▸ hv
  · exact allEntries_iff.mp h.2 _ (Entries.mem_of_get? hget)

end JsonValue

namespace Json

open JsonValue (AllItems HasDistinctKeys Distinct)

/-- Whether all that can be read has a property. -/
def Yields {α : Type} (P : α → Prop) (x : Except JsonFailure (α × List Char)) : Prop :=
  ∀ v rest, x = .ok (v, rest) → P v

namespace Yields

variable {α β : Type} {P : α → Prop} {Q : β → Prop}

theorem ok {v : α} (h : P v) (rest : List Char) : Yields P (.ok (v, rest)) := by
  rintro _ _ ⟨⟩
  exact h

theorem fail (problem : JsonProblem) (rest : List Char) (peeked : Bool) : Yields P (Json.fail problem rest peeked) :=
  nofun

theorem bind {x : Except JsonFailure (α × List Char)} {f : α × List Char → Except JsonFailure (β × List Char)}
    (h : Yields P x) (hf : ∀ v rest, P v → Yields Q (f (v, rest))) : Yields Q (x >>= f) := by
  intro w rest hw
  obtain ⟨⟨v, more⟩, hv, hrest⟩ := bind_eq_ok_iff.mp hw
  exact hf v more (h v more hv) w rest hrest

theorem any (x : Except JsonFailure (α × List Char)) : Yields (fun _ => True) x :=
  fun _ _ _ => trivial

end Yields

theorem yields_readWord (word : List Char) {value : JsonValue} (h : value.HasDistinctKeys) (cs : List Char) :
    Yields HasDistinctKeys (readWord word value cs) := by
  induction word generalizing cs with
  | nil => exact .ok h cs
  | cons w word ih =>
    cases cs with
    | nil => exact .fail _ _ _
    | cons c rest =>
      rw [readWord]
      split
      · exact ih rest
      · exact .fail _ _ _

mutual

/-- No key is double in a value that is read, since a key that comes again replaces the value where it stands. -/
theorem yields_readValue : ∀ (fuel depth : Nat) (cs : List Char),
    Yields HasDistinctKeys (readValue fuel depth cs)
  | 0, _, _ => by
    rw [readValue]
    exact .fail _ _ _
  | fuel + 1, depth, cs => by
    rw [readValue]
    split
    · exact .fail _ _ _
    · exact yields_readWord _ (by trivial) _
    · exact yields_readWord _ (by trivial) _
    · exact yields_readWord _ (by trivial) _
    · exact (Yields.any _).bind fun _ rest _ => .ok trivial rest
    · exact (Yields.any _).bind fun _ rest _ => .ok trivial rest
    · split
      · exact .fail _ _ _
      · exact (yields_readItems fuel (depth - 1) true _).bind fun items rest hitems =>
          .ok (v := JsonValue.list items) hitems rest
    · split
      · exact .fail _ _ _
      · exact (yields_readEntries fuel (depth - 1) ⟨Entries.nodup_keys_nil, trivial⟩ true _).bind
          fun entries rest hentries => .ok (v := JsonValue.object entries) hentries rest
    · split
      · exact (Yields.any _).bind fun _ rest _ => .ok trivial rest
      · exact .fail _ _ _

theorem yields_readItems : ∀ (fuel depth : Nat) (first : Bool) (cs : List Char),
    Yields (AllItems (fun _ => True) List.Nodup) (readItems fuel depth first cs)
  | 0, _, _, _ => by
    rw [readItems]
    exact .fail _ _ _
  | fuel + 1, depth, first, cs => by
    have hcons (cs : List Char) : Yields (AllItems (fun _ => True) List.Nodup) (do
        let (item, rest) ← readValue fuel depth cs
        let (items, rest) ← readItems fuel depth false rest
        .ok (item :: items, rest)) :=
      (yields_readValue fuel depth cs).bind fun _ rest hitem =>
        (yields_readItems fuel depth false rest).bind fun _ rest hitems => .ok ⟨hitem, hitems⟩ rest
    rw [readItems]
    split
    · exact .fail _ _ _
    · exact .ok trivial _
    · split
      · exact hcons _
      · split
        · split
          · exact .fail _ _ _
          · exact .fail _ _ _
          · exact hcons _
        · exact .fail _ _ _

theorem yields_readEntries : ∀ (fuel depth : Nat) {done : Entries JsonValue} (_ : Distinct done) (first : Bool)
    (cs : List Char), Yields Distinct (readEntries fuel depth done first cs)
  | 0, _, _, _, _, _ => by
    rw [readEntries]
    exact .fail _ _ _
  | fuel + 1, depth, done, hdone, first, cs => by
    rw [readEntries]
    split
    · exact .fail _ _ _
    · exact .ok hdone _
    · split
      · exact yields_readEntry fuel depth hdone _
      · split
        · split
          · exact .fail _ _ _
          · exact .fail _ _ _
          · exact yields_readEntry fuel depth hdone _
        · exact .fail _ _ _

theorem yields_readEntry : ∀ (fuel depth : Nat) {done : Entries JsonValue} (_ : Distinct done) (cs : List Char),
    Yields Distinct (readEntry fuel depth done cs)
  | 0, _, _, _, _ => by
    rw [readEntry]
    exact .fail _ _ _
  | fuel + 1, depth, done, hdone, cs => by
    rw [readEntry.eq_def]
    dsimp only
    split
    · refine (Yields.any _).bind fun key rest _ => ?_
      dsimp only
      split
      · exact (yields_readValue fuel depth _).bind fun _ rest hv =>
          yields_readEntries fuel depth (hdone.put key hv) false rest
      · exact .fail _ _ _
      · exact .fail _ _ _
    · exact .fail _ _ _

end

theorem hasDistinctKeys_of_read? {source : String} {v : JsonValue} (h : read? source = some v) :
    v.HasDistinctKeys := by
  obtain ⟨⟨w, rest⟩, hread, hw⟩ := bind_eq_ok_iff.mp (eq_ok_of_toOption h)
  have hdistinct : w.HasDistinctKeys := yields_readValue _ _ _ w rest hread
  dsimp only at hw
  split at hw
  · exact Except.ok.inj hw ▸ hdistinct
  · cases hw

end Json

end InfraConfig
