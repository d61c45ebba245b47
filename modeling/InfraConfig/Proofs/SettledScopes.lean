import InfraConfig.Block.Attribute
import InfraConfig.Proofs.Persistence
import InfraConfig.Proofs.RelatedFiles
import InfraConfig.Proofs.ScopeLaws

/-!
# Settling what is unknown

Unknown values have no plain data: an entry that holds one is not there, an item becomes null. When such a
value is replaced, whatever was read around it may change. A path that meets nothing unknown on any scope of
its chain leads to the same data as before; a path that led nowhere cannot have been used by an evaluation
that had a value.
-/

namespace InfraConfig

namespace Value

mutual

/-- The second value is the first one with unknown values in it replaced. -/
def Settles : Value → Value → Prop
  | .unknown, _ => True
  | .list vs, .list ws => SettlesItems vs ws
  | .set vs, .set ws => SettlesItems vs ws
  | .map es, .map fs => SettlesEntries es fs
  | .object es, .object fs => SettlesEntries es fs
  | v, w => v = w

def SettlesItems : List Value → List Value → Prop
  | [], [] => True
  | v :: vs, w :: ws => Settles v w ∧ SettlesItems vs ws
  | _, _ => False

def SettlesEntries : List (String × Value) → List (String × Value) → Prop
  | [], [] => True
  | (k, v) :: es, (j, w) :: fs => k = j ∧ Settles v w ∧ SettlesEntries es fs
  | _, _ => False

end

mutual

theorem Settles.eq_of_known : ∀ v w : Value, Settles v w → v.isWhollyKnown = true → v = w
  | .unknown, _, _, h => by cases h
  | .list vs, .list ws, hs, h => by rw [SettlesItems.eq_of_known vs ws hs h]
  | .set vs, .set ws, hs, h => by rw [SettlesItems.eq_of_known vs ws hs h]
  | .map es, .map fs, hs, h => by rw [SettlesEntries.eq_of_known es fs hs h]
  | .object es, .object fs, hs, h => by rw [SettlesEntries.eq_of_known es fs hs h]
  | .null, w, hs, _ => by simpa [Settles] using hs
  | .bool b, w, hs, _ => by simpa [Settles] using hs
  | .number n, w, hs, _ => by simpa [Settles] using hs
  | .text s, w, hs, _ => by simpa [Settles] using hs

theorem SettlesItems.eq_of_known :
    ∀ vs ws : List Value, SettlesItems vs ws → allKnown vs = true → vs = ws
  | [], [], _, _ => rfl
  | v :: vs, w :: ws, hs, h => by
    rw [allKnown, Bool.and_eq_true] at h
    rw [Settles.eq_of_known v w hs.1 h.1, SettlesItems.eq_of_known vs ws hs.2 h.2]

theorem SettlesEntries.eq_of_known : ∀ es fs : List (String × Value),
    SettlesEntries es fs → entriesKnown es = true → es = fs
  | [], [], _, _ => rfl
  | (k, v) :: es, (j, w) :: fs, hs, h => by
    rw [entriesKnown, Bool.and_eq_true] at h
    rw [hs.1, Settles.eq_of_known v w hs.2.1 h.1, SettlesEntries.eq_of_known es fs hs.2.2 h.2]

end

/-- Whether nothing unknown is met on the way along some names, nor in what they lead to. -/
def ClearAt : List String → Value → Prop
  | [], v => v.isWhollyKnown = true
  | name :: rest, v => v.isUnknown = false ∧
    ∀ entries, v.entries? = some entries → ∀ e ∈ entries, e.1 = name → ClearAt rest e.2

end Value

/-- The same keys in the same order, with related values under one of them. -/
def SameKeys (R : Value → Value → Prop) (name : String) (es fs : Entries Value) : Prop :=
  List.Forall₂ (fun e f => e.1 = f.1 ∧ (e.1 = name → R e.2 f.2)) es fs

namespace SameKeys

variable {R : Value → Value → Prop} {name : String} {es fs : Entries Value}

theorem get? (h : SameKeys R name es fs) (k : String) :
    Option.Rel (fun v w => k = name → R v w) (es.get? k) (fs.get? k) := by
  induction h with
  | nil => exact .none
  | @cons e f es fs hef _ ih =>
    obtain ⟨j, v⟩ := e
    obtain ⟨j', w⟩ := f
    obtain ⟨rfl, hvw⟩ := hef
    rw [Entries.get?_cons, Entries.get?_cons]
    by_cases hk : k = j
    · subst hk
      rw [if_pos rfl, if_pos rfl]
      exact .some hvw
    · simpa [hk] using ih

theorem put (h : SameKeys R name es fs) (k : String) {v w : Value} (hvw : k = name → R v w) :
    SameKeys R name (es.put k v) (fs.put k w) := by
  induction h with
  | nil => exact .cons ⟨rfl, hvw⟩ .nil
  | @cons e f es fs hef hrest ih =>
    obtain ⟨j, x⟩ := e
    obtain ⟨j', y⟩ := f
    obtain ⟨rfl, hxy⟩ := hef
    rw [Entries.put, Entries.put]
    by_cases hj : j = k
    · subst hj
      rw [if_pos rfl, if_pos rfl]
      exact .cons ⟨rfl, hvw⟩ hrest
    · rw [if_neg hj, if_neg hj]
      exact .cons ⟨rfl, hxy⟩ ih

/-- Merging keeps related what is under the name, if merging values keeps them related. -/
theorem mergeEntries (hR : ∀ {a b c d}, R a b → R c d → R (Value.deepMerge a c) (Value.deepMerge b d))
    {more others : Entries Value} (h : SameKeys R name es fs) (hmore : SameKeys R name more others) :
    SameKeys R name (Value.mergeEntries es more) (Value.mergeEntries fs others) := by
  induction hmore generalizing es fs with
  | nil => exact h
  | @cons e f more others hef _ ih =>
    obtain ⟨k, v⟩ := e
    obtain ⟨k', w⟩ := f
    obtain ⟨rfl, hvw⟩ := hef
    rw [Value.mergeEntries, Value.mergeEntries]
    apply ih
    apply h.put
    intro hk
    have hold := h.get? k
    revert hold
    generalize es.get? k = old
    generalize fs.get? k = old'
    rintro (hold | _)
    · exact hR (hold hk) (hvw hk)
    · exact hvw hk

/-- Entries without plain data vanish, on both sides or on neither. -/
theorem get?_datumEntries {α : Type} {f : Datum → α}
    (hR : ∀ {v w}, R v w → v.toDatum?.map f = w.toDatum?.map f) (h : SameKeys R name es fs) :
    (Entries.get? (Value.datumEntries es) name).map f
      = (Entries.get? (Value.datumEntries fs) name).map f := by
  induction h with
  | nil => rfl
  | @cons e f' es fs hef _ ih =>
    obtain ⟨k, v⟩ := e
    obtain ⟨k', w⟩ := f'
    obtain ⟨rfl, hvw⟩ := hef
    rw [Value.datumEntries, Value.datumEntries]
    by_cases hk : name = k
    · have hdata := hR (hvw hk.symm)
      cases hv : v.toDatum? <;> cases hw : w.toDatum? <;> simp_all [Entries.get?_cons]
    · cases hv : v.toDatum? <;> cases hw : w.toDatum? <;> simp_all [Entries.get?_cons]

end SameKeys

namespace Value

/-- Values that are the same along some names and in what these lead to. -/
def SameAt : List String → Value → Value → Prop
  | [], v, w => v = w
  | name :: rest, v, w =>
    v.isUnknown = w.isUnknown ∧ Option.Rel (SameKeys (SameAt rest) name) v.entries? w.entries?

theorem SettlesEntries.sameKeys {R : Value → Value → Prop} {name : String} :
    ∀ {es fs : Entries Value}, SettlesEntries es fs →
      (∀ e ∈ es, e.1 = name → ∀ w, Settles e.2 w → R e.2 w) → SameKeys R name es fs
  | [], [], _, _ => .nil
  | (k, v) :: es, (j, w) :: fs, hs, h => by
    refine .cons ⟨hs.1, fun hk => h (k, v) List.mem_cons_self hk w hs.2.1⟩ ?_
    exact SettlesEntries.sameKeys hs.2.2 fun e he => h e (List.mem_cons_of_mem _ he)

/-- Settling does not reach what is clear. -/
theorem Settles.sameAt {names : List String} {v w : Value} (hs : Settles v w)
    (hclear : ClearAt names v) : SameAt names v w := by
  induction names generalizing v w with
  | nil => exact Settles.eq_of_known v w hs hclear
  | cons name rest ih =>
    obtain ⟨hknown, hentries⟩ := hclear
    have inner {es fs : Entries Value} (hes : v.entries? = some es) (h : SettlesEntries es fs) :
        SameKeys (SameAt rest) name es fs :=
      h.sameKeys fun e he hk w hw => ih hw (hentries es hes e he hk)
    match v, w, hs with
    | .list _, .list _, _ => exact ⟨rfl, .none⟩
    | .set _, .set _, _ => exact ⟨rfl, .none⟩
    | .map _, .map _, hs => exact ⟨rfl, .some (inner rfl hs)⟩
    | .object _, .object _, hs => exact ⟨rfl, .some (inner rfl hs)⟩
    | .null, _, rfl => exact ⟨rfl, .none⟩
    | .bool _, _, rfl => exact ⟨rfl, .none⟩
    | .number _, _, rfl => exact ⟨rfl, .none⟩
    | .text _, _, rfl => exact ⟨rfl, .none⟩

theorem deepMerge_of_entries {old new : Value} {es fs : Entries Value} (hold : old.entries? = some es)
    (hnew : new.entries? = some fs) :
    (deepMerge old new).entries? = some (mergeEntries es fs) ∧ (deepMerge old new).isUnknown = false := by
  have hmerge : deepMerge old new = old.withEntries (mergeEntries es fs) := by
    cases new <;> simp_all [entries?, deepMerge]
  rw [hmerge]
  cases old <;> simp_all [entries?, withEntries, isUnknown]

theorem deepMerge_of_not {old new : Value} (h : old.entries? = none ∨ new.entries? = none) :
    deepMerge old new = new := by
  cases new <;> simp_all [entries?, deepMerge]

theorem SameAt.entries {name : String} {rest : List String} {v w : Value}
    (h : SameAt (name :: rest) v w) :
    (v.entries? = none ∧ w.entries? = none) ∨ ∃ es fs, v.entries? = some es ∧ w.entries? = some fs ∧
      SameKeys (SameAt rest) name es fs := by
  have hentries := h.2
  revert hentries
  generalize v.entries? = x
  generalize w.entries? = y
  rintro (hentries | _)
  · exact .inr ⟨_, _, rfl, rfl, hentries⟩
  · exact .inl ⟨rfl, rfl⟩

/-- Merging values that are the same along some names gives such values. -/
theorem SameAt.deepMerge {names : List String} {a b c d : Value} (hab : SameAt names a b)
    (hcd : SameAt names c d) : SameAt names (Value.deepMerge a c) (Value.deepMerge b d) := by
  induction names generalizing a b c d with
  | nil =>
    obtain rfl : a = b := hab
    obtain rfl : c = d := hcd
    rfl
  | cons name rest ih =>
    rcases hcd.entries with ⟨hc, hd⟩ | ⟨more, others, hc, hd, hmore⟩
    · rwa [deepMerge_of_not (.inr hc), deepMerge_of_not (.inr hd)]
    · rcases hab.entries with ⟨ha, hb⟩ | ⟨es, fs, ha, hb, hes⟩
      · rwa [deepMerge_of_not (.inl ha), deepMerge_of_not (.inl hb)]
      · obtain ⟨hleft, hleftKnown⟩ := deepMerge_of_entries ha hc
        obtain ⟨hright, hrightKnown⟩ := deepMerge_of_entries hb hd
        refine ⟨hleftKnown.trans hrightKnown.symm, ?_⟩
        rw [hleft, hright]
        exact .some (hes.mergeEntries ih hmore)

/-- What has no entries has no members either. -/
theorem toDatum?_of_no_entries {v : Value} (h : v.entries? = none) (hknown : v.isUnknown = false)
    (name : String) : ∃ d, v.toDatum? = some d ∧ attributeOf name d = .error (.unexpected .object) := by
  cases v <;> simp_all [entries?, isUnknown, toDatum?, attributeOf]

theorem toDatum?_of_entries {v : Value} {es : Entries Value} (h : v.entries? = some es) :
    v.toDatum? = some (.object (datumEntries es)) := by
  cases v <;> simp_all [entries?, toDatum?]

theorem attributeOf_object_bind (name : String) (entries : List (String × Datum))
    (f : Datum → Except EvalError Datum) : attributeOf name (.object entries) >>= f
      = ((Entries.get? entries name).map f).getD (.error (.noKey name)) := by
  rw [attributeOf]
  cases Entries.get? entries name <;> rfl

/-- Values that are the same along some names lead there to the same data. -/
theorem SameAt.toDatum? {names : List String} {v w : Value} (h : SameAt names v w) :
    v.toDatum?.map (memberAt names) = w.toDatum?.map (memberAt names) := by
  induction names generalizing v w with
  | nil => rw [show v = w from h]
  | cons name rest ih =>
    rcases h.entries with ⟨hv, hw⟩ | ⟨es, fs, hv, hw, hsame⟩
    · cases hknown : v.isUnknown with
      | true =>
        have hother : w.isUnknown = true := h.1.symm.trans hknown
        cases v <;> cases w <;> simp_all [isUnknown, Value.toDatum?]
      | false =>
        obtain ⟨d, hd, hfails⟩ := toDatum?_of_no_entries hv hknown name
        obtain ⟨d', hd', hfails'⟩ := toDatum?_of_no_entries hw (h.1.symm.trans hknown) name
        simp only [hd, hd', Option.map_some, memberAt, hfails, hfails']
    · rw [toDatum?_of_entries hv, toDatum?_of_entries hw]
      simp only [Option.map_some, memberAt, attributeOf_object_bind]
      rw [hsame.get?_datumEntries ih]

end Value

/-! ## Scopes -/

namespace Scopes

/-- The second scopes are the first ones with unknown values in their bindings replaced. -/
structure Settles (s t : Scopes) : Prop where
  parents : ∀ id, t.parent? id = s.parent? id
  bindings : ∀ id, Value.SettlesEntries (s.bindings id) (t.bindings id)

/-- Whether a path meets nothing unknown in a scope and those above it. -/
def ClearAt (s : Scopes) (id : ScopeId) (p : ScopePath) : Prop :=
  ∀ i ∈ s.chain id, ∀ e ∈ s.bindings i, e.1 = p.root → e.2.ClearAt (leadingNames p.steps)

/-- Whether a path leads to a value. -/
def Leads (s : Scopes) (id : ScopeId) (p : ScopePath) : Prop :=
  ∃ d, p.follow (s.environment id) = .ok d

variable {s t : Scopes}

theorem Settles.merged (h : s.Settles t) {id : ScopeId} {p : ScopePath} (hclear : s.ClearAt id p) :
    SameKeys (Value.SameAt (leadingNames p.steps)) p.root (s.merged id) (t.merged id) := by
  have hchain : t.chain id = s.chain id := chainUpTo_of_parents h.parents _ _
  rw [Scopes.merged, Scopes.merged, hchain]
  rw [ClearAt] at hclear
  generalize s.chain id = ids at hclear
  induction ids with
  | nil => exact .nil
  | cons i ids ih =>
    rw [List.foldr_cons, List.foldr_cons]
    apply (ih fun j hj => hclear j (List.mem_cons_of_mem i hj)).mergeEntries Value.SameAt.deepMerge
    apply (h.bindings i).sameKeys
    intro e he hroot w hw
    exact hw.sameAt (hclear i List.mem_cons_self e he hroot)

theorem follow_environment (s : Scopes) (id : ScopeId) (p : ScopePath) :
    p.follow (s.environment id)
      = ((Entries.get? (Value.datumEntries (s.merged id)) p.root).map
          (memberAt (leadingNames p.steps))).getD (.error (.unknownVariable p.root)) := by
  rw [ScopePath.follow, Environment.variable, environment, ← Value.datumEntries_eq_filterMap]
  change (Entries.get? (Value.datumEntries (s.merged id)) p.root).elim _ _ >>= _ = _
  cases Entries.get? (Value.datumEntries (s.merged id)) p.root <;> rfl

theorem Settles.follow (h : s.Settles t) {id : ScopeId} {p : ScopePath} (hclear : s.ClearAt id p) :
    p.follow (s.environment id) = p.follow (t.environment id) := by
  rw [follow_environment, follow_environment, (h.merged hclear).get?_datumEntries Value.SameAt.toDatum?]

end Scopes

end InfraConfig
