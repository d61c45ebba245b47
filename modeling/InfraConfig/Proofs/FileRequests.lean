import InfraConfig.Files.Calls
import InfraConfig.Proofs.EntryLaws
import InfraConfig.Proofs.FilePlaces

/-!
# Requests for files

An expression asks for a file when it calls a file function with a name that stands for a path in the base
directory, of a file that has not been read. It asks for nothing else, however deeply the call stands inside.
-/

namespace InfraConfig

/-! ## Calls of file functions -/

mutual

/-- Whether an expression calls a file function anywhere, also where such calls are not looked for. -/
def Expr.callsFiles : Expr → Bool
  | .call f args _ => (FileFunction.ofName? f).isSome || itemsCallFiles args
  | .template _ parts => otherCallsFiles parts
  | .list items => itemsCallFiles items
  | .object entries => entriesCallFiles entries
  | .paren e => e.callsFiles
  | .conditional c yes no => c.callsFiles || yes.callsFiles || no.callsFiles
  | .unary _ e => e.callsFiles
  | .binary _ a b => a.callsFiles || b.callsFiles
  | .traversal root steps => root.callsFiles || stepsCallFiles steps
  | .forEach _ _ collection resultKey result condition _ =>
    collection.callsFiles || optionCallsFiles resultKey || result.callsFiles || optionCallsFiles condition
  | .null => false
  | .bool _ => false
  | .number _ => false
  | .text _ => false
  | .variable _ => false

def itemsCallFiles : List Expr → Bool
  | [] => false
  | e :: rest => e.callsFiles || itemsCallFiles rest

def entriesCallFiles : List (Key × Expr) → Bool
  | [] => false
  | (k, e) :: rest => k.callsFiles || e.callsFiles || entriesCallFiles rest

def Key.callsFiles : Key → Bool
  | .name _ => false
  | .expr e => e.callsFiles

def optionCallsFiles : Option Expr → Bool
  | none => false
  | some e => e.callsFiles

def stepsCallFiles : List Step → Bool
  | [] => false
  | .index e :: rest => e.callsFiles || stepsCallFiles rest
  | .attribute _ :: rest => stepsCallFiles rest
  | .position _ :: rest => stepsCallFiles rest
  | .attributeSplat :: rest => stepsCallFiles rest
  | .fullSplat :: rest => stepsCallFiles rest

def partsCallFiles : List Part → Bool
  | [] => false
  | .literal _ :: rest => partsCallFiles rest
  | .interpolation e _ :: rest => e.callsFiles || partsCallFiles rest
  | .branch c yes no _ _ _ :: rest =>
    c.callsFiles || partsCallFiles yes || otherCallsFiles no || partsCallFiles rest
  | .loop _ _ collection body _ _ :: rest => collection.callsFiles || partsCallFiles body || partsCallFiles rest

def otherCallsFiles : Option (List Part) → Bool
  | none => false
  | some parts => partsCallFiles parts

end

/-! ## Pending paths -/

namespace FileTable

/-- A path that a name stands for, of a file that has not been read. -/
def Pending (t : FileTable) (p : String) : Prop :=
  ∃ name, t.lookup name = .unread p

variable {t u : FileTable} {name p : String}

theorem resolve?_eq_some_iff : t.resolve? name = some p ↔
    p = FilePath.absolute t.base name ∧ FilePath.isWithin t.base p = true := by
  rw [resolve?]
  split
  · next hwithin =>
    constructor
    · intro h
      obtain rfl := Option.some.inj h
      exact ⟨rfl, hwithin⟩
    · rintro ⟨rfl, -⟩
      rfl
  · next hwithin =>
    constructor
    · intro h
      cases h
    · rintro ⟨rfl, h⟩
      exact absurd h hwithin

theorem lookup_eq_unread_iff : t.lookup name = .unread p ↔ t.resolve? name = some p ∧ t.contents.get? p = none := by
  rw [lookup]
  cases hpath : t.resolve? name with
  | none => simp
  | some path =>
    dsimp only
    split
    · next hnone =>
      simp only [FileState.unread.injEq, Option.some.injEq]
      constructor
      · rintro rfl
        exact ⟨rfl, hnone⟩
      · exact fun h => h.1
    all_goals
      next hread =>
        constructor
        · intro h
          cases h
        · rintro ⟨h, hnone⟩
          obtain rfl := Option.some.inj h
          rw [hnone] at hread
          cases hread

theorem Pending.congr (h : t.Pending p) (hbase : u.base = t.base) (hcontents : u.contents = t.contents) :
    u.Pending p := by
  obtain ⟨name, hname⟩ := h
  refine ⟨name, ?_⟩
  rw [lookup_eq_unread_iff, resolve?_eq_some_iff] at hname ⊢
  rwa [hbase, hcontents]

theorem Pending.not_read (h : t.Pending p) : p ∉ t.contents.keys := by
  obtain ⟨name, hname⟩ := h
  exact (Entries.get?_eq_none_iff _ _).mp (lookup_eq_unread_iff.mp hname).2

theorem Pending.inside (h : t.Pending p) (hbase : FilePath.IsPlace t.base) : FilePath.IsInside t.base p := by
  obtain ⟨name, hname⟩ := h
  obtain ⟨rfl, hwithin⟩ := resolve?_eq_some_iff.mp (lookup_eq_unread_iff.mp hname).1
  exact (hbase.ofAbsolute name).inside_of_isWithin hwithin

end FileTable

/-! ## Asking -/

namespace FileFunction

variable {t : FileTable} {f : FileFunction} {args : List Datum} {name p : String}

theorem pending_of_run (h : p ∈ (f.run t args).2) : t.Pending p := by
  rw [run] at h
  split at h
  · next name _ =>
    split at h
    · next path hname => exact List.mem_singleton.mp h ▸ ⟨name, hname⟩
    · cases h
  · cases h

/-- A call that names a path outside the base directory has no result and asks for nothing. -/
theorem run_of_outside (f : FileFunction) (args : List Datum) (hbase : FilePath.IsPlace t.base)
    (houtside : ¬ FilePath.IsInside t.base (FilePath.absolute t.base name)) :
    f.run t (.text name :: args) = (none, []) := by
  have hnone : t.resolve? name = none := by
    cases hpath : t.resolve? name with
    | none => rfl
    | some path =>
      obtain ⟨rfl, hwithin⟩ := FileTable.resolve?_eq_some_iff.mp hpath
      exact absurd ((hbase.ofAbsolute name).inside_of_isWithin hwithin) houtside
  have houtside : t.lookup name = .outside := by rw [FileTable.lookup, hnone]
  rw [run]
  simp only [List.head?_cons, houtside]
  cases f <;> rfl

end FileFunction

/-- What a path that is asked for is: the file has not been read, and a file function is called. -/
def FileTable.IsRequest (t : FileTable) (calls : Bool) (p : String) : Prop :=
  t.Pending p ∧ calls = true

theorem FileTable.IsRequest.or_left {t : FileTable} {a : Bool} {p : String} (h : t.IsRequest a p) (b : Bool) :
    t.IsRequest (a || b) p :=
  ⟨h.1, by rw [h.2, Bool.true_or]⟩

theorem FileTable.IsRequest.or_right {t : FileTable} {b : Bool} {p : String} (h : t.IsRequest b p) (a : Bool) :
    t.IsRequest (a || b) p :=
  ⟨h.1, by rw [h.2, Bool.or_true]⟩

section

variable {env : Environment} {t : FileTable} {p : String}

mutual

theorem Expr.mem_inlineFiles : ∀ e : Expr, p ∈ (e.inlineFiles env t).2 → t.IsRequest e.callsFiles p
  | .call f args spread, h => by
    rw [Expr.callsFiles]
    simp only [Expr.inlineFiles] at h
    split at h
    · exact (mem_inlineAll args h).or_right _
    · next function hname =>
      split at h
      · exact (mem_inlineAll args h).or_right _
      · rcases List.mem_append.mp h with h | h
        · exact (mem_inlineAll args h).or_right _
        · exact ⟨FileFunction.pending_of_run h, by rw [hname]; rfl⟩
  | .template source parts, h => by
    rw [Expr.callsFiles]
    simp only [Expr.inlineFiles] at h
    split at h
    · exact mem_renderTemplate parts h
    · cases h
  | .list items, h => mem_inlineAll items h
  | .object entries, h => mem_inlineEntries entries h
  | .paren e, h => e.mem_inlineFiles h
  | .conditional c yes no, h => by
    rw [Expr.callsFiles]
    simp only [Expr.inlineFiles, List.mem_append] at h
    rcases h with (h | h) | h
    · exact ((c.mem_inlineFiles h).or_left _).or_left _
    · exact ((yes.mem_inlineFiles h).or_right _).or_left _
    · exact (no.mem_inlineFiles h).or_right _
  | .unary _ e, h => e.mem_inlineFiles h
  | .binary _ a b, h => by
    rw [Expr.callsFiles]
    rcases List.mem_append.mp h with h | h
    · exact (a.mem_inlineFiles h).or_left _
    · exact (b.mem_inlineFiles h).or_right _
  | .traversal root steps, h => by
    rw [Expr.callsFiles]
    rcases List.mem_append.mp h with h | h
    · exact (root.mem_inlineFiles h).or_left _
    · exact (mem_inlineSteps steps h).or_right _
  | .forEach _ _ collection _ _ _ _, h => by
    rw [Expr.callsFiles]
    exact (((collection.mem_inlineFiles h).or_left _).or_left _).or_left _

theorem mem_inlineAll : ∀ items : List Expr, p ∈ (inlineAll env t items).2 → t.IsRequest (itemsCallFiles items) p
  | e :: rest, h => by
    rw [itemsCallFiles]
    rcases List.mem_append.mp h with h | h
    · exact (e.mem_inlineFiles h).or_left _
    · exact (mem_inlineAll rest h).or_right _

theorem mem_inlineEntries : ∀ entries : List (Key × Expr), p ∈ (inlineEntries env t entries).2 →
    t.IsRequest (entriesCallFiles entries) p
  | (k, e) :: rest, h => by
    rw [entriesCallFiles]
    rcases List.mem_append.mp h with h | h
    · exact ((e.mem_inlineFiles h).or_right _).or_left _
    · exact (mem_inlineEntries rest h).or_right _

theorem mem_inlineSteps : ∀ steps : List Step, p ∈ (inlineSteps env t steps).2 → t.IsRequest (stepsCallFiles steps) p
  | .index e :: rest, h => by
    rw [stepsCallFiles]
    rcases List.mem_append.mp h with h | h
    · exact (e.mem_inlineFiles h).or_left _
    · exact (mem_inlineSteps rest h).or_right _
  | .attribute _ :: rest, h => mem_inlineSteps rest h
  | .position _ :: rest, h => mem_inlineSteps rest h
  | .attributeSplat :: rest, h => mem_inlineSteps rest h
  | .fullSplat :: rest, h => mem_inlineSteps rest h

theorem mem_renderTemplate : ∀ parts : Option (List Part), p ∈ (renderTemplate env t parts).2 →
    t.IsRequest (otherCallsFiles parts) p
  | some parts, h => mem_renderParts parts h

theorem mem_renderParts : ∀ parts : List Part, p ∈ (renderParts env t parts).2 → t.IsRequest (partsCallFiles parts) p
  | .literal _ :: rest, h => mem_renderParts rest h
  | .interpolation e _ :: rest, h => by
    rw [partsCallFiles]
    simp only [renderParts] at h
    split at h
    · rcases List.mem_append.mp h with h | h
      · exact (e.mem_inlineFiles h).or_left _
      · exact (mem_renderParts rest h).or_right _
    · exact (e.mem_inlineFiles h).or_left _

end

/-- An expression asks for files that have not been read, and only if it calls a file function. -/
theorem Expr.mem_askedFiles {e : Expr} (h : p ∈ e.askedFiles env t) : t.Pending p ∧ e.callsFiles = true := by
  rw [askedFiles] at h
  split at h
  · exact e.mem_inlineFiles h
  · cases h

end

end InfraConfig
