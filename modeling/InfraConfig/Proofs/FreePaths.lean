import InfraConfig.Evaluation
import InfraConfig.ScopePath

/-!
# Free variables and free paths

Where an expression reads variables that nothing inside it binds: each occurrence with the member that is accessed
directly on it, if one is, and every path at which the expression can read its scope. Directives of templates are looked
into here; the scope paths leave out what stands in them, and an expression without directives has no other free paths.
-/

namespace InfraConfig

/-! ## Occurrences of variables -/

/-- A free occurrence of a variable, and the member accessed directly on it. -/
structure Occurrence where
  name : String
  member : Option String
  deriving DecidableEq

namespace Occurrence

def isBoundBy (o : Occurrence) (key : Option String) (value : String) : Bool :=
  o.name == value || some o.name == key

/-- Occurrences that a `for` with these variables leaves free. -/
def outside (key : Option String) (value : String) (os : List Occurrence) : List Occurrence :=
  os.filter fun o => !o.isBoundBy key value

/-- What an occurrence reads: the variable, or only the member accessed on it. -/
def read (env : Environment) (o : Occurrence) : Option Datum :=
  match o.member with
  | none => env.bindings.lookup o.name
  | some member => (env.bindings.lookup o.name).bind fun d => (attributeOf member d).toOption

/-- What is read in one environment is read in the other. -/
def KeptIn (env other : Environment) (o : Occurrence) : Prop :=
  ∀ d, o.read env = some d → o.read other = some d

end Occurrence

/-- The occurrence of a variable from which steps are taken. -/
def rootOccurrence (name : String) : List Step → Occurrence
  | .attribute member :: _ => ⟨name, some member⟩
  | _ => ⟨name, none⟩

mutual

/-- The free occurrences of variables in an expression. -/
def Expr.occurrences : Expr → List Occurrence
  | .variable name => [⟨name, none⟩]
  | .traversal (.variable name) steps => rootOccurrence name steps :: stepOccurrences steps
  | .traversal root steps => root.occurrences ++ stepOccurrences steps
  | .list items => itemOccurrences items
  | .object entries => entryOccurrences entries
  | .template _ none => []
  | .template _ (some parts) => partOccurrences parts
  | .call _ args _ => itemOccurrences args
  | .paren e => e.occurrences
  | .conditional c yes no => c.occurrences ++ yes.occurrences ++ no.occurrences
  | .unary _ e => e.occurrences
  | .binary _ a b => a.occurrences ++ b.occurrences
  | .forEach key value collection resultKey result condition _ =>
    collection.occurrences
      ++ Occurrence.outside key value
        (optionOccurrences resultKey ++ result.occurrences ++ optionOccurrences condition)
  | .null => []
  | .bool _ => []
  | .number _ => []
  | .text _ => []

def itemOccurrences : List Expr → List Occurrence
  | [] => []
  | e :: rest => e.occurrences ++ itemOccurrences rest

def entryOccurrences : List (Key × Expr) → List Occurrence
  | [] => []
  | (k, e) :: rest => k.occurrences ++ e.occurrences ++ entryOccurrences rest

def Key.occurrences : Key → List Occurrence
  | .name _ => []
  | .expr e => e.occurrences

def optionOccurrences : Option Expr → List Occurrence
  | none => []
  | some e => e.occurrences

def stepOccurrences : List Step → List Occurrence
  | [] => []
  | .index e :: rest => e.occurrences ++ stepOccurrences rest
  | .attribute _ :: rest => stepOccurrences rest
  | .position _ :: rest => stepOccurrences rest
  | .attributeSplat :: rest => stepOccurrences rest
  | .fullSplat :: rest => stepOccurrences rest

def partOccurrences : List Part → List Occurrence
  | [] => []
  | .literal _ :: rest => partOccurrences rest
  | .interpolation e _ :: rest => e.occurrences ++ partOccurrences rest
  | .branch c yes no _ _ _ :: rest =>
    c.occurrences ++ partOccurrences yes ++ otherOccurrences no ++ partOccurrences rest
  | .loop key value collection body _ _ :: rest =>
    collection.occurrences ++ Occurrence.outside key value (partOccurrences body) ++ partOccurrences rest

def otherOccurrences : Option (List Part) → List Occurrence
  | none => []
  | some parts => partOccurrences parts

end

/-! ## Paths -/

mutual

/-- The paths in an expression that nothing inside it binds, those in directives of templates included. -/
def Expr.freePaths : Expr → List ScopePath
  | .variable name => [⟨name, []⟩]
  | .traversal (.variable name) steps => ⟨name, steps⟩ :: stepFreePaths steps
  | .traversal root steps => root.freePaths ++ stepFreePaths steps
  | .list items => itemFreePaths items
  | .object entries => entryFreePaths entries
  | .template _ none => []
  | .template _ (some parts) => partFreePaths parts
  | .call _ args _ => itemFreePaths args
  | .paren e => e.freePaths
  | .conditional c yes no => c.freePaths ++ yes.freePaths ++ no.freePaths
  | .unary _ e => e.freePaths
  | .binary _ a b => a.freePaths ++ b.freePaths
  | .forEach key value collection resultKey result condition _ =>
    collection.freePaths
      ++ (optionFreePaths resultKey ++ result.freePaths ++ optionFreePaths condition).filter
        fun p => !p.isBoundBy key value
  | .null => []
  | .bool _ => []
  | .number _ => []
  | .text _ => []

def itemFreePaths : List Expr → List ScopePath
  | [] => []
  | e :: rest => e.freePaths ++ itemFreePaths rest

def entryFreePaths : List (Key × Expr) → List ScopePath
  | [] => []
  | (k, e) :: rest => k.freePaths ++ e.freePaths ++ entryFreePaths rest

def Key.freePaths : Key → List ScopePath
  | .name _ => []
  | .expr e => e.freePaths

def optionFreePaths : Option Expr → List ScopePath
  | none => []
  | some e => e.freePaths

def stepFreePaths : List Step → List ScopePath
  | [] => []
  | .index e :: rest => e.freePaths ++ stepFreePaths rest
  | .attribute _ :: rest => stepFreePaths rest
  | .position _ :: rest => stepFreePaths rest
  | .attributeSplat :: rest => stepFreePaths rest
  | .fullSplat :: rest => stepFreePaths rest

def partFreePaths : List Part → List ScopePath
  | [] => []
  | .literal _ :: rest => partFreePaths rest
  | .interpolation e _ :: rest => e.freePaths ++ partFreePaths rest
  | .branch c yes no _ _ _ :: rest =>
    c.freePaths ++ partFreePaths yes ++ otherFreePaths no ++ partFreePaths rest
  | .loop key value collection body _ _ :: rest =>
    collection.freePaths ++ (partFreePaths body).filter (fun p => !p.isBoundBy key value)
      ++ partFreePaths rest

def otherFreePaths : Option (List Part) → List ScopePath
  | none => []
  | some parts => partFreePaths parts

end

theorem Expr.freePaths_traversal {root : Expr} (steps : List Step)
    (h : ∀ name, root ≠ .variable name) :
    (Expr.traversal root steps).freePaths = root.freePaths ++ stepFreePaths steps := by
  rw [Expr.freePaths]
  exact h

/-! ## Directives -/

mutual

/-- Whether a template in an expression has a directive. -/
def Expr.hasDirectives : Expr → Bool
  | .template _ none => false
  | .template _ (some parts) => partsHaveDirectives parts
  | .traversal root steps => root.hasDirectives || stepsHaveDirectives steps
  | .list items => itemsHaveDirectives items
  | .object entries => entriesHaveDirectives entries
  | .call _ args _ => itemsHaveDirectives args
  | .paren e => e.hasDirectives
  | .conditional c yes no => c.hasDirectives || yes.hasDirectives || no.hasDirectives
  | .unary _ e => e.hasDirectives
  | .binary _ a b => a.hasDirectives || b.hasDirectives
  | .forEach _ _ collection resultKey result condition _ =>
    collection.hasDirectives || optionHasDirectives resultKey || result.hasDirectives
      || optionHasDirectives condition
  | .variable _ => false
  | .null => false
  | .bool _ => false
  | .number _ => false
  | .text _ => false

def itemsHaveDirectives : List Expr → Bool
  | [] => false
  | e :: rest => e.hasDirectives || itemsHaveDirectives rest

def entriesHaveDirectives : List (Key × Expr) → Bool
  | [] => false
  | (k, e) :: rest => k.hasDirectives || e.hasDirectives || entriesHaveDirectives rest

def Key.hasDirectives : Key → Bool
  | .name _ => false
  | .expr e => e.hasDirectives

def optionHasDirectives : Option Expr → Bool
  | none => false
  | some e => e.hasDirectives

def stepsHaveDirectives : List Step → Bool
  | [] => false
  | .index e :: rest => e.hasDirectives || stepsHaveDirectives rest
  | .attribute _ :: rest => stepsHaveDirectives rest
  | .position _ :: rest => stepsHaveDirectives rest
  | .attributeSplat :: rest => stepsHaveDirectives rest
  | .fullSplat :: rest => stepsHaveDirectives rest

def partsHaveDirectives : List Part → Bool
  | [] => false
  | .literal _ :: rest => partsHaveDirectives rest
  | .interpolation e _ :: rest => e.hasDirectives || partsHaveDirectives rest
  | .branch .. :: _ => true
  | .loop .. :: _ => true

end

mutual

theorem Expr.freePaths_of_plain : ∀ e : Expr, e.hasDirectives = false → e.freePaths = e.scopePaths
  | .variable _, _ => rfl
  | .traversal root steps, h => by
    rw [Expr.hasDirectives, Bool.or_eq_false_iff] at h
    have hsteps := stepFreePaths_of_plain steps h.2
    by_cases hroot : ∃ name, root = .variable name
    · obtain ⟨name, rfl⟩ := hroot
      rw [Expr.freePaths, Expr.scopePaths, hsteps]
    · have hroot (name : String) : root ≠ .variable name := fun e => hroot ⟨name, e⟩
      rw [Expr.freePaths_traversal steps hroot, root.freePaths_of_plain h.1, hsteps, Expr.scopePaths]
      exact hroot
  | .list items, h => itemFreePaths_of_plain items h
  | .object entries, h => entryFreePaths_of_plain entries h
  | .template _ none, _ => rfl
  | .template _ (some parts), h => partFreePaths_of_plain parts h
  | .call _ args _, h => itemFreePaths_of_plain args h
  | .paren e, h => e.freePaths_of_plain h
  | .conditional c yes no, h => by
    simp only [Expr.hasDirectives, Bool.or_eq_false_iff] at h
    rw [Expr.freePaths, Expr.scopePaths, c.freePaths_of_plain h.1.1, yes.freePaths_of_plain h.1.2,
      no.freePaths_of_plain h.2]
  | .unary _ e, h => e.freePaths_of_plain h
  | .binary _ a b, h => by
    rw [Expr.hasDirectives, Bool.or_eq_false_iff] at h
    rw [Expr.freePaths, Expr.scopePaths, a.freePaths_of_plain h.1, b.freePaths_of_plain h.2]
  | .forEach key value collection resultKey result condition _, h => by
    simp only [Expr.hasDirectives, Bool.or_eq_false_iff] at h
    rw [Expr.freePaths, Expr.scopePaths, collection.freePaths_of_plain h.1.1.1,
      optionFreePaths_of_plain resultKey h.1.1.2, result.freePaths_of_plain h.1.2,
      optionFreePaths_of_plain condition h.2]
  | .null, _ => rfl
  | .bool _, _ => rfl
  | .number _, _ => rfl
  | .text _, _ => rfl

theorem itemFreePaths_of_plain :
    ∀ items : List Expr, itemsHaveDirectives items = false → itemFreePaths items = itemPaths items
  | [], _ => rfl
  | e :: rest, h => by
    rw [itemsHaveDirectives, Bool.or_eq_false_iff] at h
    rw [itemFreePaths, itemPaths, e.freePaths_of_plain h.1, itemFreePaths_of_plain rest h.2]

theorem entryFreePaths_of_plain : ∀ entries : List (Key × Expr),
    entriesHaveDirectives entries = false → entryFreePaths entries = entryPaths entries
  | [], _ => rfl
  | (k, e) :: rest, h => by
    simp only [entriesHaveDirectives, Bool.or_eq_false_iff] at h
    rw [entryFreePaths, entryPaths, k.freePaths_of_plain h.1.1, e.freePaths_of_plain h.1.2,
      entryFreePaths_of_plain rest h.2]

theorem Key.freePaths_of_plain : ∀ k : Key, k.hasDirectives = false → k.freePaths = k.scopePaths
  | .name _, _ => rfl
  | .expr e, h => e.freePaths_of_plain h

theorem optionFreePaths_of_plain : ∀ o : Option Expr,
    optionHasDirectives o = false → optionFreePaths o = optionPaths o
  | none, _ => rfl
  | some e, h => e.freePaths_of_plain h

theorem stepFreePaths_of_plain : ∀ steps : List Step,
    stepsHaveDirectives steps = false → stepFreePaths steps = stepPaths steps
  | [], _ => rfl
  | .index e :: rest, h => by
    rw [stepsHaveDirectives, Bool.or_eq_false_iff] at h
    rw [stepFreePaths, stepPaths, e.freePaths_of_plain h.1, stepFreePaths_of_plain rest h.2]
  | .attribute _ :: rest, h => stepFreePaths_of_plain rest h
  | .position _ :: rest, h => stepFreePaths_of_plain rest h
  | .attributeSplat :: rest, h => stepFreePaths_of_plain rest h
  | .fullSplat :: rest, h => stepFreePaths_of_plain rest h

theorem partFreePaths_of_plain : ∀ parts : List Part,
    partsHaveDirectives parts = false → partFreePaths parts = partPaths parts
  | [], _ => rfl
  | .literal _ :: rest, h => partFreePaths_of_plain rest h
  | .interpolation e _ :: rest, h => by
    rw [partsHaveDirectives, Bool.or_eq_false_iff] at h
    rw [partFreePaths, partPaths, e.freePaths_of_plain h.1, partFreePaths_of_plain rest h.2]
  | .branch .. :: _, h => by cases h
  | .loop .. :: _, h => by cases h

end

/-! ## Occurrences -/

namespace ScopePath

/-- The occurrence of a variable that a path starts at. -/
def occurrence (p : ScopePath) : Occurrence :=
  rootOccurrence p.root p.steps

@[simp] theorem occurrence_name (p : ScopePath) : p.occurrence.name = p.root := by
  rw [occurrence, rootOccurrence.eq_def]
  split <;> rfl

theorem occurrence_isBoundBy (p : ScopePath) (key : Option String) (value : String) :
    p.occurrence.isBoundBy key value = p.isBoundBy key value := by
  rw [Occurrence.isBoundBy, isBoundBy, occurrence_name]

theorem map_occurrence_outside (key : Option String) (value : String) (ps : List ScopePath) :
    (ps.filter fun p => !p.isBoundBy key value).map occurrence
      = Occurrence.outside key value (ps.map occurrence) := by
  rw [Occurrence.outside, List.filter_map]
  simp only [Function.comp_def, occurrence_isBoundBy]

end ScopePath

mutual

theorem Expr.map_freePaths : ∀ e : Expr, e.freePaths.map ScopePath.occurrence = e.occurrences
  | .variable _ => rfl
  | .traversal root steps => by
    by_cases hroot : ∃ name, root = .variable name
    · obtain ⟨name, rfl⟩ := hroot
      rw [Expr.freePaths, Expr.occurrences, List.map_cons, map_stepFreePaths steps]
      rfl
    · have hroot (name : String) : root ≠ .variable name := fun e => hroot ⟨name, e⟩
      rw [Expr.freePaths_traversal steps hroot, List.map_append, root.map_freePaths,
        map_stepFreePaths steps, Expr.occurrences]
      exact hroot
  | .list items => map_itemFreePaths items
  | .object entries => map_entryFreePaths entries
  | .template _ none => rfl
  | .template _ (some parts) => map_partFreePaths parts
  | .call _ args _ => map_itemFreePaths args
  | .paren e => e.map_freePaths
  | .conditional c yes no => by
    rw [Expr.freePaths, Expr.occurrences, List.map_append, List.map_append, c.map_freePaths,
      yes.map_freePaths, no.map_freePaths]
  | .unary _ e => e.map_freePaths
  | .binary _ a b => by
    rw [Expr.freePaths, Expr.occurrences, List.map_append, a.map_freePaths, b.map_freePaths]
  | .forEach key value collection resultKey result condition _ => by
    rw [Expr.freePaths, Expr.occurrences, List.map_append, ScopePath.map_occurrence_outside,
      List.map_append, List.map_append, collection.map_freePaths, map_optionFreePaths resultKey,
      result.map_freePaths, map_optionFreePaths condition]
  | .null => rfl
  | .bool _ => rfl
  | .number _ => rfl
  | .text _ => rfl

theorem map_itemFreePaths :
    ∀ items : List Expr, (itemFreePaths items).map ScopePath.occurrence = itemOccurrences items
  | [] => rfl
  | e :: rest => by
    rw [itemFreePaths, itemOccurrences, List.map_append, e.map_freePaths, map_itemFreePaths rest]

theorem map_entryFreePaths : ∀ entries : List (Key × Expr),
    (entryFreePaths entries).map ScopePath.occurrence = entryOccurrences entries
  | [] => rfl
  | (k, e) :: rest => by
    rw [entryFreePaths, entryOccurrences, List.map_append, List.map_append, k.map_freePaths,
      e.map_freePaths, map_entryFreePaths rest]

theorem Key.map_freePaths : ∀ k : Key, k.freePaths.map ScopePath.occurrence = k.occurrences
  | .name _ => rfl
  | .expr e => e.map_freePaths

theorem map_optionFreePaths : ∀ o : Option Expr,
    (optionFreePaths o).map ScopePath.occurrence = optionOccurrences o
  | none => rfl
  | some e => e.map_freePaths

theorem map_stepFreePaths : ∀ steps : List Step,
    (stepFreePaths steps).map ScopePath.occurrence = stepOccurrences steps
  | [] => rfl
  | .index e :: rest => by
    rw [stepFreePaths, stepOccurrences, List.map_append, e.map_freePaths, map_stepFreePaths rest]
  | .attribute _ :: rest => map_stepFreePaths rest
  | .position _ :: rest => map_stepFreePaths rest
  | .attributeSplat :: rest => map_stepFreePaths rest
  | .fullSplat :: rest => map_stepFreePaths rest

theorem map_partFreePaths : ∀ parts : List Part,
    (partFreePaths parts).map ScopePath.occurrence = partOccurrences parts
  | [] => rfl
  | .literal _ :: rest => map_partFreePaths rest
  | .interpolation e _ :: rest => by
    rw [partFreePaths, partOccurrences, List.map_append, e.map_freePaths, map_partFreePaths rest]
  | .branch c yes no _ _ _ :: rest => by
    rw [partFreePaths, partOccurrences, List.map_append, List.map_append, List.map_append,
      c.map_freePaths, map_partFreePaths yes, map_otherFreePaths no, map_partFreePaths rest]
  | .loop key value collection body _ _ :: rest => by
    rw [partFreePaths, partOccurrences, List.map_append, List.map_append,
      ScopePath.map_occurrence_outside, collection.map_freePaths, map_partFreePaths body,
      map_partFreePaths rest]

theorem map_otherFreePaths : ∀ parts : Option (List Part),
    (otherFreePaths parts).map ScopePath.occurrence = otherOccurrences parts
  | none => rfl
  | some parts => map_partFreePaths parts

end

end InfraConfig
