import InfraConfig.Proofs.FilePlaces
import InfraConfig.Proofs.TolerantRuns

/-!
# Removed files

Configuration files that cannot be used make no difference to a run that does not stop at them: when they are removed,
the same is loaded from every directory, the same variables are given, and the same modules are installed.
-/

namespace InfraConfig

/-! ## The order of names -/

/-- Paths in the order of their file names. -/
def ByName (paths : List String) : Prop :=
  paths.Pairwise fun p q => FilePath.fileName p ≤ FilePath.fileName q

variable {p q path : String} {paths named : List String}

theorem perm_insertByName (path : String) (paths : List String) : (insertByName path paths).Perm (path :: paths) := by
  induction paths with
  | nil => exact .refl _
  | cons p rest ih =>
    rw [insertByName]
    split
    · exact .refl _
    · exact (ih.cons p).trans (.swap path p rest)

theorem perm_sortByName (paths : List String) : (sortByName paths).Perm paths := by
  have hall (acc : List String) : (paths.foldl (fun acc p => insertByName p acc) acc).Perm (acc ++ paths) := by
    induction paths generalizing acc with
    | nil => rw [List.append_nil]; exact .refl acc
    | cons p rest ih =>
      have hfirst : (insertByName p acc ++ rest).Perm (acc ++ p :: rest) :=
        ((perm_insertByName p acc).append_right rest).trans List.perm_middle.symm
      exact (ih _).trans hfirst
  exact hall []

theorem mem_insertByName : q ∈ insertByName path paths ↔ q = path ∨ q ∈ paths :=
  (perm_insertByName path paths).mem_iff.trans List.mem_cons

theorem mem_sortByName : q ∈ sortByName paths ↔ q ∈ paths :=
  (perm_sortByName paths).mem_iff

theorem ByName.insertByName (h : ByName paths) (path : String) : ByName (insertByName path paths) := by
  induction paths with
  | nil => exact List.pairwise_singleton _ _
  | cons p rest ih =>
    obtain ⟨hp, hrest⟩ := List.pairwise_cons.mp h
    rw [InfraConfig.insertByName]
    split
    · next hlt =>
      have hle : FilePath.fileName path ≤ FilePath.fileName p := String.not_lt.mp (String.lt_asymm hlt)
      refine List.pairwise_cons.mpr ⟨fun q hq => ?_, h⟩
      rcases List.mem_cons.mp hq with rfl | hq
      · exact hle
      · exact String.le_trans hle (hp q hq)
    · next hnot =>
      refine List.pairwise_cons.mpr ⟨fun q hq => ?_, ih hrest⟩
      rcases mem_insertByName.mp hq with rfl | hq
      · exact String.not_lt.mp hnot
      · exact hp q hq

theorem byName_sortByName (paths : List String) : ByName (sortByName paths) := by
  rw [sortByName]
  exact List.foldlRecOn (motive := ByName) paths _ .nil fun acc hacc p _ => hacc.insertByName p

/-- A path is put at the front of paths that all come after it. -/
theorem insertByName_of_lt (h : ∀ q ∈ paths, FilePath.fileName path < FilePath.fileName q) :
    insertByName path paths = path :: paths := by
  cases paths with
  | nil => rfl
  | cons p rest => rw [insertByName, if_pos (h p List.mem_cons_self)]

/-- Some of the paths are left out before or after another one is put among them. -/
theorem ByName.filter_insertByName (h : ByName paths) (path : String) (keep : String → Bool) :
    (InfraConfig.insertByName path paths).filter keep
      = if keep path then InfraConfig.insertByName path (paths.filter keep) else paths.filter keep := by
  induction paths with
  | nil => rw [InfraConfig.insertByName, List.filter_cons]; rfl
  | cons p rest ih =>
    obtain ⟨hp, hrest⟩ := List.pairwise_cons.mp h
    rw [InfraConfig.insertByName]
    split
    · next hlt =>
      -- The path comes before all others, so it does before those of them that are left.
      have hfirst : ∀ q ∈ (p :: rest).filter keep, FilePath.fileName path < FilePath.fileName q := by
        intro q hq
        by_contra hnot
        rcases List.mem_cons.mp (List.mem_of_mem_filter hq) with rfl | hq
        · exact hnot hlt
        · exact absurd hlt (String.not_lt.mpr (String.le_trans (hp q hq) (String.not_lt.mp hnot)))
      rw [insertByName_of_lt hfirst, List.filter_cons]
    · next hnot =>
      rw [List.filter_cons, ih hrest, List.filter_cons]
      by_cases hkeep : keep p = true
      · rw [if_pos hkeep, if_pos hkeep, InfraConfig.insertByName, if_neg hnot]
        split <;> rfl
      · rw [if_neg hkeep, if_neg hkeep]

theorem sortByName_filter (paths : List String) (keep : String → Bool) :
    sortByName (paths.filter keep) = (sortByName paths).filter keep := by
  have hall (acc : List String) (h : ByName acc) :
      (paths.filter keep).foldl (fun acc p => insertByName p acc) (acc.filter keep)
        = (paths.foldl (fun acc p => insertByName p acc) acc).filter keep := by
    induction paths generalizing acc with
    | nil => rfl
    | cons p rest ih =>
      rw [List.foldl_cons, ← ih _ (h.insertByName p), h.filter_insertByName, List.filter_cons]
      split <;> rfl
  exact hall [] .nil

/-! ## Configuration files -/

/-- A text does not have an ending that one of its endings does not have. -/
theorem endsWithText_eq_false {s ending other : String} (h : endsWithText s ending = true)
    (hlength : other.toList.length ≤ ending.toList.length) (hnot : endsWithText ending other = false) :
    endsWithText s other = false := by
  by_contra hother
  rw [Bool.not_eq_false, endsWithText, List.isSuffixOf_iff_suffix] at hother
  rw [endsWithText, List.isSuffixOf_iff_suffix] at h
  have hsuffix := List.suffix_of_suffix_length_le hother h hlength
  rw [endsWithText, List.isSuffixOf_iff_suffix.mpr hsuffix] at hnot
  cases hnot

/-- A variable file that is used without being named is no configuration. -/
theorem isConfigFile_of_automatic (h : isAutomatic path = true) : isConfigFile path = false := by
  have hnone {ending : String} (h : endsWithText (FilePath.fileName path) ending = true)
      (hlength : ".tf.json".toList.length ≤ ending.toList.length) (hnative : endsWithText ending ".tf" = false)
      (hjson : endsWithText ending ".tf.json" = false) : isConfigFile path = false := by
    have hshort : ".tf".toList.length ≤ ending.toList.length := Nat.le_trans (by decide) hlength
    rw [isConfigFile, endsWithText_eq_false h hshort hnative, endsWithText_eq_false h hlength hjson]
    rfl
  simp only [isAutomatic, Bool.or_eq_true, beq_iff_eq] at h
  rcases h with ((h | h) | h) | h
  · rw [isConfigFile, h]
    decide
  · rw [isConfigFile, h]
    decide
  · exact hnone h (by decide) (by decide) (by decide)
  · exact hnone h (by decide) (by decide) (by decide)

theorem FilePath.fileName_append {name : String} (h : IsName name) (dir : String) :
    fileName (dir ++ "/" ++ name) = name := by
  have hname : splitText "/" name = [name] := splitText_of_not_mem rfl h.noSlash
  have hkept : (!(name.isEmpty || name == ".")) = true := by
    simpa using ⟨h.nonempty, h.noDot⟩
  rw [fileName, segments, splitText_append_slash, hname, List.filter_append, List.filter_singleton, hkept]
  exact List.getLastD_concat

theorem isConfigFile_listPath (root : String) : isConfigFile (InstalledModule.listPath root) = false := by
  have hpath : ∃ dir, InstalledModule.listPath root = dir ++ "/" ++ "modules.json" := by
    rw [InstalledModule.listPath, FilePath.join]
    split
    · exact ⟨".terraform/modules", rfl⟩
    · split
      · exact ⟨".terraform/modules", rfl⟩
      · split
        · exact ⟨root ++ ".terraform/modules", by simp only [String.append_assoc]; rfl⟩
        · exact ⟨root ++ "/" ++ ".terraform/modules", by simp only [String.append_assoc]; rfl⟩
  obtain ⟨dir, hdir⟩ := hpath
  rw [hdir, isConfigFile, FilePath.fileName_append ⟨by decide, by decide, by decide⟩]
  decide

namespace Loader

variable {l : Loader} {removed : String → Bool}

/-- A configuration file that cannot be read, or whose text is none. -/
structure Broken (l : Loader) (path : String) : Prop where
  config : isConfigFile path = true
  fails : ∃ problem, l.loadFile path = .error problem

/-- A loader for which some files are not there. -/
def without (l : Loader) (removed : String → Bool) : Loader where
  load path := if removed path then .error "no such file" else l.load path
  list dir := (l.list dir).map fun paths => paths.filter fun path => !removed path

theorem list_without (l : Loader) (removed : String → Bool) (dir : String) : (l.without removed).list dir
    = (l.list dir).map fun paths => paths.filter fun path => !removed path := rfl

theorem load_without (h : removed path = false) : (l.without removed).load path = l.load path := by
  rw [without]
  dsimp only
  rw [if_neg (by simp [h])]

theorem loadFile_without (h : removed path = false) : (l.without removed).loadFile path = l.loadFile path := by
  rw [loadFile, loadFile, load_without h]

section

variable (hbroken : ∀ path, removed path = true → l.Broken path)

include hbroken

theorem removed_eq_false (h : isConfigFile path = false) : removed path = false := by
  by_contra hnot
  have hconfig := (hbroken path (Bool.eq_true_of_not_eq_false hnot)).config
  rw [h] at hconfig
  cases hconfig

/-- What is removed would have been left out. -/
theorem loadDirectory_without (dir : String) :
    (l.without removed).loadDirectory dir false = l.loadDirectory dir false := by
  rw [loadDirectory, loadDirectory, list_without]
  cases l.list dir with
  | error reason => rfl
  | ok paths =>
    rw [Except.map]
    dsimp only
    rw [List.filter_comm, sortByName_filter, loadFiles_tolerant, loadFiles_tolerant, List.filterMap_filter]
    refine congrArg Except.ok (List.filterMap_congr fun path _ => ?_)
    cases hremoved : removed path with
    | true =>
      obtain ⟨problem, hproblem⟩ := (hbroken path hremoved).fails
      rw [hproblem]
      rfl
    | false =>
      rw [loadFile_without hremoved]
      rfl

theorem installed_without (root : String) :
    InstalledModule.load (l.without removed) root = InstalledModule.load l root := by
  rw [InstalledModule.load, InstalledModule.load, load_without (removed_eq_false hbroken (isConfigFile_listPath root))]

/-! ## Variables -/

omit hbroken in
/-- A text that is no configuration gives no variables either. -/
theorem Broken.loadVariables (h : l.Broken path) : ∃ problem, l.loadVariables path = .error problem := by
  obtain ⟨reason, hreason⟩ := h.fails
  rw [Loader.loadVariables]
  rw [loadFile] at hreason
  cases hload : l.load path with
  | error _ => exact ⟨_, rfl⟩
  | ok text =>
    rw [hload] at hreason
    dsimp only at hreason ⊢
    -- Variables and blocks are read from the same document, which is where they both fail.
    split at hreason
    · next hjson =>
      rw [if_pos hjson]
      rw [readDocument] at hreason
      cases hread : Json.read? text with
      | none => exact ⟨_, rfl⟩
      | some d =>
        rw [hread] at hreason
        dsimp only at hreason ⊢
        cases htop : d.sortKeys with
        | object entries =>
          rw [htop] at hreason
          cases hreason
        | number n =>
          split
          · next entries hentries => exact absurd hentries (Value.ofJsonNumeral_ne_object n entries)
          · exact ⟨_, rfl⟩
        | _ => exact ⟨_, rfl⟩
    · next hnative =>
      rw [if_neg hnative, readVariables]
      rw [readNative] at hreason
      cases hread : Syntax.readSource? text with
      | none => exact ⟨_, rfl⟩
      | some body =>
        rw [hread] at hreason
        cases hreason

theorem loadVariables_without (path : String) :
    ((l.without removed).loadVariables path).toOption = (l.loadVariables path).toOption := by
  cases hremoved : removed path with
  | true =>
    obtain ⟨problem, hproblem⟩ := (hbroken path hremoved).loadVariables
    rw [hproblem, loadVariables, without]
    dsimp only
    rw [if_pos hremoved]
    rfl
  | false => rw [loadVariables, loadVariables, load_without hremoved]

omit hbroken in
theorem loadAllVariables_congr {other : Loader} {acc : Entries Value}
    (h : ∀ path ∈ paths, (other.loadVariables path).toOption = (l.loadVariables path).toOption) :
    (other.loadAllVariables acc paths).toOption = (l.loadAllVariables acc paths).toOption := by
  induction paths generalizing acc with
  | nil => rfl
  | cons path rest ih =>
    obtain ⟨hpath, hrest⟩ := List.forall_mem_cons.mp h
    rw [loadAllVariables, loadAllVariables]
    cases hmore : l.loadVariables path with
    | ok more =>
      rw [hmore] at hpath
      rw [eq_ok_of_toOption hpath]
      exact ih hrest
    | error problem =>
      rw [hmore] at hpath
      cases hother : other.loadVariables path with
      | ok more =>
        rw [hother] at hpath
        cases hpath
      | error reason => rfl

omit hbroken in
theorem loadAllVariables_eq {other : Loader} {acc : Entries Value}
    (h : ∀ path ∈ paths, other.loadVariables path = l.loadVariables path) :
    other.loadAllVariables acc paths = l.loadAllVariables acc paths := by
  induction paths generalizing acc with
  | nil => rfl
  | cons path rest ih =>
    obtain ⟨hpath, hrest⟩ := List.forall_mem_cons.mp h
    rw [loadAllVariables, loadAllVariables, hpath]
    cases l.loadVariables path with
    | ok more => exact ih hrest
    | error problem => rfl

/-- The variable files that are used without being named are still there. -/
theorem inputVariables_without (root : String) (named : List String) :
    ((l.without removed).inputVariables root named).toOption = (l.inputVariables root named).toOption
      ∧ ((∀ path ∈ named, removed path = false) →
        (l.without removed).inputVariables root named = l.inputVariables root named) := by
  rw [inputVariables, inputVariables, list_without]
  cases l.list root with
  | error reason => exact ⟨rfl, fun _ => rfl⟩
  | ok paths =>
    have hkept {path : String} (h : isAutomatic path = true) : removed path = false :=
      removed_eq_false hbroken (isConfigFile_of_automatic h)
    have hautomatic : (paths.filter fun path => !removed path).filter isAutomatic = paths.filter isAutomatic := by
      rw [List.filter_comm]
      refine List.filter_eq_self.mpr fun path hpath => ?_
      rw [hkept (List.of_mem_filter hpath)]
      rfl
    rw [Except.map]
    dsimp only
    rw [hautomatic]
    refine ⟨loadAllVariables_congr fun path _ => loadVariables_without hbroken path, fun hnamed => ?_⟩
    refine loadAllVariables_eq fun path hpath => ?_
    have hthere : removed path = false := by
      rcases List.mem_append.mp hpath with hpath | hpath
      · exact hkept (List.of_mem_filter (mem_sortByName.mp hpath))
      · exact hnamed path hpath
    rw [loadVariables, loadVariables, load_without hthere]

end

end Loader

end InfraConfig
