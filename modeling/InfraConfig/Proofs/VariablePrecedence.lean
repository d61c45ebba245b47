import InfraConfig.Proofs.TolerantProjects
import InfraConfig.Proofs.RootVariables
import InfraConfig.Proofs.WrittenCalls

/-!
# Precedence of variable sources

A loader lists the files of a directory in any order. What is loaded from a directory does not depend on it, as the
files are read in the order of their names; so a project does not depend on it either. A variable of the root module has
the value of the strongest of its sources.
-/

namespace InfraConfig

/-! ## The order of listings -/

/-- The same files chosen from two orders are sorted the same. -/
theorem sortByName_filter_of_perm {paths others : List String} (h : others.Perm paths) (hdistinct : DistinctNames paths)
    (choose : String → Bool) : sortByName (others.filter choose) = sortByName (paths.filter choose) :=
  sortByName_eq_of_perm (h.filter choose)
    fun p hp q hq => hdistinct p (List.mem_of_mem_filter hp) q (List.mem_of_mem_filter hq)

namespace Loader

variable {l other : Loader}

/-- Two loaders that read the same and list the same files in every directory, each perhaps in another order. Files in
one directory have different names. -/
structure Reorders (l other : Loader) : Prop where
  load : other.load = l.load
  list : ∀ dir, other.list dir = l.list dir ∨ ∃ paths others, l.list dir = .ok paths ∧ other.list dir = .ok others
    ∧ others.Perm paths ∧ DistinctNames paths

namespace Reorders

variable (h : l.Reorders other)

include h

theorem loadFiles (stop : Bool) (paths : List String) : other.loadFiles stop paths = l.loadFiles stop paths := by
  induction paths with
  | nil => rfl
  | cons path rest ih => rw [Loader.loadFiles, Loader.loadFiles, loadFile, loadFile, h.load, ih]

theorem loadAllVariables (acc : Entries Value) (paths : List String) :
    other.loadAllVariables acc paths = l.loadAllVariables acc paths :=
  loadAllVariables_eq fun path _ => by rw [loadVariables, loadVariables, h.load]

theorem loadDirectory (dir : String) (stop : Bool) : other.loadDirectory dir stop = l.loadDirectory dir stop := by
  rw [Loader.loadDirectory, Loader.loadDirectory]
  rcases h.list dir with hsame | ⟨paths, others, hpaths, hothers, hperm, hdistinct⟩
  · rw [hsame]
    cases l.list dir with
    | error reason => rfl
    | ok paths => exact h.loadFiles stop _
  · rw [hpaths, hothers]
    dsimp only
    rw [sortByName_filter_of_perm hperm hdistinct, h.loadFiles]

theorem inputVariables (root : String) (named : List String) :
    other.inputVariables root named = l.inputVariables root named := by
  rw [Loader.inputVariables, Loader.inputVariables]
  rcases h.list root with hsame | ⟨paths, others, hpaths, hothers, hperm, hdistinct⟩
  · rw [hsame]
    cases l.list root with
    | error reason => rfl
    | ok paths => exact h.loadAllVariables [] _
  · rw [hpaths, hothers]
    dsimp only
    rw [sortByName_filter_of_perm hperm hdistinct, h.loadAllVariables]

theorem installed (root : String) : InstalledModule.load other root = InstalledModule.load l root := by
  rw [InstalledModule.load, InstalledModule.load, h.load]

end Reorders

end Loader

namespace Project

/-- A project does not depend on the order in which directories are listed. -/
theorem load_reordered {l other : Loader} (h : l.Reorders other) (workingDir dir : String) (o : Options) :
    load other workingDir dir o = load l workingDir dir o := by
  refine load_congr (h.inputVariables _ _) (h.loadDirectory _ _) fun inputs files _ => ?_
  have hsession : session other (FilePath.absolute workingDir dir) o
      = ModuleRun.withLoader (session l (FilePath.absolute workingDir dir) o) other := by
    rw [session, h.installed]
    rfl
  rw [hsession]
  refine ModuleRun.evaluateUpTo_congr (fun dir => h.loadDirectory dir o.stopOnError) depthLimit
    (rootRun (session l (FilePath.absolute workingDir dir) o) inputs files) fun path _ => ?_
  rw [h.load]
  rfl

end Project

/-! ## Precedence -/

namespace Project

open ModuleRun (Declares)

/-- A variable that is declared once, and in whose place no resource is bound, has the value of the first of these that
has one: the values that are given directly, the named files from the last to the first, and the files that are found
by their names from the last to the first; then its default; otherwise it is unknown. The value stands in the type that
is declared if it can be written in it. All that is loaded is the same for loaders that list the same files in other
orders. -/
theorem variable_precedence :
    (∀ l workingDir dir o p, load l workingDir dir o = .ok p → ∃ automatic explicit before,
      VariableFiles l (FilePath.absolute workingDir dir) o.variableFiles automatic explicit
        ∧ LastPass l (FilePath.absolute workingDir dir) o before p
        ∧ ∀ name b, Declares name p.rootBlocks b → (∀ b ∈ p.rootBlocks, ¬ b.Hides name) →
          p.arena.scopes.get? p.scope ["var", name]
            = some (coerce b ((strongest? (o.inputs :: (explicit.reverse ++ automatic.reverse)) name).getD
              (defaultValue before.arena b))))
      ∧ ∀ l other, l.Reorders other → ∀ workingDir dir o, load other workingDir dir o = load l workingDir dir o :=
  ⟨fun _ _ _ _ _ h => exists_value_of_load h, fun _ _ h => load_reordered h⟩

/-- A variable without default and two files that are found by their names, listed in a mixed order. -/
def layered : Loader where
  load path :=
    if path == "/a.auto.tfvars.json" then .ok "\x7b\"x\": 1\x7d"
    else if path == "/b.auto.tfvars.json" then .ok "\x7b\"x\": 2\x7d"
    else .ok "\x7b\"variable\": \x7b\"x\": \x7b\x7d\x7d\x7d"
  list _ := .ok ["/b.auto.tfvars.json", "/main.tf.json", "/a.auto.tfvars.json"]

theorem variable_precedence_layered :
    let o : Options := ⟨[], [], "default", false, 6⟩
    let other : Loader := ⟨layered.load, fun _ => .ok ["/a.auto.tfvars.json", "/b.auto.tfvars.json", "/main.tf.json"]⟩
    layered.Reorders other ∧ load other "/" "/" o = load layered "/" "/" o
      ∧ ∃ p b, load layered "/" "/" o = .ok p ∧ Declares "x" p.rootBlocks b ∧ (∀ b ∈ p.rootBlocks, ¬ b.Hides "x")
        ∧ p.arena.scopes.get? p.scope ["var", "x"] = some (.int 2)
        ∧ ∃ automatic explicit before, VariableFiles layered "/" [] automatic explicit
          ∧ LastPass layered "/" o before p
          ∧ p.arena.scopes.get? p.scope ["var", "x"]
            = some (coerce b ((strongest? ([] :: (explicit.reverse ++ automatic.reverse)) "x").getD
              (defaultValue before.arena b))) := by
  intro o other
  have hreorders : layered.Reorders other :=
    ⟨rfl, fun _ => .inr ⟨_, _, rfl, rfl, by decide, by rw [DistinctNames]; decide +kernel⟩⟩
  refine ⟨hreorders, variable_precedence.2 _ _ hreorders _ _ _, ?_⟩
  have hcheck : (load layered "/" "/" o).toOption.any (fun p =>
      (p.rootBlocks.filter fun b => b.kind == .variable && b.typeLabel == "x").length == 1
        && p.rootBlocks.all (fun b => !decide (b.Hides "x"))
        && (p.arena.scopes.get? p.scope ["var", "x"]).any (Value.identical (.int 2))) = true := by
    decide +kernel
  obtain ⟨p, hload, hall⟩ := (Option.any_eq_true _ _).mp hcheck
  simp only [Bool.and_eq_true, beq_iff_eq] at hall
  obtain ⟨⟨hone, hvisible⟩, hvalue⟩ := hall
  obtain ⟨b, hdeclared⟩ := List.length_eq_one_iff.mp hone
  have hvisible : ∀ b ∈ p.rootBlocks, ¬ b.Hides "x" := by simpa using hvisible
  obtain ⟨v, hv, hsame⟩ := (Option.any_eq_true _ _).mp hvalue
  rw [← Value.eq_of_identical hsame] at hv
  have hload := eq_ok_of_toOption hload
  obtain ⟨automatic, explicit, before, hfiles, hlast, hget⟩ := variable_precedence.1 _ _ _ _ _ hload
  exact ⟨p, b, hload, hdeclared, hvisible, hv, automatic, explicit, before, hfiles, hlast, hget "x" b hdeclared hvisible⟩

/-- A variable and a resource of the type `var` with the same name. -/
def namesakes : Loader where
  load _ := .ok <| "\x7b\"variable\": \x7b\"x\": \x7b\"default\": \"a\"\x7d\x7d, "
    ++ "\"resource\": \x7b\"var\": \x7b\"x\": \x7b\"a\": 2\x7d\x7d\x7d\x7d"
  list dir := .ok [dir ++ "/main.tf.json"]

/-- A variable has neither a given value nor its default where a resource is bound in its place. -/
theorem variable_replaced_by_namesake :
    let o : Options := ⟨[], [], "default", false, 6⟩
    ∃ p b, load namesakes "/" "/" o = .ok p ∧ Declares "x" p.rootBlocks b
      ∧ ∀ automatic explicit before, VariableFiles namesakes "/" [] automatic explicit → LastPass namesakes "/" o before p →
        p.arena.scopes.get? p.scope ["var", "x"]
          ≠ some (coerce b ((strongest? ([] :: (explicit.reverse ++ automatic.reverse)) "x").getD
            (defaultValue before.arena b))) := by
  intro o
  have hcheck : (load namesakes "/" "/" o).toOption.any (fun p =>
      (p.rootBlocks.filter fun b => b.kind == .variable && b.typeLabel == "x").length == 1
        && (p.rootBlocks.filter fun b => b.kind == .variable && b.typeLabel == "x").all (fun b =>
          (b.attribute? "type").isNone
            && (b.attribute? "default").any fun attr => attr.value.written? == some "a")
        && (p.arena.scopes.get? p.scope ["var", "x"]).any Value.isMapLike) = true := by
    decide +kernel
  obtain ⟨p, hload, hall⟩ := (Option.any_eq_true _ _).mp hcheck
  simp only [Bool.and_eq_true, beq_iff_eq] at hall
  obtain ⟨⟨hlength, hplain⟩, hbound⟩ := hall
  obtain ⟨b, hdeclared⟩ := List.length_eq_one_iff.mp hlength
  rw [hdeclared, List.all_cons, List.all_nil, Bool.and_true, Bool.and_eq_true, Option.isNone_iff_eq_none] at hplain
  obtain ⟨htype, hdefault⟩ := hplain
  obtain ⟨attr, hattr, hwritten⟩ := (Option.any_eq_true _ _).mp hdefault
  refine ⟨p, b, eq_ok_of_toOption hload, hdeclared, fun automatic explicit before hfiles _ hsame => ?_⟩
  obtain ⟨listed, paths, hlisted, hpaths, -, hautomatic⟩ := hfiles.automatic
  obtain rfl := Except.ok.inj hlisted
  have hnone : ["//main.tf.json"].filter isAutomatic = [] := by decide +kernel
  obtain rfl : paths = [] := List.perm_nil.mp (hnone ▸ hpaths)
  obtain rfl := List.forall₂_nil_left_iff.mp hautomatic
  obtain rfl := List.forall₂_nil_left_iff.mp hfiles.explicit
  have htext : attr.value = .text "a" := Expr.eq_text_of_written (beq_iff_eq.mp hwritten)
  have hvalue : coerce b (defaultValue before.arena b) = .text "a" := by
    simp only [coerce, htype, defaultValue, hattr, Arena.resolve, htext, Arena.evaluate_text]
    rfl
  have hgiven : strongest? ([] :: (([] : List (Entries Value)).reverse ++ [].reverse)) "x" = none := rfl
  rw [hsame, Option.any_some, hgiven, Option.getD_none, hvalue] at hbound
  cases hbound

end Project

end InfraConfig
