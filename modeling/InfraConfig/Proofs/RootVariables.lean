import InfraConfig.Proofs.RemovedFiles
import InfraConfig.Proofs.VariableWrites
import InfraConfig.Proofs.TolerantProjects

/-!
# Variables of the root module

Sorting by file names gives one list for all orders of paths whose names are distinct, and the values that variable files
give are those of the last file that has one. A project is what the last pass over its root module has made: what stands
under a variable then comes from the strongest source that has a value for it, if nothing else is bound in its place.
-/

namespace InfraConfig

section

/-! ## Sorted paths -/

variable {paths others : List String}

/-- Different paths have different file names, as they do when they stand in one directory. -/
def DistinctNames (paths : List String) : Prop :=
  ∀ p ∈ paths, ∀ q ∈ paths, FilePath.fileName p = FilePath.fileName q → p = q

/-- Sorting forgets the order in which the paths came. -/
theorem sortByName_eq_of_perm (h : others.Perm paths) (hdistinct : DistinctNames paths) :
    sortByName others = sortByName paths := by
  have hperm := (perm_sortByName others).trans (h.trans (perm_sortByName paths).symm)
  refine hperm.eq_of_pairwise (fun p q hp hq hpq hqp => ?_) (byName_sortByName others) (byName_sortByName paths)
  have hp : p ∈ paths := mem_sortByName.mp (hperm.mem_iff.mp hp)
  exact hdistinct p hp q (mem_sortByName.mp hq) (String.le_antisymm hpq hqp)

/-! ## Variable files -/

/-- The value of a name in the first of several sources that has one. -/
def strongest? (sources : List (Entries Value)) (name : String) : Option Value :=
  sources.findSome? fun source => Entries.assigned? source name

theorem strongest?_append (sources more : List (Entries Value)) (name : String) :
    strongest? (sources ++ more) name = (strongest? sources name).or (strongest? more name) :=
  List.findSome?_append

theorem strongest?_cons (source : Entries Value) (more : List (Entries Value)) (name : String) :
    strongest? (source :: more) name = (Entries.assigned? source name).or (strongest? more name) := by
  rw [strongest?, List.findSome?_cons]
  cases Entries.assigned? source name <;> rfl

/-- Sources that are stored one over another count from the last to the first. -/
theorem get?_foldl_putAll (sources : List (Entries Value)) (es : Entries Value) (name : String) :
    (sources.foldl Entries.putAll es).get? name = (strongest? sources.reverse name).or (es.get? name) := by
  induction sources generalizing es with
  | nil => rfl
  | cons source sources ih =>
    rw [List.foldl_cons, ih, Entries.get?_putAll_eq, List.reverse_cons, strongest?_append, strongest?_cons,
      Option.or_assoc, Option.or_assoc]
    rfl

/-- What files hold that are read in an order. -/
def Loader.Holds (l : Loader) (paths : List String) (contents : List (Entries Value)) : Prop :=
  List.Forall₂ (fun path es => l.loadVariables path = .ok es) paths contents

theorem Loader.exists_holds {l : Loader} {acc given : Entries Value} (h : l.loadAllVariables acc paths = .ok given) :
    ∃ contents, l.Holds paths contents ∧ given = contents.foldl Entries.putAll acc := by
  induction paths generalizing acc with
  | nil => exact ⟨[], .nil, (Except.ok.inj h).symm⟩
  | cons path rest ih =>
    rw [loadAllVariables] at h
    split at h
    · next more hmore =>
      obtain ⟨contents, hcontents, hgiven⟩ := ih h
      exact ⟨more :: contents, .cons hmore hcontents, hgiven⟩
    · cases h

theorem Loader.Holds.split {l : Loader} {contents : List (Entries Value)} (h : l.Holds (paths ++ others) contents) :
    ∃ first second, l.Holds paths first ∧ l.Holds others second ∧ contents = first ++ second := by
  induction paths generalizing contents with
  | nil => exact ⟨[], contents, .nil, h, rfl⟩
  | cons path rest ih =>
    cases h with
    | @cons _ es _ contents hfirst hrest =>
      obtain ⟨first, second, hleft, hright, rfl⟩ := ih hrest
      exact ⟨es :: first, second, .cons hfirst hleft, hright, rfl⟩

theorem Loader.loadAllVariables_append (l : Loader) (acc : Entries Value) (paths others : List String) :
    l.loadAllVariables acc (paths ++ others)
      = l.loadAllVariables acc paths >>= fun given => l.loadAllVariables given others := by
  induction paths generalizing acc with
  | nil => rfl
  | cons path rest ih =>
    rw [List.cons_append, loadAllVariables, loadAllVariables]
    cases l.loadVariables path with
    | ok more => exact ih _
    | error problem => rfl

/-- The contents of the variable files of a project: of those in the root directory that are found by their names, in
the order of the names, and of those that are named, in the order in which they are named. -/
structure VariableFiles (l : Loader) (root : String) (named : List String) (automatic explicit : List (Entries Value)) :
    Prop where
  automatic : ∃ listed paths, l.list root = .ok listed ∧ paths.Perm (listed.filter isAutomatic) ∧ ByName paths
    ∧ l.Holds paths automatic
  explicit : l.Holds named explicit

theorem Loader.exists_variableFiles {l : Loader} {root : String} {named : List String} {given : Entries Value}
    (h : l.inputVariables root named = .ok given) : ∃ automatic explicit, VariableFiles l root named automatic explicit
      ∧ ∀ name, given.get? name = strongest? (explicit.reverse ++ automatic.reverse) name := by
  rw [inputVariables] at h
  split at h
  · cases h
  · next listed hlisted =>
    rw [loadAllVariables_append] at h
    obtain ⟨found, hfound, h⟩ := bind_eq_ok_iff.mp h
    obtain ⟨automatic, hautomatic, rfl⟩ := exists_holds hfound
    obtain ⟨explicit, hexplicit, rfl⟩ := exists_holds h
    have hsorted := byName_sortByName (listed.filter isAutomatic)
    refine ⟨automatic, explicit, ⟨⟨listed, _, hlisted, perm_sortByName _, hsorted, hautomatic⟩, hexplicit⟩, fun name => ?_⟩
    rw [get?_foldl_putAll, get?_foldl_putAll, strongest?_append, Entries.get?_nil, Option.or_none]

end

/-! ## The last pass -/

namespace ModuleRun

variable {s : Session} {run : Evaluate} {start settled loaded resettled expanded r done : ModuleRun}

/-- A loop that is allowed a pass ends with one. -/
theorem Continues.settle_last (h : Continues s run start r) (hsettle : r.settle s run = .ok done)
    (hpasses : s.maxPasses ≠ 0) : ∃ before passed, Continues s run start before ∧ before.pass s run = .ok passed
      ∧ done = (passed.readWanted s).2 := by
  rcases converge_last (fun q passed hq hpass => (hq.pass hpass).read) h hsettle with ⟨hnone, -⟩ | hlast
  · exact absurd hnone hpasses
  · exact hlast

theorem Phases.exists_last (h : Phases s run start settled loaded resettled expanded done)
    (hpasses : s.maxPasses ≠ 0) : ∃ before passed, Continues s run start before ∧ before.pass s run = .ok passed
      ∧ done = (passed.readWanted s).2 := by
  have hresettled := ((Continues.start.settle h.settle).load h.load).settle h.resettle
  rcases h.force_cases with ⟨-, rfl⟩ | ⟨forced, hforced, hsettle⟩
  · exact hresettled.expand.settle_last h.expand hpasses
  · exact (h.continues_expanded.calls true hforced).settle_last hsettle hpasses

end ModuleRun

namespace Project

open ModuleRun (Contained Continues contained_evaluateUpTo evaluateUpTo exists_phases)

variable {l : Loader} {workingDir dir root : String} {o : Options} {p : Project} {before : ModuleRun}
  {name : String} {b : Block}

/-- The evaluation of the modules that the root module calls. -/
def evaluateCalled (l : Loader) (root : String) (o : Options) : ModuleRun.Evaluate :=
  evaluateUpTo (session l root o) 999

/-- The state `before` is that from which the last pass over the root module was made. -/
structure LastPass (l : Loader) (root : String) (o : Options) (before : ModuleRun) (p : Project) : Prop where
  begins : ∃ inputs files, Opens l root o inputs files ∧ Continues (session l root o) (evaluateCalled l root o)
    (rootRun (session l root o) inputs files) before
  ends : ∃ passed modules, before.pass (session l root o) (evaluateCalled l root o) = .ok passed
    ∧ modules.head? = some passed.module ∧ p = ofRun modules (passed.readWanted (session l root o)).2

/-- The blocks of the root module. -/
def rootBlocks (p : Project) : List Block :=
  (p.modules.head?.map fun m => m.blocksIn p.arena).getD []

theorem exists_lastPass (h : load l workingDir dir o = .ok p) :
    ∃ before, LastPass l (FilePath.absolute workingDir dir) o before p := by
  obtain ⟨inputs, files, modules, done, hopens, heval, rfl⟩ := exists_opens_of_load h
  obtain ⟨settled, loaded, resettled, expanded, hphases, rfl⟩ := exists_phases heval
  have hpasses : (session l (FilePath.absolute workingDir dir) o).maxPasses ≠ 0 :=
    Nat.ne_of_gt (Nat.lt_of_lt_of_le Nat.one_pos (Nat.le_max_left 1 o.maxPasses))
  obtain ⟨before, passed, hbefore, hpass, rfl⟩ := hphases.exists_last hpasses
  exact ⟨before, ⟨inputs, files, hopens, hbefore⟩, passed, _, hpass, rfl, rfl⟩

namespace LastPass

variable (h : LastPass l root o before p)

include h

theorem sound : before.Sound := by
  obtain ⟨inputs, files, -, hcontinues⟩ := h.begins
  exact hcontinues.sound (contained_evaluateUpTo _ _) (ModuleRun.rootRun_sound _ inputs files)

theorem rootBlocks_eq : p.rootBlocks = before.module.blocksIn before.arena := by
  obtain ⟨passed, modules, hpass, hhead, rfl⟩ := h.ends
  have hrun : Contained (evaluateCalled l root o) := contained_evaluateUpTo _ _
  have hkept := h.sound.pass_blocksIn hrun hpass
  rw [rootBlocks, ofRun, hhead]
  exact hkept

/-- What the last pass makes of the block of a variable stands under the variable. -/
theorem get?_variable (hdeclared : ModuleRun.Declares name p.rootBlocks b)
    (hvisible : ∀ b ∈ p.rootBlocks, ¬ b.Hides name) :
    p.arena.scopes.get? p.scope ["var", name] = some (before.variableValue b) := by
  have hblocks := h.rootBlocks_eq
  obtain ⟨passed, modules, hpass, -, rfl⟩ := h.ends
  have hrun : Contained (evaluateCalled l root o) := contained_evaluateUpTo _ _
  rw [hblocks] at hdeclared hvisible
  have hbound := h.sound.variable_pass hrun hpass hdeclared fun b hb => hvisible b (List.mem_filter.mp hb).1
  have hpassed := ModuleRun.pass_advances hrun h.sound (.all before) hpass
  exact (Scopes.get?_root hpassed.sound.top.2 _).trans hbound

end LastPass

/-- The value of a declaration for which no source has one. -/
def defaultValue (a : Arena) (b : Block) : Value :=
  match b.attribute? "default" with
  | some attr => a.resolve b attr
  | none => .unknown

theorem LastPass.inputs (h : LastPass l root o before p) : ∃ automatic explicit,
    VariableFiles l root o.variableFiles automatic explicit
      ∧ ∀ name, before.inputs.get? name
        = strongest? (o.inputs :: (explicit.reverse ++ automatic.reverse)) name := by
  obtain ⟨inputs, files, hopens, hcontinues⟩ := h.begins
  have hgiven : before.inputs = inputs := (hcontinues.advances (contained_evaluateUpTo _ _)
    (ModuleRun.rootRun_sound _ inputs files)).given
  obtain ⟨given, hfound, rfl⟩ := hopens.inputs
  obtain ⟨automatic, explicit, hvariables, hget⟩ := Loader.exists_variableFiles hfound
  refine ⟨automatic, explicit, hvariables, fun name => ?_⟩
  rw [hgiven, Entries.get?_putAll_eq, hget, strongest?_cons]

/-- A variable of the root module has the value of the strongest source that has one, or its default, in the type that
it declares. -/
theorem exists_value_of_load (h : load l workingDir dir o = .ok p) : ∃ automatic explicit before,
    VariableFiles l (FilePath.absolute workingDir dir) o.variableFiles automatic explicit
      ∧ LastPass l (FilePath.absolute workingDir dir) o before p
      ∧ ∀ name b, ModuleRun.Declares name p.rootBlocks b → (∀ b ∈ p.rootBlocks, ¬ b.Hides name) →
        p.arena.scopes.get? p.scope ["var", name]
          = some (coerce b ((strongest? (o.inputs :: (explicit.reverse ++ automatic.reverse)) name).getD
            (defaultValue before.arena b))) := by
  obtain ⟨before, hlast⟩ := exists_lastPass h
  obtain ⟨automatic, explicit, hvariables, hget⟩ := hlast.inputs
  refine ⟨automatic, explicit, before, hvariables, hlast, fun name b hdeclared hvisible => ?_⟩
  rw [hlast.get?_variable hdeclared hvisible, ModuleRun.variableValue]
  obtain rfl : b.typeLabel = name := by
    rw [hlast.rootBlocks_eq] at hdeclared
    exact hdeclared.split.1
  rw [hget]
  cases strongest? (o.inputs :: (explicit.reverse ++ automatic.reverse)) b.typeLabel <;> rfl

end Project

end InfraConfig
