import InfraConfig.CommandLine.Run
import InfraConfig.Proofs.RootVariables
import InfraConfig.Proofs.TomlTables

/-!
# Values from the command line

Settings and command line each give values directly and name files with values. The files of both come after those that
are found by their names, and what is given directly comes after all files, so that the settings are stronger with
their values than the command line is with its files.
-/

namespace InfraConfig

/-! ## Settings -/

namespace Toml

theorem keys_entryValues {entries : Entries Toml} {values : Entries Value} (h : entryValues? entries = some values) :
    values.keys = entries.keys := by
  induction entries generalizing values with
  | nil => rw [← Option.some.inj h]; rfl
  | cons e entries ih =>
    obtain ⟨key, t⟩ := e
    rw [entryValues?] at h
    obtain ⟨v, -, h⟩ := Option.bind_eq_some_iff.mp h
    obtain ⟨rest, hrest, h⟩ := Option.bind_eq_some_iff.mp h
    rw [← Option.some.inj h]
    exact congrArg (key :: ·) (ih hrest)

theorem Keyed.of_entries {t : Toml} {entries : Entries Toml} (h : t.Keyed) (hentries : t.entries? = some entries) :
    KeyedEntries entries := by
  cases t with
  | table origin inner => exact Option.some.inj hentries ▸ h.keyedEntries
  | _ => cases hentries

theorem Keyed.of_list {t : Toml} {items : List Toml} (h : t.Keyed) (hitems : t.list? = some items) :
    ∀ item ∈ items, item.Keyed := by
  cases t with
  | list inner => exact Option.some.inj hitems ▸ h.forall_items
  | tables inner => exact Option.some.inj hitems ▸ h.forall_tables
  | _ => cases hitems

end Toml

namespace Settings

variable {s : Settings} {t : Toml}

theorem nodup_of_readVariables {inputs : Entries Value} (ht : t.Keyed) (h : readVariables? t = some inputs) :
    inputs.keys.Nodup := by
  obtain ⟨entries, hentries, h⟩ := Option.bind_eq_some_iff.mp h
  obtain ⟨values, hvalues, rfl⟩ := Option.map_eq_some_iff.mp h
  have hkeys := (ht.of_entries hentries).keys
  rw [← Toml.keys_entryValues hvalues] at hkeys
  exact ((Entries.perm_sorted values).map Prod.fst).nodup_iff.mpr hkeys

theorem nodup_of_toml (ht : t.Keyed) (h : ofToml? t = some s) : s.inputs.keys.Nodup := by
  unfold ofToml? at h
  split at h
  · next items hitems =>
    have hall := ht.of_list hitems
    unfold ofList? at h
    obtain ⟨_, -, h⟩ := Option.bind_eq_some_iff.mp h
    obtain ⟨files, -, h⟩ := Option.bind_eq_some_iff.mp h
    obtain ⟨second, hsecond, h⟩ := Option.bind_eq_some_iff.mp h
    obtain ⟨inputs, hinputs, h⟩ := Option.bind_eq_some_iff.mp h
    obtain ⟨_, -, h⟩ := Option.bind_eq_some_iff.mp h
    obtain ⟨workspace, -, h⟩ := Option.bind_eq_some_iff.mp h
    obtain ⟨stop, -, h⟩ := Option.bind_eq_some_iff.mp h
    rw [← Option.some.inj h]
    exact nodup_of_readVariables (hall _ (List.mem_of_getElem? hsecond)) hinputs
  · obtain ⟨entries, hentries, h⟩ := Option.bind_eq_some_iff.mp h
    have hall := ht.of_entries hentries
    unfold ofEntries? at h
    obtain ⟨files, -, h⟩ := Option.bind_eq_some_iff.mp h
    obtain ⟨inputs, hinputs, h⟩ := Option.bind_eq_some_iff.mp h
    obtain ⟨workspace, -, h⟩ := Option.bind_eq_some_iff.mp h
    obtain ⟨stop, -, h⟩ := Option.bind_eq_some_iff.mp h
    rw [← Option.some.inj h]
    cases hvars : entries.get? "vars" with
    | none =>
      rw [hvars] at hinputs
      rw [← Option.some.inj hinputs]
      exact List.nodup_nil
    | some vars =>
      rw [hvars] at hinputs
      exact nodup_of_readVariables (hall.get hvars) hinputs

/-- The settings in a text give each variable one value. -/
theorem nodup_of_read {source : String} (h : read? source = some s) : s.inputs.keys.Nodup := by
  obtain ⟨entries, hentries, h⟩ := Option.bind_eq_some_iff.mp h
  split at h
  · cases htable : entries.get? "settings" with
    | none =>
      rw [htable] at h
      rw [← Option.some.inj h]
      exact List.nodup_nil
    | some t =>
      rw [htable] at h
      exact nodup_of_toml ((Toml.read_keyed hentries).get htable) h
  · cases h

end Settings

/-! ## The beginning of a run -/

namespace Arena

theorem bindings_foldl_bind (ws : List (ValuePath × Value)) {a : Arena} {root : ScopeId} (h : root < a.scopes.size) :
    (ws.foldl (fun a w => a.bind root w.2 w.1) a).scopes.bindings root = (a.scopes.bindings root).write ws := by
  induction ws generalizing a with
  | nil => rfl
  | cons w ws ih =>
    have hsize : root < (a.bind root w.2 w.1).scopes.size := Nat.lt_of_lt_of_eq h (Scopes.size_set _ _ _ _).symm
    rw [List.foldl_cons, ih hsize]
    exact congrArg (fun es : Entries Value => es.write ws) (Scopes.bindings_set_self _ h w.2 w.1)

/-- New scopes for the blocks leave what is bound in the others. -/
theorem bindings_rescopeUpTo (depth : Nat) (a : Arena) (id : BlockId) (scope σ : ScopeId) :
    (a.rescopeUpTo depth id scope).scopes.bindings σ = a.scopes.bindings σ :=
  rescopeUpTo_induction (motive := fun b => b.scopes.bindings σ = a.scopes.bindings σ) (fun _ _ _ hb => hb)
    (fun b parent hb => (Scopes.bindings_push_same b.scopes (some parent) σ).trans hb) rfl depth id scope

theorem bindings_foldl_rescope (ids : List BlockId) (a : Arena) (root σ : ScopeId) :
    (ids.foldl (fun a id => (a.newChild root).2.rescope id (a.newChild root).1) a).scopes.bindings σ
      = a.scopes.bindings σ := by
  refine List.foldlRecOn (motive := fun b : Arena => b.scopes.bindings σ = a.scopes.bindings σ) _ _ rfl
    fun b hb id _ => ?_
  exact (bindings_rescopeUpTo _ _ id _ σ).trans ((Scopes.bindings_push_same b.scopes (some root) σ).trans hb)

end Arena

namespace ModuleRun

/-- A run begins with its surroundings in the scope of its module. -/
theorem bindings_start (s : Session) {arena : Arena} (module : ModuleInstance) {root : ScopeId}
    (inputs : Entries Value) (visited : List VisitedModule) (h : root < arena.scopes.size) :
    (start s arena module root inputs visited).bindings
      = (arena.scopes.bindings root).write (surroundings s module.path) :=
  (Arena.bindings_foldl_rescope module.blocks _ root root).trans (Arena.bindings_foldl_bind (surroundings s module.path) h)

/-- The workspace of the session stands in every module when its run begins. -/
theorem workspace_start (s : Session) {arena : Arena} (module : ModuleInstance) {root : ScopeId}
    (inputs : Entries Value) (visited : List VisitedModule) (h : root < arena.scopes.size) :
    (start s arena module root inputs visited).bindings.getPath? ["terraform", "workspace"] = some (.text s.workspace) := by
  rw [bindings_start s module inputs visited h, surroundings, Entries.write, List.foldl_cons, ← Entries.write,
    Entries.getPath?_write_of_apart, Entries.getPath?_setPath_leaf _ rfl (List.cons_ne_nil _ _)]
  · simp only [List.forall_mem_cons]
    have hapart (rest : ValuePath) : Apart ("path" :: rest) ["terraform", "workspace"] := Apart.of_head_ne (by decide) _ _
    exact ⟨hapart _, hapart _, hapart _, fun w hw => absurd hw List.not_mem_nil⟩

theorem workspace_rootRun (s : Session) (inputs : Entries Value) (files : List SourceFile) :
    (Project.rootRun s inputs files).bindings.getPath? ["terraform", "workspace"] = some (.text s.workspace) := by
  have hroot : 0 < (Arena.empty s.root).newRoot.2.scopes.size := Nat.one_pos
  obtain ⟨hinsert, -⟩ := Arena.changes_insertFiles (P := fun _ => True) none files (wellFormed_empty s.root) hroot trivial
  exact workspace_start s _ inputs [] (Nat.lt_of_lt_of_le hroot hinsert.size_scopes_le)

end ModuleRun

/-! ## Settings and command line together -/

namespace Arguments

open ModuleRun (Declares)
open Project (LastPass defaultValue rootRun session)

variable {t : FileTree} {a : Arguments} {base : Options} {p : Project}

/-- The values that the command line gives directly. -/
def given (a : Arguments) : Entries Value :=
  a.inputs.map fun (name, text) => (name, .text text)

theorem nodup_of_settingsOptions (h : a.settingsOptions t = .ok base) : base.inputs.keys.Nodup := by
  unfold settingsOptions at h
  split at h
  · cases h
  · rw [← Except.ok.inj h]
    exact List.nodup_nil
  · split at h
    · cases h
    · split at h
      · next settings hread =>
        rw [← Except.ok.inj h]
        exact Settings.nodup_of_read hread
      · cases h

theorem project_eq_ok_iff : a.project t = .ok p ↔ ∃ base, a.settingsOptions t = .ok base
    ∧ Project.load t.loader t.workingDir a.directory (a.override base) = .ok p := by
  rw [project, options]
  cases hbase : a.settingsOptions t with
  | error problem => simp [Except.map]
  | ok base =>
    simp only [Except.map, Except.ok.injEq, exists_eq_left']
    cases Project.load t.loader t.workingDir a.directory (a.override base) with
    | error problem => simp [Except.mapError]
    | ok q => simp [Except.mapError]

/-- What the command line gives directly comes first, and after it what the settings give directly. -/
theorem strongest?_override (h : base.inputs.keys.Nodup) (more : List (Entries Value)) (name : String) :
    strongest? ((a.override base).inputs :: more) name = strongest? (a.given :: base.inputs :: more) name := by
  rw [strongest?_cons, strongest?_cons, strongest?_cons, override, ← given, Entries.assigned?_putAll h, Option.or_assoc]

/-- Which value a variable has in a project that a command line asks for, and which workspace. A value of the command
line counts unless it stands in a file and the settings give another one directly. -/
theorem project_sources (h : a.project t = .ok p) : ∃ base automatic ofSettings ofCommand before,
    a.settingsOptions t = .ok base
      ∧ VariableFiles t.loader (FilePath.absolute t.workingDir a.directory) base.variableFiles automatic ofSettings
      ∧ t.loader.Holds a.variableFiles ofCommand
      ∧ LastPass t.loader (FilePath.absolute t.workingDir a.directory) (a.override base) before p
      ∧ (∀ inputs files, let s := session t.loader (FilePath.absolute t.workingDir a.directory) (a.override base)
        (rootRun s inputs files).bindings.getPath? ["terraform", "workspace"]
          = some (.text (a.workspace.getD base.workspace)))
      ∧ ∀ name b, Declares name p.rootBlocks b → (∀ b ∈ p.rootBlocks, ¬ b.Hides name) →
        p.arena.scopes.get? p.scope ["var", name] = some (coerce b ((strongest? (a.given :: base.inputs
            :: (ofCommand.reverse ++ (ofSettings.reverse ++ automatic.reverse))) name).getD (defaultValue before.arena b)))
          ∧ ∀ v, strongest? (a.given :: ofCommand.reverse) name = some v →
            (Entries.assigned? a.given name).isSome ∨ Entries.assigned? base.inputs name = none →
            p.arena.scopes.get? p.scope ["var", name] = some (coerce b v) := by
  obtain ⟨base, hbase, hload⟩ := project_eq_ok_iff.mp h
  have hnodup := nodup_of_settingsOptions hbase
  obtain ⟨automatic, explicit, before, hfiles, hlast, hvalue⟩ := Project.exists_value_of_load hload
  obtain ⟨ofSettings, ofCommand, hsettings, hcommand, rfl⟩ := hfiles.explicit.split
  refine ⟨base, automatic, ofSettings, ofCommand, before, hbase, ⟨hfiles.automatic, hsettings⟩, hcommand, hlast,
    fun inputs files => ?_, fun name b hdeclared hvisible => ?_⟩
  · exact ModuleRun.workspace_rootRun _ inputs files
  · have hbound := hvalue name b hdeclared hvisible
    rw [strongest?_override hnodup, List.reverse_append, List.append_assoc] at hbound
    refine ⟨hbound, fun v hv hstronger => ?_⟩
    rw [hbound]
    rw [strongest?_cons] at hv
    rw [strongest?_cons, strongest?_cons, strongest?_append]
    rcases hstronger with hgiven | hnone
    · obtain ⟨w, hw⟩ := Option.isSome_iff_exists.mp hgiven
      rw [hw, Option.some_or] at hv ⊢
      rw [hv, Option.getD_some]
    · rw [hnone, Option.none_or, ← Option.or_assoc, hv, Option.some_or, Option.getD_some]

/-- Settings that give a variable a value, and a file that gives it another one. -/
def settingsAndFile : FileTree :=
  ⟨"/p", [("/p/tfeval.toml", "[settings]\nworkspace = \"dev\"\n\n[settings.vars]\nx = 1\n"),
    ("/p/v.tfvars.json", "\x7b\"x\": 2, \"y\": 3\x7d"),
    ("/p/main.tf.json", "\x7b\"variable\": \x7b\"x\": \x7b\x7d, \"y\": \x7b\x7d\x7d\x7d")]⟩

/-- The file is named on the command line. It gives `y` its value, but not `x`, for which the settings have one. -/
theorem project_sources_settingsAndFile :
    let a : Arguments := { empty with variableFiles := ["v.tfvars.json"], workspace := some "prod" }
    ∃ p base automatic ofSettings ofCommand before b, a.project settingsAndFile = .ok p
      ∧ p.arena.scopes.get? p.scope ["var", "x"] = some (.int 1)
      ∧ p.arena.scopes.get? p.scope ["var", "y"] = some (.int 3)
      ∧ Declares "y" p.rootBlocks b ∧ (∀ b ∈ p.rootBlocks, ¬ b.Hides "y")
      ∧ a.settingsOptions settingsAndFile = .ok base
      ∧ VariableFiles settingsAndFile.loader "/p" base.variableFiles automatic ofSettings
      ∧ settingsAndFile.loader.Holds a.variableFiles ofCommand
      ∧ LastPass settingsAndFile.loader "/p" (a.override base) before p
      ∧ (∀ inputs files, (rootRun (session settingsAndFile.loader "/p" (a.override base)) inputs files).bindings.getPath?
        ["terraform", "workspace"] = some (.text "prod"))
      ∧ p.arena.scopes.get? p.scope ["var", "y"] = some (coerce b ((strongest? (a.given :: base.inputs
        :: (ofCommand.reverse ++ (ofSettings.reverse ++ automatic.reverse))) "y").getD (defaultValue before.arena b))) := by
  intro a
  have hcheck : (a.project settingsAndFile).toOption.any (fun p =>
      (p.rootBlocks.filter fun b => b.kind == .variable && b.typeLabel == "y").length == 1
        && p.rootBlocks.all (fun b => !decide (b.Hides "y"))
        && (p.arena.scopes.get? p.scope ["var", "x"]).any (Value.identical (.int 1))
        && (p.arena.scopes.get? p.scope ["var", "y"]).any (Value.identical (.int 3))) = true := by
    decide +kernel
  obtain ⟨p, hp, hall⟩ := (Option.any_eq_true _ _).mp hcheck
  simp only [Bool.and_eq_true, beq_iff_eq] at hall
  obtain ⟨⟨⟨hlength, hvisible⟩, hx⟩, hy⟩ := hall
  obtain ⟨b, hdeclared⟩ := List.length_eq_one_iff.mp hlength
  have hvisible : ∀ b ∈ p.rootBlocks, ¬ b.Hides "y" := by simpa using hvisible
  obtain ⟨v, hv, hone⟩ := (Option.any_eq_true _ _).mp hx
  obtain ⟨w, hw, hthree⟩ := (Option.any_eq_true _ _).mp hy
  rw [← Value.eq_of_identical hone] at hv
  rw [← Value.eq_of_identical hthree] at hw
  have hproject := eq_ok_of_toOption hp
  have hroot : FilePath.absolute settingsAndFile.workingDir a.directory = "/p" := by decide +kernel
  obtain ⟨base, automatic, ofSettings, ofCommand, before, hbase, hfiles, hholds, hlast, hworkspace, hvalue⟩ :=
    project_sources hproject
  rw [hroot] at hfiles hlast hworkspace
  exact ⟨p, base, automatic, ofSettings, ofCommand, before, b, hproject, hv, hw, hdeclared, hvisible, hbase, hfiles,
    hholds, hlast, hworkspace, (hvalue "y" b hdeclared hvisible).1⟩

end Arguments

end InfraConfig
