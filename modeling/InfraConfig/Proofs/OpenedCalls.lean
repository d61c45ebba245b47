import InfraConfig.Proofs.StartedCalls
import InfraConfig.Proofs.Views

/-!
# Opened calls

When the modules of a run are loaded, a call is opened for every block that leads to a directory, in the order of
the blocks, unless it is one that the run has been told of. Which directory a block leads to does not depend on
the calls that are opened before.
-/

namespace InfraConfig

namespace ModuleRun

variable {s : Session} {run : Evaluate} {force : Bool} {d : Nat} {start r q mid next : ModuleRun}
  {call : ModuleCall} {a b : Arena} {id : BlockId} {ids : List BlockId} {target : VisitedModule}
  {files : List SourceFile}

/-! ## Targets -/

/-- The directory that a block of a run calls, and the name of the call. -/
structure LeadsTo (s : Session) (r : ModuleRun) (b : Block) (target : VisitedModule) : Prop where
  named : b.label ≠ ""
  name : target.name = b.label
  definition : target.definition = b.localName
  source : ∃ attr source, b.attribute? "source" = some attr ∧ (r.arena.value b attr).text? = some source
    ∧ moduleDirectory? s.installed s.root r.module.path source = some target.path

theorem LeadsTo.unique {b : Block} {other : VisitedModule} (h : LeadsTo s r b target) (k : LeadsTo s r b other) :
    target = other := by
  obtain ⟨attr, source, hattr, hsource, hpath⟩ := h.source
  obtain ⟨attr', source', hattr', hsource', hpath'⟩ := k.source
  obtain rfl := Option.some.inj (hattr.symm.trans hattr')
  obtain rfl := Option.some.inj (hsource.symm.trans hsource')
  rw [VisitedModule.mk.injEq]
  exact ⟨h.name.trans k.name.symm, Option.some.inj (hpath.symm.trans hpath'), h.definition.trans k.definition.symm⟩

theorem callTarget?_eq_some_iff {b : Block} :
    r.callTarget? s b = some target ↔ LeadsTo s r b target ∧ target ∉ r.visited := by
  simp only [callTarget?, Option.bind_eq_bind, Option.bind_eq_some_iff]
  constructor
  · rintro ⟨attr, hattr, source, hsource, path, hpath, h⟩
    split at h
    · cases h
    · next hnot =>
      obtain rfl := Option.some.inj h
      simp only [Bool.or_eq_true, not_or, String.isEmpty_iff, List.contains_iff_mem] at hnot
      exact ⟨⟨hnot.1, rfl, rfl, attr, source, hattr, hsource, hpath⟩, hnot.2⟩
  · rintro ⟨⟨hnamed, hname, hdefinition, attr, source, hattr, hsource, hpath⟩, hvisited⟩
    obtain ⟨name, path, definition⟩ := target
    obtain rfl : name = b.label := hname
    obtain rfl : definition = b.localName := hdefinition
    refine ⟨attr, hattr, source, hsource, path, hpath, ?_⟩
    rw [if_neg]
    simp only [Bool.or_eq_true, not_or, String.isEmpty_iff, List.contains_iff_mem]
    exact ⟨hnamed, hvisited⟩

theorem opening?_eq_some_iff : r.opening? s id = some (target, files) ↔
    LeadsTo s r (r.arena.block id) target ∧ target ∉ r.visited
      ∧ s.loader.loadDirectory target.path s.stopOnError = .ok files := by
  rw [opening?, ← and_assoc, ← callTarget?_eq_some_iff]
  simp only [Option.bind_eq_some_iff, Option.map_eq_some_iff, Prod.mk.injEq]
  constructor
  · rintro ⟨_, htarget, _, hfiles, rfl, rfl⟩
    exact ⟨htarget, eq_ok_of_toOption hfiles⟩
  · rintro ⟨htarget, hfiles⟩
    exact ⟨target, htarget, files, by rw [hfiles]; rfl, rfl, rfl⟩

/-! ## Opening one call -/

/-- A later state in which the module of a run is still the same. -/
structure Beneath (r q : ModuleRun) : Prop where
  view : Arena.SameView r.root r.arena q.arena
  well : q.arena.WellFormed
  path : q.module.path = r.module.path
  visited : q.visited = r.visited

theorem Beneath.opening?_eq (h : Beneath r q) (hs : r.Sound) (hid : r.arena.Has r.root id) :
    q.opening? s id = r.opening? s id := by
  have htarget : q.callTarget? s (q.arena.block id) = r.callTarget? s (r.arena.block id) := by
    rw [h.view.blocks id hid.1 hid.2, callTarget?, callTarget?, h.path, h.visited]
    simp only [h.view.value hs.well h.well hid.1 hid.2]
  rw [opening?, opening?, htarget]

theorem beneath_of_changes (hs : r.Sound) (hchanges : Arena.Changes (fun t => t ≠ r.root) r.arena q.arena)
    (hcontents : q.arena.files.contents = r.arena.files.contents) (hpath : q.module.path = r.module.path)
    (hvisited : q.visited = r.visited) : Beneath r q := by
  have hown {t : ScopeId} (ht : t = r.root) : ¬ t ≠ r.root := fun hne => hne ht
  exact ⟨⟨fun id hid _ => hchanges.parent?_eq hid, fun id hid htop => hchanges.bindings_eq hs.well hid (hown htop),
    fun id hid htop => hchanges.block_eq hs.well hid (hown htop), hchanges.base_eq, hcontents⟩,
    hchanges.wellFormed hs.well, hpath, hvisited⟩

theorem beneath_noting (hs : r.Sound) (reads : List (Block × List Attribute)) : Beneath r (r.noting reads) := by
  obtain ⟨wanted, hnoted⟩ := exists_noting_eq r reads
  rw [hnoted]
  exact beneath_of_changes hs (.single (.record _ _ rfl)) rfl rfl rfl

theorem beneath_opens (hs : r.Sound) (id : BlockId) (target : VisitedModule) (files : List SourceFile) :
    Beneath r (r.opens id target files) := by
  have hnew : Arena.Changes (fun t => t ≠ r.root) r.arena r.arena.newRoot.2 := .single .newRoot
  have hwell := hnew.wellFormed hs.well
  have htop : r.arena.newRoot.2.IsTop r.arena.scopes.size := by
    refine ⟨by simp, ?_⟩
    rw [Arena.scopes_newRoot, Scopes.parent?_push, if_pos rfl]
  have hapart : r.arena.scopes.size ≠ r.root := (Nat.ne_of_lt hs.root_lt).symm
  obtain ⟨hinsert, -⟩ := Arena.changes_insertFiles (P := fun t => t ≠ r.root) (some id) files hwell htop.1
    (htop.root_eq.symm ▸ hapart)
  have hfiles := (Arena.extends_insertFiles r.arena.scopes.size (some id) files r.arena.newRoot.2).files
  exact beneath_of_changes hs (hnew.trans hinsert) (congrArg FileTable.contents hfiles) rfl rfl

theorem Beneath.trans (h : Beneath r q) (k : Beneath q next) (hs : r.Sound) (hroot : q.root = r.root)
    (hqr : Arena.Changes (fun _ => True) r.arena q.arena) : Beneath r next := by
  have hhome {j : BlockId} (hj : r.arena.Has r.root j) : q.arena.Has q.root j := hroot ▸ hj.changes hs.well hqr
  have hscope {j : ScopeId} (hj : j < r.arena.scopes.size) (htop : r.arena.scopes.root j = r.root) :
      j < q.arena.scopes.size ∧ q.arena.scopes.root j = q.root :=
    ⟨Nat.lt_of_lt_of_le hj hqr.size_scopes_le, (hqr.root_eq hs.well hj).trans (htop.trans hroot.symm)⟩
  refine ⟨⟨fun j hj htop => ?_, fun j hj htop => ?_, fun j hj htop => ?_, k.view.base.trans h.view.base,
    k.view.contents.trans h.view.contents⟩, k.well, k.path.trans h.path, k.visited.trans h.visited⟩
  · exact (k.view.parents j (hscope hj htop).1 (hscope hj htop).2).trans (h.view.parents j hj htop)
  · exact (k.view.bindings j (hscope hj htop).1 (hscope hj htop).2).trans (h.view.bindings j hj htop)
  · exact (k.view.blocks j (hhome ⟨hj, htop⟩).1 (hhome ⟨hj, htop⟩).2).trans (h.view.blocks j hj htop)

/-- A call that has been opened for a block since a state. -/
structure OpenedFor (s : Session) (r next : ModuleRun) (id : BlockId) (call : ModuleCall) : Prop where
  block : call.block = id
  isOpen : call.result = none
  opening : ∃ target files, r.opening? s id = some (target, files) ∧ call.name = target.name
    ∧ call.path = target.path ∧ ∃ a root, call.blocks = (Arena.insertFiles root (some id) a files).1
      ∧ (Arena.insertFiles root (some id) a files).2.KeepsText next.arena

theorem OpenedFor.later (h : OpenedFor s r mid id call) (hkept : mid.arena.KeepsText next.arena) :
    OpenedFor s r next id call := by
  obtain ⟨target, files, hopening, hname, hpath, a, root, hblocks, hinserted⟩ := h.opening
  exact ⟨h.block, h.isOpen, target, files, hopening, hname, hpath, a, root, hblocks, hinserted.trans hkept⟩

theorem OpenedFor.earlier (h : OpenedFor s mid next id call) (hsame : mid.opening? s id = r.opening? s id) :
    OpenedFor s r next id call :=
  ⟨h.block, h.isOpen, hsame ▸ h.opening⟩

theorem loadCall_opened (hs : r.Sound) (h : r.loadCall s id = .ok next) :
    Beneath r next ∧ ((r.opening? s id).isSome = false ∧ next.calls = r.calls
      ∨ (r.opening? s id).isSome = true ∧ ∃ call, next.calls = r.calls ++ [call] ∧ OpenedFor s r next id call) := by
  obtain ⟨reads, ⟨hnone, rfl⟩ | ⟨target, files, hopening, rfl⟩⟩ := loadCall_cases h
  · exact ⟨beneath_noting hs reads, .inl ⟨by rw [hnone]; rfl, rfl⟩⟩
  · have hnoted := Rebinds.noting r reads
    have hopened := beneath_opens (hnoted.sound hs) id target files
    refine ⟨(beneath_noting hs reads).trans hopened hs hnoted.root (hnoted.changes hs.top _ trivial),
      .inr ⟨by rw [hopening]; rfl, _, rfl, rfl, rfl, target, files, hopening, rfl, rfl, _, _, rfl, .refl _⟩⟩

/-- The calls that are opened for some blocks. -/
theorem loadCalls_opened (hs : r.Sound) (hids : ∀ id ∈ ids, r.arena.Has r.root id)
    (h : r.loadCalls s ids = .ok next) : Beneath r next ∧ ∃ opened, next.calls = r.calls ++ opened
      ∧ List.Forall₂ (OpenedFor s r next) (ids.filter fun id => (r.opening? s id).isSome) opened := by
  induction ids generalizing r with
  | nil =>
    obtain rfl := Except.ok.inj h
    exact ⟨beneath_of_changes hs .refl rfl rfl rfl, [], (List.append_nil _).symm, .nil⟩
  | cons id ids ih =>
    obtain ⟨mid, hmid, hothers⟩ := loadCalls_cons_eq_ok_iff.mp h
    have hid := hids id List.mem_cons_self
    have hrest : ∀ j ∈ ids, r.arena.Has r.root j := fun j hj => hids j (List.mem_cons_of_mem id hj)
    have hadvances := loadCall_advances hs (.all r) hid hmid
    obtain ⟨hfirst, hcalls⟩ := loadCall_opened hs hmid
    obtain ⟨hlater, opened, hopened, hmatch⟩ := ih hadvances.sound
      (fun j hj => hadvances.root.symm ▸ (hrest j hj).changes hs.well hadvances.changes) hothers
    have hsame : (ids.filter fun j => (mid.opening? s j).isSome) = ids.filter fun j => (r.opening? s j).isSome :=
      List.filter_congr fun j hj => by rw [hfirst.opening?_eq hs (hrest j hj)]
    have hmatch' : List.Forall₂ (OpenedFor s r next) (ids.filter fun j => (r.opening? s j).isSome) opened := by
      rw [hsame] at hmatch
      have hhas : ∀ j ∈ ids.filter fun j => (r.opening? s j).isSome, r.arena.Has r.root j :=
        fun j hj => hrest j (List.mem_filter.mp hj).1
      refine ((List.forall₂_and_left _ _).mpr ⟨hhas, hmatch⟩).imp fun j call hone => ?_
      exact hone.2.earlier (hfirst.opening?_eq hs hone.1)
    refine ⟨hfirst.trans hlater hs hadvances.root hadvances.changes, ?_⟩
    rcases hcalls with ⟨hnone, hcalls⟩ | ⟨hsome, call, hcalls, hcall⟩
    · refine ⟨opened, by rw [hopened, hcalls], ?_⟩
      rw [List.filter_cons, if_neg (by simp [hnone])]
      exact hmatch'
    · refine ⟨call :: opened, by rw [hopened, hcalls, List.append_assoc, List.singleton_append], ?_⟩
      rw [List.filter_cons, if_pos hsome]
      exact .cons (hcall.later (loadCalls_keepsText hothers)) hmatch'

/-! ## Loading all modules -/

theorem stands_expand (hs : r.Sound) (keep : List BlockId) {ids : List BlockId} (hids : ids ⊆ r.module.blocks) :
    ∀ made ∈ (r.expand keep ids).1, ∃ id ∈ ids,
      Arena.StandsFor r.arena (r.expand keep ids).2.arena id made :=
  Arena.standsFor_rounds r.root r.arena fun id hid => (hs.blocks id (hids hid)).1

/-- What is known of the blocks that are called when modules are loaded. -/
theorem Sound.expandCalls (hs : r.Sound) : Advances (fun _ => True) r r.expandCalls.2
    ∧ ∀ made ∈ r.expandCalls.1, r.expandCalls.2.arena.Has r.expandCalls.2.root made
      ∧ ∃ id ∈ r.module.blocks, (r.arena.block id).kind = .module
        ∧ Arena.StandsFor r.arena r.expandCalls.2.arena id made := by
  let isCall (id : BlockId) : Bool := (r.arena.block id).kind == .module
  have hsub (p : BlockId → Bool) : r.module.blocks.filter p ⊆ r.module.blocks :=
    fun id hid => (List.mem_filter.mp hid).1
  obtain ⟨hexpand, hmade⟩ := expand_advances hs (.all r) (hsub (not ∘ isCall)) (hsub isCall)
  have hstands := stands_expand hs (r.module.blocks.filter (not ∘ isCall)) (hsub isCall)
  rw [ModuleRun.expandCalls, List.partition_eq_filter_filter]
  refine ⟨hexpand, fun made hin => ⟨hexpand.root.symm ▸ hmade made hin, ?_⟩⟩
  obtain ⟨id, hid, hone⟩ := hstands made hin
  obtain ⟨hmem, hkind⟩ := List.mem_filter.mp hid
  exact ⟨id, hmem, eq_of_beq hkind, hone⟩

theorem expandCalls_keepsText (r : ModuleRun) : r.arena.KeepsText r.expandCalls.2.arena :=
  expand_keepsText r _ _

/-- A call that has been opened is called by a module block, and none that the run has been told of. -/
theorem OpenedFor.calling (h : OpenedFor s r next id call) (hlt : id < r.arena.blocks.size)
    (hkind : (r.arena.block id).labels ≠ [] → (r.arena.block id).kind = .module)
    (hkept : r.arena.KeepsText next.arena) : Calling next.arena call ∧ visit next.arena call ∉ r.visited := by
  obtain ⟨target, files, hopening, hname, hpath, -⟩ := h.opening
  obtain ⟨hleads, hvisited, -⟩ := opening?_eq_some_iff.mp hopening
  obtain rfl := h.block
  have hcalling : Calling r.arena call := by
    refine ⟨hlt, hkind (labels_ne_nil_of_label hleads.named), ?_, ?_⟩
    · rw [hname, hleads.name]
    · rw [hname, hleads.name]
      exact hleads.named
  obtain ⟨hnext, hvisit⟩ := hcalling.keeps hkept
  have htarget : visit r.arena call = target := by
    rw [visit, hname, hpath, ← hleads.definition]
  exact ⟨hnext, by rwa [hvisit, htarget]⟩

theorem loadModules_opened (hs : r.Sound) (h : r.loadModules s = .ok next) :
    Beneath r.expandCalls.2 next ∧ ∃ opened, next.calls = r.calls ++ opened
      ∧ List.Forall₂ (OpenedFor s r.expandCalls.2 next)
          (r.expandCalls.1.filter fun id => (r.expandCalls.2.opening? s id).isSome) opened
      ∧ ∀ call ∈ opened, Calling next.arena call ∧ visit next.arena call ∉ r.visited := by
  obtain ⟨hexpand, hmade⟩ := hs.expandCalls
  rw [loadModules_eq] at h
  obtain ⟨hbeneath, opened, hcalls, hmatch⟩ := loadCalls_opened hexpand.sound (fun id hid => (hmade id hid).1) h
  refine ⟨hbeneath, opened, hcalls, hmatch, fun call hcall => ?_⟩
  obtain ⟨i, hi, rfl⟩ := List.getElem_of_mem hcall
  have hone := hmatch.get (hmatch.length_eq ▸ hi) hi
  obtain ⟨hhas, id, hid, hkind, hstands⟩ :=
    hmade _ (List.mem_filter.mp (List.get_mem _ ⟨i, hmatch.length_eq ▸ hi⟩)).1
  refine hone.calling hhas.1 (fun hlabels => ?_) (loadCalls_keepsText h)
  rcases hstands.names (hs.blocks id hid).1 (expandCalls_keepsText r) hlabels with hsame | ⟨key, -, hsame⟩
  · exact (Block.kind_of_names hsame).trans hkind
  · exact (congrArg Prod.fst hsame).trans hkind

/-! ## The record of an evaluator -/

/-- What an evaluator knows of its calls: those that are finished, each once, are what it has remembered since its
beginning, and none of its calls is one that it had been told of. -/
structure Tracks (start r : ModuleRun) : Prop where
  calling : ∀ call ∈ r.calls, Calling r.arena call
  fresh : ∀ call ∈ r.calls, visit r.arena call ∉ start.visited
  record : ∃ started, r.visited = start.visited ++ started.map (visit r.arena)
    ∧ (r.calls.filter ModuleCall.isFinished).Perm started

theorem Tracks.ofSame (h : Tracks start r) (hkept : r.arena.KeepsText next.arena) (hcalls : next.calls = r.calls)
    (hvisited : next.visited = r.visited) : Tracks start next := by
  refine ⟨fun call hcall => ?_, fun call hcall => ?_, ?_⟩
  · exact ((h.calling call (hcalls ▸ hcall)).keeps hkept).1
  · rw [((h.calling call (hcalls ▸ hcall)).keeps hkept).2]
    exact h.fresh call (hcalls ▸ hcall)
  · obtain ⟨started, hlog, hperm⟩ := h.record
    have hcalling : ∀ call ∈ started, Calling r.arena call :=
      fun call hcall => h.calling call (List.mem_filter.mp (hperm.symm.subset hcall)).1
    exact ⟨started, by rw [hvisited, hlog, visits_eq hcalling hkept], hcalls ▸ hperm⟩

theorem Tracks.evaluateCalls (h : Tracks start r) (hrun : KeepsTexts run)
    (hcalls : r.evaluateCalls s run force = .ok next) : Tracks start next := by
  have hkept := evaluateCalls_keepsText hrun hcalls
  obtain ⟨⟨more, hrecords⟩, hlater⟩ := evaluateCalls_records hrun h.calling hcalls
  obtain ⟨started, hlog, hperm⟩ := h.record
  have hcalling : ∀ call ∈ started, Calling r.arena call :=
    fun call hcall => h.calling call (List.mem_filter.mp (hperm.symm.subset hcall)).1
  refine ⟨fun later hmem => ?_, fun later hmem => ?_, started ++ more, ?_, ?_⟩
  · obtain ⟨call, hcall, hone⟩ := exists_of_mem_later hlater hmem
    exact hone.calling ((h.calling call hcall).keeps hkept).1
  · obtain ⟨call, hcall, hone⟩ := exists_of_mem_later hlater hmem
    rw [hone.visit_eq, ((h.calling call hcall).keeps hkept).2]
    exact h.fresh call hcall
  · rw [hrecords.visited, hlog, List.map_append, visits_eq hcalling hkept, List.append_assoc]
  · exact hrecords.perm.trans (hperm.append_right more)

theorem Tracks.loadModules (h : Tracks start r) (hs : r.Sound) (hload : r.loadModules s = .ok next) :
    Tracks start next := by
  have hkept := loadModules_keepsText hload
  obtain ⟨hbeneath, opened, hcalls, hmatch, hopened⟩ := loadModules_opened hs hload
  obtain ⟨started, hlog, hperm⟩ := h.record
  have hvisited : next.visited = r.visited := hbeneath.visited
  have hopen : opened.filter ModuleCall.isFinished = [] := by
    rw [List.filter_eq_nil_iff]
    intro call hcall
    obtain ⟨i, hi, rfl⟩ := List.getElem_of_mem hcall
    have hone := hmatch.get (hmatch.length_eq ▸ hi) hi
    simp only [List.get_eq_getElem] at hone
    simp [ModuleCall.isFinished, hone.isOpen]
  have hcalling : ∀ call ∈ started, Calling r.arena call :=
    fun call hcall => h.calling call (List.mem_filter.mp (hperm.symm.subset hcall)).1
  refine ⟨fun call hcall => ?_, fun call hcall => ?_, started, ?_, ?_⟩
  · rcases List.mem_append.mp (hcalls ▸ hcall) with hcall | hcall
    · exact ((h.calling call hcall).keeps hkept).1
    · exact (hopened call hcall).1
  · rcases List.mem_append.mp (hcalls ▸ hcall) with hcall | hcall
    · rw [((h.calling call hcall).keeps hkept).2]
      exact h.fresh call hcall
    · intro hmem
      apply (hopened call hcall).2
      rw [hlog]
      exact List.mem_append_left _ hmem
  · rw [hvisited, hlog, visits_eq hcalling hkept]
  · rw [hcalls, List.filter_append, hopen, List.append_nil]
    exact hperm

theorem Continues.tracks (hrun : Contained run) (htexts : KeepsTexts run) (hs : start.Sound)
    (hcalls : start.calls = []) (h : Continues s run start r) : Tracks start r := by
  induction h with
  | start => exact ⟨by simp [hcalls], by simp [hcalls], [], by simp, by simp [hcalls]⟩
  | @bind r h ih =>
    have hbinds := Rebinds.bindBlocks r
    exact ih.ofSame (.ofBlocks hbinds.blocks) hbinds.calls hbinds.visited
  | calls h force hcalls ih => exact ih.evaluateCalls htexts hcalls
  | read h ih => exact ih.ofSame (.ofBlocks rfl) rfl rfl
  | load h hload ih => exact ih.loadModules (h.sound hrun hs) hload
  | expand h ih => exact ih.ofSame (expandBlocks_keepsText _) rfl rfl

end ModuleRun

end InfraConfig
