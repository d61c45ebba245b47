import InfraConfig.Proofs.AskingSteps
import InfraConfig.Proofs.LoadedModules

/-!
# What is kept of files

Whatever is preserved when blocks ask for files, when directories are loaded and when the wanted files are read
holds at every moment of an evaluation, in whichever evaluator.
-/

namespace InfraConfig

namespace Arena

/-- The arena in which all files that were wanted have been read. -/
def readAll (l : Loader) (a : Arena) : Arena :=
  { a with files := a.files.takeWanted.2 }.readFiles l a.files.wanted

/-- The arena with the blocks of a directory, in a scope of their own. -/
def loadAll (a : Arena) (caller : Option BlockId) (files : List SourceFile) : Arena :=
  (a.newRoot.2.insertFiles a.newRoot.1 caller files).2

theorem mayAsk_of_attributes {a : Arena} {p : String} {id : BlockId}
    (h : p ∈ (a.block id).attributes.flatMap (a.asked (a.block id))) : a.MayAsk p := by
  obtain ⟨attr, hattr, hp⟩ := List.mem_flatMap.mp h
  obtain ⟨hpending, hcalls⟩ := mem_asked hp
  exact ⟨hpending, attr, .of_mem hattr, hcalls⟩

theorem mayAsk_of_askedInside {a : Arena} {p : String} {depth : Nat} {id : BlockId}
    (h : p ∈ a.askedInside depth (a.block id)) : a.MayAsk p := by
  induction depth generalizing id with
  | zero => exact mayAsk_of_attributes h
  | succ depth ih =>
    rw [askedInside] at h
    rcases List.mem_append.mp h with h | h
    · exact mayAsk_of_attributes h
    · obtain ⟨block, hblock, hp⟩ := List.mem_flatMap.mp h
      obtain ⟨child, -, rfl⟩ := List.mem_map.mp hblock
      exact ih hp

end Arena

namespace ModuleRun

open Arena (Demands)

variable {s : Session} {run : Evaluate} {force : Bool} {d : Nat} {start r mid next : ModuleRun}
  {call later : ModuleCall} {calls done : List ModuleCall} {frames : List Frame} {inputs : Entries Value}
  {sources : List SourceFile} {modules : List ModuleInstance} {id : BlockId} {attr : Attribute}

/-! ## Reading -/

/-- The arena of a run in which everything that its blocks ask for is wanted. -/
def askAll (r : ModuleRun) : Arena :=
  let asked := (r.module.blocksIn r.arena).flatMap (r.arena.askedInside r.arena.blocks.size)
  { r.arena with files := r.arena.files.want asked }

/-- The paths that a run gives to the loader when it reads files. -/
def requests (r : ModuleRun) : List String :=
  r.askAll.files.wanted

theorem readWanted_eq (s : Session) (r : ModuleRun) :
    r.readWanted s = (!r.requests.isEmpty, { r with arena := r.askAll.readAll s.loader }) := rfl

theorem demands_askAll (r : ModuleRun) : Demands r.arena r.askAll := by
  refine ⟨fun attr => Iff.rfl, _, rfl, fun p hp => ?_⟩
  obtain ⟨block, hblock, hp⟩ := List.mem_flatMap.mp hp
  obtain ⟨id, -, rfl⟩ := List.mem_map.mp hblock
  exact Arena.mayAsk_of_askedInside hp

/-! ## Binding -/

theorem demands_noting (r : ModuleRun) {reads : List (Block × List Attribute)}
    (h : ∀ read ∈ reads, ∀ attr ∈ read.2, r.arena.HasAttribute attr) : Demands r.arena (r.noting reads).arena := by
  rw [ModuleRun.noting]
  refine List.foldlRecOn (motive := fun a : Arena => Demands r.arena a) reads _ (.refl _) fun a ha read hread => ?_
  exact ha.trans (.noting _ _ fun attr hattr => (ha.attributes attr).mpr (h read hread attr hattr))

theorem hasAttribute_of_blocksOf {kind : BlockKind} {b : Block} (hb : b ∈ r.blocksOf kind)
    (h : attr ∈ b.attributes) : r.arena.HasAttribute attr := by
  obtain ⟨id, -, rfl⟩ := List.mem_map.mp (List.mem_filter.mp hb).1
  exact .of_mem h

/-- The blocks of a kind, each with some of its attributes. -/
theorem demands_notingBlocks (r : ModuleRun) (kind : BlockKind) (blocks : List Block) (reads : Block → List Attribute)
    (hsub : blocks ⊆ r.blocksOf kind) (h : ∀ b, reads b ⊆ b.attributes) :
    Demands r.arena (r.noting (blocks.map fun b => (b, reads b))).arena := by
  refine demands_noting r fun read hread attr hattr => ?_
  obtain ⟨b, hb, rfl⟩ := List.mem_map.mp hread
  exact hasAttribute_of_blocksOf (hsub hb) (h b hattr)

theorem attribute?_subset (b : Block) (name : String) : (b.attribute? name).toList ⊆ b.attributes := by
  intro attr hattr
  exact List.mem_of_find?_eq_some (Option.mem_toList.mp hattr)

theorem demands_bindVariables (r : ModuleRun) : Demands r.arena r.bindVariables.arena := by
  refine (demands_notingBlocks r .variable _ r.variableReads (List.Subset.refl _) fun b => ?_).trans (.ofBlocks rfl rfl)
  rw [variableReads]
  split
  · exact List.nil_subset _
  · split
    · next attr hattr =>
      have hmem := attribute?_subset b "default"
      rwa [hattr] at hmem
    · exact attribute?_subset b _

theorem demands_bindLocals (r : ModuleRun) : Demands r.arena r.bindLocals.arena :=
  (demands_notingBlocks r .locals _ _ (List.Subset.refl _) fun _ => List.Subset.refl _).trans (.ofBlocks rfl rfl)

theorem demands_bindProviders (r : ModuleRun) : Demands r.arena r.bindProviders.arena :=
  (demands_notingBlocks r .provider _ _ (List.Subset.refl _) fun _ => List.Subset.refl _).trans (.ofBlocks rfl rfl)

theorem demands_bindInstances (kind : BlockKind) (above : ValuePath) (r : ModuleRun) :
    Demands r.arena (r.bindInstances kind above).arena := by
  rw [bindInstances]
  have hnoted := demands_notingBlocks r kind ((r.blocksOf kind).filter fun b => 2 ≤ b.labels.length) Block.attributes
    (List.filter_subset_self _) fun b => List.Subset.refl b.attributes
  refine List.foldlRecOn (motive := fun next : ModuleRun => Demands r.arena next.arena) _ _ hnoted
    fun next hnext group _ => ?_
  exact hnext.trans (.ofBlocks rfl rfl)

theorem demands_bindOutputs (r : ModuleRun) : Demands r.arena r.bindOutputs.arena :=
  (demands_notingBlocks r .output _ _ (List.Subset.refl _) fun b => attribute?_subset b "value").trans (.ofBlocks rfl rfl)

theorem demands_bindBlocks (r : ModuleRun) : Demands r.arena r.bindBlocks.arena :=
  (((((demands_bindVariables r).trans (demands_bindLocals _)).trans (demands_bindProviders _)).trans
    (demands_bindInstances _ _ _)).trans (demands_bindInstances _ _ _)).trans (demands_bindOutputs _)

theorem demands_bindOutputsOfCalls (r : ModuleRun) : Demands r.arena r.bindOutputsOfCalls.arena := by
  rw [bindOutputsOfCalls]
  dsimp only
  split
  · exact .refl _
  · exact .ofBlocks rfl rfl

/-! ## Beginnings and expansion -/

theorem demands_start (s : Session) (a : Arena) (module : ModuleInstance) (root : ScopeId) (inputs : Entries Value)
    (visited : List VisitedModule) : Demands a (ModuleRun.start s a module root inputs visited).arena := by
  have hbinds : Demands a ((surroundings s module.path).foldl (fun a w => a.bind root w.2 w.1) a) :=
    .foldl (fun b (w : ValuePath × Value) => .ofBlocks (b := b.bind root w.2 w.1) rfl rfl) _ _
  refine hbinds.trans (.foldl (fun b id => ?_) _ _)
  have hnew : Demands b (b.newChild root).2 := .ofBlocks rfl rfl
  exact hnew.trans (Arena.demands_rescopeUpTo _ _ _ _)

theorem demands_rootRun (s : Session) (inputs : Entries Value) (sources : List SourceFile) :
    Demands ((Arena.empty s.root).loadAll none sources) (Project.rootRun s inputs sources).arena :=
  demands_start s _ _ _ _ _

theorem demands_notingInputs (r : ModuleRun) (id : BlockId) :
    Demands r.arena (r.noting [(r.arena.block id, inputAttributes (r.arena.block id))]).arena := by
  refine demands_noting r fun read hread attr hattr => ?_
  rw [List.mem_singleton.mp hread] at hattr
  exact .of_mem (List.mem_of_mem_filter hattr)

theorem demands_started (s : Session) (r : ModuleRun) (call : ModuleCall) :
    Demands r.arena (r.started s call).arena :=
  (demands_notingInputs r call.block).trans (demands_start s _ _ _ _ _)

theorem demands_expand (r : ModuleRun) (keep ids : List BlockId) : Demands r.arena (r.expand keep ids).2.arena :=
  (Arena.demands_expandCounts _ _ _).trans (Arena.demands_expandForEach _ _ _)

theorem demands_rendered (r : ModuleRun) (ids : List BlockId) : Demands r.arena
    (ids.foldl (fun a id => a.expandDynamic r.root id) (r.expand [] r.module.blocks).2.arena) :=
  (demands_expand r _ _).trans (.foldl (fun a id => Arena.demands_expandDynamicUpTo _ _ a id) _ _)

theorem demands_expandBlocks (r : ModuleRun) : Demands r.arena r.expandBlocks.arena :=
  demands_rendered r _

/-- The source of a call is noted before its directory is loaded. -/
theorem demands_notingSource (r : ModuleRun) (id : BlockId) : Demands r.arena
    (if (r.arena.block id).label.isEmpty then r
      else r.noting [(r.arena.block id, ((r.arena.block id).attribute? "source").toList)]).arena := by
  split
  · exact .refl _
  · refine demands_noting r fun read hread attr hattr => ?_
    rw [List.mem_singleton.mp hread] at hattr
    exact .of_mem (attribute?_subset _ _ hattr)

/-! ## What every step preserves -/

/-- A property of arenas that all steps of a run preserve. -/
structure Preserved (s : Session) (P : Arena → Prop) : Prop where
  demands : ∀ {a b}, Demands a b → P a → P b
  load : ∀ {a dir files} (caller : Option BlockId), s.loader.loadDirectory dir s.stopOnError = .ok files → P a →
    P (a.loadAll caller files)
  read : ∀ {a}, P a → P (a.readAll s.loader)

namespace Preserved

variable {P : Arena → Prop}

/-- An evaluation that preserves a property. -/
def By (P : Arena → Prop) (run : Evaluate) : Prop :=
  ∀ r modules done, P r.arena → run r = .ok (modules, done) → P done.arena

theorem readWanted (h : Preserved s P) (hr : P r.arena) : P (r.readWanted s).2.arena :=
  h.read (h.demands (demands_askAll r) hr)

theorem evaluateCall (h : Preserved s P) (hrun : By P run)
    (hcall : r.evaluateCall s run force call = .ok (later, next)) (hr : P r.arena) : P next.arena := by
  rw [ModuleRun.evaluateCall] at hcall
  split at hcall
  · obtain ⟨-, rfl⟩ := Prod.mk.inj (Except.ok.inj hcall)
    exact hr
  · dsimp only at hcall
    split at hcall
    · split at hcall
      · cases hcall
      · next modules child hchild =>
        obtain ⟨-, rfl⟩ := Prod.mk.inj (Except.ok.inj hcall)
        exact hrun _ modules child (h.demands (demands_started s r call) hr) hchild
    · obtain ⟨-, rfl⟩ := Prod.mk.inj (Except.ok.inj hcall)
      exact h.demands (demands_notingInputs r call.block) hr

theorem evaluateEach (h : Preserved s P) (hrun : By P run)
    (heach : r.evaluateEach s run force calls = .ok (done, next)) (hr : P r.arena) : P next.arena := by
  induction calls generalizing r done with
  | nil =>
    obtain ⟨-, rfl⟩ := Prod.mk.inj (Except.ok.inj heach)
    exact hr
  | cons call calls ih =>
    obtain ⟨later, mid, others, hcall, hrest, -⟩ := evaluateEach_cons_eq_ok_iff.mp heach
    exact ih hrest (h.evaluateCall hrun hcall hr)

theorem evaluateCalls (h : Preserved s P) (hrun : By P run) (hcalls : r.evaluateCalls s run force = .ok next)
    (hr : P r.arena) : P next.arena := by
  obtain ⟨calls, mid, heach, rfl⟩ := evaluateCalls_eq_ok_iff.mp hcalls
  have hmid := h.evaluateEach hrun heach hr
  exact h.demands (demands_bindOutputsOfCalls { mid with calls }) hmid

theorem loadCall (h : Preserved s P) (hload : r.loadCall s id = .ok next) (hr : P r.arena) : P next.arena := by
  have hnoted := h.demands (demands_notingSource r id) hr
  rw [ModuleRun.loadCall] at hload
  dsimp only at hload
  split at hload
  · exact Except.ok.inj hload ▸ hnoted
  · split at hload
    · split at hload
      · cases hload
      · exact Except.ok.inj hload ▸ hnoted
    · next files hfiles => exact Except.ok.inj hload ▸ h.load (some id) hfiles hnoted

theorem loadCalls (h : Preserved s P) {ids : List BlockId} (hload : r.loadCalls s ids = .ok next) (hr : P r.arena) :
    P next.arena := by
  induction ids generalizing r with
  | nil => exact Except.ok.inj hload ▸ hr
  | cons id ids ih =>
    obtain ⟨mid, hmid, hrest⟩ := loadCalls_cons_eq_ok_iff.mp hload
    exact ih hrest (h.loadCall hmid hr)

theorem expandCalls (h : Preserved s P) (hr : P r.arena) : P r.expandCalls.2.arena :=
  h.demands (demands_expand r _ _) hr

theorem loadModules (h : Preserved s P) (hload : r.loadModules s = .ok next) (hr : P r.arena) : P next.arena := by
  rw [loadModules_eq] at hload
  exact h.loadCalls hload (h.expandCalls hr)

theorem continues (h : Preserved s P) (hrun : By P run) (hr : Continues s run start r) (hstart : P start.arena) :
    P r.arena := by
  induction hr with
  | start => exact hstart
  | bind _ ih => exact h.demands (demands_bindBlocks _) ih
  | calls _ force hcalls ih => exact h.evaluateCalls hrun hcalls ih
  | read _ ih => exact h.readWanted ih
  | load _ hload ih => exact h.loadModules hload ih
  | expand _ ih => exact h.demands (demands_expandBlocks _) ih

theorem evaluateUpTo (h : Preserved s P) (depth : Nat) : By P (evaluateUpTo s depth) := by
  induction depth with
  | zero => exact fun r modules done _ hrun => by cases hrun
  | succ depth ih => exact fun r modules done hr hrun => h.continues ih (.ofEvaluateWith hrun) hr

section

variable (h : Preserved s P) (hroot : P ((Arena.empty s.root).loadAll none sources))

include h hroot

theorem nested (hstart : Nested s inputs sources d start frames) : P start.arena := by
  induction hstart with
  | root => exact h.demands (demands_rootRun s inputs sources) hroot
  -- A child starts where the calls before it in the round have ended.
  | child _ hr force _ hbefore _ _ ih =>
    have hrun := h.evaluateUpTo
    exact h.demands (demands_started s _ _) (h.evaluateEach (hrun _) hbefore (h.continues (hrun _) hr ih))

theorem state (hstart : Nested s inputs sources d start frames) (hr : Continues s (ModuleRun.evaluateUpTo s d) start r) :
    P r.arena :=
  h.continues (h.evaluateUpTo d) hr (h.nested hroot hstart)

/-- What is preserved holds at every moment, from the beginning of the root module to the end. -/
theorem moment {a : Arena} (hmoment : Moment s inputs sources a modules) : P a := by
  cases hmoment with
  | state hstart hr => exact h.state hroot hstart hr
  | calling hstart hr force _ hbefore => exact h.evaluateEach (h.evaluateUpTo _) hbefore (h.state hroot hstart hr)
  | loading hstart hr _ hbefore => exact h.loadCalls hbefore (h.expandCalls (h.state hroot hstart hr))
  | rendering hstart hr _ => exact h.demands (demands_rendered _ _) (h.state hroot hstart hr)
  | finished hdone => exact h.evaluateUpTo _ _ _ _ (h.demands (demands_rootRun s inputs sources) hroot) hdone

end

end Preserved

end ModuleRun

end InfraConfig
