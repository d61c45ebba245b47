import InfraConfig.Proofs.PlainModules
import InfraConfig.Proofs.RunLaws

/-!
# Evaluating locals

The evaluator never looks at which local reads which. For a module of variables and locals its passes still
end with the values that the locals have when each is evaluated once, after those that it reads, provided
that the passes are as many as the longest chain of locals.
-/

namespace InfraConfig

open Locals

namespace ModuleRun

variable {inputs : Entries Value} {written : List Block} {r : ModuleRun}
variable {around final : Entries Value}

/-- All locals have come to their final values. -/
def AllFinal (final : Entries Value) (written : List Block) (r : ModuleRun) : Prop :=
  ∀ a ∈ declaredLocals written, IsFinal final r.bindings a.name

/-- A run between passes that have not gone wrong. -/
structure OnTheWay (inputs around final : Entries Value) (written : List Block) (r : ModuleRun) : Prop where
  plain : r.Plain inputs written
  underway : Underway around (declaredVariables inputs written) final r.bindings

/-- Passes that are made to the end finish the locals of as many further depths as there are passes; passes
that end before finish all. -/
theorem OnTheWay.converge (hw : IsPlain written)
    (hs : Solution around (declaredVariables inputs written) final (declaredLocals written))
    (s : Session) (run : Evaluate) (n k : Nat) (previous : Option (Entries Value))
    (h : r.OnTheWay inputs around final written) (hk : FinalTo final (declaredLocals written) k r.bindings)
    (hprevious : ∀ p, previous = some p → p = r.bindings
      ∧ ∀ a ∈ declaredLocals written, (r.bindings.getPath? ["local", a.name]).isSome) :
    ∃ after, ModuleRun.converge s run n previous r = .ok after ∧ after.OnTheWay inputs around final written
      ∧ FinalTo final (declaredLocals written) (k + n) after.bindings := by
  induction n generalizing r k previous with
  | zero => exact ⟨r, rfl, h, hk⟩
  | succ n ih =>
    obtain ⟨next, hpass, hplain, hbindings⟩ := h.plain.pass hw s run
    have hnext : next.OnTheWay inputs around final written :=
      ⟨hplain, hbindings ▸ h.underway.pass hs⟩
    rw [ModuleRun.converge, hpass]
    simp only [hplain.readWanted_eq s, Bool.not_false, Bool.true_and]
    split
    · next hagree =>
      cases previous with
      | none => cases hagree
      | some p =>
        obtain ⟨rfl, hbound⟩ := hprevious p rfl
        have hpasses : agree r.bindings next.bindings = true := hagree
        rw [hbindings] at hpasses
        have hall := finalTo_of_agree h.underway hs hbound hpasses (k + n)
        exact ⟨next, rfl, hnext, hbindings ▸ hall.pass h.underway hs⟩
    · have hdeeper : FinalTo final (declaredLocals written) (k + 1) next.bindings :=
        hbindings ▸ hk.pass h.underway hs
      have hbound : ∀ a ∈ declaredLocals written, (next.bindings.getPath? ["local", a.name]).isSome := by
        intro a ha
        rw [hbindings, h.underway.getPath?_pass hs ha]
        rfl
      obtain ⟨after, hafter, hway, hfinal⟩ := ih (k + 1) (some next.bindings) hnext hdeeper
        fun p hp => ⟨(Option.some.inj hp).symm, hbound⟩
      refine ⟨after, hafter, hway, ?_⟩
      rwa [show k + (n + 1) = k + 1 + n by omega]

/-- Passes from nothing finish all locals, if there are enough of them or all were finished before. -/
theorem OnTheWay.settle (hw : IsPlain written)
    (hs : Solution around (declaredVariables inputs written) final (declaredLocals written))
    (s : Session) (run : Evaluate) (hchains : ChainsWithin (declaredLocals written) s.maxPasses)
    (h : r.OnTheWay inputs around final written) :
    ∃ after, r.settle s run = .ok after ∧ after.OnTheWay inputs around final written
      ∧ after.AllFinal final written := by
  have hnone : FinalTo final (declaredLocals written) 0 r.bindings := fun a _ hdepth => hdepth.elim
  obtain ⟨after, hafter, hway, hfinal⟩ :=
    h.converge hw hs s run s.maxPasses 0 none hnone fun p hp => by cases hp
  refine ⟨after, hafter, hway, fun a ha => hfinal a ha ?_⟩
  rw [Nat.zero_add]
  exact depthWithin_of_chainsWithin hchains ha

theorem OnTheWay.evaluateWith (hw : IsPlain written)
    (hs : Solution around (declaredVariables inputs written) final (declaredLocals written))
    (s : Session) (run : Evaluate) (hchains : ChainsWithin (declaredLocals written) s.maxPasses)
    (h : r.OnTheWay inputs around final written) :
    ∃ modules after, ModuleRun.evaluateWith s run r = .ok (modules, after)
      ∧ after.OnTheWay inputs around final written ∧ after.AllFinal final written := by
  obtain ⟨first, hfirst, h1, -⟩ := h.settle hw hs s run hchains
  obtain ⟨second, hsecond, h2, -⟩ := h1.settle hw hs s run hchains
  obtain ⟨third, hthird, h3, hfinal⟩ := h2.settle hw hs s run hchains
  have hforce : third.forceCalls s run = .ok third := by
    rw [forceCalls, h3.plain.calls]
    rfl
  refine ⟨third.modules, third, evaluateWith_eq_ok_iff.mpr ?_, h3, hfinal⟩
  refine ⟨first, first, second, third, hfirst, h1.plain.loadModules_eq hw s, hsecond, ?_, hforce, rfl⟩
  rwa [h2.plain.expandBlocks_eq hw]

/-! ## The root module -/

/-- What a module finds in its scope before the first pass. -/
def surroundingBindings (s : Session) (path : String) : Entries Value :=
  (surroundings s path).foldl (fun es (path, v) => es.setPath v path) []

/-- The bindings among which the locals of the root module are evaluated. -/
def aroundLocals (s : Session) (inputs : Entries Value) (written : List Block) : Entries Value :=
  (surroundingBindings s s.root).put "var" (.object (declaredVariables inputs written))

theorem start_plain {a : Arena} (h : a.Flat) (s : Session) (module : ModuleInstance)
    (inputs : Entries Value) (visited : List VisitedModule) :
    (start s a module 0 inputs visited).Plain inputs (module.blocks.map fun id => (a.block id).bare)
      ∧ (start s a module 0 inputs visited).bindings
        = (surroundings s module.path).foldl (fun es (path, v) => es.setPath v path)
            (a.scopes.bindings 0) := by
  obtain ⟨hflat, hbindings, hblocks⟩ := h.bind_all (surroundings s module.path)
  have hplaced := Arena.Rearranged.foldl (f := fun a id => (a.newChild 0).2.rescope id (a.newChild 0).1)
    module.blocks hflat fun b hb id _ => by
      have hchild := Arena.Rearranged.newChild hb.flat hb.flat.nonempty
      exact hchild.trans (.rescope hchild.flat id (by simp))
  refine ⟨⟨hplaced.flat, rfl, rfl, rfl, ?_⟩, hplaced.bindings.trans hbindings⟩
  rw [ModuleInstance.blocksIn, List.map_map]
  refine List.map_congr_left fun id _ => (hplaced.bare id).trans ?_
  rw [Arena.block, Arena.block, hblocks]

theorem flat_empty (base : String) : (Arena.empty base).newRoot.2.Flat := by
  refine ⟨rfl, Nat.one_pos, fun id hid hz => ?_, List.nodup_nil, fun id => ?_, fun id => ?_, rfl⟩
  · have hone : id < 1 := hid
    exact absurd (Nat.lt_one_iff.mp hone) hz
  · rw [Arena.block_newRoot, Arena.block_of_size_le _ (Nat.zero_le id)]
    exact Nat.one_pos
  · rw [Arena.block_newRoot, Arena.block_of_size_le _ (Nat.zero_le id)]
    exact ⟨by decide, fun attr hattr => absurd hattr List.not_mem_nil⟩

theorem rootRun_plain (s : Session) (inputs : Entries Value) {files : List SourceFile}
    (hquiet : ∀ file ∈ files, BlockTree.AllQuiet file.blocks) :
    (Project.rootRun s inputs files).Plain inputs (writtenBlocks files)
      ∧ (Project.rootRun s inputs files).bindings = surroundingBindings s s.root := by
  have hempty := flat_empty s.root
  obtain ⟨hflat, hbare⟩ := hempty.insertFiles none files hempty.nonempty hquiet
  have hscopes := (Arena.extends_insertFiles 0 none files (Arena.empty s.root).newRoot.2).scopes
  obtain ⟨hplain, hbindings⟩ := start_plain hflat s
    ⟨s.root, s.root, (Arena.insertFiles 0 none (Arena.empty s.root).newRoot.2 files).1, none⟩ inputs []
  refine ⟨hbare ▸ hplain, hbindings.trans ?_⟩
  rw [hscopes]
  rfl

/-- Whatever values the locals have in the end, they are not bound before the first pass. -/
theorem rootRun_onTheWay (s : Session) (inputs final : Entries Value) {files : List SourceFile}
    (hquiet : ∀ file ∈ files, BlockTree.AllQuiet file.blocks) :
    (Project.rootRun s inputs files).OnTheWay inputs
      (aroundLocals s inputs (writtenBlocks files)) final
      (writtenBlocks files) := by
  obtain ⟨hplain, hbindings⟩ := rootRun_plain s inputs hquiet
  refine ⟨hplain, ?_, ?_, .inl ?_, .inl ?_⟩
  · rw [ModuleRun.bindings, hplain.root]
    exact hplain.flat.nodup
  · rintro name (rfl | rfl) <;> simp [hbindings, aroundLocals]
  all_goals
    rw [hbindings]
    rfl

theorem solution_evaluateInOrder {s : Session} {inputs : Entries Value} {written : List Block}
    (hw : IsPlain written) {n : Nat} (hchains : ChainsWithin (declaredLocals written) n)
    {order : List Attribute} (horder : IsDependencyOrder (declaredLocals written) order) :
    Solution (aroundLocals s inputs written) (declaredVariables inputs written)
      (evaluateInOrder (aroundLocals s inputs written) order) (declaredLocals written) := by
  obtain ⟨hperm, hpairs⟩ := horder
  have hmem {a : Attribute} : a ∈ order ↔ a ∈ declaredLocals written := hperm.mem_iff
  have hnodup : (aroundLocals s inputs written).keys.Nodup := by
    refine Entries.nodup_keys_put ?_ _ _
    suffices hs : ∀ (writes : List (ValuePath × Value)) (es : Entries Value), es.keys.Nodup →
        (writes.foldl (fun es (path, v) => es.setPath v path) es).keys.Nodup from
      hs _ [] Entries.nodup_keys_nil
    intro writes
    induction writes with
    | nil => exact fun es h => h
    | cons w writes ih => exact fun es h => ih _ (Entries.nodup_keys_setPath h _ _)
  refine ⟨hnodup, by simp [aroundLocals], Entries.nodup_keys_ofPairs _, hw.distinct, hw.reads,
    nodup_keys_evaluateInOrder order, fun name hname => ?_, fun a ha => ?_⟩
  · have := mem_keys_evaluateInOrder hname
    rwa [(hperm.map Attribute.name).mem_iff] at this
  · refine evaluateInOrder_consistent hnodup ?_ hpairs ?_ ?_ (hmem.mpr ha)
    · exact (hperm.map Attribute.name).nodup_iff.mpr hw.distinct
    · exact fun b hb => not_reads_self hchains (hmem.mp hb)
    · exact fun b hb => hw.reads b (hmem.mp hb)

end ModuleRun

/-- A module of variables and locals ends with the values that its locals have when they are evaluated once
each in any order that respects their dependencies, and there is such an order. -/
theorem evaluate_locals_in_dependency_order (s : Session) (inputs : Entries Value) (files : List SourceFile)
    (hplain : IsPlain (writtenBlocks files)) (hquiet : ∀ file ∈ files, BlockTree.AllQuiet file.blocks)
    (hchains : ChainsWithin (declaredLocals (writtenBlocks files)) s.maxPasses) :
    ∃ modules r,
      ModuleRun.evaluateUpTo s Project.depthLimit (Project.rootRun s inputs files) = .ok (modules, r) ∧
      (∃ order, IsDependencyOrder (declaredLocals (writtenBlocks files)) order) ∧
      ∀ order, IsDependencyOrder (declaredLocals (writtenBlocks files)) order →
        ∀ a ∈ declaredLocals (writtenBlocks files), ∃ v,
          (evaluateInOrder (ModuleRun.aroundLocals s inputs (writtenBlocks files)) order).get? a.name = some v
            ∧ r.arena.scopes.get? r.root ["local", a.name] = some v := by
  obtain ⟨order, horder⟩ := exists_dependencyOrder hchains
  have hstart (final : Entries Value) := ModuleRun.rootRun_onTheWay s inputs final hquiet
  have hdone (order : List Attribute) (horder : IsDependencyOrder _ order) :=
    (hstart _).evaluateWith hplain (ModuleRun.solution_evaluateInOrder hplain hchains horder) s
      (ModuleRun.evaluateUpTo s 999) hchains
  obtain ⟨modules, r, hrun, -, -⟩ := hdone order horder
  -- All orders are orders of one and the same run.
  refine ⟨modules, r, hrun, ⟨order, horder⟩, fun order horder a ha => ?_⟩
  obtain ⟨modules', r', hrun', hway, hfinal⟩ := hdone order horder
  obtain ⟨-, rfl⟩ := Prod.mk.inj (Except.ok.inj (hrun.symm.trans hrun'))
  have hsome : ((evaluateInOrder (ModuleRun.aroundLocals s inputs (writtenBlocks files)) order).get?
      a.name).isSome := isSome_get?_evaluateInOrder (horder.1.mem_iff.mpr ha)
  obtain ⟨v, hv⟩ := Option.isSome_iff_exists.mp hsome
  refine ⟨v, hv, ?_⟩
  have hbound := hfinal a ha
  rw [IsFinal, hv, ModuleRun.bindings, hway.plain.root] at hbound
  rw [hway.plain.root, Scopes.get?, Scopes.chain_of_root hway.plain.flat.top]
  simpa using hbound

/-- A local that is declared before the one that it reads. -/
def chainedLocals : List SourceFile :=
  let range : SourceRange := default
  let member (root name : String) : Expr := .traversal (.variable root) [.attribute name]
  [⟨"main.tf", "", [
    .node "locals" [] [⟨"next", .binary .add (member "local" "first") (.number (.int 1)), range⟩,
      ⟨"first", member "var" "start", range⟩] [] range,
    .node "variable" ["start"] [⟨"default", .number (.int 5), range⟩] [] range]⟩]

/-- Two passes are enough for it, and give the second local one more than the first. -/
theorem evaluate_chained_locals :
    let s : Session := ⟨⟨fun _ => .error "", fun _ => .error ""⟩, "/", "default", false, 2, []⟩
    IsPlain (writtenBlocks chainedLocals) ∧ (∀ file ∈ chainedLocals, BlockTree.AllQuiet file.blocks) ∧
      ChainsWithin (declaredLocals (writtenBlocks chainedLocals)) s.maxPasses ∧
      ∃ modules r,
        ModuleRun.evaluateUpTo s Project.depthLimit (Project.rootRun s [] chainedLocals) = .ok (modules, r) ∧
        r.arena.scopes.get? r.root ["local", "next"] = some (.number (.int 6)) := by
  intro s
  have hplain : IsPlain (writtenBlocks chainedLocals) := by
    refine ⟨by decide, ?_, by decide, by decide⟩
    simp [writtenBlocks, chainedLocals, BlockTree.block, Block.attribute?, BlockKind.ofName, Expr.occurrences]
  have hquiet : ∀ file ∈ chainedLocals, BlockTree.AllQuiet file.blocks := by
    simp [chainedLocals, BlockTree.AllQuiet, BlockTree.IsQuiet, BlockKind.ofName, Expr.mentionsFiles,
      stepsMentionFiles]
  have hchains : ChainsWithin (declaredLocals (writtenBlocks chainedLocals)) s.maxPasses :=
    chainsWithin_of_rank (fun a => if a.name = "next" then 1 else 0) (by decide) (by decide)
  refine ⟨hplain, hquiet, hchains, ?_⟩
  obtain ⟨modules, r, hrun, -, hvalues⟩ :=
    evaluate_locals_in_dependency_order s [] chainedLocals hplain hquiet hchains
  refine ⟨modules, r, hrun, ?_⟩
  let order := (declaredLocals (writtenBlocks chainedLocals)).reverse
  have horder : IsDependencyOrder (declaredLocals (writtenBlocks chainedLocals)) order :=
    ⟨List.reverse_perm _, by decide⟩
  obtain ⟨v, hv, hbound⟩ := hvalues order horder _ List.mem_cons_self
  have hnext : (evaluateInOrder (ModuleRun.aroundLocals s [] (writtenBlocks chainedLocals)) order).get? "next"
      = some (.number (.int 6)) := by rfl
  rw [hbound, ← hv]
  exact hnext

end InfraConfig
