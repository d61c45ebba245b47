import InfraConfig.Proofs.Convergence
import InfraConfig.Proofs.RenderedContents

/-!
# Expansions and what their attributes come to

A block is expanded once, by what its `count` or `for_each` comes to when it has its turn, and nothing revises its
instances. So at the end they are those that the attribute asks for exactly if it asks for the same as in that turn.
Expansions change what others read: those of a `for_each` leave nothing at the address of their block until the
next pass binds the values of the instances.
-/

namespace InfraConfig

namespace ModuleRun

variable {s : Session} {run : Evaluate} {d : Nat} {start settled loaded resettled expanded done : ModuleRun}
  {modules : List ModuleInstance}

/-- The turns of the blocks of an evaluator: module blocks have one when the modules are loaded, and all blocks
that are listed then have one after the calls have been evaluated. -/
def ExpansionTurn (settled resettled : ModuleRun) (kind : Repetition) (id : BlockId) (moment : Arena) : Prop :=
  Arena.InRounds settled.root settled.arena settled.callBlocks kind id moment
    ∨ Arena.InRounds resettled.root resettled.arena resettled.module.blocks kind id moment

theorem Phases.advances_resettled (h : Phases s run start settled loaded resettled expanded done)
    (hrun : Contained run) (hs : start.Sound) : Advances (fun _ => True) start resettled := by
  have hsettle := settle_advances hrun hs (.all start) h.settle
  have hload := loadModules_advances hsettle.sound hsettle.covers h.load
  exact (hsettle.trans hload).trans (settle_advances hrun hload.sound hload.covers h.resettle)

/-- Nothing is moved once the blocks have been expanded. -/
theorem Phases.keeps_done (h : Phases s run start settled loaded resettled expanded done) (hrun : Contained run)
    (hs : start.Sound) : KeepsOwn resettled.expandBlocks done := by
  have hblocks := h.sound_expandBlocks hrun hs
  exact (settle_keepsOwn hrun hblocks h.expand).trans hblocks
    (forceCalls_keepsOwn hrun (h.sound_expanded hrun hs) h.force) (settle_advances hrun hblocks (.all _) h.expand)

/-- What stands at the end for the blocks that an evaluator has begun with. -/
theorem Phases.fates (h : Phases s run start settled loaded resettled expanded done) (hrun : Contained run)
    (hs : start.Sound) : ∃ order groups, order.Perm start.module.blocks ∧ done.module.blocks = groups.flatten
      ∧ Arena.Fates (ExpansionTurn settled resettled) done.arena start.root order groups := by
  have hsettled := h.sound_settled hrun hs
  have hload := loadModules_advances hsettled (.all settled) h.load
  have hresettle := settle_advances hrun hload.sound hload.covers h.resettle
  have hbefore := h.advances_resettled hrun hs
  obtain ⟨order, groups, hperm, hblocks, hfates⟩ := hsettled.loadModules_fates h.load
  rw [settle_module hrun hs h.settle] at hperm
  rw [← settle_module hrun hload.sound h.resettle] at hblocks
  have hresettled : Arena.Fates (Arena.InRounds settled.root settled.arena settled.callBlocks) resettled.arena
      resettled.root order groups := by
    rw [hresettle.root, hload.root]
    exact hfates.changes hload.sound.well hresettle.changes
  have hids (id : BlockId) (hid : id ∈ order) : resettled.arena.Has resettled.root id := by
    rw [hbefore.root]
    exact (hs.blocks id (hperm.subset hid)).changes hs.well hbefore.changes
  have hcalls (kind : Repetition) (id : BlockId) (moment : Arena)
      (hturn : Arena.InRounds settled.root settled.arena settled.callBlocks kind id moment) :
      ExpansionTurn settled resettled kind id moment := .inl hturn
  have hlisted (kind : Repetition) (id : BlockId) (moment : Arena)
      (hturn : Arena.InRounds resettled.root resettled.arena groups.flatten kind id moment) :
      ExpansionTurn settled resettled kind id moment := by
    rw [← hblocks] at hturn
    exact .inr hturn
  obtain ⟨later, hlater, hfinal⟩ := hresettle.sound.expand_fates hresettled hids hcalls hlisted []
  rw [← hblocks] at hlater hfinal
  have hexpand := (expand_advances hresettle.sound (.all resettled) (List.nil_subset _)
    (List.Subset.refl resettled.module.blocks)).1
  have hrest := (dynamics_changes hresettle.sound (.all resettled)).trans (h.advances_done hrun hs).changes
  refine ⟨order, later, hperm, (h.blocks_done hrun hs).trans hlater, ?_⟩
  rw [hbefore.root] at hfinal
  exact hfinal.changes hexpand.sound.well hrest

/-- A resource with a `for_each`, and one that is repeated for the instances of the first. -/
def expandedTogether : List SourceFile :=
  let flags : Expr := .list [.bool true, .bool false]
  let read (root name : String) : Expr := .traversal (.variable root) [.attribute name]
  [⟨"main.tf", "", [
    .node "resource" ["a", "x"] [⟨"for_each", flags, default⟩] [] default,
    .node "resource" ["b", "y"] [⟨"for_each", read "a" "x", default⟩] [] default]⟩]

/-- At the end of an evaluation, the instances of a block are those that its `count` or `for_each` asked for when the
block had its turn, and the contents of a dynamic block are in the block around it, one for each that its `for_each`
asked for. They are what is asked for at the end exactly if the same is asked for as in that turn. -/
theorem evaluateWith_keeps_instances (h : Begins s d start)
    (heval : evaluateWith s (evaluateUpTo s d) start = .ok (modules, done)) :
    ∃ settled loaded resettled expanded, Phases s (evaluateUpTo s d) start settled loaded resettled expanded done
      ∧ (∃ order groups, order.Perm start.module.blocks ∧ done.module.blocks = groups.flatten
        ∧ List.Forall₂ (fun id made => made = [id] ∨ ∃ kind moment,
          ExpansionTurn settled resettled kind id moment
          ∧ Arena.Repeated moment done.arena start.root kind id made) order groups)
      ∧ ∀ t ∈ resettled.turns, t.Rendered resettled.arena done.arena start.root := by
  have hrun := contained_evaluateUpTo s d
  have hs := h.reached.sound
  obtain ⟨settled, loaded, resettled, expanded, hphases, -⟩ := exists_phases heval
  obtain ⟨order, groups, hperm, hblocks, hfates⟩ := hphases.fates hrun hs
  refine ⟨settled, loaded, resettled, expanded, hphases, ⟨order, groups, hperm, hblocks, ?_⟩, fun t ht => ?_⟩
  · refine hfates.imp fun id made hfate => ?_
    cases hfate with
    | itself => exact .inl rfl
    | instances kind moment turn hmade => exact .inr ⟨kind, moment, turn, hmade.repeated⟩
  · have hresettled := hphases.sound_resettled hrun hs
    have hdone := hphases.advances_done hrun hs
    rw [← (hphases.advances_resettled hrun hs).root]
    exact hresettled.rendered (hphases.separate_resettled hrun hs h.separate) hdone.changes
      (hphases.keeps_done hrun hs) ht

theorem evaluateWith_keeps_instances_expandedTogether :
    let s : Session := ⟨constantOutput, "/", "default", false, 6, []⟩
    let start := Project.rootRun s [] expandedTogether
    ∃ modules done, Begins s 999 start ∧ evaluateWith s (evaluateUpTo s 999) start = .ok (modules, done)
      ∧ done.module.blocks.length = 2
      ∧ ∃ settled loaded resettled expanded,
        Phases s (evaluateUpTo s 999) start settled loaded resettled expanded done
        ∧ (∃ order groups, order.Perm start.module.blocks ∧ done.module.blocks = groups.flatten
          ∧ List.Forall₂ (fun id made => made = [id] ∨ ∃ kind moment,
            ExpansionTurn settled resettled kind id moment
            ∧ Arena.Repeated moment done.arena start.root kind id made) order groups)
        ∧ ∀ t ∈ resettled.turns, t.Rendered resettled.arena done.arena start.root := by
  intro s start
  have hcheck : (evaluateWith s (evaluateUpTo s 999) start).toOption.any (fun result =>
      result.2.module.blocks.length == 2) = true := by
    decide +kernel
  obtain ⟨⟨modules, done⟩, hdone, hlength⟩ := (Option.any_eq_true _ _).mp hcheck
  have hbegins : Begins s 999 start := .root [] expandedTogether
  have heval := eq_ok_of_toOption hdone
  exact ⟨modules, done, hbegins, heval, eq_of_beq hlength, evaluateWith_keeps_instances hbegins heval⟩

/-- Even if all loops stop by agreement, a resource may have no instance although its `for_each` asks for two at the
end: it has had its turn when the instances that it is repeated for had been made, but were not bound yet. -/
theorem expansion_out_of_step :
    let s : Session := ⟨constantOutput, "/", "default", false, 6, []⟩
    let start := Project.rootRun s [] expandedTogether
    ∃ modules done id, agreeingUpTo s 1000 start = .ok (modules, done)
      ∧ id ∈ start.module.blocks ∧ (done.arena.block id).kind = .resource
      ∧ (done.arena.block id).labels = ["b", "y"]
      ∧ done.arena.Asks .forEach false id [some (.index 0), some (.index 1)]
      ∧ done.module.blocks.map (fun m => (done.arena.block m).labels) = [["a", "x[0]"], ["a", "x[1]"]] := by
  intro s start
  have hcheck : (agreeingUpTo s 1000 start).toOption.any (fun result =>
      start.module.blocks.any (fun id => (result.2.arena.block id).kind == .resource
        && (result.2.arena.block id).labels == ["b", "y"]
        && decide (result.2.arena.Asks .forEach false id [some (.index 0), some (.index 1)]))
      && result.2.module.blocks.map (fun m => (result.2.arena.block m).labels)
        == [["a", "x[0]"], ["a", "x[1]"]]) = true := by
    decide +kernel
  obtain ⟨⟨modules, done⟩, hdone, hboth⟩ := (Option.any_eq_true _ _).mp hcheck
  obtain ⟨hany, hlabels⟩ := Bool.and_eq_true_iff.mp hboth
  obtain ⟨id, hid, hone⟩ := List.any_eq_true.mp hany
  simp only [Bool.and_eq_true, beq_iff_eq, decide_eq_true_eq] at hone hlabels
  exact ⟨modules, done, id, eq_ok_of_toOption hdone, hid, hone.1.1, hone.1.2, hone.2, hlabels⟩

end ModuleRun

end InfraConfig
