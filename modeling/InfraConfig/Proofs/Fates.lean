import InfraConfig.Proofs.AlikeRuns

/-!
# What becomes of the blocks of a module

Blocks are expanded twice: the module blocks when the calls are loaded, and all blocks once the calls have been
evaluated. At the end each block of the module stands for itself or has its instances in its place, and these
are never expanded again.
-/

namespace InfraConfig

namespace Arena

variable {P : ScopeId → Prop} {T U : Repetition → BlockId → Arena → Prop} {a b final moment : Arena} {root : ScopeId}
  {id : BlockId} {ids made : List BlockId} {groups : List (List BlockId)} {kind : Repetition}

/-! ## Turns -/

/-- The turn of a block in a round over a list: the arena as the blocks before it have left it. -/
def AtTurn (kind : Repetition) (root : ScopeId) (a : Arena) (ids : List BlockId) (id : BlockId) (moment : Arena) :
    Prop :=
  ∃ before after, ids = before ++ id :: after ∧ moment = (mapThrough (kind.expand root) a before).2

/-- The turns in the two rounds of an expansion. The first is that of the counts, and the second goes through what
stands for the blocks then. -/
def InRounds (root : ScopeId) (a : Arena) (ids : List BlockId) : Repetition → BlockId → Arena → Prop
  | .count => AtTurn .count root a ids
  | .forEach => AtTurn .forEach root (a.expandCounts root ids).2 (a.expandCounts root ids).1

theorem AtTurn.head (kind : Repetition) (root : ScopeId) (a : Arena) (id : BlockId) (ids : List BlockId) :
    AtTurn kind root a (id :: ids) id a :=
  ⟨[], ids, rfl, rfl⟩

theorem AtTurn.append {more : List BlockId}
    (h : AtTurn kind root (mapThrough (kind.expand root) a ids).2 more id moment) :
    AtTurn kind root a (ids ++ more) id moment := by
  obtain ⟨before, after, hsplit, hmoment⟩ := h
  refine ⟨ids ++ before, after, ?_, ?_⟩
  · rw [hsplit, List.append_assoc]
  · rw [mapThrough_append, hmoment]

/-! ## Fates -/

/-- What stands for a block at the end: the block itself, or the instances that it was expanded into when it had its
turn. -/
inductive Fate (T : Repetition → BlockId → Arena → Prop) (final : Arena) (root : ScopeId) (id : BlockId) :
    List BlockId → Prop where
  | itself : Fate T final root id [id]
  | instances (kind : Repetition) (moment : Arena) {made : List BlockId} (turn : T kind id moment)
      (h : Expanded moment final root kind id made) : Fate T final root id made

/-- What stands for the blocks of a list. -/
def Fates (T : Repetition → BlockId → Arena → Prop) (final : Arena) (root : ScopeId) (ids : List BlockId)
    (groups : List (List BlockId)) : Prop :=
  List.Forall₂ (Fate T final root) ids groups

theorem Fate.changes (h : Fate T final root id made) (hwell : final.WellFormed) (hab : Changes P final b) :
    Fate T b root id made := by
  cases h with
  | itself => exact .itself
  | instances kind moment turn h => exact .instances kind moment turn (h.changes hwell hab)

theorem Expands.fate (h : Expands a root kind id) (hturn : T kind id a) :
    Fate T (kind.expand root a id).2 root id (kind.expand root a id).1 := by
  rcases h with ⟨heq, -⟩ | h
  · rw [heq]
    exact .itself
  · exact .instances kind a hturn h

namespace Fates

theorem changes (h : Fates T final root ids groups) (hwell : final.WellFormed) (hab : Changes P final b) :
    Fates T b root ids groups :=
  h.imp fun _ _ hfate => hfate.changes hwell hab

theorem has (h : Fates T final root ids groups) (hids : ∀ id ∈ ids, final.Has root id) :
    ∀ m ∈ groups.flatten, final.Has root m := by
  induction h with
  | nil => exact fun m hm => absurd hm List.not_mem_nil
  | @cons id made ids groups hfate _ ih =>
    intro m hm
    rw [List.flatten_cons] at hm
    rcases List.mem_append.mp hm with hm | hm
    · cases hfate with
      | itself => exact List.mem_singleton.mp hm ▸ hids id List.mem_cons_self
      | instances kind moment turn h => exact (h.instance hm).elim fun _ hmade => hmade.has
    · exact ih (fun i hi => hids i (List.mem_cons_of_mem id hi)) m hm

theorem itself (T : Repetition → BlockId → Arena → Prop) (final : Arena) (root : ScopeId) (ids : List BlockId) :
    Fates T final root ids (ids.map fun id => [id]) := by
  induction ids with
  | nil => exact .nil
  | cons id ids ih => exact .cons .itself ih

end Fates

/-- After one more round over all that stands for some blocks, other blocks may stand for them. -/
theorem Fates.round (kind : Repetition) (hsite : Site P b root) (h : Fates T b root ids groups)
    (hids : ∀ id ∈ ids, b.Has root id) (hTU : ∀ turn id moment, T turn id moment → U turn id moment)
    (hturn : ∀ id moment, AtTurn kind root b groups.flatten id moment → U kind id moment) :
    ∃ later, (mapThrough (kind.expand root) b groups.flatten).1.flatten = later.flatten
      ∧ Fates U (mapThrough (kind.expand root) b groups.flatten).2 root ids later := by
  induction groups generalizing b ids with
  | nil =>
    cases h
    exact ⟨[], rfl, .nil⟩
  | cons made groups ih =>
    cases h with
    | @cons id _ ids _ hfate hrest =>
      have hrestIds : ∀ i ∈ ids, b.Has root i := fun i hi => hids i (List.mem_cons_of_mem id hi)
      cases hfate with
      | itself =>
        obtain ⟨hchange, hexpands⟩ := hsite.expand kind (hids id List.mem_cons_self)
        have hnext := hsite.changes hchange
        have hrest' := Fates.changes hrest hsite.well hchange
        have hids' : ∀ i ∈ ids, (kind.expand root b id).2.Has root i :=
          fun i hi => (hrestIds i hi).changes hsite.well hchange
        obtain ⟨later, hlater, hfates⟩ := ih hnext hrest' hids'
          fun i moment hat => hturn i moment (AtTurn.append hat)
        obtain ⟨hloop, -⟩ := hnext.expandAll kind (Fates.has hrest' hids')
        have hone : Fate U (kind.expand root b id).2 root id (kind.expand root b id).1 :=
          hexpands.fate (hturn id b (.head kind root b id groups.flatten))
        refine ⟨(kind.expand root b id).1 :: later, ?_, ?_⟩
        · rw [List.flatten_cons, List.singleton_append, mapThrough_cons, List.flatten_cons, List.flatten_cons,
            hlater]
        · rw [List.flatten_cons, List.singleton_append, mapThrough_cons]
          exact .cons (hone.changes hnext.well hloop) hfates
      | instances earlier moment turn hmade =>
        have hfixed := mapThrough_of_fixed (f := kind.expand root) (s := b)
          fun m hm => expand_of_expanded kind ((hmade.instance hm).elim fun _ h => h.expanded)
        obtain ⟨hmadeFlat, hmadeSame⟩ := hfixed
        obtain ⟨later, hflat, hfates⟩ := ih hsite hrest hrestIds
          fun i moment hat => hturn i moment (AtTurn.append (by rwa [hmadeSame]))
        obtain ⟨hloop, -⟩ := hsite.expandAll kind (Fates.has hrest hrestIds)
        have hkept : Fate U b root id made := .instances earlier moment (hTU earlier id moment turn) hmade
        refine ⟨made :: later, ?_, ?_⟩
        · rw [List.flatten_cons, mapThrough_append, List.flatten_append, hmadeFlat, hmadeSame, hflat,
            List.flatten_cons]
        · rw [List.flatten_cons, mapThrough_append, hmadeSame]
          exact .cons (hkept.changes hsite.well hloop) hfates

theorem flatten_singletons (ids : List BlockId) : (ids.map fun id => [id]).flatten = ids := by
  induction ids with
  | nil => rfl
  | cons id ids ih => rw [List.map_cons, List.flatten_cons, ih, List.singleton_append]

/-- A round of counts, then one of elements. -/
theorem Fates.rounds (hsite : Site P b root) (h : Fates T b root ids groups) (hids : ∀ id ∈ ids, b.Has root id)
    (hTU : ∀ kind id moment, T kind id moment → U kind id moment)
    (hturn : ∀ kind id moment, InRounds root b groups.flatten kind id moment → U kind id moment) :
    ∃ later, ((b.expandCounts root groups.flatten).2.expandForEach root
        (b.expandCounts root groups.flatten).1).1 = later.flatten
      ∧ Fates U ((b.expandCounts root groups.flatten).2.expandForEach root
        (b.expandCounts root groups.flatten).1).2 root ids later := by
  obtain ⟨counted, hcounted, hfirst⟩ := h.round .count hsite hids hTU (hturn .count)
  obtain ⟨hcounts, -⟩ := hsite.expandCounts (h.has hids)
  have hids' : ∀ id ∈ ids, (b.expandCounts root groups.flatten).2.Has root id :=
    fun id hid => (hids id hid).changes hsite.well hcounts
  have heq : (b.expandCounts root groups.flatten).1 = counted.flatten := hcounted
  obtain ⟨made, hmade, hsecond⟩ := Fates.round .forEach (hsite.changes hcounts) hfirst hids' (fun _ _ _ hU => hU)
    fun id moment hat => hturn .forEach id moment (by rwa [InRounds, heq])
  rw [heq]
  exact ⟨made, hmade, hsecond⟩

end Arena

namespace ModuleRun

variable {s : Session} {run : Evaluate} {d : Nat} {r next : ModuleRun}

/-! ## Steps that leave the list of blocks -/

theorem evaluateCalls_module (hrun : Contained run) (hs : r.Sound) {force : Bool}
    (h : r.evaluateCalls s run force = .ok next) : next.module = r.module := by
  obtain ⟨mid, calls, -, rfl, -, -, visited, hmid⟩ := evaluateCalls_spec hrun hs h
  rw [(Rebinds.bindOutputsOfCalls _).module, hmid]

theorem pass_module (hrun : Contained run) (hs : r.Sound) (h : r.pass s run = .ok next) :
    next.module = r.module := by
  have hbind := Rebinds.bindBlocks r
  rw [evaluateCalls_module hrun (hbind.sound hs) h, hbind.module]

theorem settle_module (hrun : Contained run) (hs : r.Sound) (h : r.settle s run = .ok next) :
    next.module = r.module := by
  refine (converge_invariant (P := fun q => q.Sound ∧ q.module = r.module) (fun q passed hq hpass => ?_)
    ⟨hs, rfl⟩ h).2
  have hpassed := pass_advances hrun hq.1 (.all q) hpass
  exact ⟨(readWanted_advances s hpassed.sound hpassed.covers).sound, (pass_module hrun hq.1 hpass).trans hq.2⟩

theorem forceCalls_module (hrun : Contained run) (hs : r.Sound) (h : r.forceCalls s run = .ok next) :
    next.module = r.module := by
  rw [forceCalls] at h
  split at h
  · obtain ⟨mid, hmid, hsettle⟩ := bind_eq_ok_iff.mp h
    have hcalls := evaluateCalls_advances hrun hs (.all r) hmid
    rw [settle_module hrun hcalls.sound hsettle, evaluateCalls_module hrun hs hmid]
  · rw [Except.ok.inj h]

theorem loadCall_module {id : BlockId} (h : r.loadCall s id = .ok next) : next.module = r.module := by
  obtain ⟨reads, ⟨-, rfl⟩ | ⟨target, files, -, rfl⟩⟩ := loadCall_cases h <;> rfl

theorem loadCalls_module {ids : List BlockId} (h : r.loadCalls s ids = .ok next) : next.module = r.module := by
  induction ids generalizing r with
  | nil => rw [Except.ok.inj h]
  | cons id ids ih =>
    obtain ⟨mid, hmid, h⟩ := loadCalls_cons_eq_ok_iff.mp h
    rw [ih h, loadCall_module hmid]

/-! ## Expansions -/

theorem Sound.expand_fates (hs : r.Sound) {T U : Repetition → BlockId → Arena → Prop} {ids : List BlockId}
    {groups : List (List BlockId)} (h : Arena.Fates T r.arena r.root ids groups)
    (hids : ∀ id ∈ ids, r.arena.Has r.root id) (hTU : ∀ kind id moment, T kind id moment → U kind id moment)
    (hturn : ∀ kind id moment, Arena.InRounds r.root r.arena groups.flatten kind id moment → U kind id moment)
    (keep : List BlockId) :
    ∃ later, (r.expand keep groups.flatten).1 = later.flatten
      ∧ Arena.Fates U (r.expand keep groups.flatten).2.arena r.root ids later :=
  h.rounds (hs.site (P := fun _ => True) trivial) hids hTU hturn

/-- Loading the calls of a module expands its module blocks. -/
theorem Sound.loadModules_fates (hs : r.Sound) (h : r.loadModules s = .ok next) :
    ∃ order groups, order.Perm r.module.blocks ∧ next.module.blocks = groups.flatten
      ∧ Arena.Fates (Arena.InRounds r.root r.arena r.callBlocks) next.arena r.root order groups := by
  rw [loadModules, List.partition_eq_filter_filter] at h
  let isCall (id : BlockId) : Bool := (r.arena.block id).kind == .module
  let calls := r.module.blocks.filter isCall
  let others := r.module.blocks.filter (not ∘ isCall)
  let T := Arena.InRounds r.root r.arena calls
  have hcalls : ∀ id ∈ calls, r.arena.Has r.root id := fun id hid => hs.blocks id (List.mem_filter.mp hid).1
  have hsub (p : BlockId → Bool) : r.module.blocks.filter p ⊆ r.module.blocks :=
    fun id hid => (List.mem_filter.mp hid).1
  obtain ⟨hexpand, hmade⟩ := expand_advances hs (.all r) (hsub (not ∘ isCall)) (hsub isCall)
  have hload : (r.expand others calls).2.loadCalls s (r.expand others calls).1 = .ok next := h
  have hloaded := loadCalls_advances hexpand.sound hexpand.covers hmade hload
  obtain ⟨groups, hgroups, hfates⟩ := hs.expand_fates (.itself T r.arena r.root calls) hcalls
    (fun _ _ _ hT => hT) (fun _ _ _ hturn => by rwa [Arena.flatten_singletons] at hturn) others
  rw [Arena.flatten_singletons] at hgroups hfates
  refine ⟨others ++ calls, (others.map fun id => [id]) ++ groups, ?_, ?_, ?_⟩
  · exact (perm_filter_append isCall r.module.blocks).symm
  · rw [loadCalls_module hload, List.flatten_append, Arena.flatten_singletons, ← hgroups]
    rfl
  · apply List.rel_append (Arena.Fates.itself T next.arena r.root others)
    exact hfates.changes hexpand.sound.well hloaded.changes

end ModuleRun

end InfraConfig
