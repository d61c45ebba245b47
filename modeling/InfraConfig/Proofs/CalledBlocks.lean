import InfraConfig.Proofs.FinishedCalls

/-!
# Called blocks

Every module but the one at the root has been called by a module block, and no two modules by the same one. A
block that is called stays in the list of its module, unless its `for_each` can be evaluated only after it has
been called: then it is expanded once more, and its instances call nothing.
-/

namespace InfraConfig

namespace Arena

variable {P : ScopeId → Prop} {a b : Arena} {root : ScopeId} {id : BlockId} {made ids : List BlockId} {kind : Repetition}

/-! ## Blocks that stay in a list -/

theorem Row.le_of_mem {lo hi x : Nat} (h : Row a lo ids hi) (hx : x ∈ ids) : lo ≤ x := by
  obtain ⟨low, htrees, hbounds⟩ := h.trees
  exact Nat.le_trans (hbounds x hx).1 (htrees.low_le hx)

theorem Adds.not_mem (h : Adds a b made) {x : Nat} (hx : x < a.blocks.size) : x ∉ made :=
  fun hmem => absurd (h.row.le_of_mem hmem) (Nat.not_le.mpr hx)

theorem Separate.nodup (h : Separate a ids) : ids.Nodup := by
  obtain ⟨low, htrees, -⟩ := h
  refine htrees.apart.imp_of_mem fun hx _ hxy => ?_
  rintro rfl
  have := htrees.low_le hx
  omega

/-- What stands for a block is no other block that was there. -/
theorem Replaces.not_mem (h : Replaces a b id made) {x : Nat} (hx : x < a.blocks.size) (hne : x ≠ id) : x ∉ made := by
  cases h with
  | itself => exact fun hmem => hne (List.mem_singleton.mp hmem)
  | trees hadds => exact hadds.not_mem hx

theorem Expanded.not_mem {moment final : Arena} {kind : Repetition} (h : Expanded moment final root kind id made) {x : Nat}
    (hx : x < moment.blocks.size) (hne : x ≠ id) : x ∉ made := by
  rw [h.eq]
  exact (replaces_expand kind root moment id).not_mem hx hne

theorem not_mem_round (kind : Repetition) {x : Nat} (hx : x < a.blocks.size) (hids : x ∉ ids) :
    x ∉ (mapThrough (kind.expand root) a ids).1.flatten := by
  induction ids generalizing a with
  | nil => exact List.not_mem_nil
  | cons id ids ih =>
    have hreplaces := replaces_expand kind root a id
    rw [mapThrough_cons, List.flatten_cons, List.mem_append, not_or]
    exact ⟨hreplaces.not_mem hx (List.ne_of_not_mem_cons hids),
      ih (Nat.lt_of_lt_of_le hx hreplaces.keeps.size) (List.not_mem_of_not_mem_cons hids)⟩

/-- The moment at which a round over a list of blocks comes to one of them. -/
structure InRound (P : ScopeId → Prop) (kind : Repetition) (root : ScopeId) (a : Arena) (ids : List BlockId)
    (id : BlockId) (moment : Arena) : Prop where
  before : Changes P a moment
  inside : Keeps (fun _ => True) a moment
  after : Changes P (kind.expand root moment id).2 (mapThrough (kind.expand root) a ids).2
  placed : (kind.expand root moment id).1 ⊆ (mapThrough (kind.expand root) a ids).1.flatten
  stays : id ∈ (mapThrough (kind.expand root) a ids).1.flatten ↔ id ∈ (kind.expand root moment id).1

theorem Site.exists_inRound (h : Site P a root) (kind : Repetition) (hids : ∀ id ∈ ids, a.Has root id)
    (hnodup : ids.Nodup) (hid : id ∈ ids) : ∃ moment, InRound P kind root a ids id moment := by
  induction ids generalizing a with
  | nil => cases hid
  | cons first ids ih =>
    obtain ⟨hfirst, hrest⟩ := List.nodup_cons.mp hnodup
    obtain ⟨hchange, -⟩ := h.expand kind (hids first List.mem_cons_self)
    have hreplaces := replaces_expand kind root a first
    have hnext := h.changes hchange
    have hlater : ∀ i ∈ ids, (kind.expand root a first).2.Has root i :=
      fun i hi => (hids i (List.mem_cons_of_mem first hi)).changes h.well hchange
    rcases List.mem_cons.mp hid with rfl | hin
    · obtain ⟨hloop, -⟩ := hnext.expandAll kind hlater
      refine ⟨a, .refl, .refl, ?_, ?_, ?_⟩
      · rw [mapThrough_cons]
        exact hloop
      · rw [mapThrough_cons, List.flatten_cons]
        exact List.subset_append_left _ _
      · have hlt := Nat.lt_of_lt_of_le (hids id List.mem_cons_self).1 hreplaces.keeps.size
        rw [mapThrough_cons, List.flatten_cons, List.mem_append, or_iff_left (not_mem_round kind hlt hfirst)]
    · obtain ⟨moment, hturn⟩ := ih hnext hlater hrest hin
      have hne : id ≠ first := fun heq => hfirst (heq ▸ hin)
      have hkeeps := hreplaces.keeps.trans hturn.inside fun _ _ _ => trivial
      refine ⟨moment, hchange.trans hturn.before, hkeeps, ?_, ?_, ?_⟩
      · rw [mapThrough_cons]
        exact hturn.after
      · rw [mapThrough_cons, List.flatten_cons]
        exact List.Subset.trans hturn.placed (List.subset_append_right _ _)
      · rw [mapThrough_cons, List.flatten_cons, List.mem_append,
          or_iff_right (hreplaces.not_mem (hids id hid).1 hne), hturn.stays]

end Arena

namespace ModuleRun

variable {s : Session} {run : Evaluate} {force : Bool} {d : Nat}
  {start loaded expanded r mid child next done : ModuleRun} {call later : ModuleCall} {id : BlockId}
  {keep ids : List BlockId} {modules : List ModuleInstance}

/-- What an expansion of a list does with a module block: it stays if it has been expanded before, goes if it has
a `count`, and else goes if its `for_each` can be evaluated at the time. -/
inductive Stays (r next : ModuleRun) (id : BlockId) (made : List BlockId) : Prop where
  | expanded (h : (r.arena.block id).expanded = true) (stays : id ∈ made) : Stays r next id made
  | counted (h : (r.arena.block id).expanded = false)
      (hcount : ((r.arena.block id).attribute? "count").isSome) (goes : id ∉ made) : Stays r next id made
  | unasked (h : (r.arena.block id).expanded = false)
      (hcount : (r.arena.block id).attribute? "count" = none) (moment : Arena)
      (hbefore : Arena.Changes (fun _ => True) r.arena moment)
      (hasked : moment.keysAsked? .forEach false id = none) (stays : id ∈ made) : Stays r next id made
  | repeated (h : (r.arena.block id).expanded = false)
      (hcount : (r.arena.block id).attribute? "count" = none) (moment : Arena) (instances : List BlockId)
      (hbefore : Arena.Changes (fun _ => True) r.arena moment)
      (hexpanded : Arena.Expanded moment next.arena r.root .forEach id instances) (hsub : instances ⊆ made)
      (goes : id ∉ made) : Stays r next id made

/-- The second round, for a block that has stayed in the first. -/
theorem Sound.forEach_stays {counted : Arena} (hs : r.Sound) (hcounts : Arena.Changes (fun _ => True) r.arena counted)
    (hkeeps : Arena.Keeps (fun _ => True) r.arena counted) (hids : ∀ i ∈ ids, counted.Has r.root i)
    (hnodup : ids.Nodup) (hid : id ∈ ids) (hlt : id < r.arena.blocks.size)
    (hmodule : (r.arena.block id).kind = .module) (hplain : (r.arena.block id).expanded = false)
    (hcount : (r.arena.block id).attribute? "count" = none)
    (hnext : next.arena = (counted.expandForEach r.root ids).2) :
    Stays r next id (counted.expandForEach r.root ids).1 := by
  have hsite := (hs.site (P := fun _ => True) trivial).changes hcounts
  obtain ⟨moment, hround⟩ := hsite.exists_inRound .forEach hids hnodup hid
  have hbefore := hcounts.trans hround.before
  have hkind : (moment.block id).kind = .module :=
    ((hkeeps.trans hround.inside fun _ _ _ => trivial).kind id hlt trivial).trans hmodule
  have hplainThen : (moment.block id).expanded = false := (hbefore.expanded_eq hlt).trans hplain
  have happlies : Repetition.forEach.applies (moment.block id) = true := by
    simp [Repetition.applies, Block.isExpandable, hkind, hplainThen]
  have hsiteThen := hsite.changes hround.before
  have hdynamic : ((moment.block id).kind == .dynamic) = false := by rw [hkind]; rfl
  obtain ⟨hchange, hexpands⟩ := hsiteThen.expandElements ((hids id hid).changes hsite.well hround.before)
  rcases hexpands with ⟨hitself, hnone⟩ | hexpanded
  · rw [happlies, hdynamic] at hnone
    refine .unasked hplain hcount moment hbefore (hnone.resolve_left (by simp)) (hround.stays.mpr ?_)
    rw [hitself]
    exact List.mem_singleton_self id
  · have hlater := hexpanded.changes (hchange.wellFormed hsiteThen.well) hround.after
    refine .repeated hplain hcount moment _ hbefore (hnext ▸ hlater) hround.placed fun hmem => ?_
    obtain ⟨key, hmade⟩ := hexpanded.instance (hround.stays.mp hmem)
    have hplainLater := ((hbefore.trans hchange).expanded_eq hlt).trans hplain
    cases hmade.expanded.symm.trans hplainLater

theorem Sound.expand_stays (hs : r.Sound) (keep : List BlockId) (hids : ids ⊆ r.module.blocks) (hseparate : r.arena.Separate ids)
    (hid : id ∈ ids) (hmodule : (r.arena.block id).kind = .module) :
    Stays r (r.expand keep ids).2 id (r.expand keep ids).1 := by
  have hsite := hs.site (P := fun _ => True) trivial
  have hhas : ∀ i ∈ ids, r.arena.Has r.root i := fun i hi => hs.blocks i (hids hi)
  have hlt : id < r.arena.blocks.size := (hhas id hid).1
  obtain ⟨counting, hround⟩ := hsite.exists_inRound .count hhas hseparate.nodup hid
  obtain ⟨hcounts, hcounted⟩ := hsite.expandCounts hhas
  have hkeeps := Arena.keeps_expandCounts r.arena r.root ids
  have hapart : r.arena.Separate ([] ++ ids) := hseparate
  have hnodup : (r.arena.expandCounts r.root ids).1.Nodup :=
    (hapart.mapThrough (Arena.replaces_expand .count r.root)).nodup
  have hltThen := Nat.lt_of_lt_of_le hlt hround.inside.size
  have hkind : (counting.block id).kind = .module := (hround.inside.kind id hlt trivial).trans hmodule
  have hattr : (counting.block id).attribute? "count" = (r.arena.block id).attribute? "count" := by
    rw [Block.attribute?, Block.attribute?, hround.before.attributes_eq hlt]
  by_cases hexpanded : (r.arena.block id).expanded = true
  · have hfirst : id ∈ (r.arena.expandCounts r.root ids).1 := by
      refine hround.stays.mpr ?_
      rw [Arena.expand_of_expanded .count ((hround.before.expanded_eq hlt).trans hexpanded)]
      exact List.mem_singleton_self id
    obtain ⟨moment, hsecond⟩ := (hsite.changes hcounts).exists_inRound .forEach hcounted hnodup hfirst
    refine .expanded hexpanded (hsecond.stays.mpr ?_)
    have hall := hcounts.trans hsecond.before
    rw [Arena.expand_of_expanded .forEach ((hall.expanded_eq hlt).trans hexpanded)]
    exact List.mem_singleton_self id
  · have hplain : (r.arena.block id).expanded = false := Bool.eq_false_iff.mpr hexpanded
    cases hcount : (r.arena.block id).attribute? "count" with
    | none =>
      have hfirst : id ∈ (r.arena.expandCounts r.root ids).1 := by
        refine hround.stays.mpr ?_
        rw [Repetition.expand, Arena.expandCount, hattr.trans hcount]
        exact List.mem_singleton_self id
      exact hs.forEach_stays hcounts hkeeps hcounted hnodup hfirst hlt hmodule hplain hcount rfl
    | some attr =>
      have happlies : (counting.block id).isExpandable = true := by
        simp [Block.isExpandable, hkind, (hround.before.expanded_eq hlt).trans hplain]
      have hgone : id ∉ (r.arena.expandCounts r.root ids).1 := by
        refine mt hround.stays.mp ?_
        exact (Arena.adds_expand_count r.root (hattr.trans hcount) happlies).not_mem hltThen
      have hltCounted : id < (r.arena.expandCounts r.root ids).2.blocks.size := Nat.lt_of_lt_of_le hlt hkeeps.size
      exact .counted hplain (by rw [hcount]; rfl) (Arena.not_mem_round .forEach hltCounted hgone)

/-! ## Calls by their blocks -/

theorem blocks_of_opened {opened : List ModuleCall} (h : List.Forall₂ (OpenedFor s r next) ids opened) :
    opened.map ModuleCall.block = ids := by
  induction h with
  | nil => rfl
  | cons hone _ ih => rw [List.map_cons, hone.block, ih]

theorem blocks_of_later {first second : List ModuleCall} (h : List.Forall₂ Later first second) :
    second.map ModuleCall.block = first.map ModuleCall.block := by
  induction h with
  | nil => rfl
  | cons hone _ ih =>
    rw [List.map_cons, List.map_cons, ih]
    rcases hone with rfl | ⟨-, result, rfl⟩ <;> rfl

namespace Phases

variable {settled resettled : ModuleRun}

theorem separate_settled (h : Phases s run start settled loaded resettled expanded done) (hrun : Contained run)
    (hs : start.Sound) (hseparate : start.arena.Separate start.module.blocks) :
    settled.arena.Separate settled.module.blocks := by
  rw [settle_module hrun hs h.settle]
  exact hseparate.keepsModule hs.well hs.blocks (settle_keepsOwn hrun hs h.settle)

/-- The calls are those that are opened when the modules are loaded. -/
theorem opened_loaded (h : Phases s run start settled loaded resettled expanded done) (hrun : Contained run)
    (hs : start.Sound) (hcalls : start.calls = []) :
    List.Forall₂ (OpenedFor s settled.expandCalls.2 loaded)
        (settled.expandCalls.1.filter fun id => (settled.expandCalls.2.opening? s id).isSome) loaded.calls
      ∧ ∀ call ∈ loaded.calls, Calling loaded.arena call := by
  obtain ⟨-, opened, hopened, hmatch, hcalling⟩ := loadModules_opened (h.sound_settled hrun hs) h.load
  have hbefore := hs.settle_later hrun h.settle
  rw [hcalls, List.forall₂_nil_left_iff] at hbefore
  rw [hbefore, List.nil_append] at hopened
  rw [hopened]
  exact ⟨hmatch, fun call hcall => (hcalling call hcall).1⟩

/-- What stands for the module blocks is listed after the other blocks when the modules have been loaded. -/
theorem listed_loaded (h : Phases s run start settled loaded resettled expanded done) :
    loaded.module.blocks
      = settled.module.blocks.filter (fun id => !((settled.arena.block id).kind == .module)) ++ settled.expandCalls.1 := by
  have hload := h.load
  rw [loadModules_eq] at hload
  rw [loadCalls_module hload, expandCalls, List.partition_eq_filter_filter]
  rfl

/-- Which blocks are called: some of those that are listed when the modules have been loaded. -/
theorem blocks_loaded (h : Phases s run start settled loaded resettled expanded done) (hrun : Contained run)
    (hs : start.Sound) (hcalls : start.calls = []) :
    (loaded.calls.map ModuleCall.block).Sublist loaded.module.blocks
      ∧ ∀ call ∈ loaded.calls, call.block ∈ settled.expandCalls.1 ∧ (loaded.arena.block call.block).kind = .module := by
  obtain ⟨hmatch, hcalling⟩ := h.opened_loaded hrun hs hcalls
  have hblocks := blocks_of_opened hmatch
  refine ⟨?_, fun call hcall => ⟨?_, (hcalling call hcall).kind⟩⟩
  · rw [hblocks, h.listed_loaded]
    exact List.filter_sublist.trans (List.sublist_append_right _ _)
  · have hmem := List.mem_map_of_mem (f := ModuleCall.block) hcall
    rw [hblocks] at hmem
    exact (List.mem_filter.mp hmem).1

/-- A block that is called and is no instance has no `count`. -/
theorem count_loaded (h : Phases s run start settled loaded resettled expanded done) (hrun : Contained run)
    (hs : start.Sound) (hseparate : start.arena.Separate start.module.blocks)
    (hmade : id ∈ settled.expandCalls.1) (hplain : (loaded.arena.block id).expanded = false) :
    (loaded.arena.block id).attribute? "count" = none := by
  have hsettled := h.sound_settled hrun hs
  obtain ⟨hexpand, hstands⟩ := hsettled.expandCalls
  obtain ⟨hhas, origin, horigin, hkind, hone⟩ := hstands id hmade
  have hload := h.load
  rw [loadModules_eq] at hload
  have hloaded := (loadCalls_advances hexpand.sound (.all _) (fun made hin => (hstands made hin).1) hload).changes
  rw [hloaded.expanded_eq hhas.1] at hplain
  rcases hone.origin with rfl | ⟨-, hinstance⟩
  · let isCall (id : BlockId) : Bool := (settled.arena.block id).kind == .module
    have hsub : (settled.module.blocks.filter isCall).Sublist settled.module.blocks := List.filter_sublist
    have hin : id ∈ settled.module.blocks.filter isCall := List.mem_filter.mpr ⟨horigin, beq_iff_eq.mpr hkind⟩
    have hstays := hsettled.expand_stays (settled.module.blocks.filter (not ∘ isCall)) hsub.subset
      ((h.separate_settled hrun hs hseparate).sublist hsub) hin hkind
    have hlt := (hsettled.blocks id horigin).1
    have hall := hexpand.changes.trans hloaded
    have hattr : (loaded.arena.block id).attribute? "count" = (settled.arena.block id).attribute? "count" := by
      rw [Block.attribute?, Block.attribute?, hall.attributes_eq hlt]
    have hresult : settled.expandCalls = settled.expand (settled.module.blocks.filter (not ∘ isCall))
        (settled.module.blocks.filter isCall) := by
      rw [expandCalls, List.partition_eq_filter_filter]
    rw [hresult] at hmade
    rw [hattr]
    cases hstays with
    | expanded hexpanded _ =>
      rw [hexpand.changes.expanded_eq hlt, hexpanded] at hplain
      cases hplain
    | counted _ _ goes => exact absurd hmade goes
    | unasked _ hcount => exact hcount
    | repeated _ hcount => exact hcount
  · rw [hinstance.expanded] at hplain
    cases hplain

theorem advances_done (h : Phases s run start settled loaded resettled expanded done) (hrun : Contained run)
    (hs : start.Sound) : Advances (fun _ => True) resettled.expandBlocks done := by
  have hblocks := h.sound_expandBlocks hrun hs
  have hexpanded := settle_advances hrun hblocks (.all _) h.expand
  exact hexpanded.trans (forceCalls_advances hrun hexpanded.sound hexpanded.covers h.force)

/-- The list of the module at the end is that of the last expansion. -/
theorem blocks_done (h : Phases s run start settled loaded resettled expanded done) (hrun : Contained run)
    (hs : start.Sound) : done.module.blocks = (resettled.expand [] resettled.module.blocks).1 := by
  rw [forceCalls_module hrun (h.sound_expanded hrun hs) h.force,
    settle_module hrun (h.sound_expandBlocks hrun hs) h.expand]
  rfl

theorem separate_resettled (h : Phases s run start settled loaded resettled expanded done) (hrun : Contained run)
    (hs : start.Sound) (hseparate : start.arena.Separate start.module.blocks) :
    resettled.arena.Separate resettled.module.blocks := by
  have hloaded := h.sound_loaded hrun hs
  obtain ⟨-, -, hkept⟩ := loadModules_keeps h.load
  rw [settle_module hrun hloaded h.resettle]
  exact (hkept (h.separate_settled hrun hs hseparate)).keepsModule hloaded.well hloaded.blocks
    (settle_keepsOwn hrun hloaded h.resettle)

end Phases

/-- What has become at the end of a block that is called: it is listed still, or its `for_each` has been evaluated
after it was called, and its instances, which are not called, are listed instead. -/
inductive Ends (loaded done : ModuleRun) (id : BlockId) : Prop where
  | listed (h : id ∈ done.module.blocks) : Ends loaded done id
  | replaced (moment : Arena) (instances : List BlockId) (hplain : (done.arena.block id).expanded = false)
      (hattr : ((done.arena.block id).attribute? "for_each").isSome)
      (hbefore : Arena.Changes (fun _ => True) loaded.arena moment)
      (hexpanded : Arena.Expanded moment done.arena done.root .forEach id instances)
      (hlisted : instances ⊆ done.module.blocks) (huncalled : ∀ m ∈ instances, m ∉ done.calls.map ModuleCall.block)
      (hgone : id ∉ done.module.blocks) : Ends loaded done id

theorem Phases.ends {settled resettled : ModuleRun}
    (h : Phases s run start settled loaded resettled expanded done) (hrun : Contained run) (hs : start.Sound)
    (hcalls : start.calls = []) (hseparate : start.arena.Separate start.module.blocks)
    (hcalled : id ∈ done.calls.map ModuleCall.block) : Ends loaded done id := by
  have hloaded := h.sound_loaded hrun hs
  have hresettled := h.sound_resettled hrun hs
  have hresettle := settle_advances hrun hloaded (.all loaded) h.resettle
  obtain ⟨hsub, hopened⟩ := h.blocks_loaded hrun hs hcalls
  have hsame := blocks_of_later (h.finished hrun hs).1
  rw [hsame] at hcalled
  have hin : id ∈ resettled.module.blocks := settle_module hrun hloaded h.resettle ▸ hsub.subset hcalled
  obtain ⟨call, hcall, rfl⟩ := List.mem_map.mp hcalled
  obtain ⟨hmade, hkind⟩ := hopened call hcall
  have hhas := hloaded.blocks _ (hsub.subset hcalled)
  have hkindThen := ((settle_keepsOwn hrun hloaded h.resettle).kind _ hhas.1 hhas).trans hkind
  have hstays := hresettled.expand_stays [] (List.Subset.refl _) (h.separate_resettled hrun hs hseparate) hin
    hkindThen
  rw [← h.blocks_done hrun hs] at hstays
  have hplainBefore {flag : Bool} (hflag : (resettled.arena.block call.block).expanded = flag) :
      (loaded.arena.block call.block).expanded = flag := (hresettle.changes.expanded_eq hhas.1).symm.trans hflag
  cases hstays with
  | expanded _ stays => exact .listed stays
  | unasked _ _ _ _ _ stays => exact .listed stays
  | counted hplain hcount _ =>
    have hnone := h.count_loaded hrun hs hseparate hmade (hplainBefore hplain)
    rw [Block.attribute?, hresettle.changes.attributes_eq hhas.1, ← Block.attribute?, hnone] at hcount
    cases hcount
  | repeated hplain _ moment instances hbefore hexpanded hlisted hgone =>
    have hexpand := (expand_advances hresettled (.all resettled) (List.nil_subset _)
      (List.Subset.refl resettled.module.blocks)).1
    have hdone := h.advances_done hrun hs
    have hlater := (dynamics_changes hresettled (.all resettled)).trans hdone.changes
    have hroot : done.root = resettled.root := hdone.root
    have hall := hresettle.changes.trans (hexpand.changes.trans hlater)
    have hplainDone := (hall.expanded_eq hhas.1).trans (hplainBefore hplain)
    have hattr := hexpanded.isSome_attribute?
    rw [Repetition.name, Block.attribute?, (hresettle.changes.trans hbefore).attributes_eq hhas.1,
      ← hall.attributes_eq hhas.1, ← Block.attribute?] at hattr
    refine .replaced moment instances hplainDone hattr (hresettle.changes.trans hbefore)
      (hroot ▸ hexpanded.changes hexpand.sound.well hlater) hlisted (fun m hm hmem => ?_) hgone
    -- Instances are new, so that only the block itself could be called.
    rw [hsame] at hmem
    have hlt := (hloaded.blocks m (hsub.subset hmem)).1
    have hltThen := Nat.lt_of_lt_of_le hlt (hresettle.changes.trans hbefore).size_blocks_le
    by_cases hother : m = call.block
    · exact hgone (hother ▸ hlisted hm)
    · exact hexpanded.not_mem hltThen hother hm

/-! ## Modules by their callers -/

namespace Phases

variable {settled resettled : ModuleRun}

theorem caller_done (h : Phases s run start settled loaded resettled expanded done) (hrun : Contained run)
    (hs : start.Sound) : done.module.caller = start.module.caller := by
  have hload := h.load
  rw [loadModules_eq] at hload
  have hloaded : loaded.module.caller = settled.module.caller := by
    rw [loadCalls_module hload, expandCalls, List.partition_eq_filter_filter]
    rfl
  have hblocks : resettled.expandBlocks.module.caller = resettled.module.caller := rfl
  rw [forceCalls_module hrun (h.sound_expanded hrun hs) h.force,
    settle_module hrun (h.sound_expandBlocks hrun hs) h.expand, hblocks,
    settle_module hrun (h.sound_loaded hrun hs) h.resettle, hloaded, settle_module hrun hs h.settle]

theorem advances (h : Phases s run start settled loaded resettled expanded done) (hrun : Contained run)
    (hs : start.Sound) : Advances (fun _ => True) start done := by
  have hexpanded := h.continues_expanded.advances hrun hs
  exact hexpanded.trans (forceCalls_advances hrun hexpanded.sound hexpanded.covers h.force)

/-- The modules of calls are newer than the run that opens them. -/
theorem root_new (h : Phases s run start settled loaded resettled expanded done) (hrun : Contained run)
    (hs : start.Sound) (hcalls : start.calls = []) :
    ∀ call ∈ done.calls, start.arena.scopes.size ≤ call.root := by
  let own (t : ScopeId) : Prop := t = start.root ∨ start.arena.scopes.size ≤ t
  have hcovers : Covers own start := ⟨.inl rfl, by simp [hcalls], fun t ht => .inr ht⟩
  have hsettled := settle_advances hrun hs hcovers h.settle
  have hloaded := hsettled.trans (loadModules_advances hsettled.sound hsettled.covers h.load)
  intro later hlater
  obtain ⟨call, hcall, hone⟩ := exists_of_mem_later (h.finished hrun hs).1 hlater
  rw [hone.root]
  refine (hloaded.covers.calls call hcall (h.open_loaded hrun hs hcalls call hcall)).resolve_left fun heq => ?_
  exact (hloaded.sound.calls call hcall).apart (heq.trans hloaded.root.symm)

end Phases

/-- The modules that an evaluation gives: its own comes first, and the others have been called by blocks of it or of
modules that are newer. -/
structure GivesModules (start : ModuleRun) (modules : List ModuleInstance) (done : ModuleRun) : Prop where
  split : ∃ below, modules = done.module :: below ∧ ∀ m ∈ below, ∃ id t, m.caller = some id
    ∧ done.arena.Has t id ∧ (t = start.root ∨ start.arena.scopes.size ≤ t)
  caller : done.module.caller = start.module.caller

/-- What a finished call gives: its own module, called by its block, and others that have been called by blocks of
modules that are no older. -/
structure GivesBelow (done : ModuleRun) (call : ModuleCall) (modules : List ModuleInstance) : Prop where
  split : ∃ own below, modules = own :: below ∧ own.caller = some call.block
    ∧ ∀ m ∈ below, ∃ id t, m.caller = some id ∧ done.arena.Has t id ∧ call.root ≤ t

theorem Phases.givesBelow {settled resettled : ModuleRun}
    (h : Phases s run start settled loaded resettled expanded done) (hrun : Contained run) (hs : start.Sound)
    (hcalls : start.calls = [])
    (hgives : ∀ start modules done, start.Sound → start.calls = [] → run start = .ok (modules, done) →
      GivesModules start modules done) (hcall : call ∈ done.calls) :
    ∃ result, call.result = some result ∧ GivesBelow done call result.modules := by
  obtain ⟨result, hresult⟩ := Option.isSome_iff_exists.mp ((h.finished hrun hs).2 call hcall)
  obtain ⟨earlier, force, mid, child, hearlier, hone⟩ := h.started hrun hs hcalls call hcall result hresult
  obtain ⟨modules, hchild, hmodules⟩ := hone.gives
  obtain rfl := Option.some.inj (hresult.symm.trans hmodules)
  have hstarted := (hearlier.1.sound hrun hs).started hrun hone.starts
  have hsound : (mid.started s call).Sound := hstarted
  obtain ⟨⟨below, hsplit, hbelow⟩, hcaller⟩ := hgives _ _ _ hsound rfl hchild
  have hwell := (hrun _ _ _ hsound rfl hchild).1.wellFormed hsound.well
  refine ⟨_, hresult, child.module, below, hsplit, hcaller, fun m hm => ?_⟩
  obtain ⟨id, t, hid, hhas, ht⟩ := hbelow m hm
  refine ⟨id, t, hid, hhas.changes hwell hone.frozen, ?_⟩
  rcases ht with rfl | ht
  · exact Nat.le_refl _
  · exact Nat.le_trans (Nat.le_of_lt hsound.root_lt) ht

theorem Phases.givesModules {settled resettled : ModuleRun}
    (h : Phases s run start settled loaded resettled expanded done) (hrun : Contained run) (hs : start.Sound)
    (hcalls : start.calls = [])
    (hgives : ∀ start modules done, start.Sound → start.calls = [] → run start = .ok (modules, done) →
      GivesModules start modules done) : GivesModules start done.modules done := by
  have hadvances := h.advances hrun hs
  refine ⟨⟨_, rfl, fun m hm => ?_⟩, h.caller_done hrun hs⟩
  obtain ⟨call, hcall, hm⟩ := List.mem_flatMap.mp hm
  obtain ⟨result, hresult, ⟨own, below, hsplit, hcaller, hbelow⟩⟩ := h.givesBelow hrun hs hcalls hgives hcall
  rw [hresult, Option.map_some, Option.getD_some, hsplit] at hm
  rcases List.mem_cons.mp hm with rfl | hm
  · exact ⟨call.block, done.root, hcaller, (hadvances.sound.calls call hcall).caller, .inl hadvances.root⟩
  · obtain ⟨id, t, hid, hhas, ht⟩ := hbelow m hm
    exact ⟨id, t, hid, hhas, .inr (Nat.le_trans (h.root_new hrun hs hcalls call hcall) ht)⟩

/-- However deeply calls are nested. -/
theorem givesModules_of_evaluateUpTo (hs : start.Sound) (hcalls : start.calls = [])
    (h : evaluateUpTo s d start = .ok (modules, done)) : GivesModules start modules done := by
  induction d generalizing start modules done with
  | zero => cases h
  | succ d ih =>
    obtain ⟨settled, loaded, resettled, expanded, hphases, rfl⟩ := exists_phases h
    exact hphases.givesModules (contained_evaluateUpTo s d) hs hcalls fun _ _ _ hs hcalls h => ih hs hcalls h

/-! ## Whole evaluations -/

theorem Sound.started_changes (hs : r.Sound) (hrun : Contained run) (h : Starts s run force r mid call) :
    Arena.Changes (fun _ => True) r.arena (mid.started s call).arena := by
  obtain ⟨before, after, done, hcalls, heach⟩ := h.reached
  have hsub : before ⊆ r.calls := hcalls ▸ List.subset_append_left _ _
  have hmem : call ∈ r.calls := hcalls ▸ List.mem_append_right _ List.mem_cons_self
  have hmid := (evaluateEach_changes hrun hs hsub heach).1.mono (Q := fun _ => True) fun _ _ => trivial
  let b := mid.arena.block call.block
  have hnoted : Arena.Changes (fun _ => True) mid.arena (mid.noting [(b, inputAttributes b)]).arena :=
    .single (.record _ _ rfl)
  have hall := hmid.trans hnoted
  have hin := (hs.calls call hmem).changes hs.well hall
  exact hall.trans (start_changes s _ _ _ (hall.wellFormed hs.well) hin.top hin.blocks trivial)

/-- The block that calls a module is one of another module. -/
theorem Begins.caller_apart (h : Begins s d start) (hcaller : start.module.caller = some id) :
    ∃ t, t ≠ start.root ∧ start.arena.Has t id := by
  cases h with
  | root inputs files => cases hcaller
  | @child d r mid call hr force hstarts =>
    obtain rfl : call.block = id := Option.some.inj hcaller
    obtain ⟨before, after, done, hcalls, -⟩ := hstarts.reached
    have hin := hr.sound.calls call (hcalls ▸ List.mem_append_right _ List.mem_cons_self)
    exact ⟨r.root, hin.apart.symm, hin.caller.changes hr.sound.well
      (hr.sound.started_changes (contained_evaluateUpTo s _) hstarts)⟩

theorem countP_flatMap_callers {calls : List ModuleCall} {f : ModuleCall → List ModuleInstance}
    (h : ∀ call ∈ calls, (f call).countP (fun m => m.caller == some id) = if call.block = id then 1 else 0) :
    (calls.flatMap f).countP (fun m => m.caller == some id) = (calls.map ModuleCall.block).count id := by
  induction calls with
  | nil => rfl
  | cons call calls ih =>
    obtain ⟨hfirst, hrest⟩ := List.forall_mem_cons.mp h
    rw [List.flatMap_cons, List.countP_append, hfirst, ih hrest, List.map_cons, List.count_cons, Nat.add_comm]
    simp

/-- No block is called twice. -/
theorem Begins.nodup_called {settled resettled : ModuleRun} (h : Begins s d start)
    (hphases : Phases s (evaluateUpTo s d) start settled loaded resettled expanded done) :
    (done.calls.map ModuleCall.block).Nodup := by
  have hrun := contained_evaluateUpTo s d
  have hs := h.reached.sound
  rw [blocks_of_later (hphases.finished hrun hs).1]
  have hsub := (hphases.blocks_loaded hrun hs h.calls_eq).1
  obtain ⟨-, -, hkept⟩ := loadModules_keeps hphases.load
  exact (hkept (hphases.separate_settled hrun hs h.separate)).nodup.sublist hsub

/-- A block of the module is the caller of one module for each time that it is called. -/
theorem Begins.countP_callers {settled resettled : ModuleRun} (h : Begins s d start)
    (hphases : Phases s (evaluateUpTo s d) start settled loaded resettled expanded done)
    (hid : done.arena.Has done.root id) :
    done.modules.countP (fun m => m.caller == some id) = (done.calls.map ModuleCall.block).count id := by
  have hrun := contained_evaluateUpTo s d
  have hs := h.reached.sound
  have hadvances := hphases.advances hrun hs
  have hown : (done.module.caller == some id) = false := by
    rw [hphases.caller_done hrun hs, beq_eq_false_iff_ne]
    intro hcaller
    obtain ⟨t, hapart, hhas⟩ := h.caller_apart hcaller
    have hhome := (hhas.changes hs.well hadvances.changes).2
    exact hapart (hhome.symm.trans (hid.2.trans hadvances.root))
  rw [ModuleRun.modules, List.countP_cons, hown, if_neg Bool.false_ne_true, Nat.add_zero]
  refine countP_flatMap_callers fun call hcall => ?_
  obtain ⟨result, hresult, ⟨own, below, hsplit, hcaller, hbelow⟩⟩ :=
    hphases.givesBelow hrun hs h.calls_eq (fun _ _ _ => givesModules_of_evaluateUpTo) hcall
  have hnone : below.countP (fun m => m.caller == some id) = 0 := by
    rw [List.countP_eq_zero]
    intro m hm
    obtain ⟨other, t, hother, hhas, ht⟩ := hbelow m hm
    rw [hother, beq_iff_eq, Option.some.injEq]
    rintro rfl
    have hroot : t = done.root := hhas.2.symm.trans hid.2
    have hnew := hphases.root_new hrun hs h.calls_eq call hcall
    rw [hroot, hadvances.root] at ht
    exact Nat.lt_irrefl _ (Nat.lt_of_lt_of_le hs.root_lt (Nat.le_trans hnew ht))
  rw [hresult, Option.map_some, Option.getD_some, hsplit, List.countP_cons, hnone, hcaller, Nat.zero_add]
  simp

/-- What the blocks of a module and the modules that they call have to do with each other at the end. -/
structure Corresponds (s : Session) (run : Evaluate) (start : ModuleRun) (modules : List ModuleInstance)
    (done : ModuleRun) : Prop where
  called : ∀ m ∈ modules.tail, m.caller.isSome
  distinct : (done.calls.map ModuleCall.block).Nodup
  callers : ∀ id, done.arena.Has done.root id →
    modules.countP (fun m => m.caller == some id) = (done.calls.map ModuleCall.block).count id
  ends : ∃ settled loaded resettled expanded, Phases s run start settled loaded resettled expanded done
    ∧ ∀ id ∈ done.calls.map ModuleCall.block, Ends loaded done id
  kept : ∀ id ∈ done.calls.map ModuleCall.block, (done.arena.block id).expanded = true
    ∨ (done.arena.block id).attribute? "for_each" = none → id ∈ done.module.blocks

/-- At the end of an evaluation, each block that is called is the caller of one module, and no other block of the
module is the caller of any. A block that is called is listed still, unless its `for_each` was evaluated only after
it was called. -/
theorem evaluateWith_corresponds (h : Begins s d start)
    (heval : evaluateWith s (evaluateUpTo s d) start = .ok (modules, done)) :
    Corresponds s (evaluateUpTo s d) start modules done := by
  have hrun := contained_evaluateUpTo s d
  have hs := h.reached.sound
  obtain ⟨settled, loaded, resettled, expanded, hphases, rfl⟩ := exists_phases heval
  have hends (id : BlockId) (hid : id ∈ done.calls.map ModuleCall.block) : Ends loaded done id :=
    hphases.ends hrun hs h.calls_eq h.separate hid
  refine ⟨fun m hm => ?_, h.nodup_called hphases, fun id hid => h.countP_callers hphases hid,
    ⟨_, _, _, _, hphases, hends⟩, fun id hid hfixed => ?_⟩
  · have hmodules := hphases.givesModules hrun hs h.calls_eq fun _ _ _ => givesModules_of_evaluateUpTo
    obtain ⟨below, hsplit, hbelow⟩ := hmodules.split
    rw [hsplit] at hm
    obtain ⟨id, -, hcaller, -⟩ := hbelow m hm
    rw [hcaller]
    rfl
  · cases hends id hid with
    | listed hlisted => exact hlisted
    | replaced moment instances hplain hattr =>
      rcases hfixed with hexpanded | hnone
      · rw [hexpanded] at hplain
        cases hplain
      · rw [hnone] at hattr
        cases hattr

/-- A call that is repeated for a list of the outputs of another call. -/
def repeatedLater : List SourceFile :=
  let source : Attribute := ⟨"source", .text "./c", default⟩
  [⟨"main.tf", "", [
    .node "module" ["a"] [source] [] default,
    .node "module" ["b"]
      [source, ⟨"for_each", .list [.traversal (.variable "module") [.attribute "a"]], default⟩] [] default]⟩]

/-- Here a block that is called is no longer listed in the end. -/
theorem evaluateWith_corresponds_repeatedLater :
    let s : Session := ⟨constantOutput, "/", "default", false, 6, []⟩
    let r := Project.rootRun s [] repeatedLater
    ∃ modules done, Begins s 999 r ∧ evaluateWith s (evaluateUpTo s 999) r = .ok (modules, done)
      ∧ (∃ id ∈ done.calls.map ModuleCall.block, id ∉ done.module.blocks)
      ∧ Corresponds s (evaluateUpTo s 999) r modules done := by
  intro s r
  have hcheck : (evaluateWith s (evaluateUpTo s 999) r).toOption.any (fun (_, done) =>
      (done.calls.map ModuleCall.block).any fun id => !done.module.blocks.contains id) = true := by
    decide +kernel
  obtain ⟨⟨modules, done⟩, hdone, hany⟩ := (Option.any_eq_true _ _).mp hcheck
  obtain ⟨id, hid, hgone⟩ := List.any_eq_true.mp hany
  have hbegins : Begins s 999 r := .root [] repeatedLater
  have heval := eq_ok_of_toOption hdone
  exact ⟨modules, done, hbegins, heval, ⟨id, hid, by simpa using hgone⟩, evaluateWith_corresponds hbegins heval⟩

end ModuleRun

end InfraConfig
