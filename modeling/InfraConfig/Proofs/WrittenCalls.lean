import InfraConfig.Proofs.NestedEvaluations
import InfraConfig.Proofs.PlainModules

/-!
# Calls as they are written

The blocks of an evaluator are those that are written in its directory, or instances of them. So what it calls is
written there too, and it calls it by one of finitely many names, unless the call is repeated by a `for_each`.
-/

namespace InfraConfig

namespace Expr

/-- The text that an expression is written as. -/
def written? : Expr → Option String
  | .text written => some written
  | _ => none

/-- The texts that an expression may come to: one that is written as a text comes to no other. -/
def MayGive (e : Expr) (text : String) : Prop :=
  ∀ written ∈ e.written?, text = written

instance (e : Expr) (text : String) : Decidable (e.MayGive text) :=
  inferInstanceAs (Decidable (∀ written ∈ e.written?, text = written))

theorem eq_text_of_written {e : Expr} {written : String} (h : written ∈ e.written?) : e = .text written := by
  cases e with
  | text value => exact congrArg Expr.text (Option.some.inj h)
  | _ => cases h

end Expr

namespace Arena

variable {a b : Arena} {id made : BlockId} {w : Block}

theorem evaluate_text (scope : ScopeId) (written : String) : a.evaluate scope (.text written) = .ok (.text written) := by
  rw [evaluate, Expr.evalWithFiles, Expr.inlineFiles, Expr.eval]
  rfl

theorem value_of_text {attr : Attribute} {written : String} (h : attr.value = .text written) (b : Block) :
    a.value b attr = .text written := by
  rw [value, h, evaluate_text]
  rfl

theorem mayGive_of_value {attr : Attribute} {b : Block} {text : String} (h : (a.value b attr).text? = some text) :
    attr.value.MayGive text := by
  intro written hwritten
  rw [value_of_text (Expr.eq_text_of_written hwritten)] at h
  exact (Option.some.inj h).symm

/-! ## Blocks with the text of others -/

/-- A block has the attributes of another and, as long as it is called by any, its names. -/
structure HasText (b w : Block) : Prop where
  attributes : b.attributes = w.attributes
  names : b.names = w.names ∨ b.labels = []

theorem HasText.keeps (h : HasText (a.block id) w) (hid : id < a.blocks.size) (hab : KeepsText a b) :
    HasText (b.block id) w := by
  refine ⟨(Block.attributes_of_fixed (hab.fixed id hid)).trans h.attributes, ?_⟩
  rcases hab.names id hid with hsame | ⟨-, hnone⟩
  · exact h.names.imp hsame.trans (Block.labels_of_names hsame).trans
  · exact .inr hnone

theorem hasText_insert (scope : ScopeId) (caller : Option BlockId) (a : Arena) (t : BlockTree) :
    (insert scope caller a t).1 < (insert scope caller a t).2.blocks.size
      ∧ HasText ((insert scope caller a t).2.block (insert scope caller a t).1) t.block := by
  obtain ⟨kind, labels, attributes, children, range⟩ := t
  rw [insert]
  dsimp only
  rw [push_fst, block_push, if_pos rfl]
  exact ⟨by simp, rfl, .inl rfl⟩

theorem hasText_insertAll (scope : ScopeId) (caller : Option BlockId) (a : Arena) (trees : List BlockTree) :
    ∀ id ∈ (insertAll scope caller a trees).1, id < (insertAll scope caller a trees).2.blocks.size
      ∧ ∃ w ∈ trees.map BlockTree.block, HasText ((insertAll scope caller a trees).2.block id) w := by
  induction trees generalizing a with
  | nil => simp [insertAll]
  | cons t trees ih =>
    intro id hid
    obtain ⟨hlt, hfirst⟩ := hasText_insert scope caller a t
    have hext := extends_insertAll scope caller trees (insert scope caller a t).2
    rw [insertAll] at hid ⊢
    rcases List.mem_cons.mp hid with rfl | hid
    · refine ⟨Nat.lt_of_lt_of_le hlt hext.size, t.block, List.mem_cons_self, ?_⟩
      exact hfirst.keeps hlt (.ofExtends hext)
    · obtain ⟨hltRest, w, hw, hrest⟩ := ih _ id hid
      exact ⟨hltRest, w, List.mem_cons_of_mem _ hw, hrest⟩

/-- The blocks of files have the texts that are written there. -/
theorem hasText_insertFiles (scope : ScopeId) (caller : Option BlockId) (a : Arena) (files : List SourceFile) :
    ∀ id ∈ (insertFiles scope caller a files).1, id < (insertFiles scope caller a files).2.blocks.size
      ∧ ∃ w ∈ writtenBlocks files, HasText ((insertFiles scope caller a files).2.block id) w := by
  induction files generalizing a with
  | nil => simp [insertFiles]
  | cons file files ih =>
    intro id hid
    let mid := (insertAll scope caller a file.blocks).2.addSource file.path file.text
    have hext := extends_insertFiles scope caller files mid
    rw [insertFiles] at hid ⊢
    rw [writtenBlocks, List.flatMap_cons, List.map_append]
    rcases List.mem_append.mp hid with hid | hid
    · obtain ⟨hlt, w, hw, hfirst⟩ := hasText_insertAll scope caller a file.blocks id hid
      have hmid : id < mid.blocks.size ∧ HasText (mid.block id) w := ⟨hlt, hfirst⟩
      exact ⟨Nat.lt_of_lt_of_le hlt hext.size, w, List.mem_append_left _ hw, hmid.2.keeps hmid.1 (.ofExtends hext)⟩
    · obtain ⟨hlt, w, hw, hrest⟩ := ih mid id hid
      exact ⟨hlt, w, List.mem_append_right _ hw, hrest⟩

end Arena

namespace Block

/-- The names by which a block or its instances are called, if it has no `for_each`. -/
def IsCalled (w : Block) (names : BlockKind × List String) : Prop :=
  names = w.names
    ∨ ∃ i : Nat, i < int32Limit ∧ names = (w.kind, Arena.extendLabel w.labels (InstanceKey.index i).text)

end Block

namespace Arena

variable {a b : Arena} {id made : BlockId} {w : Block}

/-- What stands for a block is called by one of its names, unless the block has a `for_each`. -/
theorem StandsFor.isCalled (h : StandsFor a b id made) (htext : HasText (a.block id) w) (hid : id < a.blocks.size)
    (hab : KeepsText a b) (hlabels : (b.block made).labels ≠ []) :
    (b.block made).kind = w.kind ∧ ((w.attribute? "for_each").isSome ∨ w.IsCalled (b.block made).names) := by
  have hasked : w.attribute? "for_each" = (a.block id).attribute? "for_each" := by
    rw [Block.attribute?, Block.attribute?, htext.attributes]
  rcases h.origin with rfl | ⟨-, hmade⟩
  · have hsame := (htext.keeps hid hab).names.resolve_right hlabels
    exact ⟨Block.kind_of_names hsame, .inr (.inl hsame)⟩
  · obtain ⟨key, hkey, hnames⟩ := hmade.names.resolve_right fun hnone => hlabels hnone.2
    have hlast : (b.block made).labels = extendLabel (a.block id).labels key.text := congrArg Prod.snd hnames
    have hsame : (a.block id).names = w.names := htext.names.resolve_right fun hnone => hlabels (by
      rw [hlast, hnone, extendLabel_nil])
    rw [hnames, Block.kind_of_names hsame, Block.labels_of_names hsame]
    refine ⟨(congrArg Prod.fst hnames).trans (Block.kind_of_names hsame), ?_⟩
    rw [hasked]
    rcases hmade.indexed with heach | ⟨i, hi, hindex⟩
    · exact .inl heach
    · rw [Option.some.inj (hkey.symm.trans hindex)]
      exact .inr (.inr ⟨i, hi, rfl⟩)

end Arena

namespace ModuleRun

variable {s : Session} {run : Evaluate} {start child r mid next : ModuleRun} {call : ModuleCall} {id : BlockId}
  {w : Block} {p q : String}

/-! ## What is written -/

/-- A block that is written in a directory. -/
def IsWritten (s : Session) (dir : String) (w : Block) : Prop :=
  ∃ files, s.loader.loadDirectory dir s.stopOnError = .ok files ∧ w ∈ writtenBlocks files

/-- A module block in a directory that may call another, by what is written of its source. -/
structure MayLead (s : Session) (dir : String) (w : Block) (path : String) : Prop where
  kind : w.kind = .module
  source : ∃ attr source, w.attribute? "source" = some attr ∧ attr.value.MayGive source
    ∧ moduleDirectory? s.installed s.root dir source = some path

/-- A directory may call another. -/
def MayCall (s : Session) (p q : String) : Prop :=
  ∃ w, IsWritten s p w ∧ MayLead s p w q

/-- A directory may call another for each element of a collection. -/
def MayRepeat (s : Session) (p q : String) : Prop :=
  ∃ w, IsWritten s p w ∧ MayLead s p w q ∧ (w.attribute? "for_each").isSome

/-- How a call of a directory is remembered, by the names of the block that calls it. -/
def visitOf (path : String) (names : BlockKind × List String) : VisitedModule :=
  ⟨joinText "." names.2, path, (Reference.ofBlock names.1.name names.2).text⟩

theorem Calling.visit_eq {a : Arena} (h : Calling a call) :
    visit a call = visitOf call.path (a.block call.block).names := by
  rw [visit, visitOf, ← h.label]
  rfl

/-! ## What an evaluator calls -/

/-- An evaluator whose blocks are written in its directory. -/
def Written (s : Session) (start : ModuleRun) : Prop :=
  ∀ id ∈ start.module.blocks, ∃ w, IsWritten s start.module.path w ∧ Arena.HasText (start.arena.block id) w

theorem written_rootRun {files : List SourceFile} (inputs : Entries Value)
    (h : s.loader.loadDirectory s.root s.stopOnError = .ok files) : Written s (Project.rootRun s inputs files) := by
  intro id hid
  obtain ⟨hlt, w, hw, htext⟩ := Arena.hasText_insertFiles _ none _ files id hid
  exact ⟨w, ⟨files, h, hw⟩, htext.keeps hlt (keepsText_start s _ _ _ _ _)⟩

/-- An evaluator after some steps: its blocks stand for those that it had before. -/
structure Succeeds (r next : ModuleRun) : Prop where
  kept : r.arena.KeepsText next.arena
  stands : ∀ made ∈ next.module.blocks, ∃ id ∈ r.module.blocks, Arena.StandsFor r.arena next.arena id made

theorem Succeeds.trans (h : Succeeds start r) (k : Succeeds r next)
    (hlt : ∀ id ∈ start.module.blocks, id < start.arena.blocks.size) : Succeeds start next := by
  refine ⟨h.kept.trans k.kept, fun made hmade => ?_⟩
  obtain ⟨mid, hmid, hlast⟩ := k.stands made hmade
  obtain ⟨id, hid, hfirst⟩ := h.stands mid hmid
  exact ⟨id, hid, hfirst.trans hlast (hlt id hid) h.kept k.kept⟩

/-- Steps that leave the list of blocks. -/
theorem Sound.succeeds (hs : r.Sound) (hkept : r.arena.KeepsText next.arena)
    (hblocks : next.module.blocks = r.module.blocks) : Succeeds r next := by
  refine ⟨hkept, fun made hmade => ?_⟩
  rw [hblocks] at hmade
  exact ⟨made, hmade, Nat.lt_of_lt_of_le (hs.blocks made hmade).1 hkept.size, .inl rfl⟩

theorem loadModules_succeeds (hs : r.Sound) (h : loadModules s r = .ok next) : Succeeds r next := by
  have hkept := loadModules_keepsText h
  rw [loadModules_eq] at h
  let isCall (id : BlockId) : Bool := (r.arena.block id).kind == .module
  have hblocks : next.module.blocks = r.module.blocks.filter (not ∘ isCall) ++ r.expandCalls.1 := by
    rw [loadCalls_module h, expandCalls, List.partition_eq_filter_filter]
    rfl
  refine ⟨hkept, fun made hmade => ?_⟩
  rw [hblocks] at hmade
  rcases List.mem_append.mp hmade with hother | hcalled
  · have hin := (List.mem_filter.mp hother).1
    exact ⟨made, hin, Nat.lt_of_lt_of_le (hs.blocks made hin).1 hkept.size, .inl rfl⟩
  · obtain ⟨-, id, hid, -, hstands⟩ := hs.expandCalls.2 made hcalled
    exact ⟨id, hid, hstands.later (loadCalls_keepsText h)⟩

theorem Sound.expandBlocks_succeeds (hs : r.Sound) : Succeeds r r.expandBlocks := by
  refine ⟨expandBlocks_keepsText r, fun made hmade => ?_⟩
  obtain ⟨id, hid, hstands⟩ := stands_expand hs [] (List.Subset.refl r.module.blocks) made hmade
  exact ⟨id, hid, hstands.later (.foldl (fun a id => Arena.keepsText_expandDynamicUpTo _ _ a id) _ _)⟩

/-- All blocks of an evaluator stand for blocks that it has begun with. -/
theorem Continues.succeeds (hrun : Contained run) (htexts : KeepsTexts run) (hs : start.Sound)
    (h : Continues s run start r) : Succeeds start r := by
  have hlt (id : BlockId) (hid : id ∈ start.module.blocks) : id < start.arena.blocks.size := (hs.blocks id hid).1
  induction h with
  | start => exact hs.succeeds (.refl _) rfl
  | @bind q hq ih =>
    have hbinds := Rebinds.bindBlocks q
    exact ih.trans ((hq.sound hrun hs).succeeds (.ofBlocks hbinds.blocks) (congrArg ModuleInstance.blocks hbinds.module)) hlt
  | calls hq force hcalls ih =>
    have hsound := hq.sound hrun hs
    have hmodule := evaluateCalls_module hrun hsound hcalls
    exact ih.trans (hsound.succeeds (evaluateCalls_keepsText htexts hcalls) (congrArg ModuleInstance.blocks hmodule)) hlt
  | read hq ih => exact ih.trans ((hq.sound hrun hs).succeeds (.ofBlocks rfl) rfl) hlt
  | load hq hload ih => exact ih.trans (loadModules_succeeds (hq.sound hrun hs) hload) hlt
  | expand hq ih => exact ih.trans (hq.sound hrun hs).expandBlocks_succeeds hlt

theorem Calling.labels_ne_nil {a : Arena} (h : Calling a call) : (a.block call.block).labels ≠ [] :=
  labels_ne_nil_of_label (h.label ▸ h.named)

/-- What is written of a call: the block that calls, which may lead to the directory of the call, and the name by
which the call is remembered. -/
structure Describes (s : Session) (start : ModuleRun) (a : Arena) (call : ModuleCall) (w : Block) : Prop where
  isWritten : IsWritten s start.module.path w
  mayLead : MayLead s start.module.path w call.path
  named : (w.attribute? "for_each").isSome ∨ ∃ names, w.IsCalled names ∧ visit a call = visitOf call.path names

/-- Every call of an evaluator is described by a block that is written in its directory. -/
theorem Continues.exists_describes (hrun : Contained run) (htexts : KeepsTexts run) (hs : start.Sound)
    (hcalls : start.calls = []) (hwritten : Written s start) (h : Continues s run start r) (hcall : call ∈ r.calls) :
    ∃ w, Describes s start r.arena call w := by
  obtain ⟨earlier, id, hopened⟩ := h.exists_openedEarlier hrun htexts hs hcalls hcall
  obtain rfl := hopened.block
  obtain ⟨target, hleads, hpath⟩ := hopened.leadsTo
  have hearlier := hopened.continues
  obtain ⟨-, mid, hmid, -, hlast⟩ := (hearlier.sound hrun hs).expandCalls.2 call.block hopened.mem
  obtain ⟨first, hfirst, hstands⟩ := (hearlier.succeeds hrun htexts hs).stands mid hmid
  obtain ⟨w, hw, htext⟩ := hwritten first hfirst
  have hlt := (hs.blocks first hfirst).1
  have hkept := (hearlier.keepsText htexts).trans (expandCalls_keepsText earlier)
  have hmade := hstands.trans hlast hlt (hearlier.keepsText htexts) (expandCalls_keepsText earlier)
  have hcalling := (h.tracks hrun htexts hs hcalls).calling call hcall
  obtain ⟨hkind, hnamed⟩ := (hmade.later hopened.kept).isCalled htext hlt (hkept.trans hopened.kept)
    hcalling.labels_ne_nil
  refine ⟨w, hw, ⟨hkind.symm.trans hcalling.kind, ?_⟩, hnamed.imp_right fun hcalled => ⟨_, hcalled, hcalling.visit_eq⟩⟩
  obtain ⟨attr, source, hattr, hsource, hdirectory⟩ := hleads.source
  have hattributes := (hmade.attributes hlt hkept).trans htext.attributes
  rw [Block.attribute?, hattributes] at hattr
  have hstays := hearlier.path hrun hs
  have hsame : earlier.expandCalls.2.module.path = earlier.module.path := rfl
  exact ⟨attr, source, hattr, Arena.mayGive_of_value hsource, by rw [← hpath, ← hdirectory, hsame, hstays]⟩

/-- What an evaluator is told by the one that has started it. -/
structure Told (s : Session) (start child : ModuleRun) : Prop where
  sound : child.Sound
  calls : child.calls = []
  written : Written s child
  visited : start.visited ⊆ child.visited
  called : ∃ w, IsWritten s start.module.path w ∧ MayLead s start.module.path w child.module.path
    ∧ ((w.attribute? "for_each").isSome ∨ ∃ names, w.IsCalled names
      ∧ visitOf child.module.path names ∉ start.visited ∧ visitOf child.module.path names ∈ child.visited)

theorem Child.told (hrun : Contained run) (htexts : KeepsTexts run) (hs : start.Sound) (hcalls : start.calls = [])
    (hwritten : Written s start) (h : Child s run start child) : Told s start child := by
  obtain ⟨hr, hstarts⟩ := h
  next r mid call force =>
  obtain ⟨before, after, done, hsplit, hbefore⟩ := id hstarts.reached
  have hcall : call ∈ r.calls := hsplit ▸ List.mem_append_right _ List.mem_cons_self
  have htracks := hr.tracks hrun htexts hs hcalls
  have hkept := evaluateEach_keepsText htexts hbefore
  have hperm := htracks.visited_perm htexts hsplit hbefore hstarts.isOpen
  have hvisit : visit mid.arena call = visit r.arena call := ((htracks.calling call hcall).keeps hkept).2
  have hstarted : (mid.started s call).Sound := (hr.sound hrun hs).started hrun hstarts
  obtain ⟨w, hw, hlead, hnamed⟩ := hr.exists_describes hrun htexts hs hcalls hwritten hcall
  refine ⟨hstarted, rfl, fun id hid => ?_, fun v hv => hperm.symm.subset (List.mem_append_left _ hv),
    w, hw, hlead, hnamed.imp_right fun ⟨names, hcalled, hnames⟩ => ⟨names, hcalled, ?_, ?_⟩⟩
  · obtain ⟨earlier, block, hopened⟩ := hr.exists_openedEarlier hrun htexts hs hcalls hcall
    obtain ⟨opened, hopening, hone⟩ := hopened.opened
    obtain ⟨target, files, hfiles, -, hpath, a, root, hblocks, hinserted⟩ := hopening.opening
    have hsame : call.blocks = opened.blocks ∧ call.path = opened.path := by
      rcases hone with rfl | ⟨-, result, rfl⟩ <;> exact ⟨rfl, rfl⟩
    have hblock : id ∈ (Arena.insertFiles root (some block) a files).1 := hblocks ▸ hsame.1 ▸ hid
    obtain ⟨hlt, written, hmem, htext⟩ := Arena.hasText_insertFiles root (some block) a files id hblock
    refine ⟨written, ⟨files, ?_, hmem⟩, htext.keeps hlt ((hinserted.trans hkept).trans (keepsText_started s mid call))⟩
    rw [path_started, hsame.2, hpath]
    exact (opening?_eq_some_iff.mp hfiles).2.2
  · have hfresh := htracks.fresh call hcall
    rwa [hnames] at hfresh
  · rw [path_started, ← hnames, ← hvisit, visited_started]
    exact List.mem_append_right _ (List.mem_singleton_self _)

end ModuleRun

end InfraConfig
