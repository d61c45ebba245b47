import InfraConfig.Proofs.CalledBlocks
import InfraConfig.Proofs.Turns
import Mathlib.Data.Option.Basic

/-!
# Rendered contents

When the blocks of a module are expanded, each of their dynamic blocks has its turn. Its contents are put into its
parent, one for each of the instances that stand for it, and they are there as long as the module is evaluated.
-/

namespace InfraConfig

namespace Arena

variable {P : ScopeId → Prop} {S : Nat → Prop} {a b moment final : Arena} {root : ScopeId} {id : BlockId}
  {made : List BlockId} {kind : Repetition}

/-! ## Instances and what is asked for -/

/-- The keys of instances, in order. -/
def instanceKeys (a : Arena) (made : List BlockId) : List (Option InstanceKey) :=
  made.map fun m => (a.block m).key

/-- An attribute of a block asks for instances with these keys. -/
def Asks (a : Arena) (kind : Repetition) (isDynamic : Bool) (id : BlockId) (keys : List (Option InstanceKey)) : Prop :=
  (a.keysAsked? kind isDynamic id).map (List.map some) = some keys

instance (a : Arena) (kind : Repetition) (isDynamic : Bool) (id : BlockId) (keys : List (Option InstanceKey)) :
    Decidable (a.Asks kind isDynamic id keys) :=
  inferInstanceAs (Decidable ((a.keysAsked? kind isDynamic id).map (List.map some) = some keys))

/-- The instances of a block that has been expanded at a moment. They are those that its attribute asked for then, and
those that it asks for in the end exactly if it asks for the same ones. -/
structure Repeated (moment final : Arena) (root : ScopeId) (kind : Repetition) (id : BlockId) (made : List BlockId) :
    Prop where
  expanded : Expanded moment final root kind id made
  asked : moment.Asks kind ((moment.block id).kind == .dynamic) id (final.instanceKeys made)
  agrees : final.Asks kind ((moment.block id).kind == .dynamic) id (final.instanceKeys made)
    ↔ final.keysAsked? kind ((moment.block id).kind == .dynamic) id
      = moment.keysAsked? kind ((moment.block id).kind == .dynamic) id

theorem Expanded.asks (h : Expanded moment final root kind id made) :
    moment.Asks kind ((moment.block id).kind == .dynamic) id (final.instanceKeys made) := by
  obtain ⟨keys, hkeys, hmade⟩ := h.asked
  have hsame : final.instanceKeys made = keys.map some := by
    rw [instanceKeys]
    exact List.forall₂_eq_eq_eq ▸ (List.forall₂_map_left_iff.mpr (hmade.flip.imp fun _ _ hm => hm.key))
  rw [Asks, hkeys, hsame]
  rfl

theorem Expanded.repeated (h : Expanded moment final root kind id made) :
    Repeated moment final root kind id made := by
  refine ⟨h, h.asks, ?_⟩
  have hthen := h.asks
  rw [Asks] at hthen ⊢
  rw [← hthen]
  have hinjective : Function.Injective (List.map (some : InstanceKey → Option InstanceKey)) :=
    List.map_injective_iff.mpr (Option.some_injective InstanceKey)
  exact (Option.map_injective hinjective).eq_iff

/-! ## What is inside copies -/

/-- A block that is there, with the blocks directly inside. -/
structure Whole (a : Arena) (id : BlockId) : Prop where
  lt : id < a.blocks.size
  inside : ∀ c : Nat, c ∈ a.inside id → c < a.blocks.size

theorem Adds.whole {x : BlockId} (h : Adds a b [x]) : Whole b x := by
  refine ⟨h.lt, fun c hc => ?_⟩
  cases h.row with
  | cons first others =>
    obtain ⟨low, -, hbounds⟩ := first.trees
    exact Nat.lt_trans (hbounds c hc).2 others.le

theorem Whole.keeps (h : Whole a id) (hab : Keeps (fun _ => True) a b) : Whole b id := by
  refine ⟨Nat.lt_of_lt_of_le h.lt hab.size, fun c hc => ?_⟩
  rw [hab.inside id h.lt trivial] at hc
  exact Nat.lt_of_lt_of_le (h.inside c hc) hab.size

/-- The kinds of the blocks directly inside a block. -/
def kindsInside (a : Arena) (id : BlockId) : List BlockKind :=
  (a.inside id).map fun c => (a.block c).kind

theorem isSome_childId? (a : Arena) (id : BlockId) (kind : String) :
    (a.childId? (a.block id) kind).isSome = (a.kindsInside id).any fun k => k.name == kind := by
  rw [childId?, kindsInside, List.isSome_find?, List.any_map]
  rfl

theorem kindsInside_congr (h : b.blocks = a.blocks) : b.kindsInside id = a.kindsInside id := by
  simp only [kindsInside, inside, block, h]

theorem Whole.kindsInside (h : Whole a id) (hab : Keeps (fun _ => True) a b) : b.kindsInside id = a.kindsInside id := by
  rw [Arena.kindsInside, Arena.kindsInside, hab.inside id h.lt trivial]
  exact List.map_congr_left fun c hc => hab.kind c (h.inside c hc) trivial

theorem kinds_copies (scope : ScopeId) (depth : Nat) {ids : List BlockId}
    (hids : ∀ c : Nat, c ∈ ids → c < a.blocks.size) :
    (mapThrough (copyUpTo scope depth) a ids).1.map
        (fun c => ((mapThrough (copyUpTo scope depth) a ids).2.block c).kind)
      = ids.map fun c => (a.block c).kind := by
  induction ids generalizing a with
  | nil => rfl
  | cons c ids ih =>
    have hfirst := extends_copyUpTo scope depth a c
    have hrest := extends_mapThrough (extends_copyUpTo scope depth) (copyUpTo scope depth a c).2 ids
    have hlt := (size_le_copyUpTo scope depth a c).2
    obtain ⟨children, hcopy⟩ := block_copyUpTo scope depth a c
    have hids' (x : Nat) (hx : x ∈ ids) : x < a.blocks.size := hids x (List.mem_cons_of_mem c hx)
    rw [mapThrough_cons, List.map_cons, List.map_cons]
    dsimp only
    rw [ih fun x hx => Nat.lt_of_lt_of_le (hids' x hx) hfirst.size, hrest.kept _ hlt, hcopy]
    congr 1
    exact List.map_congr_left fun x hx => congrArg Block.kind (hfirst.kept x (hids' x hx))

theorem Whole.kindsInside_copyTree (h : Whole a id) (scope : ScopeId) :
    (a.copyTree id scope).2.kindsInside (a.copyTree id scope).1 = a.kindsInside id := by
  obtain ⟨depth, hdepth⟩ := Nat.exists_eq_succ_of_ne_zero (Nat.ne_of_gt (Nat.zero_lt_of_lt h.lt))
  let loop := mapThrough (copyUpTo scope depth) a (a.block id).children
  have hkinds := kinds_copies (a := a) scope depth h.inside
  have hadds : Adds a loop.2 (loop.1.map fun c => c) := Adds.mapThrough fun b c _ _ => adds_copyUpTo scope depth b c
  rw [List.map_id'] at hadds
  obtain ⟨low, -, hbounds⟩ := hadds.row.trees
  rw [copyTree, hdepth, copyUpTo]
  change (loop.2.push _).2.kindsInside (loop.2.push _).1 = _
  rw [Arena.kindsInside, Arena.inside, push_fst, block_push, if_pos rfl]
  have hpush := Extends.push loop.2
    { a.block id with children := loop.1, scope, expanded := false, clones := 0, key := none }
  refine .trans (List.map_congr_left fun c hc => ?_) hkinds
  exact congrArg Block.kind (hpush.kept c (hbounds c hc).2)

/-- A copy of a block has the same kinds of blocks inside. -/
theorem Whole.kindsInside_clone (h : Whole a id) (index : Value) :
    (a.clone id index).2.kindsInside (a.clone id index).1 = a.kindsInside id := by
  let placed := (a.newChild (a.block id).scope).2
  have hplaced : Whole placed id := ⟨h.lt, h.inside⟩
  have hcopied : Adds placed (placed.copyTree id a.scopes.size).2 [(placed.copyTree id a.scopes.size).1] :=
    adds_copyUpTo _ _ _ _
  exact (hcopied.whole.kindsInside (keeps_clone a id index).1).trans (hplaced.kindsInside_copyTree a.scopes.size)

theorem Whole.kindsInside_cloneElement (h : Whole a id) (binding : String) (isDynamic : Bool) (element : Value × Value) :
    (cloneElement root id binding isDynamic a element).2.kindsInside
      (cloneElement root id binding isDynamic a element).1 = a.kindsInside id :=
  (kindsInside_congr (blocks_cloneElement a root id binding isDynamic element)).trans (h.kindsInside_clone element.1)

theorem Whole.kindsInside_elementLoop (h : Whole a id) (root : ScopeId) (attr : Attribute) :
    ∀ copy ∈ (a.elementLoop root id attr).1, (a.elementLoop root id attr).2.kindsInside copy = a.kindsInside id := by
  have hnoted : Whole (a.noting (a.block id) [attr]) id := ⟨h.lt, h.inside⟩
  have hmade := Keeps.mapThrough_all (a := a.noting (a.block id) [attr]) (l := a.elementsAsked id attr)
    (f := cloneElement root id (a.block id).iteratorName ((a.block id).kind == .dynamic))
    (Q := fun b copy => Whole b copy ∧ b.kindsInside copy = a.kindsInside id)
    (fun hbc hcopy => ⟨hcopy.1.keeps hbc, (hcopy.1.kindsInside hbc).trans hcopy.2⟩) fun b hb element _ => by
      have hadds := adds_cloneElement b root id (a.block id).iteratorName ((a.block id).kind == .dynamic) element
      refine ⟨hadds.keeps, hadds.whole, ?_⟩
      exact ((hnoted.keeps hb).kindsInside_cloneElement _ _ element).trans (hnoted.kindsInside hb)
  exact fun copy hcopy => (hmade copy hcopy).2

/-- All that stands for a dynamic block has the same kinds of blocks inside. -/
theorem Whole.kindsInside_expandElements (h : Whole a id) (root : ScopeId) :
    ∀ copy ∈ (expandElements root a id).1, (expandElements root a id).2.kindsInside copy = a.kindsInside id := by
  change ∀ copy ∈ (Repetition.forEach.expand root a id).1,
    (Repetition.forEach.expand root a id).2.kindsInside copy = a.kindsInside id
  rcases (a.block id).spent_or .forEach with hspent | ⟨attr, hattr, happlies⟩
  · rw [expand_of_spent hspent]
    exact List.forall_mem_singleton.mpr rfl
  · by_cases hcollection : (a.value (a.block id) attr).isIterable = true
    · rw [expand_elements root hattr happlies hcollection]
      intro copy hcopy
      exact (kindsInside_congr (blocks_bindAt _ _ _ _)).trans (h.kindsInside_elementLoop root attr copy hcopy)
    · rw [expand_noCollection root hattr happlies hcollection]
      exact List.forall_mem_singleton.mpr rfl

end Arena

namespace Turn

variable {P : ScopeId → Prop} {start final later : Arena} {root : ScopeId} {t : Turn}

/-- The arena in which a dynamic block is expanded: it has been taken out of its parent. -/
def arena (t : Turn) : Arena :=
  t.moment.removeChild t.parent t.dynamic

theorem Within.removes (h : t.Within start final root) : Arena.Changes (fun _ => True) t.moment t.arena :=
  .single (.remove t.parent t.dynamic h.parent.1 trivial)

theorem Within.site (h : t.Within start final root) (hsite : Arena.Site (fun _ => True) start root) :
    Arena.Site (fun _ => True) t.arena root :=
  (hsite.changes h.before).changes h.removes

theorem Within.has (h : t.Within start final root) (hsite : Arena.Site (fun _ => True) start root) :
    t.arena.Has root t.dynamic :=
  h.dynamic.changes (hsite.changes h.before).well h.removes

theorem Proper.length_contents (h : t.Proper root) (hsite : Arena.Site (fun _ => True) t.arena root)
    (hdynamic : t.arena.Has root t.dynamic)
    (hcontent : (t.arena.childId? (t.arena.block t.dynamic) "content").isSome) :
    t.contents.length = t.made.length := by
  have hwhole : Arena.Whole t.arena t.dynamic := ⟨hdynamic.1, fun c hc => (hdynamic.child hsite.well hc).1⟩
  have hkinds := hwhole.kindsInside_expandElements root
  rw [Arena.isSome_childId?] at hcontent
  have hone : ∀ copy ∈ t.made,
      ((t.expansion root).2.childId? ((t.expansion root).2.block copy) "content").isSome := by
    intro copy hcopy
    rw [h.made] at hcopy
    rw [Arena.isSome_childId?, show (t.expansion root).2.kindsInside copy = _ from hkinds copy hcopy]
    exact hcontent
  rw [h.contents, ← List.filterMap_eq_flatMap_toList, List.length_filterMap_eq_countP, List.countP_eq_length]
  exact hone

/-- What the turn of a dynamic block has come to. The contents that are then in its parent are those of the instances
with the keys that its `for_each` asked for, or of the block itself if that was no collection. -/
structure Rendered (start final : Arena) (root : ScopeId) (t : Turn) : Prop where
  proper : t.Proper root
  within : t.Within start final root
  made : t.made = [t.dynamic] ∧ t.arena.keysAsked? .forEach true t.dynamic = none
    ∨ Arena.Repeated t.arena final root .forEach t.dynamic t.made
  inside : ∀ content ∈ t.contents, content ∈ final.inside t.parent
  length : (t.arena.childId? (t.arena.block t.dynamic) "content").isSome → t.contents.length = t.made.length

end Turn

namespace ModuleRun

variable {s : Session} {run : Evaluate} {r : ModuleRun} {t : Turn}

/-- The turns of the dynamic blocks when the blocks of a run are expanded. -/
def turns (r : ModuleRun) : List Turn :=
  (mapThrough (fun a id => Arena.turnsUpTo r.root a.blocks.size a id) (r.expand [] r.module.blocks).2.arena
    (r.expand [] r.module.blocks).1).1.flatten

theorem arena_expandBlocks (r : ModuleRun) :
    r.expandBlocks.arena = (mapThrough (fun a id => Arena.turnsUpTo r.root a.blocks.size a id)
      (r.expand [] r.module.blocks).2.arena (r.expand [] r.module.blocks).1).2 := by
  rw [mapThrough_snd, expandBlocks]
  simp only [Arena.turnsUpTo_snd]
  rfl

/-- Each turn finds its dynamic block in the module. -/
theorem Sound.turns_within (hs : r.Sound) (ht : t ∈ r.turns) : t.Within r.arena r.expandBlocks.arena r.root := by
  obtain ⟨hexpand, hmade⟩ := expand_advances hs (.all r) (List.nil_subset _) (List.Subset.refl r.module.blocks)
  have hsite : Arena.Site (fun _ => True) (r.expand [] r.module.blocks).2.arena r.root :=
    hexpand.sound.site hexpand.covers.own
  obtain ⟨-, hturns⟩ := Arena.Changes.mapThrough_pairs (P := fun _ => True)
    (f := fun a id => Arena.turnsUpTo r.root a.blocks.size a id)
    (Q := fun c _ turns => ∀ t ∈ turns, t.Within r.arena c r.root)
    (fun _ hbc hturns t ht => (hturns t ht).changes hbc) hsite.well
    fun b hb id hid => by
      obtain ⟨hstep, hwithin⟩ := Arena.rendersWithin_turnsUpTo (fun _ => True) r.root b.blocks.size b id
        (hsite.changes hb) ((hmade id hid).changes hsite.well hb)
      exact ⟨hstep, fun t ht => ((hwithin t ht).earlier hb).earlier hexpand.changes⟩
  rw [arena_expandBlocks]
  exact Arena.forall_mem_flatten hturns t ht

/-- The blocks are separate trees, so that no turn takes away what another has put somewhere. -/
theorem turns_proper (hseparate : r.arena.Separate r.module.blocks) (ht : t ∈ r.turns) :
    t.Proper r.root ∧ ∀ content ∈ t.contents, content ∈ r.expandBlocks.arena.inside t.parent := by
  obtain ⟨low, htrees, hlt⟩ : (r.expand [] r.module.blocks).2.arena.Separate (r.expand [] r.module.blocks).1 :=
    expand_separate (show r.arena.Separate ([] ++ r.module.blocks) from hseparate)
  let render (a : Arena) (id : BlockId) : List Turn × Arena := Arena.turnsUpTo r.root a.blocks.size a id
  let opened := r.expand [] r.module.blocks
  have hloop : Arena.Steps low (fun _ => False) (fun _ => False) opened.1 opened.2.arena
        (mapThrough render opened.2.arena opened.1).2
        ((mapThrough render opened.2.arena opened.1).1.flatMap Arena.injections)
      ∧ List.Forall₂ (fun _ turns => ∀ t ∈ turns, t.Proper r.root) opened.1
        (mapThrough render opened.2.arena opened.1).1 :=
    Arena.Steps.mapThrough htrees hlt (fun _ h => h.elim) fun b x hx hb => by
      obtain ⟨hstep, hproper⟩ := Arena.renders_turnsUpTo r.root b.blocks.size b (low x) x
        (htrees.rowKept (hlt x hx) hx hb) (Nat.lt_of_lt_of_le (hlt x hx) hb.size)
      exact ⟨⟨hstep.keeps, hstep.grows, hstep.there, hstep.sheltered⟩, hproper⟩
  obtain ⟨hsteps, hturns⟩ := hloop
  obtain ⟨turns, hmem, hin⟩ := List.mem_flatten.mp ht
  obtain ⟨-, -, hproper⟩ := Arena.exists_of_mem_forall₂ hturns hmem
  refine ⟨hproper t hin, fun content hcontent => ?_⟩
  rw [arena_expandBlocks]
  refine (hsteps.there t.parent content (List.mem_flatMap.mpr ⟨turns, hmem, ?_⟩)).2
  exact List.mem_flatMap.mpr ⟨t, hin, List.mem_map_of_mem hcontent⟩

/-- Every turn is still what it has come to as long as the blocks of the module are left alone. -/
theorem Sound.rendered (hs : r.Sound) (hseparate : r.arena.Separate r.module.blocks) {final : Arena}
    (hlater : Arena.Changes (fun _ => True) r.expandBlocks.arena final)
    (hkept : Arena.Keeps (r.expandBlocks.arena.Has r.root) r.expandBlocks.arena final) (ht : t ∈ r.turns) :
    t.Rendered r.arena final r.root := by
  have hwithin := hs.turns_within ht
  obtain ⟨hproper, hinside⟩ := turns_proper hseparate ht
  have hstart : Arena.Site (fun _ => True) r.arena r.root := hs.site trivial
  have hsite := hwithin.site hstart
  have hdynamic := hwithin.has hstart
  obtain ⟨hchange, hexpands⟩ := hsite.expandElements hdynamic
  have hparent : r.expandBlocks.arena.Has r.root t.parent := by
    have hmoment := (hstart.changes hwithin.before).well
    exact ((hwithin.parent.changes hmoment hwithin.removes).changes hsite.well hchange).changes
      (hchange.wellFormed hsite.well) hwithin.after
  refine ⟨hproper, hwithin.changes hlater, ?_, fun content hcontent => ?_, hproper.length_contents hsite hdynamic⟩
  · have hkind : (t.arena.block t.dynamic).kind = .dynamic :=
      (t.moment.modify_same Block.kind t.parent (by intro _; rfl) t.dynamic).trans hproper.kind
    have hplain : (t.arena.block t.dynamic).expanded = false :=
      (t.moment.modify_same Block.expanded t.parent (by intro _; rfl) t.dynamic).trans hproper.fresh
    rcases hexpands with ⟨hitself, hnone⟩ | hexpanded
    · refine .inl ⟨hproper.made.trans hitself, ?_⟩
      rw [hkind] at hnone
      exact hnone.resolve_left (by simp [Repetition.applies, hkind, hplain])
    · refine .inr ?_
      rw [hproper.made]
      exact (hexpanded.changes (hchange.wellFormed hsite.well) (hwithin.after.trans hlater)).repeated
  · rw [hkept.inside t.parent hparent.1 hparent]
    exact hinside content hcontent

end ModuleRun

end InfraConfig
