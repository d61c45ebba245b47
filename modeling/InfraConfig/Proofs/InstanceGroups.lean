import InfraConfig.Proofs.BlockCopies
import InfraConfig.Proofs.Fates

/-!
# Groups of instances

A round of counts or elements goes through a list of blocks. Each of them has its turn in what those before it have
left, and is replaced there by one instance for each item that its attribute asks for, or stays.
-/

namespace InfraConfig

/-! ## Repeated blocks -/

/-- Whether a block is a template: one that an attribute of its own repeats. -/
def Block.IsRepeatedBy (kind : Repetition) (b : Block) : Prop :=
  (b.kind = .resource ∨ b.kind = .data ∨ b.kind = .module) ∧ b.expanded = false ∧ (b.attribute? kind.name).isSome

theorem Block.isExpandable_iff (b : Block) : b.isExpandable = true ↔
    (b.kind = .resource ∨ b.kind = .data ∨ b.kind = .module) ∧ b.expanded = false := by
  rw [isExpandable]
  split <;> simp_all

namespace Arena

variable {T a b c : Arena} {root : ScopeId} {id z : BlockId} {ids group : List BlockId} {items : List Item}
  {kind : Repetition}

/-- The key of an instance that is made for an item. -/
def Item.instanceKey (item : Item) : InstanceKey :=
  (InstanceKey.ofValue? item.key).getD (.index 0)

theorem Item.instanceKey_eq {item : Item} {key : InstanceKey} (h : InstanceKey.ofValue? item.key = some key) :
    item.instanceKey = key := by
  rw [Item.instanceKey, h]
  rfl

/-- What the scope of an instance holds that is made for an item. -/
def Item.bindings (item : Item) : Entries Value :=
  instanceBindings item.names item.key item.value

/-- Instances of one block for some items, in the same order. -/
structure Instances (root : ScopeId) (T a b : Arena) (z id : BlockId) (items : List Item) (made : List BlockId) :
    Prop where
  retains : Retains root a b
  fresh : Fresh a b made
  copied : List.Forall₂ (fun item => Copied T b z (a.block id).scope item.instanceKey item.bindings) items made

namespace Instances

theorem later (h : Instances root T a b z id items group) (hbc : Retains root b c) (hroot : root < a.scopes.size) :
    Instances root T a c z id items group := by
  refine ⟨h.retains.trans hbc, h.fresh.later hbc, ?_⟩
  have hscopes (x : BlockId) (hx : x ∈ group) : (b.block x).scope ≠ root :=
    Nat.ne_of_gt (Nat.lt_of_lt_of_le hroot (h.fresh.scope x hx).1)
  exact forall₂_imp_of_mem h.copied fun _ _ x hx hcopied => hcopied.later hbc (hscopes x hx)

theorem mapThrough {α β : Type} {f : Arena → α → β × Arena} {g : β → BlockId} {item : α → Item} {xs : List α}
    (hroot : root < a.scopes.size) (hz : Mirrors T a z id) (hn : Shallow a a.blocks.size [id])
    (hf : ∀ b, root < b.scopes.size → Mirrors T b z id → Shallow b b.blocks.size [id] → ∀ x ∈ xs,
      Instantiates root T b (f b x).2 z id (item x).instanceKey (item x).bindings (g (f b x).1)) :
    Instances root T a (mapThrough f a xs).2 z id (xs.map item) ((mapThrough f a xs).1.map g) := by
  induction xs generalizing a with
  | nil => exact ⟨.refl root a, .nil a a, .nil⟩
  | cons x xs ih =>
    have hfirst := hf a hroot hz hn x List.mem_cons_self
    have hstep := hfirst.retains
    have hscope : ((f a x).2.block id).scope = (a.block id).scope := hstep.scope hz.lt
    have hrest := ih (Nat.lt_of_lt_of_le hroot hstep.scopes) (hz.later hstep.toKeepsBlocks)
      ((hn.keeps hstep.keeps).mono hstep.size) fun b hb hz hn y hy => hf b hb hz hn y (List.mem_cons_of_mem x hy)
    have hone := hfirst.later hrest.retains hroot
    refine ⟨hone.retains, hfirst.fresh.append hrest.fresh hstep hrest.retains, .cons hone.copied ?_⟩
    rw [← hscope]
    exact hrest.copied

/-- What is noted before a loop and bound after it. -/
theorem around {noted : Arena} (h : Instances root T noted b z id items group) (hnoted : Retains root a noted)
    (hz : Mirrors T a z id) (hbc : Retains root b c) (hroot : root < a.scopes.size) :
    Instances root T a c z id items group := by
  have hlater := h.later hbc (Nat.lt_of_lt_of_le hroot hnoted.scopes)
  refine ⟨hnoted.trans hlater.retains, hlater.fresh.earlier hnoted, ?_⟩
  rw [← hnoted.scope hz.lt]
  exact hlater.copied

end Instances

/-- A block for which there are items is replaced by its instances. -/
theorem instances_expand (kind : Repetition) (hroot : root < a.scopes.size) (hz : Mirrors T a z id)
    (hn : Shallow a a.blocks.size [id]) (hitems : a.items? id kind = some items) :
    Instances root T a (kind.expand root a id).2 z id items (kind.expand root a id).1 := by
  rcases (a.block id).spent_or kind with hspent | ⟨attr, hattr, happlies⟩
  · cases (items?_of_spent hspent).symm.trans hitems
  · have hnoted : Retains root a (a.noting (a.block id) [attr]) := .noting root a _ _
    cases kind with
    | count =>
      obtain rfl := Option.some.inj ((items?_count hattr happlies).symm.trans hitems)
      rw [expand_count root hattr happlies]
      refine Instances.around (Instances.mapThrough hroot (hz.later hnoted.toKeepsBlocks) (hn.keeps hnoted.keeps)
        fun b hroot hz hn i hi => ?_) hnoted hz (.bindAt root _ id _) hroot
      have hlt := lt_of_mem_indices hi
      rw [Item.instanceKey_eq (ofValue?_index hlt)]
      exact instantiates_cloneIndex hroot hz hn hlt
    | forEach =>
      by_cases hcollection : (a.value (a.block id) attr).isIterable = true
      · obtain rfl := Option.some.inj ((items?_elements hattr happlies hcollection).symm.trans hitems)
        rw [expand_elements root hattr happlies hcollection, ← List.map_id' (a.elementLoop root id attr).1]
        refine Instances.around (Instances.mapThrough (g := fun made => made) hroot (hz.later hnoted.toKeepsBlocks)
          (hn.keeps hnoted.keeps) fun b hroot hz hn element helement => ?_) hnoted hz (.bindAt root _ id _) hroot
        obtain ⟨key, hkey⟩ := Option.isSome_iff_exists.mp (isSome_ofValue?_of_mem_elementsAsked helement)
        rw [Item.instanceKey_eq hkey]
        exact instantiates_cloneElement hroot hz hn _ _ hkey
      · cases (items?_noCollection hattr hcollection).symm.trans hitems

/-- A block for which there are no items stays. -/
theorem retains_expand_of_none (kind : Repetition) (root : ScopeId) (hitems : a.items? id kind = none) :
    Retains root a (kind.expand root a id).2 ∧ (kind.expand root a id).1 = [id] := by
  rcases (a.block id).spent_or kind with hspent | ⟨attr, hattr, happlies⟩
  · rw [expand_of_spent hspent]
    exact ⟨.refl root a, rfl⟩
  · cases kind with
    | count => cases (items?_count hattr happlies).symm.trans hitems
    | forEach =>
      by_cases hcollection : (a.value (a.block id) attr).isIterable = true
      · cases (items?_elements hattr happlies hcollection).symm.trans hitems
      · rw [expand_noCollection root hattr happlies hcollection]
        exact ⟨.noting root a _ _, rfl⟩

theorem retains_expand (kind : Repetition) (hroot : root < a.scopes.size) (hn : Shallow a a.blocks.size [id]) :
    Retains root a (kind.expand root a id).2 := by
  cases hitems : a.items? id kind with
  | none => exact (retains_expand_of_none kind root hitems).1
  | some items => exact (instances_expand kind hroot (.self hn (.refl a)) hn hitems).retains

/-! ## Rounds -/

/-- What stands for a block after a round in which it has had its turn in `moment`. -/
structure Regrouped (root : ScopeId) (kind : Repetition) (T moment final : Arena) (id : BlockId)
    (group : List BlockId) : Prop where
  itself : moment.items? id kind = none → group = [id]
  instances : ∀ items, moment.items? id kind = some items → Instances root T moment final id id items group

theorem Regrouped.later (h : Regrouped root kind T a b id group) (hbc : Retains root b c)
    (hroot : root < a.scopes.size) : Regrouped root kind T a c id group :=
  ⟨h.itself, fun items hitems => (h.instances items hitems).later hbc hroot⟩

/-- In its turn a block is repeated as it was before. -/
theorem Retains.isRepeatedBy (h : Retains root a b) (hid : id < a.blocks.size) :
    (b.block id).IsRepeatedBy kind ↔ (a.block id).IsRepeatedBy kind :=
  iff_of_eq (h.part_eq (Block.IsRepeatedBy kind) (by intro _; rfl) hid)

theorem Retains.attribute? (h : Retains root a b) (hid : id < a.blocks.size) (name : String) :
    (b.block id).attribute? name = (a.block id).attribute? name :=
  h.part_eq (·.attribute? name) (by intro _; rfl) hid

theorem Retains.value (h : Retains root a b) (hid : id < a.blocks.size) (attr : Attribute) :
    b.value (b.block id) attr = b.value (a.block id) attr := by
  rw [Arena.value, Arena.value, h.scope hid]

theorem Regrouped.copied (h : Regrouped root kind a b c id group) (hab : Retains root a b) (hid : id < a.blocks.size)
    (hitems : b.items? id kind = some items) : List.Forall₂ (fun item =>
      Copied a c id (a.block id).scope item.instanceKey item.bindings) items group := by
  rw [← hab.scope hid]
  exact (h.instances items hitems).copied

theorem regrouped_expand (kind : Repetition) (hroot : root < a.scopes.size) (hz : Mirrors T a id id)
    (hn : Shallow a a.blocks.size [id]) :
    Regrouped root kind T a (kind.expand root a id).2 id (kind.expand root a id).1 :=
  ⟨fun hitems => (retains_expand_of_none kind root hitems).2, fun _ hitems => instances_expand kind hroot hz hn hitems⟩

theorem Shallow.lt {n : Nat} (h : Shallow a n ids) (hid : id ∈ ids) : id < a.blocks.size := by
  cases n with
  | zero => exact (h.of_mem hid).not_zero.elim
  | succ n => exact (h id hid).1

/-- The blocks before `k` have had their turn. -/
def momentOf (kind : Repetition) (root : ScopeId) (a : Arena) (ids : List BlockId) (k : Nat) : Arena :=
  (mapThrough (kind.expand root) a (ids.take k)).2

/-- A round over blocks that have been there in `T`. -/
theorem regrouped_round (kind : Repetition) (hTa : Retains root T a) (hroot : root < T.scopes.size)
    (hn : Shallow T T.blocks.size ids) :
    let round := mapThrough (kind.expand root) a ids
    Retains root a round.2
      ∧ Fresh a round.2 (round.1.flatten.filter (T.blocks.size ≤ ·))
      ∧ round.1.length = ids.length
      ∧ ∀ k (h : k < ids.length) (h' : k < round.1.length),
          Regrouped root kind T (momentOf kind root a ids k) round.2 ids[k] round.1[k] := by
  induction ids generalizing a with
  | nil => exact ⟨.refl root a, .nil a a, rfl, fun k h => absurd h (Nat.not_lt_zero k)⟩
  | cons id ids ih =>
    intro round
    have hone := hn.of_mem (List.mem_cons_self (a := id) (l := ids))
    have hid : id < T.blocks.size := hone.lt List.mem_cons_self
    have hheight : Shallow a a.blocks.size [id] := (hone.keeps hTa.keeps).mono hTa.size
    have hfirst : Regrouped root kind T a (kind.expand root a id).2 id (kind.expand root a id).1 :=
      regrouped_expand kind (Nat.lt_of_lt_of_le hroot hTa.scopes) (.self hone hTa.toKeepsBlocks) hheight
    have hstep : Retains root a (kind.expand root a id).2 :=
      retains_expand kind (Nat.lt_of_lt_of_le hroot hTa.scopes) hheight
    obtain ⟨hrest, hfresh, hlength, hothers⟩ := ih (hTa.trans hstep) (hn.subset (List.subset_cons_self id ids))
    refine ⟨hstep.trans hrest, ?_, congrArg (· + 1) hlength, fun k h h' => ?_⟩
    · have hmade : Fresh a (kind.expand root a id).2 ((kind.expand root a id).1.filter (T.blocks.size ≤ ·)) := by
        cases hitems : a.items? id kind with
        | none =>
          rw [hfirst.itself hitems, List.filter_cons_of_neg (by simpa using hid), List.filter_nil]
          exact .nil _ _
        | some items =>
          have hnew := (hfirst.instances items hitems).fresh
          rwa [List.filter_eq_self.mpr fun x hx => decide_eq_true (Nat.le_trans hTa.size (hnew.block x hx).1)]
      simp only [round, mapThrough_cons, List.flatten_cons, List.filter_append]
      exact hmade.append hfresh hstep hrest
    · cases k with
      | zero => exact hfirst.later hrest (Nat.lt_of_lt_of_le hroot hTa.scopes)
      | succ k => exact hothers k (Nat.lt_of_succ_lt_succ h) (Nat.lt_of_succ_lt_succ h')

end Arena

end InfraConfig
