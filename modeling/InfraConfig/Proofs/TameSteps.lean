import InfraConfig.Proofs.BlockNames
import InfraConfig.Proofs.GrownTrees

/-!
# Steps that leave what blocks ask for

Copying blocks, making instances of them and putting contents into their parents leaves the attributes of all blocks
and whether they are instances. Where no dynamic block is labelled `dynamic`, none comes up: the label of an instance
ends in its key, and a copy has the labels of its original.
-/

namespace InfraConfig

/-! ## Labels -/

/-- Whether what a dynamic block renders is no dynamic block in its turn. -/
def Block.RendersPlain (b : Block) : Prop :=
  b.kind = .dynamic → b.typeLabel ≠ "dynamic"

instance (b : Block) : Decidable b.RendersPlain :=
  inferInstanceAs (Decidable (b.kind = .dynamic → b.typeLabel ≠ "dynamic"))

theorem InstanceKey.getLast?_text (key : InstanceKey) : key.text.toList.getLast? = some ']' := by
  cases key <;> simp [text, List.getLast?_cons]

/-- A label with a key is never `dynamic`. -/
theorem append_key_ne_dynamic (label : String) (key : InstanceKey) : label ++ key.text ≠ "dynamic" := by
  intro heq
  have hlast := congrArg (fun s : String => s.toList.getLast?) heq
  simp [String.toList_append, List.getLast?_append, key.getLast?_text] at hlast

namespace Arena

theorem headD_extendLabel_ne_dynamic {labels : List String} (h : labels.headD "" ≠ "dynamic") (key : InstanceKey) :
    (extendLabel labels key.text).headD "" ≠ "dynamic" := by
  match labels with
  | [] => exact h
  | [label] => exact append_key_ne_dynamic label key
  | label :: next :: rest =>
    rw [extendLabel, List.getLast?_cons_cons]
    cases hlast : (next :: rest).getLast? with
    | none => simp at hlast
    | some last => exact h

/-! ## Tame steps -/

/-- A step that keeps the texts of blocks and adds no dynamic block that renders dynamic blocks. -/
structure Tame (a b : Arena) : Prop extends KeepsText a b where
  fresh : ∀ x : Nat, a.blocks.size ≤ x → x < b.blocks.size → (b.block x).RendersPlain

variable {a b c : Arena} {root : ScopeId} {v w ids xs : List BlockId} {id x : BlockId}

namespace Tame

/-- A step without new blocks. -/
theorem ofSize (h : KeepsText a b) (hsize : b.blocks.size = a.blocks.size) : Tame a b :=
  ⟨h, fun _ hx hlt => absurd (hsize ▸ hlt) (Nat.not_lt.mpr hx)⟩

theorem ofBlocks (h : b.blocks = a.blocks) : Tame a b :=
  ofSize (.ofBlocks h) (congrArg Array.size h)

theorem refl (a : Arena) : Tame a a :=
  ofBlocks rfl

theorem push (a : Arena) {d : Block} (hd : d.RendersPlain) : Tame a (a.push d).2 := by
  refine ⟨.ofExtends (.push a d), fun x hx hlt => ?_⟩
  rw [size_blocks_push] at hlt
  rw [block_push, if_pos (Nat.le_antisymm (Nat.le_of_lt_succ hlt) hx)]
  exact hd

/-- Blocks that were there before do not come to render dynamic blocks: they keep their names or lose their labels. -/
theorem plain (h : Tame a b) (hx : x < b.blocks.size) (hold : x < a.blocks.size → (a.block x).RendersPlain) :
    (b.block x).RendersPlain := by
  by_cases hlt : x < a.blocks.size
  · intro hkind
    rcases h.names x hlt with hsame | ⟨-, hnone⟩
    · rw [Block.typeLabel, Block.labels_of_names hsame]
      exact hold hlt ((Block.kind_of_names hsame).symm.trans hkind)
    · rw [Block.typeLabel, hnone]
      decide
  · exact h.fresh x (Nat.le_of_not_lt hlt) hx

theorem trans (h : Tame a b) (k : Tame b c) : Tame a c := by
  refine ⟨h.toKeepsText.trans k.toKeepsText, fun x hx hlt => ?_⟩
  exact k.plain hlt fun hmid => h.fresh x hx hmid

theorem expanded (h : Tame a b) (hx : x < a.blocks.size) : (b.block x).expanded = (a.block x).expanded :=
  Block.expanded_of_fixed (h.fixed x hx)

end Tame

/-! ## Copies -/

/-- Blocks with all that is inside them, of which no dynamic one renders dynamic blocks. -/
structure Renderable (a : Arena) (v : List BlockId) : Prop where
  closed : Closed a v
  plain : ∀ x ∈ v, (a.block x).RendersPlain

namespace Renderable

theorem keeps (h : Renderable a v) (hkeeps : Keeps (fun _ => True) a b) (htame : Tame a b) : Renderable b v := by
  refine ⟨h.closed.keeps hkeeps, fun x hx => ?_⟩
  have hlt := (h.closed x hx).1
  exact htame.plain (Nat.lt_of_lt_of_le hlt htame.size) fun _ => h.plain x hx

/-- What is found in the place of some trees after a step. -/
theorem regrows (h : Renderable a v) (hstep : Regrows a b v w) (htame : Tame a b) (hwalk : Walk b ids w) :
    Renderable b w := by
  refine ⟨.ofWalk hwalk hstep.distinct, fun x hx => ?_⟩
  refine htame.plain (hstep.distinct.lt x hx) fun hlt => ?_
  rcases hstep.drawn x hx with hold | hnew
  · exact h.plain x hold
  · exact absurd hlt (Nat.not_lt.mpr hnew)

theorem tame_mapThrough {α β : Type} {f : Arena → α → β × Arena} {xs : List α} (h : Renderable a v)
    (hf : ∀ b, Renderable b v → ∀ x ∈ xs, Keeps (fun _ => True) b (f b x).2 ∧ Tame b (f b x).2) :
    Tame a (mapThrough f a xs).2 := by
  refine (mapThrough_induction (motive := fun b => Renderable b v ∧ Tame a b) ⟨h, .refl a⟩ ?_).2
  intro b ⟨hb, hbefore⟩ x hx
  obtain ⟨hkeeps, hstep⟩ := hf b hb x hx
  exact ⟨hb.keeps hkeeps hstep, hbefore.trans hstep⟩

theorem tame_copyUpTo (h : Renderable a v) (hid : id ∈ v) (scope : ScopeId) (depth : Nat) :
    Tame a (copyUpTo scope depth a id).2 := by
  induction depth generalizing a id with
  | zero => exact .push a (h.plain id hid)
  | succ depth ih =>
    have hinside := (h.closed id hid).2
    have hinner : Tame a (mapThrough (copyUpTo scope depth) a (a.block id).children).2 :=
      h.tame_mapThrough fun b hb c hc => ⟨(adds_copyUpTo scope depth b c).keeps, ih hb (hinside hc)⟩
    rw [copyUpTo]
    exact hinner.trans (.push _ (h.plain id hid))

theorem tame_clone (h : Renderable a v) (hid : id ∈ v) (index : Value) : Tame a (a.clone id index).2 := by
  let key := instanceKey (a.block id) index
  let marked := (a.copyBelow id).2.markInstance (a.copyBelow id).1 key
  have hplaced : Renderable (a.newChild (a.block id).scope).2 v := h.keeps (.ofBlocks rfl) (.ofBlocks rfl)
  have hcopied : Tame (a.newChild (a.block id).scope).2 (a.copyBelow id).2 := hplaced.tame_copyUpTo hid _ _
  have hmarked (x : Nat) (hx : a.blocks.size ≤ x) (hlt : x < (a.copyBelow id).2.blocks.size) :
      (marked.block x).RendersPlain := by
    by_cases heq : x = (a.copyBelow id).1
    · obtain ⟨children, hblock⟩ := block_markInstance a id key
      rw [heq, hblock]
      exact fun hkind => headD_extendLabel_ne_dynamic (h.plain id hid hkind) key
    · have hsame : marked.block x = (a.copyBelow id).2.block x := block_markInstance_of_ne _ key heq
      rw [hsame]
      exact hcopied.fresh x hx hlt
  have hcounted : Tame marked (marked.countInstance id) :=
    .ofSize (.modify _ _ (by intro _; rfl) (by intro _; rfl)) (size_blocks_countInstance _ _)
  have hlater : Tame marked (a.clone id index).2 := hcounted.trans (.ofBlocks (blocks_clone a id index))
  refine ⟨(instanceOf_clone a id index).1, fun x hx hlt => hlater.plain hlt fun hmid => hmarked x hx ?_⟩
  rwa [size_blocks_markInstance] at hmid

end Renderable

/-! ## Expansions -/

theorem Renderable.tame_expand (h : Renderable a v) (hid : id ∈ v) (kind : Repetition) (root : ScopeId) :
    Tame a (kind.expand root a id).2 := by
  rcases (a.block id).spent_or kind with hspent | ⟨attr, hattr, happlies⟩
  · rw [expand_of_spent hspent]
    exact .refl a
  · have hnoted : Tame a (a.noting (a.block id) [attr]) := .ofBlocks rfl
    have hready : Renderable (a.noting (a.block id) [attr]) v := h.keeps (.ofBlocks rfl) hnoted
    cases kind with
    | count =>
      rw [expand_count root hattr happlies]
      refine (hnoted.trans (hready.tame_mapThrough fun b hb i _ => ?_)).trans (.ofBlocks (blocks_bindAt _ _ _ _))
      exact ⟨(adds_cloneIndex b root id i).keeps,
        (hb.tame_clone hid (.int i)).trans (.ofBlocks (blocks_cloneIndex b root id i))⟩
    | forEach =>
      by_cases hcollection : (a.value (a.block id) attr).isIterable = true
      · rw [expand_elements root hattr happlies hcollection]
        refine (hnoted.trans (hready.tame_mapThrough fun b hb element _ => ?_)).trans (.ofBlocks (blocks_bindAt _ _ _ _))
        exact ⟨(adds_cloneElement b root id _ _ element).keeps,
          (hb.tame_clone hid element.1).trans (.ofBlocks (blocks_cloneElement b root id _ _ element))⟩
      · rw [expand_noCollection root hattr happlies hcollection]
        exact hnoted

/-! ## Contents -/

theorem tame_removeChild (a : Arena) (id child : BlockId) : Tame a (a.removeChild id child) :=
  .ofSize (.modify a id (by intro _; rfl) (by intro _; rfl)) (size_blocks_modify _ _ _)

theorem ofName_ne_dynamic {label : String} (h : label ≠ "dynamic") : BlockKind.ofName label ≠ .dynamic := by
  unfold BlockKind.ofName
  split <;> simp_all

theorem tame_inject {content : BlockId} (hcontent : (a.block content).Nameless) (id : BlockId) (label : String) :
    Tame a (a.inject id content label) :=
  .ofSize (keepsText_inject a (fun _ => hcontent) id label) (size_inject _ _ _ _)

theorem kind_injected (a : Arena) {id content : BlockId} (label : String) (hcontent : content < a.blocks.size) :
    ((a.inject id content label).block content).kind = .ofName label := by
  rw [block_inject, modify_same Block.kind _ id (by intro _; rfl), renamed, block_modify, if_pos ⟨rfl, hcontent⟩]

end Arena

end InfraConfig
