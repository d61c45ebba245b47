import InfraConfig.Proofs.ExpansionChanges
import InfraConfig.Proofs.Trees

/-!
# Trees of instances

The instances that stand for a block are new trees, so that what stands for the blocks of a module are separate
trees again. Blocks that were there before keep what is inside them.
-/

namespace InfraConfig

namespace Arena

variable {a b : Arena} {root : ScopeId} {id : BlockId} {made ids : List BlockId} {attr : Attribute}

/-- A block stands for itself, or new trees stand for it. -/
inductive Replaces (a b : Arena) (id : BlockId) : List BlockId → Prop where
  | itself (h : Keeps (fun _ => True) a b) : Replaces a b id [id]
  | trees {made : List BlockId} (h : Adds a b made) : Replaces a b id made

theorem Replaces.keeps (h : Replaces a b id made) : Keeps (fun _ => True) a b := by
  cases h with
  | itself h => exact h
  | trees h => exact h.keeps

theorem blocks_bindAt (a : Arena) (root : ScopeId) (id : BlockId) (v : Value) :
    (a.bindAt root id v).blocks = a.blocks := by
  rw [bindAt]
  split <;> rfl

theorem blocks_copyBinding (a : Arena) (root : ScopeId) (source target : BlockId) :
    (a.copyBinding root source target).blocks = a.blocks := by
  rw [copyBinding]
  split
  · split <;> rfl
  · rfl

theorem blocks_foldl {α : Type} {f : Arena → α → Arena} (hf : ∀ b x, (f b x).blocks = b.blocks) (xs : List α)
    (a : Arena) : (xs.foldl f a).blocks = a.blocks :=
  List.foldlRecOn (motive := fun b : Arena => b.blocks = a.blocks) xs f rfl fun b hb x _ => (hf b x).trans hb

/-- New trees stay as they are when values are bound. -/
theorem Adds.ofBlocks {c : Arena} (h : Adds a b made) (hblocks : c.blocks = b.blocks) : Adds a c made :=
  h.within .refl rfl (.ofBlocks hblocks) (congrArg Array.size hblocks)

theorem blocks_cloneIndex (a : Arena) (root : ScopeId) (id : BlockId) (i : Nat) :
    (cloneIndex root id a i).2.blocks = (a.clone id (.int i)).2.blocks := by
  rw [cloneIndex]
  dsimp only
  generalize a.clone id (.int i) = cloned
  exact blocks_copyBinding _ _ _ _

theorem blocks_cloneElement (a : Arena) (root : ScopeId) (id : BlockId) (binding : String) (isDynamic : Bool)
    (element : Value × Value) :
    (cloneElement root id binding isDynamic a element).2.blocks = (a.clone id element.1).2.blocks := by
  rw [cloneElement]
  dsimp only
  generalize a.clone id element.1 = cloned
  exact (blocks_copyBinding _ _ _ _).trans (blocks_foldl (by intro _ _; rfl) _ _)

theorem adds_cloneIndex (a : Arena) (root : ScopeId) (id : BlockId) (i : Nat) :
    Adds a (cloneIndex root id a i).2 [(cloneIndex root id a i).1.1] :=
  (adds_clone a id (.int i)).ofBlocks (blocks_cloneIndex a root id i)

theorem adds_cloneElement (a : Arena) (root : ScopeId) (id : BlockId) (binding : String) (isDynamic : Bool)
    (element : Value × Value) :
    Adds a (cloneElement root id binding isDynamic a element).2
      [(cloneElement root id binding isDynamic a element).1] :=
  (adds_clone a id element.1).ofBlocks (blocks_cloneElement a root id binding isDynamic element)

/-- A block with a `count` is replaced by instances, whatever the count is worth. -/
theorem adds_expand_count (root : ScopeId) (hattr : (a.block id).attribute? Repetition.count.name = some attr)
    (happlies : Repetition.count.applies (a.block id) = true) :
    Adds a (Repetition.count.expand root a id).2 (Repetition.count.expand root a id).1 := by
  have hnoted : Adds a (a.noting (a.block id) [attr]) [] := .none rfl
  have hloop : Adds (a.noting (a.block id) [attr]) (a.countLoop root id attr).2
      ((a.countLoop root id attr).1.map (·.1)) :=
    Adds.mapThrough fun b i _ _ => adds_cloneIndex b root id i
  rw [expand_count root hattr happlies]
  exact (hnoted.append hloop).ofBlocks (blocks_bindAt _ _ _ _)

/-- A block with a `for_each` over a collection is replaced by instances. -/
theorem adds_expand_elements (root : ScopeId) (hattr : (a.block id).attribute? Repetition.forEach.name = some attr)
    (happlies : Repetition.forEach.applies (a.block id) = true) (h : (a.value (a.block id) attr).isIterable = true) :
    Adds a (Repetition.forEach.expand root a id).2 (Repetition.forEach.expand root a id).1 := by
  have hnoted : Adds a (a.noting (a.block id) [attr]) [] := .none rfl
  have hloop : Adds (a.noting (a.block id) [attr]) (a.elementLoop root id attr).2
      ((a.elementLoop root id attr).1.map fun made => made) :=
    Adds.mapThrough fun b element _ _ => adds_cloneElement b root id _ _ element
  rw [List.map_id'] at hloop
  rw [expand_elements root hattr happlies h]
  exact (hnoted.append hloop).ofBlocks (blocks_bindAt _ _ _ _)

theorem replaces_expand (kind : Repetition) (root : ScopeId) (a : Arena) (id : BlockId) :
    Replaces a (kind.expand root a id).2 id (kind.expand root a id).1 := by
  rcases (a.block id).spent_or kind with hspent | ⟨attr, hattr, happlies⟩
  · rw [expand_of_spent hspent]
    exact .itself .refl
  · cases kind with
    | count => exact .trees (adds_expand_count root hattr happlies)
    | forEach =>
      by_cases hcollection : (a.value (a.block id) attr).isIterable = true
      · exact .trees (adds_expand_elements root hattr happlies hcollection)
      · rw [expand_noCollection root hattr happlies hcollection]
        exact .itself (.ofBlocks rfl)

/-! ## Separate trees -/

/-- Blocks of an arena that are separate trees. -/
def Separate (a : Arena) (ids : List BlockId) : Prop :=
  ∃ low, Trees a low ids ∧ ∀ id : Nat, id ∈ ids → id < a.blocks.size

namespace Separate

theorem ofRow {lo : Nat} (h : Row a lo ids a.blocks.size) : Separate a ids := by
  obtain ⟨low, htrees, hbounds⟩ := h.trees
  exact ⟨low, htrees, fun id hid => (hbounds id hid).2⟩

theorem keeps (h : Separate a ids) (hab : Keeps (fun _ => True) a b) : Separate b ids := by
  obtain ⟨low, htrees, hlt⟩ := h
  exact ⟨low, htrees.keepsAll hlt hab, fun id hid => Nat.lt_of_lt_of_le (hlt id hid) hab.size⟩

theorem perm {others : List BlockId} (h : Separate a ids) (hperm : ids.Perm others) : Separate a others := by
  obtain ⟨low, htrees, hlt⟩ := h
  exact ⟨low, htrees.perm hperm, fun id hid => hlt id (hperm.symm.subset hid)⟩

theorem sublist {some : List BlockId} (h : Separate a ids) (hsub : some.Sublist ids) : Separate a some := by
  obtain ⟨low, htrees, hlt⟩ := h
  exact ⟨low, htrees.sublist hsub, fun id hid => hlt id (hsub.subset hid)⟩

/-- Trees that are there, and new ones. -/
theorem adds (h : Separate a ids) (hnew : Adds a b made) : Separate b (ids ++ made) := by
  obtain ⟨low, htrees, hlt⟩ := h
  obtain ⟨lowMade, hmade, hbounds⟩ := hnew.row.trees
  have hkept := htrees.keepsAll hlt hnew.keeps
  let both (x : Nat) : Nat := if x < a.blocks.size then low x else lowMade x
  have hold (x : Nat) (hx : x ∈ ids) : both x = low x := if_pos (hlt x hx)
  have hyoung (x : Nat) (hx : x ∈ made) : both x = lowMade x := by
    have := (hbounds x hx).1
    have := hmade.low_le hx
    exact if_neg (by omega)
  refine ⟨both, ⟨fun x hx => ?_, List.pairwise_append.mpr ⟨?_, ?_, fun x hx y hy => ?_⟩⟩, fun x hx => ?_⟩
  · rcases List.mem_append.mp hx with hx | hx
    · rw [hold x hx]
      exact hkept.row x hx
    · rw [hyoung x hx]
      exact hmade.row x hx
  · refine hkept.apart.imp_of_mem fun hx hy hxy => ?_
    rwa [hold _ hx, hold _ hy]
  · refine hmade.apart.imp_of_mem fun hx hy hxy => ?_
    rwa [hyoung _ hx, hyoung _ hy]
  · left
    rw [hyoung y hy]
    exact Nat.lt_of_lt_of_le (hlt x hx) (hbounds y hy).1
  · rcases List.mem_append.mp hx with hx | hx
    · exact Nat.lt_of_lt_of_le (hlt x hx) hnew.keeps.size
    · exact (hbounds x hx).2

theorem replace {front : List BlockId} (h : Separate a (front ++ [id])) (hid : Replaces a b id made) :
    Separate b (front ++ made) := by
  cases hid with
  | itself hkeeps => exact h.keeps hkeeps
  | trees hadds => exact (h.sublist (List.sublist_append_left front [id])).adds hadds

theorem mapThrough {f : Arena → BlockId → List BlockId × Arena}
    (hf : ∀ b id, Replaces b (f b id).2 id (f b id).1) {front : List BlockId} (h : Separate a (front ++ ids)) :
    Separate (mapThrough f a ids).2 (front ++ (mapThrough f a ids).1.flatten) := by
  induction ids generalizing a front with
  | nil => exact h
  | cons id ids ih =>
    have hfirst : Separate (f a id).2 (front ++ ids ++ (f a id).1) := by
      refine Separate.replace (h.perm ?_) (hf a id)
      rw [List.append_assoc]
      exact List.Perm.append_left front (List.perm_append_singleton id ids).symm
    have hnext : Separate (f a id).2 (front ++ (f a id).1 ++ ids) := by
      refine hfirst.perm ?_
      rw [List.append_assoc, List.append_assoc]
      exact List.Perm.append_left front List.perm_append_comm
    have hrest := ih hnext
    rw [List.append_assoc] at hrest
    exact hrest

end Separate

end Arena

end InfraConfig
