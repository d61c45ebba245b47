import Mathlib.Data.List.Flatten
import InfraConfig.Proofs.ModuleScopes
import InfraConfig.Proofs.Recursions

/-!
# Forests

The blocks of all modules of a project are trees: on a walk through them no block is met twice. A block belongs to
the call that its module was loaded for, which is older than the block. Both stay when trees of one module are
copied and rendered, and when a module is loaded.
-/

namespace InfraConfig

namespace Arena

variable {a b c : Arena} {ids others v : List BlockId} {id x : BlockId} {m m' : ModuleInstance}
  {modules rest : List ModuleInstance}

/-! ## What a walk visits -/

theorem Below.within (h : a.Below (a.inside id) x) (hid : a.Below ids id) : a.Below ids x := by
  induction h with
  | listed h => exact hid.inside h
  | inside _ hc ih => exact ih.inside hc

theorem Below.subset (h : a.Below ids x) (hsub : ids ⊆ others) : a.Below others x := by
  induction h with
  | listed h => exact .listed (hsub h)
  | inside _ hc ih => exact ih.inside hc

theorem Walk.mem_iff (h : Walk a ids v) : x ∈ v ↔ a.Below ids x := by
  constructor
  · intro hx
    induction h with
    | nil => cases hx
    | @cons id ids v w _ _ ihfirst ihothers =>
      rcases List.mem_cons.mp hx with rfl | hx
      · exact .listed List.mem_cons_self
      · rcases List.mem_append.mp hx with hx | hx
        · exact (ihfirst hx).within (.listed List.mem_cons_self)
        · exact (ihothers hx).subset (List.subset_cons_self id ids)
  · intro hx
    induction hx with
    | listed hmem => exact h.subset hmem
    | inside _ hc ih => exact h.inside_subset ih hc

/-! ## Forests of modules -/

/-- The blocks of modules are trees that are apart, and belong to the calls of the modules. -/
structure Forest (a : Arena) (modules : List ModuleInstance) : Prop where
  walk : ∃ visited, a.Walk (modules.flatMap ModuleInstance.blocks) visited ∧ a.Distinct visited
  caller : ∀ m ∈ modules, ∀ id, a.Below m.blocks id → (a.block id).caller = m.caller
  dated : a.Dated

/-- A walk through several modules goes through each of them. -/
theorem Walk.ofModule (h : Walk a (modules.flatMap ModuleInstance.blocks) v) (hm : m ∈ modules) :
    ∃ w, Walk a m.blocks w ∧ w.Sublist v := by
  have hsub := (List.singleton_sublist.mpr hm).flatMap ModuleInstance.blocks
  rw [List.flatMap_singleton] at hsub
  exact h.sublist hsub

namespace Forest

theorem perm (h : Forest a modules) (hperm : modules.Perm rest) : Forest a rest := by
  obtain ⟨v, hwalk, hv⟩ := h.walk
  obtain ⟨w, hwalked, hsame⟩ := hwalk.perm (hperm.flatMap_right ModuleInstance.blocks)
  exact ⟨⟨w, hwalked, hv.perm hsame⟩, fun m hm => h.caller m (hperm.symm.subset hm), h.dated⟩

theorem sublist (h : Forest a modules) (hsub : rest.Sublist modules) : Forest a rest := by
  obtain ⟨v, hwalk, hv⟩ := h.walk
  obtain ⟨w, hwalked, hpart⟩ := hwalk.sublist (hsub.flatMap ModuleInstance.blocks)
  exact ⟨⟨w, hwalked, hv.sublist hpart⟩, fun m hm => h.caller m (hsub.subset hm), h.dated⟩

theorem lt (h : Forest a modules) (hm : m ∈ modules) {id : Nat} (hid : a.Below m.blocks id) :
    id < a.blocks.size := by
  obtain ⟨v, hwalk, hv⟩ := h.walk
  obtain ⟨w, hown, hsub⟩ := hwalk.ofModule hm
  exact hv.lt id (hsub.subset (hown.mem_iff.mpr hid))

/-- Blocks that keep what is inside them and their callers still belong to the calls of their modules. -/
theorem caller_later (h : Forest a modules) (hwalk : Walk a (modules.flatMap ModuleInstance.blocks) v)
    (hkept : ∀ x ∈ v, b.inside x = a.inside x ∧ (b.block x).caller = (a.block x).caller) :
    ∀ m ∈ modules, ∀ id, b.Below m.blocks id → (b.block id).caller = m.caller := by
  intro m hm id hid
  obtain ⟨w, hown, hsub⟩ := hwalk.ofModule hm
  have hsame : Walk b m.blocks w := hown.congr fun x hx => (hkept x (hsub.subset hx)).1
  have hvisited : id ∈ w := hsame.mem_iff.mpr hid
  exact (hkept id (hsub.subset hvisited)).2.trans (h.caller m hm id (hown.mem_iff.mp hvisited))

/-- A step in the trees of one module. -/
theorem grows (h : Forest a (m :: modules)) (hstep : Grows a m.blocks b m'.blocks) (hcaller : m'.caller = m.caller) :
    Forest b (m' :: modules) := by
  obtain ⟨u, hwalk, hu⟩ := h.walk
  rw [List.flatMap_cons] at hwalk
  obtain ⟨v, w, rfl, hown, hothers⟩ := hwalk.exists_append
  obtain ⟨v', hgrown, hregrows⟩ := hstep v hown hu.left
  have hinherits := hregrows.inherits
  constructor
  · exact ⟨v' ++ w, hgrown.append (hregrows.walk hothers hu), (hregrows.beside hu).distinct⟩
  · refine List.forall_mem_cons.mpr ⟨fun id hid => ?_, ?_⟩
    · have hold (x : Nat) (hx : x ∈ v) : (a.block x).caller = m.caller :=
        h.caller m List.mem_cons_self x (hown.mem_iff.mp hx)
      have hmem : id ∈ v' := hgrown.mem_iff.mpr hid
      rw [hcaller]
      rcases hregrows.drawn id hmem with hv | hnew
      · rw [hinherits.kept id (hu.left.lt id hv), hold id hv]
      · obtain ⟨z, hz, hsame⟩ := hinherits.fresh id hnew (hregrows.distinct.lt id hmem)
        rw [hsame, hold z hz]
    · have hrest : Forest a modules := h.sublist (List.sublist_cons_self m modules)
      refine hrest.caller_later hothers fun x hx => ?_
      have hlt := hu.right.lt x hx
      exact ⟨hregrows.keeps.inside x hlt fun hmem => hu.apart hmem hx, hinherits.kept x hlt⟩
  · intro id hid call hcall
    by_cases hold : id < a.blocks.size
    · exact h.dated id hold call (hinherits.kept id hold ▸ hcall)
    -- A new block is younger than the block that it takes after.
    · obtain ⟨z, hz, hsame⟩ := hinherits.fresh id (Nat.le_of_not_lt hold) hid
      have hlt : (z : Nat) < a.blocks.size := hu.left.lt z hz
      have hbefore := h.dated z hlt call (hsame ▸ hcall)
      exact Nat.lt_of_lt_of_le (Nat.lt_trans hbefore hlt) (Nat.le_of_not_lt hold)

/-- A step that puts no blocks anywhere. -/
theorem keeps (h : Forest a modules) (hkeeps : Keeps (fun _ => True) a b) (hcallers : Inherits [] a b) :
    Forest b modules := by
  obtain ⟨v, hwalk, hv⟩ := h.walk
  have hinside (x : BlockId) (hx : x ∈ v) : b.inside x = a.inside x := hkeeps.inside x (hv.lt x hx) trivial
  refine ⟨⟨v, hwalk.congr hinside, hv.later hkeeps.size⟩, ?_, fun id hid call hcall => ?_⟩
  · exact h.caller_later hwalk fun x hx => ⟨hinside x hx, hcallers.kept x (hv.lt x hx)⟩
  · by_cases hold : id < a.blocks.size
    · exact h.dated id hold call (hcallers.kept id hold ▸ hcall)
    · obtain ⟨z, hz, -⟩ := hcallers.fresh id (Nat.le_of_not_lt hold) hid
      cases hz

theorem ofBlocks (h : Forest a modules) (hblocks : b.blocks = a.blocks) : Forest b modules :=
  h.keeps (.ofBlocks hblocks) (.ofBlocks hblocks)

/-- The recursions from all blocks of the modules come to an end. -/
theorem ends (h : Forest a modules) (hm : m ∈ modules) (hid : a.Below m.blocks id) : a.Ends id := by
  obtain ⟨v, hwalk, hv⟩ := h.walk
  obtain ⟨w, hown, hsub⟩ := hwalk.ofModule hm
  obtain ⟨u, htree, hpart⟩ := hown.exists_of_mem (hown.mem_iff.mpr hid)
  exact htree.ends (hv.sublist (hpart.trans hsub))

end Forest

/-! ## Scopes -/

theorem inherits_rescopeUpTo (depth : Nat) (a : Arena) (id : BlockId) (scope : ScopeId) :
    Inherits [] a (rescopeUpTo depth a id scope) :=
  rescopeUpTo_induction (fun _ id _ hb => hb.nil_trans (.modify _ id (by intro _; rfl)))
    (fun _ _ hb => hb.nil_trans (.ofBlocks rfl)) (.ofBlocks rfl) depth id scope

/-! ## Loading -/

/-- Blocks are added that belong to a call. -/
structure Loads (caller : Option BlockId) (a b : Arena) : Prop where
  kept : Extends a b
  fresh : ∀ x : Nat, a.blocks.size ≤ x → x < b.blocks.size → (b.block x).caller = caller

variable {caller : Option BlockId}

namespace Loads

theorem ofBlocks (hkept : Extends a b) (hsize : b.blocks.size = a.blocks.size) : Loads caller a b :=
  ⟨hkept, fun _ hx hlt => absurd hx (Nat.not_le.mpr (hsize ▸ hlt))⟩

theorem trans (h : Loads caller a b) (k : Loads caller b c) : Loads caller a c := by
  refine ⟨h.kept.trans k.kept, fun x hx hlt => ?_⟩
  by_cases hold : x < b.blocks.size
  · rw [k.kept.kept x hold]
    exact h.fresh x hx hold
  · exact k.fresh x (Nat.le_of_not_lt hold) hlt

theorem push (a : Arena) {d : Block} (hd : d.caller = caller) : Loads caller a (a.push d).2 := by
  refine ⟨.push a d, fun x hx hlt => ?_⟩
  rw [size_blocks_push] at hlt
  rw [block_push, if_pos (Nat.le_antisymm (Nat.le_of_lt_succ hlt) hx), hd]

end Loads

mutual

theorem loads_insert (scope : ScopeId) (caller : Option BlockId) :
    ∀ (t : BlockTree) (a : Arena), Loads caller a (insert scope caller a t).2
  | .node kind labels attributes children range, a => by
    rw [insert]
    exact (loads_insertAll scope caller children a).trans (.push _ rfl)

theorem loads_insertAll (scope : ScopeId) (caller : Option BlockId) :
    ∀ (trees : List BlockTree) (a : Arena), Loads caller a (insertAll scope caller a trees).2
  | [], a => .ofBlocks (.refl a) rfl
  | t :: trees, a => by
    rw [insertAll]
    exact (loads_insert scope caller t a).trans (loads_insertAll scope caller trees _)

end

theorem loads_insertFiles (scope : ScopeId) (caller : Option BlockId) (files : List SourceFile) (a : Arena) :
    Loads caller a (insertFiles scope caller a files).2 := by
  induction files generalizing a with
  | nil => exact .ofBlocks (.refl a) rfl
  | cons file files ih =>
    rw [insertFiles]
    have hnamed (b : Arena) : Loads caller b (b.addSource file.path file.text) := .ofBlocks (.addSource b _ _) rfl
    exact ((loads_insertAll scope caller file.blocks a).trans (hnamed _)).trans (ih _)

/-- A module is loaded. -/
theorem Forest.load (h : Forest a modules) (hadds : Adds a b m.blocks) (hloads : Loads m.caller a b)
    (hcaller : ∀ call : Nat, m.caller = some call → call < a.blocks.size) : Forest b (m :: modules) := by
  obtain ⟨v, hwalk, hv⟩ := h.walk
  obtain ⟨w, hrow, hw, hmem⟩ := Walk.ofRow hadds.row
  have hkept (x : BlockId) (hx : x ∈ v) : b.block x = a.block x := hloads.kept.kept x (hv.lt x hx)
  have hinside (x : BlockId) (hx : x ∈ v) : b.inside x = a.inside x := congrArg Block.children (hkept x hx)
  constructor
  · refine ⟨w ++ v, hrow.append (hwalk.congr hinside), List.nodup_append.mpr ⟨hw, hv.nodup, ?_⟩, fun x hx => ?_⟩
    · rintro x hx y hy rfl
      exact absurd (hv.lt x hy) (Nat.not_lt.mpr ((hmem x).mp hx).1)
    · rcases List.mem_append.mp hx with hx | hx
      · exact ((hmem x).mp hx).2
      · exact Nat.lt_of_lt_of_le (hv.lt x hx) hloads.kept.size
  · refine List.forall_mem_cons.mpr ⟨fun id hid => ?_, ?_⟩
    · obtain ⟨hnew, hlt⟩ := (hmem id).mp (hrow.mem_iff.mpr hid)
      exact hloads.fresh id hnew hlt
    · exact h.caller_later hwalk fun x hx => ⟨hinside x hx, congrArg Block.caller (hkept x hx)⟩
  · intro id hid call hcall
    by_cases hold : id < a.blocks.size
    · exact h.dated id hold call (hloads.kept.kept id hold ▸ hcall)
    · have hnew := hloads.fresh id (Nat.le_of_not_lt hold) hid
      exact Nat.lt_of_lt_of_le (hcaller call (hnew ▸ hcall)) (Nat.le_of_not_lt hold)

end Arena

end InfraConfig
