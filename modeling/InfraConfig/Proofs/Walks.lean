import Mathlib.Data.List.Perm.Subperm
import InfraConfig.Proofs.ExpandedTrees

/-!
# Walks through trees

A walk goes from some blocks through all that is inside them. Where it ends and meets no block twice, these blocks
are the roots of trees. A step that keeps to some trees, and to blocks that are new, leaves the walk through all
other trees as it is; steps in different trees can be put together.
-/

namespace InfraConfig

namespace Arena

/-! ## Walks -/

/-- The blocks that are visited on the way from those of a list through all that is inside. -/
inductive Walk (a : Arena) : List BlockId → List BlockId → Prop where
  | nil : Walk a [] []
  | cons {id ids v w} (first : Walk a (a.inside id) v) (others : Walk a ids w) : Walk a (id :: ids) (id :: (v ++ w))

variable {a b c : Arena} {m v w v' w' u ids others xs ys xs' ys' : List BlockId} {id x : BlockId}

namespace Walk

theorem single (h : Walk a (a.inside id) v) : Walk a [id] (id :: v) := by
  have hone := Walk.cons h .nil
  rwa [List.append_nil] at hone

theorem exists_inside (h : Walk a [id] v) : ∃ w, v = id :: w ∧ Walk a (a.inside id) w := by
  cases h with
  | cons first others =>
    cases others
    exact ⟨_, by rw [List.append_nil], first⟩

theorem append (h : Walk a ids v) (k : Walk a others w) : Walk a (ids ++ others) (v ++ w) := by
  induction h with
  | nil => exact k
  | cons first _ _ ih =>
    have hall := Walk.cons first ih
    rwa [← List.append_assoc] at hall

theorem exists_append (h : Walk a (ids ++ others) u) : ∃ v w, u = v ++ w ∧ Walk a ids v ∧ Walk a others w := by
  induction ids generalizing u with
  | nil => exact ⟨[], u, rfl, .nil, h⟩
  | cons id ids ih =>
    cases h with
    | @cons _ _ inner _ first rest =>
      obtain ⟨v, w, rfl, hids, hothers⟩ := ih rest
      exact ⟨id :: (inner ++ v), w, by simp, .cons first hids, hothers⟩

theorem exists_cons (h : Walk a (id :: ids) u) : ∃ v w, u = v ++ w ∧ Walk a [id] v ∧ Walk a ids w := by
  have hall : Walk a ([id] ++ ids) u := h
  exact hall.exists_append

/-- Only what is inside the visited blocks matters. -/
theorem congr (h : Walk a ids v) (hsame : ∀ x ∈ v, b.inside x = a.inside x) : Walk b ids v := by
  induction h with
  | nil => exact .nil
  | @cons id ids v w first others ihfirst ihothers =>
    refine .cons ?_ (ihothers fun x hx => hsame x (by simp [hx]))
    rw [hsame id List.mem_cons_self]
    exact ihfirst fun x hx => hsame x (by simp [hx])

/-- The order of the blocks does not matter for what is visited. -/
theorem perm (h : Walk a ids v) (hperm : ids.Perm others) : ∃ w, Walk a others w ∧ v.Perm w := by
  induction hperm generalizing v with
  | nil => exact ⟨v, h, .refl v⟩
  | cons id _ ih =>
    cases h with
    | @cons _ _ inner _ first rest =>
      obtain ⟨w, hrest, hsame⟩ := ih rest
      exact ⟨_, .cons first hrest, (hsame.append_left inner).cons id⟩
  | swap x y ids =>
    cases h with
    | @cons _ _ innerY _ hy rest =>
      cases rest with
      | @cons _ _ innerX w hx rest =>
        refine ⟨_, .cons hx (.cons hy rest), ?_⟩
        have hsame : ((y :: innerY) ++ (x :: innerX)).Perm ((x :: innerX) ++ (y :: innerY)) := List.perm_append_comm
        have hall := hsame.append_right w
        simpa using hall
  | trans _ _ ih1 ih2 =>
    obtain ⟨w, hmid, hfirst⟩ := ih1 h
    obtain ⟨u, hlast, hsecond⟩ := ih2 hmid
    exact ⟨u, hlast, hfirst.trans hsecond⟩

/-- The blocks with a property have their turn last. -/
theorem exists_filter (h : Walk a ids v) (p : BlockId → Bool) : ∃ w u,
    Walk a (ids.filter (not ∘ p)) w ∧ Walk a (ids.filter p) u ∧ v.Perm (w ++ u) := by
  obtain ⟨both, hboth, hperm⟩ := h.perm (perm_filter_append p ids)
  obtain ⟨w, u, rfl, hfirst, hlast⟩ := hboth.exists_append
  exact ⟨w, u, hfirst, hlast, hperm⟩

theorem sublist (h : Walk a ids v) (hsub : others.Sublist ids) : ∃ w, Walk a others w ∧ w.Sublist v := by
  induction hsub generalizing v with
  | slnil => exact ⟨v, h, .refl v⟩
  | cons id _ ih =>
    cases h with
    | @cons _ _ inner _ first rest =>
      obtain ⟨w, hrest, hw⟩ := ih rest
      exact ⟨w, hrest, (hw.trans (List.sublist_append_right inner _)).cons id⟩
  | cons_cons id _ ih =>
    cases h with
    | @cons _ _ inner _ first rest =>
      obtain ⟨w, hrest, hw⟩ := ih rest
      exact ⟨_, .cons first hrest, (hw.append_left inner).cons_cons id⟩

theorem subset (h : Walk a ids v) : ids ⊆ v := by
  induction h with
  | nil => exact List.Subset.refl _
  | @cons id ids v w _ _ _ ih =>
    refine List.cons_subset.mpr ⟨List.mem_cons_self, fun x hx => ?_⟩
    exact List.mem_cons_of_mem id (List.mem_append_right v (ih hx))

/-- From each visited block, a part of the walk goes through its own tree. -/
theorem exists_of_mem (h : Walk a ids v) (hx : x ∈ v) : ∃ w, Walk a [x] w ∧ w.Sublist v := by
  induction h with
  | nil => cases hx
  | @cons id ids v w first _ ihfirst ihothers =>
    rcases List.mem_cons.mp hx with rfl | hx
    · exact ⟨_, first.single, (List.sublist_append_left v w).cons_cons x⟩
    · rcases List.mem_append.mp hx with hx | hx
      · obtain ⟨own, hown, hsub⟩ := ihfirst hx
        exact ⟨own, hown, (hsub.trans (List.sublist_append_left v w)).cons id⟩
      · obtain ⟨own, hown, hsub⟩ := ihothers hx
        exact ⟨own, hown, (hsub.trans (List.sublist_append_right v w)).cons id⟩

theorem inside_subset (h : Walk a ids v) (hx : x ∈ v) : a.inside x ⊆ v := by
  obtain ⟨w, hwalk, hsub⟩ := h.exists_of_mem hx
  obtain ⟨inner, rfl, hinner⟩ := hwalk.exists_inside
  exact fun y hy => hsub.subset (List.mem_cons_of_mem x (hinner.subset hy))

/-- The walk through a row visits one interval of the arena. -/
theorem ofRow {lo hi : Nat} (h : Row a lo ids hi) :
    ∃ v, Walk a ids v ∧ v.Nodup ∧ ∀ x : Nat, x ∈ v ↔ lo ≤ x ∧ x < hi := by
  induction h with
  | nil n => exact ⟨[], .nil, List.nodup_nil, fun x => by simp⟩
  | @cons lo hi id rest first others ihfirst ihothers =>
    obtain ⟨v, hfirst, hv, hmem⟩ := ihfirst
    obtain ⟨w, hothers, hw, hmem'⟩ := ihothers
    have hlo := first.le
    have hhi := others.le
    refine ⟨id :: (v ++ w), .cons hfirst hothers, ?_, fun x => ?_⟩
    · rw [List.nodup_cons, List.mem_append, hmem, hmem', List.nodup_append]
      refine ⟨by omega, hv, hw, ?_⟩
      rintro x hx y hy rfl
      have := (hmem x).mp hx
      have := (hmem' x).mp hy
      omega
    · rw [List.mem_cons, List.mem_append, hmem, hmem']
      omega

end Walk

/-! ## Trees that are apart -/

/-- Blocks that are there, no two of them the same. -/
structure Distinct (a : Arena) (v : List BlockId) : Prop where
  nodup : v.Nodup
  lt : ∀ x : Nat, x ∈ v → x < a.blocks.size

namespace Distinct

theorem subset (h : Distinct a v) (hw : w.Nodup) (hsub : w ⊆ v) : Distinct a w :=
  ⟨hw, fun x hx => h.lt x (hsub hx)⟩

theorem sublist (h : Distinct a v) (hsub : w.Sublist v) : Distinct a w :=
  h.subset (h.nodup.sublist hsub) hsub.subset

theorem perm (h : Distinct a v) (hperm : v.Perm w) : Distinct a w :=
  h.subset (hperm.nodup_iff.mp h.nodup) hperm.symm.subset

theorem left (h : Distinct a (v ++ w)) : Distinct a v :=
  h.sublist (List.sublist_append_left v w)

theorem right (h : Distinct a (v ++ w)) : Distinct a w :=
  h.sublist (List.sublist_append_right v w)

theorem apart (h : Distinct a (v ++ w)) (hv : x ∈ v) : x ∉ w :=
  fun hw => List.disjoint_of_nodup_append h.nodup hv hw

theorem later (h : Distinct a v) (hsize : a.blocks.size ≤ b.blocks.size) : Distinct b v :=
  ⟨h.nodup, fun x hx => Nat.lt_of_lt_of_le (h.lt x hx) hsize⟩

theorem length_le (h : Distinct a v) : v.length ≤ a.blocks.size := by
  have hsub : v ⊆ List.range a.blocks.size := fun x hx => List.mem_range.mpr (h.lt x hx)
  have hlength := (List.Nodup.subperm h.nodup hsub).length_le
  rwa [List.length_range] at hlength

end Distinct

/-! ## Callers -/

/-- Blocks keep their callers, and new ones have those of some of the blocks `v`. -/
structure Inherits (v : List BlockId) (a b : Arena) : Prop where
  size : a.blocks.size ≤ b.blocks.size
  kept : ∀ x : Nat, x < a.blocks.size → (b.block x).caller = (a.block x).caller
  fresh : ∀ x : Nat, a.blocks.size ≤ x → x < b.blocks.size → ∃ z ∈ v, (b.block x).caller = (a.block z).caller

namespace Inherits

theorem ofCallers (hsize : b.blocks.size = a.blocks.size)
    (hkept : ∀ x : Nat, (b.block x).caller = (a.block x).caller) : Inherits v a b := by
  refine ⟨Nat.le_of_eq hsize.symm, fun x _ => hkept x, fun x hx hlt => ?_⟩
  rw [hsize] at hlt
  exact absurd hlt (Nat.not_lt.mpr hx)

theorem ofBlocks (h : b.blocks = a.blocks) : Inherits v a b :=
  ofCallers (congrArg Array.size h) fun x => by rw [block, block, h]

theorem modify (a : Arena) (id : BlockId) {f : Block → Block} (hf : ∀ b, (f b).caller = b.caller) :
    Inherits v a (a.modify id f) :=
  ofCallers (size_blocks_modify a id f) fun x => a.modify_same Block.caller id hf x

theorem push (a : Arena) {d : Block} (hx : x ∈ v) (hd : d.caller = (a.block x).caller) : Inherits v a (a.push d).2 := by
  refine ⟨by simp, fun y hy => ?_, fun y hy hlt => ⟨x, hx, ?_⟩⟩
  · rw [block_push, if_neg (Nat.ne_of_lt hy)]
  · rw [size_blocks_push] at hlt
    rw [block_push, if_pos (Nat.le_antisymm (Nat.le_of_lt_succ hlt) hy), hd]

theorem mono (h : Inherits v a b) (hsub : v ⊆ w) : Inherits w a b :=
  ⟨h.size, h.kept, fun x hx hlt => (h.fresh x hx hlt).imp fun _ hz => ⟨hsub hz.1, hz.2⟩⟩

/-- New blocks may be taken after in their turn. -/
theorem trans (h : Inherits v a b) (k : Inherits w b c) (hv : ∀ z : Nat, z ∈ v → z < a.blocks.size)
    (hw : ∀ z : Nat, z ∈ w → z < b.blocks.size ∧ (z ∈ v ∨ a.blocks.size ≤ z)) : Inherits v a c := by
  refine ⟨Nat.le_trans h.size k.size, fun x hx => ?_, fun x hx hlt => ?_⟩
  · rw [k.kept x (Nat.lt_of_lt_of_le hx h.size), h.kept x hx]
  · by_cases hold : x < b.blocks.size
    · obtain ⟨z, hz, hcaller⟩ := h.fresh x hx hold
      exact ⟨z, hz, (k.kept x hold).trans hcaller⟩
    · obtain ⟨y, hy, hcaller⟩ := k.fresh x (Nat.le_of_not_lt hold) hlt
      rcases hw y hy with ⟨hylt, hyv | hynew⟩
      · exact ⟨y, hyv, hcaller.trans (h.kept y (hv y hyv))⟩
      · obtain ⟨z, hz, hinherited⟩ := h.fresh y hynew hylt
        exact ⟨z, hz, hcaller.trans hinherited⟩

theorem andThen (h : Inherits v a b) (k : Inherits v b c) (hv : ∀ z : Nat, z ∈ v → z < a.blocks.size) :
    Inherits v a c :=
  h.trans k hv fun z hz => ⟨Nat.lt_of_lt_of_le (hv z hz) h.size, .inl hz⟩

/-- Steps without new blocks. -/
theorem nil_trans (h : Inherits [] a b) (k : Inherits [] b c) : Inherits [] a c :=
  h.andThen k fun _ hz => absurd hz List.not_mem_nil

theorem foldl {α : Type} {f : Arena → α → Arena} (hf : ∀ b x, Inherits [] b (f b x)) (a : Arena) (xs : List α) :
    Inherits [] a (xs.foldl f a) :=
  List.foldlRecOn xs f (.ofBlocks rfl) fun b hb x _ => hb.nil_trans (hf b x)

end Inherits

/-! ## Steps in some trees -/

/-- A step among the blocks `v`. Those that are found in their place are some of them, and new ones. -/
structure Regrows (a b : Arena) (v w : List BlockId) : Prop where
  keeps : Keeps (fun x => x ∉ v) a b
  inherits : Inherits v a b
  distinct : Distinct b w
  drawn : ∀ x : Nat, x ∈ w → x ∈ v ∨ a.blocks.size ≤ x

namespace Regrows

theorem refl (h : Distinct a v) : Regrows a a v v :=
  ⟨.refl, .ofBlocks rfl, h, fun _ hx => .inl hx⟩

/-- A step without new blocks. -/
theorem edit (h : Distinct a v) (hkeeps : Keeps (fun x => x ∉ v) a b) (hsize : b.blocks.size = a.blocks.size)
    (hcallers : ∀ x : Nat, (b.block x).caller = (a.block x).caller) : Regrows a b v v :=
  ⟨hkeeps, .ofCallers hsize hcallers, h.later hkeeps.size, fun _ hx => .inl hx⟩

theorem subset (h : Regrows a b v w) (hw : w'.Nodup) (hsub : w' ⊆ w) : Regrows a b v w' :=
  ⟨h.keeps, h.inherits, h.distinct.subset hw hsub, fun x hx => h.drawn x (hsub hx)⟩

theorem perm (h : Regrows a b v w) (hv : v.Perm v') (hw : w.Perm w') : Regrows a b v' w' := by
  constructor
  · exact h.keeps.mono fun x _ hx hmem => hx (hv.subset hmem)
  · exact h.inherits.mono hv.subset
  · exact h.distinct.perm hw
  · exact fun x hx => (h.drawn x (hw.symm.subset hx)).imp_left fun hmem => hv.subset hmem

theorem trans (h : Regrows a b v w) (k : Regrows b c w u) (hv : Distinct a v) : Regrows a c v u := by
  constructor
  · refine h.keeps.trans k.keeps fun x hx hnot hmem => ?_
    rcases h.drawn x hmem with hold | hnew
    · exact hnot hold
    · exact absurd hx (Nat.not_lt.mpr hnew)
  · exact h.inherits.trans k.inherits hv.lt fun z hz => ⟨h.distinct.lt z hz, h.drawn z hz⟩
  · exact k.distinct
  · intro x hx
    rcases k.drawn x hx with hmid | hnew
    · exact h.drawn x hmid
    · exact .inr (Nat.le_trans h.keeps.size hnew)

/-- Other trees stand beside. -/
theorem beside (h : Regrows a b v w) (hu : Distinct a (v ++ u)) : Regrows a b (v ++ u) (w ++ u) := by
  constructor
  · exact h.keeps.mono fun x _ hx hmem => hx (List.mem_append_left u hmem)
  · exact h.inherits.mono (List.subset_append_left v u)
  · refine ⟨?_, fun x hx => ?_⟩
    · refine List.nodup_append.mpr ⟨h.distinct.nodup, hu.right.nodup, ?_⟩
      rintro x hx y hy rfl
      rcases h.drawn x hx with hold | hnew
      · exact hu.apart hold hy
      · exact absurd (hu.right.lt x hy) (Nat.not_lt.mpr hnew)
    · rcases List.mem_append.mp hx with hx | hx
      · exact h.distinct.lt x hx
      · exact Nat.lt_of_lt_of_le (hu.right.lt x hx) h.keeps.size
  · intro x hx
    rcases List.mem_append.mp hx with hx | hx
    · exact (h.drawn x hx).imp_left fun hold => List.mem_append_left u hold
    · exact .inl (List.mem_append_right v hx)

/-- The walk through other trees stays. -/
theorem walk (h : Regrows a b v w) (hwalk : Walk a ids u) (hu : Distinct a (v ++ u)) : Walk b ids u := by
  apply hwalk.congr
  intro x hx
  exact h.keeps.inside x (hu.right.lt x hx) fun hmem => hu.apart hmem hx

theorem perm_append_swap (m x y : List BlockId) : (m ++ x ++ y).Perm (m ++ y ++ x) := by
  rw [List.append_assoc, List.append_assoc]
  exact List.perm_append_comm.append_left m

/-- Two steps that share the blocks `m` only. -/
theorem both (h : Regrows a b (m ++ v) (m ++ w)) (k : Regrows b c (m ++ v') (m ++ w'))
    (hd : Distinct a (m ++ v ++ v')) :
    Regrows a c (m ++ v ++ v') (m ++ w ++ w') ∧ Distinct b (m ++ v' ++ w) := by
  have hfirst := h.beside hd
  have hmid := hfirst.distinct.perm (perm_append_swap m w v')
  have hsecond := (k.beside hmid).perm (perm_append_swap m v' w) (perm_append_swap m w' w)
  exact ⟨hfirst.trans hsecond hd, hmid⟩

end Regrows

/-- What was walked through from the blocks `xs` is walked through from the blocks `ys` after a step. -/
def Grows (a : Arena) (xs : List BlockId) (b : Arena) (ys : List BlockId) : Prop :=
  ∀ v, Walk a xs v → Distinct a v → ∃ w, Walk b ys w ∧ Regrows a b v w

namespace Grows

theorem refl (a : Arena) (xs : List BlockId) : Grows a xs a xs :=
  fun v hwalk hv => ⟨v, hwalk, .refl hv⟩

theorem trans {zs : List BlockId} (h : Grows a xs b ys) (k : Grows b ys c zs) : Grows a xs c zs := by
  intro v hwalk hv
  obtain ⟨w, hys, hfirst⟩ := h v hwalk hv
  obtain ⟨u, hzs, hsecond⟩ := k w hys hfirst.distinct
  exact ⟨u, hzs, hfirst.trans hsecond hv⟩

theorem append (h : Grows a xs b ys) (k : Grows b xs' c ys') : Grows a (xs ++ xs') c (ys ++ ys') := by
  intro u hwalk hu
  obtain ⟨v, v', rfl, hxs, hxs'⟩ := hwalk.exists_append
  obtain ⟨w, hys, hfirst⟩ := h v hxs hu.left
  have hkept := hfirst.walk hxs' hu
  obtain ⟨w', hys', hsecond⟩ := k v' hkept (hu.right.later hfirst.keeps.size)
  obtain ⟨hboth, hmid⟩ := Regrows.both (m := []) hfirst hsecond hu
  exact ⟨w ++ w', (hsecond.walk hys hmid).append hys', hboth⟩

theorem perm (h : Grows a xs b ys) (hxs : xs.Perm xs') (hys : ys.Perm ys') : Grows a xs' b ys' := by
  intro v hwalk hv
  obtain ⟨u, hwalk, hperm⟩ := hwalk.perm hxs.symm
  obtain ⟨w, hgrown, hstep⟩ := h u hwalk (hv.perm hperm)
  obtain ⟨w', hgrown, hperm'⟩ := hgrown.perm hys
  exact ⟨w', hgrown, hstep.perm hperm.symm hperm'⟩

theorem mapThrough {f : Arena → BlockId → List BlockId × Arena} (hf : ∀ b x, Grows b [x] (f b x).2 (f b x).1) (a : Arena)
    (xs : List BlockId) : Grows a xs (mapThrough f a xs).2 (mapThrough f a xs).1.flatten := by
  induction xs generalizing a with
  | nil => exact refl a []
  | cons x xs ih => exact (hf a x).append (ih _)

theorem foldl {f : Arena → BlockId → Arena} (hf : ∀ b x, Grows b [x] (f b x) [x]) (a : Arena) (xs : List BlockId) :
    Grows a xs (xs.foldl f a) xs := by
  induction xs generalizing a with
  | nil => exact refl a []
  | cons x xs ih => exact (hf a x).append (ih _)

end Grows

/-! ## Heights -/

/-- Trees of at most a height, of which all blocks are there. -/
def Shallow (a : Arena) : Nat → List BlockId → Prop
  | 0, ids => ids = []
  | n + 1, ids => ∀ id ∈ ids, id < a.blocks.size ∧ a.Shallow n (a.inside id)

namespace Shallow

variable {n k : Nat}

theorem subset (h : Shallow a n ids) (hsub : others ⊆ ids) : Shallow a n others := by
  cases n with
  | zero =>
    rw [Shallow] at h
    exact List.subset_nil.mp (h ▸ hsub)
  | succ n => exact fun id hid => h id (hsub hid)

theorem of_mem (h : Shallow a n ids) (hid : id ∈ ids) : Shallow a n [id] :=
  h.subset (List.cons_subset.mpr ⟨hid, List.nil_subset ids⟩)

theorem mono (h : Shallow a n ids) (hn : n ≤ k) : Shallow a k ids := by
  induction n generalizing k ids with
  | zero =>
    rw [Shallow] at h
    subst h
    cases k with
    | zero => rfl
    | succ k => exact fun id hid => absurd hid List.not_mem_nil
  | succ n ih =>
    obtain ⟨k, rfl⟩ := Nat.exists_eq_add_of_lt (Nat.lt_of_succ_le hn)
    exact fun id hid => ⟨(h id hid).1, ih (h id hid).2 (by omega)⟩

theorem not_zero (h : Shallow a 0 [id]) : False := by
  rw [Shallow] at h
  cases h

theorem of_forall (h : ∀ x ∈ ids, Shallow a n [x]) : Shallow a n ids := by
  cases n with
  | zero =>
    cases ids with
    | nil => rfl
    | cons id ids => exact (h id List.mem_cons_self).not_zero.elim
  | succ n => exact fun id hid => h id hid id List.mem_cons_self

theorem keeps (h : Shallow a n ids) (hab : Keeps (fun _ => True) a b) : Shallow b n ids := by
  induction n generalizing ids with
  | zero => exact h
  | succ n ih =>
    intro id hid
    obtain ⟨hlt, hinner⟩ := h id hid
    rw [hab.inside id hlt trivial]
    exact ⟨Nat.lt_of_lt_of_le hlt hab.size, ih hinner⟩

/-- A step in other trees leaves the height. -/
theorem regrows (h : Shallow a n ids) (hwalk : Walk a ids u) (hstep : Regrows a b v w) (hu : Distinct a (v ++ u)) :
    Shallow b n ids := by
  have hout (x : Nat) (hx : x ∈ u) : x < a.blocks.size ∧ b.inside x = a.inside x := by
    have hlt := hu.right.lt x hx
    exact ⟨hlt, hstep.keeps.inside x hlt fun hmem => hu.apart hmem hx⟩
  suffices hs : ∀ n ids, Shallow a n ids → ids ⊆ u → Shallow b n ids from hs n ids h hwalk.subset
  intro n
  induction n with
  | zero => exact fun ids h _ => h
  | succ n ih =>
    intro ids h hsub id hid
    obtain ⟨hlt, hsame⟩ := hout id (hsub hid)
    rw [hsame]
    exact ⟨Nat.lt_of_lt_of_le hlt hstep.keeps.size, ih _ (h id hid).2 (hwalk.inside_subset (hsub hid))⟩

end Shallow

/-- A tree is not higher than the number of its blocks. -/
theorem Walk.shallow (h : Walk a ids v) (hv : Distinct a v) : Shallow a v.length ids := by
  induction h with
  | nil => rfl
  | @cons id ids v w first others ihfirst ihothers =>
    have hinner : Distinct a (v ++ w) := hv.sublist (List.sublist_cons_self id (v ++ w))
    have hlength : (id :: (v ++ w)).length = v.length + w.length + 1 := by simp
    rw [hlength]
    intro x hx
    rcases List.mem_cons.mp hx with rfl | hx
    · exact ⟨hv.lt x List.mem_cons_self, (ihfirst hinner.left).mono (Nat.le_add_right _ _)⟩
    · have hrest : Shallow a (v.length + w.length + 1) ids := (ihothers hinner.right).mono (by omega)
      exact hrest x hx

end Arena

end InfraConfig
