import InfraConfig.Proofs.InjectedValues
import InfraConfig.Proofs.InstanceGroups

/-!
# Confined steps

A step in a module is confined to some trees when all other blocks stay what they are, no block leaves its scope, and of
the scopes that were there only the one at the top is written. What takes the place of the trees stands in the scopes
of their blocks, or below.
-/

namespace InfraConfig

namespace Arena

variable {P : ScopeId → Prop} {a b c : Arena} {root : ScopeId} {u v w v' w' m ids made : List BlockId}
  {id x content dynamic : BlockId}

theorem Changes.sees (h : Changes P a b) {s t : ScopeId} (hs : a.scopes.Sees s t) : b.scopes.Sees s t := by
  induction hs with
  | self s => exact .self s
  | outer hp _ ih => exact .outer ((h.parent?_eq (Scopes.lt_size_of_parent? hp)).trans hp) ih

theorem Below.exists_of_mem (h : a.Below ids x) : ∃ id ∈ ids, a.Below [id] x := by
  induction h with
  | @listed id hmem => exact ⟨id, hmem, .listed List.mem_cons_self⟩
  | inside _ hc ih =>
    obtain ⟨id, hid, hbelow⟩ := ih
    exact ⟨id, hid, hbelow.inside hc⟩

/-! ## Confined steps -/

/-- A step among the blocks `v` of a module. -/
structure Confined (root : ScopeId) (v : List BlockId) (a b : Arena) : Prop where
  changes : Changes (fun _ => True) a b
  /-- All other blocks are what they were, but for the numbers of their instances. -/
  others : ∀ x, x < a.blocks.size → x ∉ v → (b.block x).uncounted = (a.block x).uncounted
  scope : ∀ x, x < a.blocks.size → (b.block x).scope = (a.block x).scope
  bindings : ∀ σ, σ < a.scopes.size → σ ≠ root → b.scopes.bindings σ = a.scopes.bindings σ

namespace Confined

theorem refl (root : ScopeId) (v : List BlockId) (a : Arena) : Confined root v a a :=
  ⟨.refl, fun _ _ _ => rfl, fun _ _ => rfl, fun _ _ _ => rfl⟩

theorem mono (h : Confined root v a b) (hsub : v ⊆ w) : Confined root w a b :=
  ⟨h.changes, fun x hx hw => h.others x hx fun hv => hw (hsub hv), h.scope, h.bindings⟩

/-- Blocks that are new may be changed later. -/
theorem trans (h : Confined root v a b) (k : Confined root w b c)
    (hw : ∀ x : Nat, x ∈ w → x ∈ v ∨ a.blocks.size ≤ x) : Confined root v a c := by
  have hblocks := h.changes.size_blocks_le
  refine ⟨h.changes.trans k.changes, fun x hx hv => ?_, fun x hx => ?_, fun σ hσ hne => ?_⟩
  · rw [k.others x (Nat.lt_of_lt_of_le hx hblocks), h.others x hx hv]
    exact fun hmem => (hw x hmem).elim hv fun hnew => Nat.not_lt.mpr hnew hx
  · rw [k.scope x (Nat.lt_of_lt_of_le hx hblocks), h.scope x hx]
  · rw [k.bindings σ (Nat.lt_of_lt_of_le hσ h.changes.size_scopes_le) hne, h.bindings σ hσ hne]

theorem ofRetains (h : Retains root a b) (hchanges : Changes (fun _ => True) a b) : Confined root v a b :=
  ⟨hchanges, fun x hx _ => h.block x hx, fun _ hx => h.scope hx, h.bindings⟩

theorem part_eq {β : Type} (part : Block → β) (hpart : ∀ b, part b.uncounted = part b) (h : Confined root v a b)
    (hx : x < a.blocks.size) (hv : x ∉ v) : part (b.block x) = part (a.block x) := by
  rw [← hpart (b.block x), h.others x hx hv, hpart]

theorem inside (h : Confined root v a b) (hx : x < a.blocks.size) (hv : x ∉ v) : b.inside x = a.inside x :=
  h.part_eq Block.children (by intro _; rfl) hx hv

theorem written (h : Confined root v a b) (hx : x < a.blocks.size) (hv : x ∉ v) :
    (b.block x).written = (a.block x).written :=
  h.part_eq Block.written (by intro _; rfl) hx hv

theorem range (h : Confined root v a b) (hx : x < a.blocks.size) : (b.block x).range = (a.block x).range :=
  h.changes.part_eq (fun _ _ => rfl) (fun _ _ => rfl) (fun _ _ _ => rfl) (fun _ _ => rfl) hx

end Confined

/-- A confined step after which the blocks `w` are found in the place of `v`. -/
structure Moves (root : ScopeId) (a b : Arena) (v w : List BlockId) : Prop
    extends Regrows a b v w, Confined root v a b where
  descends : ∀ z ∈ w, ∃ u ∈ v, b.scopes.Sees (b.block z).scope (a.block u).scope

namespace Moves

theorem refl (root : ScopeId) (h : Distinct a v) : Moves root a a v v :=
  ⟨.refl h, .refl root v a, fun z hz => ⟨z, hz, .self _⟩⟩

theorem subset (h : Moves root a b v w) (hw : w'.Nodup) (hsub : w' ⊆ w) : Moves root a b v w' :=
  ⟨h.toRegrows.subset hw hsub, h.toConfined, fun z hz => h.descends z (hsub hz)⟩

theorem perm (h : Moves root a b v w) (hv : v.Perm v') (hw : w.Perm w') : Moves root a b v' w' := by
  refine ⟨h.toRegrows.perm hv hw, h.toConfined.mono hv.subset, fun z hz => ?_⟩
  obtain ⟨u, hu, hsees⟩ := h.descends z (hw.symm.subset hz)
  exact ⟨u, hv.subset hu, hsees⟩

theorem trans (h : Moves root a b v w) (k : Moves root b c w u) (hv : Distinct a v) : Moves root a c v u := by
  refine ⟨h.toRegrows.trans k.toRegrows hv, h.toConfined.trans k.toConfined h.drawn, fun z hz => ?_⟩
  obtain ⟨y, hy, hlast⟩ := k.descends z hz
  obtain ⟨x, hx, hfirst⟩ := h.descends y hy
  exact ⟨x, hx, hlast.trans (k.changes.sees hfirst)⟩

/-- Other trees stand beside. -/
theorem beside (h : Moves root a b v w) (hu : Distinct a (v ++ u)) : Moves root a b (v ++ u) (w ++ u) := by
  refine ⟨h.toRegrows.beside hu, h.toConfined.mono (List.subset_append_left v u), fun z hz => ?_⟩
  rcases List.mem_append.mp hz with hz | hz
  · obtain ⟨x, hx, hsees⟩ := h.descends z hz
    exact ⟨x, List.mem_append_left u hx, hsees⟩
  · refine ⟨z, List.mem_append_right v hz, ?_⟩
    rw [h.scope z (hu.right.lt z hz)]
    exact .self _

theorem outside (h : Moves root a b v w) (hv : Distinct a ([id] ++ v)) :
    Moves root a b ([id] ++ v) ([id] ++ w) :=
  (h.beside (hv.perm (perm_singleton_append id v).symm)).perm (perm_singleton_append id v) (perm_singleton_append id w)

/-- Two steps that share the blocks `m` only. -/
theorem both (h : Moves root a b (m ++ v) (m ++ w)) (k : Moves root b c (m ++ v') (m ++ w'))
    (hd : Distinct a (m ++ v ++ v')) : Moves root a c (m ++ v ++ v') (m ++ w ++ w') := by
  have hfirst := h.beside hd
  have hmid := (Regrows.both h.toRegrows k.toRegrows hd).2
  exact hfirst.trans ((k.beside hmid).perm (Regrows.perm_append_swap m v' w) (Regrows.perm_append_swap m w' w)) hd

end Moves

/-! ## Single steps -/

theorem moves_removeChild (root : ScopeId) (hid : Distinct a [id]) (child : BlockId) :
    Moves root a (a.removeChild id child) [id] [id] := by
  have hlt := hid.lt id List.mem_cons_self
  have hscope (x : BlockId) : ((a.removeChild id child).block x).scope = (a.block x).scope :=
    a.modify_same Block.scope id (by intro _; rfl) x
  refine ⟨regrows_removeChild hid child,
    ⟨.single (.remove id child hlt trivial), fun x _ hx => ?_, fun x _ => hscope x, fun _ _ _ => rfl⟩,
    fun z hz => ⟨z, hz, ?_⟩⟩
  · rw [removeChild, block_modify, if_neg fun h => hx (List.mem_singleton.mpr h.1)]
  · rw [hscope]
    exact .self _

/-- What stands for a block stands in its scopes, or in one below that of the block. -/
theorem exists_moves_expandElements (h : Site (fun _ => True) a root) (hid : a.Has root id) (hwalk : Walk a [id] v)
    (hv : Distinct a v) : ∃ w, Walk (expandElements root a id).2 (expandElements root a id).1 w
      ∧ Moves root a (expandElements root a id).2 v w := by
  obtain ⟨w, hmade, hstep⟩ := grows_expandForEach a root [id] v hwalk hv
  rw [expandForEach_singleton] at hmade hstep
  have hheight := (hwalk.shallow hv).mono hv.length_le
  have hretains : Retains root a (expandElements root a id).2 := retains_expand .forEach h.top.1 hheight
  have hregrouped := regrouped_expand (a := a) .forEach h.top.1 (.self hheight (.refl a)) hheight
  refine ⟨w, hmade, hstep, .ofRetains hretains (h.expandElements hid).1, fun z hz => ?_⟩
  have hbelow := hmade.mem_iff.mp hz
  cases hitems : a.items? id .forEach with
  | none =>
    have hitself : (expandElements root a id).1 = [id] := hregrouped.itself hitems
    rw [hitself, hretains.below_iff fun x hx => hv.lt x (hwalk.mem_iff.mpr hx)] at hbelow
    refine ⟨z, hwalk.mem_iff.mpr hbelow, ?_⟩
    rw [hretains.scope (hv.lt z (hwalk.mem_iff.mpr hbelow))]
    exact .self _
  | some items =>
    obtain ⟨copy, hcopy, hz⟩ := hbelow.exists_of_mem
    obtain ⟨item, -, hcopied⟩ := exists_of_mem_forall₂ (hregrouped.instances items hitems).copied hcopy
    refine ⟨id, hwalk.subset List.mem_cons_self, ?_⟩
    have hsame : ((expandElements root a id).2.block z).scope = ((expandElements root a id).2.block copy).scope :=
      (hcopied.shared z hz).2
    rw [hsame]
    exact .outer hcopied.parent (.self _)

theorem Walk.inject (h : Walk a ids w) (hid : id ∉ w) (content : BlockId) (label : String) :
    Walk (a.inject id content label) ids w :=
  h.congr fun x hx => by rw [inside_inject, if_neg fun heq : x = id ∧ id < a.blocks.size => hid (heq.1 ▸ hx)]

theorem written_inject (a : Arena) (label : String) (hx : x ≠ content) :
    ((a.inject id content label).block x).written = (a.block x).written := by
  rw [block_inject, modify_same Block.written _ id (by intro _; rfl), renamed, block_modify, if_neg fun h => hx h.1]

theorem moves_inject (h : Site (fun _ => True) a root) (hid : a.Has root id) (hcontent : a.Has root content)
    (hv : Distinct a ([id] ++ v)) (hmem : content ∈ v) (label : String) :
    Moves root a (a.inject id content label) ([id] ++ v) ([id] ++ v) := by
  have hne : id ≠ content := fun heq => hv.apart List.mem_cons_self (heq ▸ hmem)
  have hscope (x : BlockId) : ((a.inject id content label).block x).scope = (a.block x).scope := by
    rw [block_inject, modify_same Block.scope _ id (by intro _; rfl) x]
    exact a.modify_same Block.scope content (by intro _; rfl) x
  refine ⟨regrows_inject hv hmem label, ⟨h.inject hid hcontent label, fun x _ hx => ?_, fun x _ => hscope x,
    fun σ _ hσ => bindings_inject_of_ne hid hne label hσ⟩, fun z hz => ⟨z, hz, ?_⟩⟩
  · have hxid : x ≠ id := fun heq => hx (heq ▸ List.mem_append_left v List.mem_cons_self)
    have hxcontent : x ≠ content := fun heq => hx (heq ▸ List.mem_append_right [id] hmem)
    rw [block_inject, block_modify, if_neg fun h => hxid h.1, renamed, block_modify, if_neg fun h => hxcontent h.1]
  · rw [hscope]
    exact .self _

/-! ## Trees outside of a step -/

/-- What says the same as a tree outside of a step still does. -/
theorem Mirrors.outside {T : Arena} {y : BlockId} (h : Mirrors T a x y) (hwalk : Walk a [y] w)
    (hstep : Confined root v a b) (hw : ∀ z ∈ w, z ∉ v) : Mirrors T b x y := by
  suffices hs : ∀ {x y}, Mirrors T a x y → y ∈ w → Mirrors T b x y from hs h (hwalk.subset List.mem_cons_self)
  intro x y h
  induction h with
  | @intro x y lt written length _ ih =>
    intro hy
    have hsame := hstep.inside lt (hw y hy)
    have hwritten := (hstep.written lt (hw y hy)).trans written
    refine .intro (Nat.lt_of_lt_of_le lt hstep.changes.size_blocks_le) hwritten ?_ ?_
    · rw [hsame, length]
    · intro p q hpq
      rw [hsame] at hpq
      exact ih hpq (hwalk.inside_subset hy (List.of_mem_zip hpq).2)

/-! ## Steps inside a block -/

/-- A step among the trees `v` inside a block. The trees `w` of `roots` are found in their place; of the children of the
block those that `keep` rejects are gone, and `put` come last. -/
structure Advances (root : ScopeId) (a b : Arena) (id : BlockId) (keep : BlockId → Bool)
    (v roots put w : List BlockId) : Prop where
  walk : Walk b roots w
  moves : Moves root a b ([id] ++ v) ([id] ++ w)
  written : (b.block id).written = (a.block id).written
  inside : b.inside id = (a.inside id).filter keep ++ put
  put : put ⊆ roots

theorem Advances.none (root : ScopeId) (hid : Distinct a [id]) : Advances root a a id (fun _ => true) [] [] [] [] := by
  refine ⟨.nil, .refl root hid, rfl, ?_, List.nil_subset _⟩
  rw [List.filter_true, List.append_nil]

theorem Advances.append {keep keep' : BlockId → Bool} {roots put roots' put' : List BlockId}
    (h : Advances root a b id keep v roots put w) (k : Advances root b c id keep' v' roots' put' w')
    (hd : Distinct a ([id] ++ v ++ v')) (hkeep : ∀ z ∈ put, keep' z = true) :
    Advances root a c id (fun z => keep z && keep' z) (v ++ v') (roots ++ roots') (put ++ put') (w ++ w') := by
  have hmid := (Regrows.both h.moves.toRegrows k.moves.toRegrows hd).2
  refine ⟨(k.moves.toRegrows.walk h.walk hmid).append k.walk, ?_, k.written.trans h.written, ?_, ?_⟩
  · have hboth := h.moves.both k.moves hd
    rwa [List.append_assoc, List.append_assoc] at hboth
  · rw [k.inside, h.inside, List.filter_append, List.filter_filter, List.filter_eq_self.mpr hkeep, List.append_assoc]
    simp only [Bool.and_comm]
  · exact List.append_subset.mpr ⟨fun z hz => List.mem_append_left _ (h.put hz),
      fun z hz => List.mem_append_right _ (k.put hz)⟩

/-- A step among some of the trees is one among more. -/
theorem Advances.mono {keep : BlockId → Bool} {roots put : List BlockId} (h : Advances root a b id keep u roots put w)
    (hsub : u.Sublist v) (hv : Distinct a ([id] ++ v)) : Advances root a b id keep v roots put w := by
  have hpart : ([id] ++ u).Sublist ([id] ++ v) := hsub.append_left [id]
  have hfewer : Moves root a a ([id] ++ v) ([id] ++ u) :=
    (Moves.refl root hv).subset (hv.sublist hpart).nodup hpart.subset
  exact ⟨h.walk, hfewer.trans h.moves hv, h.written, h.inside, h.put⟩

/-- A tree that was found in the place of others is put into the block. -/
theorem Advances.inject {keep : BlockId → Bool} (h : Advances root a b id keep v [content] [] w)
    (hsite : Site (fun _ => True) b root) (hid : b.Has root id) (hcontent : b.Has root content)
    (hv : Distinct a ([id] ++ v)) (label : String) :
    Advances root a (b.inject id content label) id keep v [content] [content] w := by
  have hown : content ∈ w := h.walk.subset List.mem_cons_self
  have hout : id ∉ w := h.moves.distinct.apart List.mem_cons_self
  have hne : id ≠ content := fun heq => hout (heq ▸ hown)
  have hstep := moves_inject hsite hid hcontent h.moves.distinct hown label
  refine ⟨h.walk.inject hout content label, h.moves.trans hstep hv, ?_, ?_, List.Subset.refl _⟩
  · rw [written_inject b label hne, h.written]
  · rw [inside_inject, if_pos ⟨rfl, hid.1⟩, h.inside, List.append_nil]

section Pass

variable {ι β : Type} {f : Arena → BlockId → β × Arena} {I : Arena → ι → BlockId → Prop} {Q : Arena → ι → β → Prop}

/-- What holds of the trees of some roots is left by steps elsewhere if it is for each of them. -/
theorem forall₂_later (roots : β → List BlockId)
    (hQ : ∀ {a b i r u v w}, Q a i r → Site (fun _ => True) a root → Walk a (roots r) u → Moves root a b v w →
      Distinct a (v ++ u) → Q b i r)
    {is : List ι} {rs : List β} (hsite : Site (fun _ => True) a root) (h : List.Forall₂ (Q a) is rs)
    (hwalk : Walk a (rs.flatMap roots) u) (hstep : Moves root a b v w) (hu : Distinct a (v ++ u)) :
    List.Forall₂ (Q b) is rs := by
  refine forall₂_imp_of_mem h fun i _ r hr hone => ?_
  have hsub := (List.singleton_sublist.mpr hr).flatMap roots
  rw [List.flatMap_singleton] at hsub
  obtain ⟨own, hown, hpart⟩ := hwalk.sublist hsub
  exact hQ hone hsite hown hstep (hu.sublist (hpart.append_left v))

/-- A pass over the trees inside a block. What holds of a tree before its turn, and of what has come of it, is left by
steps elsewhere. -/
theorem exists_pass (keep : BlockId → BlockId → Bool) (roots put : β → List BlockId)
    (hstep : ∀ {a i y v}, Site (fun _ => True) a root → a.Has root id → I a i y → Walk a [y] v →
      Distinct a ([id] ++ v) → ∃ w, Advances root a (f a y).2 id (keep y) v (roots (f a y).1) (put (f a y).1) w
        ∧ Q (f a y).2 i (f a y).1)
    (hkeep : ∀ y z, z ≠ y → keep y z = true)
    (hI : ∀ {a b i y u v w}, I a i y → Site (fun _ => True) a root → Walk a [y] u → Moves root a b v w →
      Distinct a (v ++ u) → I b i y)
    (hQ : ∀ {a b i r u v w}, Q a i r → Site (fun _ => True) a root → Walk a (roots r) u → Moves root a b v w →
      Distinct a (v ++ u) → Q b i r)
    {is : List ι} {ys : List BlockId} (hsite : Site (fun _ => True) a root) (hid : a.Has root id)
    (hall : List.Forall₂ (I a) is ys) (hwalk : Walk a ys v) (hv : Distinct a ([id] ++ v)) :
    ∃ w, Advances root a (mapThrough f a ys).2 id (fun z => ys.all (keep · z)) v ((mapThrough f a ys).1.flatMap roots)
        ((mapThrough f a ys).1.flatMap put) w
      ∧ List.Forall₂ (Q (mapThrough f a ys).2) is (mapThrough f a ys).1 := by
  induction ys generalizing a is v with
  | nil =>
    cases hwalk
    cases hall
    exact ⟨[], .none root hv, .nil⟩
  | cons y ys ih =>
    obtain ⟨i, is, hfirst, hrest, rfl⟩ := List.forall₂_cons_right_iff.mp hall
    obtain ⟨u, u', rfl, hy, hys⟩ := hwalk.exists_cons
    rw [← List.append_assoc] at hv
    obtain ⟨w, hadvances, hdone⟩ := hstep hsite hid hfirst hy hv.left
    have hmoves := hadvances.moves
    have hlater : List.Forall₂ (I (f a y).2) is ys := by
      refine forall₂_later (Q := I) (fun y => [y]) hI hsite hrest ?_ hmoves hv
      rwa [List.flatMap_singleton']
    have hpart : Distinct a ([id] ++ u') := hv.sublist ((List.sublist_append_left [id] u).append_right u')
    have hsite' := hsite.changes hmoves.changes
    obtain ⟨w', hothers, hothersDone⟩ := ih hsite' (hid.changes hsite.well hmoves.changes) hlater
      (hmoves.toRegrows.walk hys hv) (hpart.later hmoves.keeps.size)
    have hmid := (Regrows.both hmoves.toRegrows hothers.moves.toRegrows hv).2
    refine ⟨w ++ w', hadvances.append hothers hv fun z hz => ?_, .cons ?_ hothersDone⟩
    · refine List.all_eq_true.mpr fun x hx => hkeep x z fun heq => ?_
      exact hmid.apart (List.mem_append_right [id] (hys.subset hx)) (heq ▸ hadvances.walk.subset (hadvances.put hz))
    · exact hQ hdone hsite' hadvances.walk hothers.moves hmid

end Pass

end Arena

end InfraConfig
