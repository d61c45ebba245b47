import InfraConfig.Proofs.Renderings
import InfraConfig.Proofs.Walks

/-!
# Trees that are copied and rendered

Instances of a block take the place of its tree. The contents of a dynamic block leave the tree of the block, which
has been detached, and are put into its parent, which may be older or younger than they are. In all of this a tree
is changed by the step that was begun for it, and no block comes to stand in two places.
-/

namespace InfraConfig

namespace Arena

variable {a b c : Arena} {root : ScopeId} {v w v' w' ids made xs ys : List BlockId} {id x copy dynamic : BlockId}

/-! ## Callers of copies -/

/-- Blocks that are there, with all that is inside them. -/
def Closed (a : Arena) (v : List BlockId) : Prop :=
  ∀ x : Nat, x ∈ v → x < a.blocks.size ∧ a.inside x ⊆ v

namespace Closed

theorem ofWalk (h : Walk a ids v) (hv : Distinct a v) : Closed a v :=
  fun x hx => ⟨hv.lt x hx, h.inside_subset hx⟩

theorem keeps (h : Closed a v) (hab : Keeps (fun _ => True) a b) : Closed b v := by
  intro x hx
  obtain ⟨hlt, hinside⟩ := h x hx
  exact ⟨Nat.lt_of_lt_of_le hlt hab.size, by rwa [hab.inside x hlt trivial]⟩

theorem andThen (h : Closed a v) (hab : Inherits v a b) (hbc : Inherits v b c) : Inherits v a c :=
  hab.andThen hbc fun z hz => (h z hz).1

theorem inherits_mapThrough {α β : Type} {f : Arena → α → β × Arena} {xs : List α} (h : Closed a v)
    (hf : ∀ b, Closed b v → ∀ x ∈ xs, Keeps (fun _ => True) b (f b x).2 ∧ Inherits v b (f b x).2) :
    Inherits v a (mapThrough f a xs).2 := by
  refine (mapThrough_induction (motive := fun b => Closed b v ∧ Inherits v a b) ⟨h, .ofBlocks rfl⟩ ?_).2
  intro b ⟨hb, hbefore⟩ x hx
  obtain ⟨hkeeps, hstep⟩ := hf b hb x hx
  exact ⟨hb.keeps hkeeps, h.andThen hbefore hstep⟩

theorem inherits_copyUpTo (h : Closed a v) (hid : id ∈ v) (scope : ScopeId) (depth : Nat) :
    Inherits v a (copyUpTo scope depth a id).2 := by
  induction depth generalizing a id with
  | zero => exact .push a hid rfl
  | succ depth ih =>
    obtain ⟨hlt, hinside⟩ := h id hid
    have hinner : Inherits v a (mapThrough (copyUpTo scope depth) a (a.block id).children).2 :=
      h.inherits_mapThrough fun b hb c hc => ⟨(adds_copyUpTo scope depth b c).keeps, ih hb (hinside hc)⟩
    rw [copyUpTo]
    exact h.andThen hinner (.push _ hid (hinner.kept id hlt).symm)

theorem inherits_clone (h : Closed a v) (hid : id ∈ v) (index : Value) : Inherits v a (a.clone id index).2 := by
  let marked := (a.copyBelow id).2.markInstance (a.copyBelow id).1 (instanceKey (a.block id) index)
  have hplaced : Inherits v a (a.newChild (a.block id).scope).2 := .ofBlocks rfl
  have hclosed : Closed (a.newChild (a.block id).scope).2 v := h.keeps (.ofBlocks rfl)
  have hcopied : Inherits v a (a.copyBelow id).2 := h.andThen hplaced (hclosed.inherits_copyUpTo hid _ _)
  have hmarked : Inherits v a marked := h.andThen hcopied (.modify _ _ (by intro _; rfl))
  have hcounted : Inherits v a (marked.countInstance id) := h.andThen hmarked (.modify _ _ (by intro _; rfl))
  exact h.andThen hcounted (.ofBlocks (blocks_clone a id index))

end Closed

theorem Closed.inherits_expand (h : Closed a v) (hid : id ∈ v) (kind : Repetition) (root : ScopeId) :
    Inherits v a (kind.expand root a id).2 := by
  rcases (a.block id).spent_or kind with hspent | ⟨attr, hattr, happlies⟩
  · rw [expand_of_spent hspent]
    exact .ofBlocks rfl
  · have hnoted : Inherits v a (a.noting (a.block id) [attr]) := .ofBlocks rfl
    have hclosed : Closed (a.noting (a.block id) [attr]) v := h.keeps (.ofBlocks rfl)
    cases kind with
    | count =>
      rw [expand_count root hattr happlies]
      refine h.andThen (h.andThen hnoted (hclosed.inherits_mapThrough fun b hb i _ => ?_)) (.ofBlocks (blocks_bindAt _ _ _ _))
      exact ⟨(adds_cloneIndex b root id i).keeps,
        hb.andThen (hb.inherits_clone hid (.int i)) (.ofBlocks (blocks_cloneIndex b root id i))⟩
    | forEach =>
      by_cases hcollection : (a.value (a.block id) attr).isIterable = true
      · rw [expand_elements root hattr happlies hcollection]
        refine h.andThen (h.andThen hnoted (hclosed.inherits_mapThrough fun b hb element _ => ?_))
          (.ofBlocks (blocks_bindAt _ _ _ _))
        exact ⟨(adds_cloneElement b root id _ _ element).keeps,
          hb.andThen (hb.inherits_clone hid element.1) (.ofBlocks (blocks_cloneElement b root id _ _ element))⟩
      · rw [expand_noCollection root hattr happlies hcollection]
        exact hnoted

/-! ## Instances -/

/-- What stands for a block is its tree, or new trees. -/
theorem Replaces.grows (h : Replaces a b id made) (hcallers : ∀ v, Closed a v → id ∈ v → Inherits v a b) :
    Grows a [id] b made := by
  intro v hwalk hv
  have hinherits := hcallers v (.ofWalk hwalk hv) (hwalk.subset List.mem_cons_self)
  have hkeeps : Keeps (fun x => x ∉ v) a b := h.keeps.mono fun _ _ _ => trivial
  cases h with
  | itself h =>
    refine ⟨v, hwalk.congr fun x hx => h.inside x (hv.lt x hx) trivial, hkeeps, hinherits, hv.later h.size, ?_⟩
    exact fun x hx => .inl hx
  | trees h =>
    obtain ⟨w, hrow, hw, hmem⟩ := Walk.ofRow h.row
    exact ⟨w, hrow, hkeeps, hinherits, ⟨hw, fun x hx => ((hmem x).mp hx).2⟩, fun x hx => .inr ((hmem x).mp hx).1⟩

/-- A round over the roots of trees leaves trees. -/
theorem grows_round (kind : Repetition) (root : ScopeId) (a : Arena) (ids : List BlockId) :
    Grows a ids (mapThrough (kind.expand root) a ids).2 (mapThrough (kind.expand root) a ids).1.flatten :=
  .mapThrough (fun b x => (replaces_expand kind root b x).grows fun _ hb hx => hb.inherits_expand hx kind root) a ids

theorem grows_expandCounts (a : Arena) (root : ScopeId) (ids : List BlockId) :
    Grows a ids (a.expandCounts root ids).2 (a.expandCounts root ids).1 :=
  grows_round .count root a ids

theorem grows_expandForEach (a : Arena) (root : ScopeId) (ids : List BlockId) :
    Grows a ids (a.expandForEach root ids).2 (a.expandForEach root ids).1 :=
  grows_round .forEach root a ids

/-! ## Parents -/

/-- Trees outside of a block are changed, and the block may be given other children. -/
structure Serves (a b : Arena) (id : BlockId) (v ys w : List BlockId) : Prop where
  walk : Walk b ys w
  step : Regrows a b ([id] ++ v) ([id] ++ w)

theorem Serves.append {ys' : List BlockId} (h : Serves a b id v ys w) (k : Serves b c id v' ys' w')
    (hd : Distinct a ([id] ++ v ++ v')) : Serves a c id (v ++ v') (ys ++ ys') (w ++ w') := by
  obtain ⟨hboth, hmid⟩ := Regrows.both h.step k.step hd
  exact ⟨(k.step.walk h.walk hmid).append k.walk, by simpa using hboth⟩

/-- A block is taken away from its parent. -/
theorem regrows_removeChild (hid : Distinct a [id]) (child : BlockId) :
    Regrows a (a.removeChild id child) [id] [id] := by
  refine .edit hid (.modifyOther a _ ?_) (size_blocks_modify _ _ _) ?_
  · simp
  · exact fun x => a.modify_same Block.caller id (by intro _; rfl) x

theorem perm_singleton_append (id : BlockId) (v : List BlockId) : (v ++ [id]).Perm ([id] ++ v) :=
  List.perm_append_comm

/-- A step in trees outside of a block. -/
theorem Regrows.outside (h : Regrows a b v w) (hv : Distinct a ([id] ++ v)) : Regrows a b ([id] ++ v) ([id] ++ w) :=
  (h.beside (hv.perm (perm_singleton_append id v).symm)).perm (perm_singleton_append id v) (perm_singleton_append id w)

/-- A block is put into another one. -/
theorem regrows_inject (hv : Distinct a ([id] ++ v)) {content : BlockId} (hcontent : content ∈ v) (label : String) :
    Regrows a (a.inject id content label) ([id] ++ v) ([id] ++ v) := by
  refine .edit hv ⟨Nat.le_of_eq (size_inject _ _ _ _).symm, fun x _ hx => ?_, fun x _ hx => ?_⟩ (size_inject _ _ _ _) ?_
  · rw [inside_inject, if_neg]
    rintro ⟨rfl, -⟩
    exact hx (List.mem_append_left v List.mem_cons_self)
  · apply kind_inject
    rintro rfl
    exact hx (List.mem_append_right _ hcontent)
  · intro x
    rw [block_inject, modify_same Block.caller _ id (by intro _; rfl), renamed]
    exact a.modify_same Block.caller content (by intro _; rfl) x

/-! ## Rendering -/

/-- The content of a copy of a dynamic block, if it has one, is rendered and put into the parent. -/
def renderCopy (render : Arena → BlockId → Arena) (id : BlockId) (label : String) (a : Arena) (copy : BlockId) : Arena :=
  match a.childId? (a.block copy) "content" with
  | some content => (render a content).inject id content label
  | none => a

/-- A dynamic block is detached, and the contents of all that stands for it are put into its parent. -/
def renderDynamic (render : Arena → BlockId → Arena) (root : ScopeId) (id : BlockId) (a : Arena) (dynamic : BlockId) :
    Arena :=
  if (a.block dynamic).expanded then a
  else
    let (made, b) := (a.removeChild id dynamic).expandForEach root [dynamic]
    made.foldl (renderCopy render id (a.block dynamic).typeLabel) b

/-- What is rendered directly inside a block, when all further inside is left to `render`. -/
def renderInside (root : ScopeId) (render : Arena → BlockId → Arena) (a : Arena) (id : BlockId) : Arena :=
  let (dynamics, plain) := (a.block id).children.partition fun child => (a.block child).kind == .dynamic
  dynamics.foldl (renderDynamic render root id) (plain.foldl render a)

theorem expandDynamicUpTo_succ (root : ScopeId) (depth : Nat) :
    expandDynamicUpTo root (depth + 1) = renderInside root (expandDynamicUpTo root depth) := by
  funext a id
  rw [expandDynamicUpTo]
  rfl

variable {render : Arena → BlockId → Arena}

theorem serves_renderCopy (hrender : ∀ a x, Grows a [x] (render a x) [x]) (label : String) (hwalk : Walk a [copy] v)
    (hv : Distinct a ([id] ++ v)) : ∃ ys w, Serves a (renderCopy render id label a copy) id v ys w
      ∧ (renderCopy render id label a copy).inside id = a.inside id ++ ys := by
  rw [renderCopy]
  split
  · next content hcontent =>
    have hmem : content ∈ a.inside copy := mem_of_childId? hcontent
    obtain ⟨u, hcontentWalk, hsub⟩ := hwalk.exists_of_mem (hwalk.inside_subset (hwalk.subset List.mem_cons_self) hmem)
    have hpart : ([id] ++ u).Sublist ([id] ++ v) := hsub.append_left [id]
    have hu := hv.sublist hpart
    obtain ⟨w, hrendered, hstep⟩ := hrender a content u hcontentWalk hu.right
    have hrest : Regrows a (render a content) ([id] ++ v) ([id] ++ w) :=
      ((Regrows.refl hv).subset hu.nodup hpart.subset).trans (hstep.outside hu) hv
    have hinjected := regrows_inject hrest.distinct (hrendered.subset List.mem_cons_self) label
    have hid : id < a.blocks.size := hv.lt id List.mem_cons_self
    have hsame : (render a content).inside id = a.inside id :=
      hstep.keeps.inside id hid (hu.apart List.mem_cons_self)
    refine ⟨[content], w, ⟨hrendered.congr fun x hx => ?_, hrest.trans hinjected hv⟩, ?_⟩
    · rw [inside_inject, if_neg]
      rintro ⟨rfl, -⟩
      exact hrest.distinct.apart List.mem_cons_self hx
    · rw [inside_inject, if_pos ⟨rfl, Nat.lt_of_lt_of_le hid hstep.keeps.size⟩, hsame]
  · refine ⟨[], [], ⟨.nil, (Regrows.refl hv).subset (List.nodup_singleton id) ?_⟩, (List.append_nil _).symm⟩
    exact List.subset_append_left [id] v

theorem serves_renderCopies (hrender : ∀ a x, Grows a [x] (render a x) [x]) (label : String) (hwalk : Walk a xs v)
    (hv : Distinct a ([id] ++ v)) : ∃ ys w, Serves a (xs.foldl (renderCopy render id label) a) id v ys w
      ∧ (xs.foldl (renderCopy render id label) a).inside id = a.inside id ++ ys := by
  induction xs generalizing a v with
  | nil =>
    cases hwalk
    exact ⟨[], [], ⟨.nil, .refl hv⟩, (List.append_nil _).symm⟩
  | cons x xs ih =>
    obtain ⟨v, v', rfl, hx, hxs⟩ := hwalk.exists_cons
    rw [← List.append_assoc] at hv
    obtain ⟨ys, w, hfirst, hinside⟩ := serves_renderCopy hrender label hx hv.left
    have hrest : Distinct a ([id] ++ v') := hv.sublist ((List.sublist_append_left [id] v).append_right v')
    obtain ⟨ys', w', hothers, hinside'⟩ := ih (hfirst.step.walk hxs hv) (hrest.later hfirst.step.keeps.size)
    refine ⟨ys ++ ys', w ++ w', hfirst.append hothers hv, ?_⟩
    rw [List.foldl_cons, hinside', hinside, List.append_assoc]

/-- What stands for a block that is taken away from its parent. -/
theorem exists_detached (hwalk : Walk a [dynamic] v) (hv : Distinct a ([id] ++ v)) (root : ScopeId) :
    let left := a.removeChild id dynamic
    let expanded := left.expandForEach root [dynamic]
    ∃ w, Walk expanded.2 expanded.1 w ∧ Regrows a expanded.2 ([id] ++ v) ([id] ++ w)
      ∧ expanded.2.inside id = left.inside id := by
  intro left expanded
  have hremoved : Regrows a left [id] [id] := regrows_removeChild hv.left dynamic
  have hbeside := hremoved.beside hv
  obtain ⟨w, hmade, hstep⟩ := grows_expandForEach left root [dynamic] v (hremoved.walk hwalk hv) hbeside.distinct.right
  refine ⟨w, hmade, hbeside.trans (hstep.outside hbeside.distinct) hv, ?_⟩
  exact hstep.keeps.inside id (hbeside.distinct.lt id List.mem_cons_self) (hv.apart List.mem_cons_self)

theorem inside_removeChild_self (hid : id < a.blocks.size) (x : BlockId) :
    (a.removeChild id x).inside id = (a.inside id).filter (· != x) := by
  rw [inside, removeChild, block_modify, if_pos ⟨rfl, hid⟩]
  rfl

/-- The other children of a block stay when one is taken away. -/
theorem inside_removeChild {rest : List BlockId} (hid : id < a.blocks.size) (hrest : x ∉ rest)
    (hperm : (a.inside id).Perm (rest ++ [x])) : ((a.removeChild id x).inside id).Perm rest := by
  have hothers : rest.filter (· != x) = rest :=
    List.filter_eq_self.mpr fun y hy => bne_iff_ne.mpr fun heq => hrest (heq ▸ hy)
  have hfiltered := hperm.filter (· != x)
  rw [List.filter_append, hothers, List.filter_cons_of_neg (by simp), List.filter_nil, List.append_nil] at hfiltered
  rw [inside_removeChild_self hid]
  exact hfiltered

theorem serves_renderDynamic (hrender : ∀ a x, Grows a [x] (render a x) [x]) (root : ScopeId)
    (hwalk : Walk a [dynamic] v) (hv : Distinct a ([id] ++ v)) :
    ∃ ys w, Serves a (renderDynamic render root id a dynamic) id v ys w
      ∧ ∀ rest, dynamic ∉ rest → (a.inside id).Perm (rest ++ [dynamic]) →
        ((renderDynamic render root id a dynamic).inside id).Perm (rest ++ ys) := by
  rw [renderDynamic]
  split
  · exact ⟨[dynamic], v, ⟨hwalk, .refl hv⟩, fun rest _ hperm => hperm⟩
  · obtain ⟨w, hmade, hdetached, hsame⟩ := exists_detached hwalk hv root
    obtain ⟨ys, u, hserves, hinside⟩ := serves_renderCopies hrender (a.block dynamic).typeLabel hmade hdetached.distinct
    refine ⟨ys, u, ⟨hserves.walk, hdetached.trans hserves.step hv⟩, fun rest hrest hperm => ?_⟩
    rw [hinside, hsame]
    exact (inside_removeChild (hv.lt id List.mem_cons_self) hrest hperm).append_right ys

/-- In the turn of `x` what stands for it takes its place among the children, and later the same is done for all of
`xs`, which do not stand for it. -/
theorem perm_of_turns {old mid new xs ys ys' : List BlockId} (hx : x ∉ xs) (hys : ∀ y ∈ xs, y ∉ ys)
    (hfirst : ∀ rest, x ∉ rest → old.Perm (rest ++ [x]) → mid.Perm (rest ++ ys))
    (hothers : ∀ rest, (∀ y ∈ xs, y ∉ rest) → mid.Perm (rest ++ xs) → new.Perm (rest ++ ys')) :
    ∀ rest, (∀ y ∈ x :: xs, y ∉ rest) → old.Perm (rest ++ x :: xs) → new.Perm (rest ++ (ys ++ ys')) := by
  intro rest hapart hperm
  -- Blocks that have not had their turn yet are none of those that have just been put in.
  have hlater : ∀ y ∈ xs, y ∉ rest ++ ys := by
    intro y hy hmem
    rcases List.mem_append.mp hmem with hmem | hmem
    · exact hapart y (List.mem_cons_of_mem x hy) hmem
    · exact hys y hy hmem
  have hxout : x ∉ rest ++ xs := by
    intro hmem
    rcases List.mem_append.mp hmem with hmem | hmem
    · exact hapart x List.mem_cons_self hmem
    · exact hx hmem
  have hlast : (rest ++ x :: xs).Perm (rest ++ xs ++ [x]) := by
    rw [List.append_assoc]
    exact (List.perm_append_singleton x xs).symm.append_left rest
  have hturn := hfirst (rest ++ xs) hxout (hperm.trans hlast)
  rw [← List.append_assoc]
  refine hothers (rest ++ ys) hlater (hturn.trans ?_)
  rw [List.append_assoc, List.append_assoc]
  exact List.perm_append_comm.append_left rest

/-- All that stands for one child and for later ones takes their places. -/
theorem Serves.turns {ys ys' : List BlockId} (h : Serves a b id v ys w) (k : Serves b c id v' ys' w')
    (hd : Distinct a ([id] ++ v ++ v')) (hx : Walk a [x] v) (hxs : Walk a xs v')
    (hfirst : ∀ rest, x ∉ rest → (a.inside id).Perm (rest ++ [x]) → (b.inside id).Perm (rest ++ ys))
    (hothers : ∀ rest, (∀ y ∈ xs, y ∉ rest) → (b.inside id).Perm (rest ++ xs) → (c.inside id).Perm (rest ++ ys')) :
    ∀ rest, (∀ y ∈ x :: xs, y ∉ rest) → (a.inside id).Perm (rest ++ x :: xs) →
      (c.inside id).Perm (rest ++ (ys ++ ys')) := by
  have hmid := (Regrows.both h.step k.step hd).2
  refine perm_of_turns (fun hmem => ?_) (fun y hy hmem => ?_) hfirst hothers
  · exact hd.apart (List.mem_append_right [id] (hx.subset List.mem_cons_self)) (hxs.subset hmem)
  · exact hmid.apart (List.mem_append_right [id] (hxs.subset hy)) (h.walk.subset hmem)

theorem serves_renderDynamics (hrender : ∀ a x, Grows a [x] (render a x) [x]) (root : ScopeId) (hwalk : Walk a xs v)
    (hv : Distinct a ([id] ++ v)) : ∃ ys w, Serves a (xs.foldl (renderDynamic render root id) a) id v ys w
      ∧ ∀ rest, (∀ x ∈ xs, x ∉ rest) → (a.inside id).Perm (rest ++ xs) →
        ((xs.foldl (renderDynamic render root id) a).inside id).Perm (rest ++ ys) := by
  induction xs generalizing a v with
  | nil =>
    cases hwalk
    exact ⟨[], [], ⟨.nil, .refl hv⟩, fun _ _ hperm => hperm⟩
  | cons x xs ih =>
    obtain ⟨v, v', rfl, hx, hxs⟩ := hwalk.exists_cons
    rw [← List.append_assoc] at hv
    obtain ⟨ys, w, hfirst, hinside⟩ := serves_renderDynamic hrender root hx hv.left
    have hrest : Distinct a ([id] ++ v') := hv.sublist ((List.sublist_append_left [id] v).append_right v')
    obtain ⟨ys', w', hothers, hinside'⟩ := ih (hfirst.step.walk hxs hv) (hrest.later hfirst.step.keeps.size)
    exact ⟨ys ++ ys', w ++ w', hfirst.append hothers hv, hfirst.turns hothers hv hx hxs hinside hinside'⟩

/-- The children that are rendered where they are. -/
def plainInside (a : Arena) (id : BlockId) : List BlockId :=
  (a.inside id).filter (not ∘ fun child => (a.block child).kind == .dynamic)

/-- The children in whose place their contents are put. -/
def dynamicInside (a : Arena) (id : BlockId) : List BlockId :=
  (a.inside id).filter fun child => (a.block child).kind == .dynamic

theorem renderInside_eq (root : ScopeId) (render : Arena → BlockId → Arena) (a : Arena) (id : BlockId) :
    renderInside root render a id
      = (a.dynamicInside id).foldl (renderDynamic render root id) ((a.plainInside id).foldl render a) := by
  rw [renderInside, List.partition_eq_filter_filter]
  rfl

/-- A tree of which the plain children have been rendered: their trees have been `vp` and are `wp` now, those of the
dynamic children are still `vd`. -/
structure PlainFirst (render : Arena → BlockId → Arena) (a : Arena) (id : BlockId) (v vp vd wp : List BlockId) :
    Prop where
  perm : v.Perm ([id] ++ (vp ++ vd))
  distinct : Distinct a ([id] ++ (vp ++ vd))
  plain : Walk a (a.plainInside id) vp
  dynamics : Walk a (a.dynamicInside id) vd
  rendered : Walk ((a.plainInside id).foldl render a) (a.plainInside id) wp
  step : Regrows a ((a.plainInside id).foldl render a) vp wp

theorem exists_plainFirst (hrender : ∀ a x, Grows a [x] (render a x) [x]) (hwalk : Walk a [id] v) (hv : Distinct a v) :
    ∃ vp vd wp, PlainFirst render a id v vp vd wp := by
  obtain ⟨inner, rfl, hinner⟩ := hwalk.exists_inside
  obtain ⟨vp, vd, hplain, hdynamics, hperm⟩ := hinner.exists_filter fun child => (a.block child).kind == .dynamic
  have hall : Distinct a ([id] ++ (vp ++ vd)) := hv.perm (hperm.append_left [id])
  obtain ⟨wp, hrendered, hstep⟩ := Grows.foldl hrender a (a.plainInside id) vp hplain hall.right.left
  exact ⟨vp, vd, wp, hperm.append_left [id], hall, hplain, hdynamics, hrendered, hstep⟩

namespace PlainFirst

variable {vp vd wp : List BlockId}

theorem swapped (h : PlainFirst render a id v vp vd wp) : Distinct a (vp ++ ([id] ++ vd)) :=
  h.distinct.perm (List.perm_append_comm_assoc [id] vp vd)

theorem later (h : PlainFirst render a id v vp vd wp) :
    Distinct ((a.plainInside id).foldl render a) ([id] ++ vd) :=
  h.swapped.right.later h.step.keeps.size

theorem not_mem (h : PlainFirst render a id v vp vd wp) : id ∉ vp := fun hmem =>
  h.distinct.apart List.mem_cons_self (List.mem_append_left vd hmem)

theorem apart (h : PlainFirst render a id v vp vd wp) : ∀ x ∈ a.dynamicInside id, x ∉ a.plainInside id :=
  fun _ hx hmem => h.distinct.right.apart (h.plain.subset hmem) (h.dynamics.subset hx)

/-- The block still has all its children. -/
theorem inside (h : PlainFirst render a id v vp vd wp) :
    (((a.plainInside id).foldl render a).inside id).Perm (a.plainInside id ++ a.dynamicInside id) := by
  rw [h.step.keeps.inside id (h.distinct.lt id List.mem_cons_self) h.not_mem]
  exact perm_filter_append _ (a.inside id)

end PlainFirst

theorem grows_renderInside (hrender : ∀ a x, Grows a [x] (render a x) [x]) (root : ScopeId) (a : Arena) (id : BlockId) :
    Grows a [id] (renderInside root render a id) [id] := by
  intro v hwalk hv
  obtain ⟨vp, vd, wp, hplain⟩ := exists_plainFirst hrender hwalk hv
  rw [renderInside_eq]
  obtain ⟨ys, wd, hsecond, hinside⟩ :=
    serves_renderDynamics hrender root (hplain.step.walk hplain.dynamics hplain.distinct.right) hplain.later
  obtain ⟨hsteps, hmid⟩ := Regrows.both (m := []) hplain.step hsecond.step hplain.swapped
  have hchildren := hinside (a.plainInside id) hplain.apart hplain.inside
  have hwalked := (hsecond.step.walk hplain.rendered hmid).append hsecond.walk
  obtain ⟨w, hfinal, hw⟩ := hwalked.perm hchildren.symm
  refine ⟨id :: w, hfinal.single, hsteps.perm ?_ ?_⟩
  · exact (List.perm_append_comm_assoc [id] vp vd).symm.trans hplain.perm.symm
  · exact (List.perm_append_comm_assoc wp [id] wd).trans (hw.append_left [id])

/-- Rendering the dynamic blocks inside a block leaves one tree. -/
theorem grows_expandDynamicUpTo (root : ScopeId) (depth : Nat) (a : Arena) (id : BlockId) :
    Grows a [id] (expandDynamicUpTo root depth a id) [id] := by
  induction depth generalizing a id with
  | zero => exact .refl a [id]
  | succ depth ih =>
    rw [expandDynamicUpTo_succ]
    exact grows_renderInside ih root a id

end Arena

end InfraConfig
