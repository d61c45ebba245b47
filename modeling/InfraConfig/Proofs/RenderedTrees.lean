import InfraConfig.Proofs.Recursions
import InfraConfig.Proofs.TameSteps

/-!
# Rendered trees

A tree is rendered when no dynamic block is left inside that could still be rendered, however deep. Rendering ends in
such a tree, also inside the contents it puts somewhere and inside the copies it makes, and leaves it as it is when it
is done again.
-/

namespace InfraConfig

namespace Arena

variable {a b c : Arena} {root : ScopeId} {u v w v' w' xs ys ys' : List BlockId} {id x copy dynamic : BlockId} {n : Nat}

/-! ## Rendered trees -/

/-- All dynamic blocks inside a block, except for what is inside instances, are instances. -/
inductive Rendered (a : Arena) : BlockId → Prop where
  | node {id : BlockId} (instances : ∀ c ∈ a.inside id, (a.block c).kind = .dynamic → (a.block c).expanded = true)
      (plain : ∀ c ∈ a.inside id, (a.block c).kind ≠ .dynamic → Rendered a c) : Rendered a id

/-- A block in which there is nothing to do when its parent is rendered. -/
structure Finished (a : Arena) (id : BlockId) : Prop where
  instance_of_dynamic : (a.block id).kind = .dynamic → (a.block id).expanded = true
  rendered : (a.block id).kind ≠ .dynamic → Rendered a id

theorem Rendered.ofFinished (h : ∀ c ∈ a.inside id, Finished a c) : Rendered a id :=
  .node (fun c hc => (h c hc).instance_of_dynamic) fun c hc => (h c hc).rendered

/-- Rendering a rendered tree changes nothing. -/
theorem Rendered.expandDynamicUpTo (h : Rendered a id) (root : ScopeId) (n : Nat) :
    a.expandDynamicUpTo root n id = a := by
  induction n generalizing id with
  | zero => rfl
  | succ n ih =>
    obtain ⟨hinstances, hplain⟩ := h
    rw [expandDynamicUpTo_succ, renderInside, List.partition_eq_filter_filter]
    dsimp only
    rw [foldl_of_fixed (f := Arena.expandDynamicUpTo root n) fun x hx => ?_, foldl_of_fixed fun x hx => ?_]
    · obtain ⟨hmem, hkind⟩ := List.mem_filter.mp hx
      rw [renderDynamic, if_pos (hinstances x hmem (beq_iff_eq.mp hkind))]
    · obtain ⟨hmem, hkind⟩ := List.mem_filter.mp hx
      exact ih (hplain x hmem (by simpa using hkind))

/-- Only the blocks inside matter. -/
theorem Rendered.congr (h : Rendered a id) (hid : a.inside id ⊆ u) (hown : b.inside id = a.inside id)
    (hclosed : ∀ x ∈ u, a.inside x ⊆ u) (hinside : ∀ x ∈ u, b.inside x = a.inside x)
    (hkind : ∀ x ∈ u, (b.block x).kind = (a.block x).kind)
    (hexpanded : ∀ x ∈ u, (b.block x).expanded = (a.block x).expanded) : Rendered b id := by
  induction h with
  | @node id hinstances _ ih =>
    constructor
    · intro c hc hdynamic
      rw [hown] at hc
      rw [hkind c (hid hc)] at hdynamic
      rw [hexpanded c (hid hc)]
      exact hinstances c hc hdynamic
    · intro c hc hdynamic
      rw [hown] at hc
      rw [hkind c (hid hc)] at hdynamic
      exact ih c hc hdynamic (hclosed c (hid hc)) (hinside c (hid hc))

/-- A step in other trees leaves a tree rendered. -/
theorem Rendered.regrows (h : Rendered a x) (hwalk : Walk a [x] u) (hstep : Regrows a b v w) (htame : Tame a b)
    (hu : Distinct a (v ++ u)) : Rendered b x := by
  have hx : x ∈ u := hwalk.subset List.mem_cons_self
  have hinside (y : Nat) (hy : y ∈ u) : b.inside y = a.inside y :=
    hstep.keeps.inside y (hu.right.lt y hy) fun hmem => hu.apart hmem hy
  refine h.congr (hwalk.inside_subset hx) (hinside x hx) (fun y hy => hwalk.inside_subset hy) hinside ?_ ?_
  · exact fun y hy => hstep.keeps.kind y (hu.right.lt y hy) fun hmem => hu.apart hmem hy
  · exact fun y hy => htame.expanded (hu.right.lt y hy)

/-- So does putting the tree into another block, whatever its root becomes there. -/
theorem Rendered.inject (h : Rendered a x) (hx : (a.block x).Nameless) (hwalk : Walk a [x] u)
    (hu : Distinct a ([id] ++ u)) (label : String) :
    Rendered (a.inject id x label) x := by
  obtain ⟨inner, rfl, hinner⟩ := hwalk.exists_inside
  have hapart (y : BlockId) (hy : y ∈ x :: inner) : y ≠ id := by
    rintro rfl
    exact hu.apart List.mem_cons_self hy
  have hinside (y : BlockId) (hy : y ∈ x :: inner) : (a.inject id x label).inside y = a.inside y := by
    rw [inside_inject, if_neg fun heq => hapart y hy heq.1]
  refine h.congr hinner.subset (hinside x List.mem_cons_self) (fun y hy => hinner.inside_subset hy) ?_ ?_ ?_
  · exact fun y hy => hinside y (List.mem_cons_of_mem x hy)
  · intro y hy
    apply kind_inject
    rintro rfl
    exact (List.nodup_cons.mp hu.right.nodup).1 hy
  · exact fun y hy => (tame_inject hx id label).expanded (hu.right.lt y (List.mem_cons_of_mem x hy))

theorem Finished.regrows (h : Finished a x) (hwalk : Walk a xs u) (hx : x ∈ xs) (hstep : Regrows a b v w)
    (htame : Tame a b) (hu : Distinct a (v ++ u)) : Finished b x := by
  have hxu : x ∈ u := hwalk.subset hx
  have hlt := hu.right.lt x hxu
  have hkind : (b.block x).kind = (a.block x).kind := hstep.keeps.kind x hlt fun hmem => hu.apart hmem hxu
  obtain ⟨own, hown, hsub⟩ := hwalk.exists_of_mem hxu
  constructor
  · intro hdynamic
    rw [hkind] at hdynamic
    rw [htame.expanded hlt]
    exact h.instance_of_dynamic hdynamic
  · intro hplain
    rw [hkind] at hplain
    exact (h.rendered hplain).regrows hown hstep htame (hu.sublist (hsub.append_left v))

/-! ## Steps of rendering -/

/-- A step in the trees of a block after which nothing is left to do in it, and after which the block is of the kind
that it was. -/
structure Readies (a b : Arena) (id : BlockId) : Prop where
  tame : Tame a b
  rendered : Rendered b id
  kind : (b.block id).kind = (a.block id).kind

/-- A step in trees outside of a block, of which finished ones are left to be its children. -/
structure Furnishes (a b : Arena) (id : BlockId) (v ys w : List BlockId) : Prop extends Serves a b id v ys w where
  tame : Tame a b
  kind : (b.block id).kind = (a.block id).kind
  finished : ∀ y ∈ ys, Finished b y

/-- A way of rendering that succeeds for trees of a height. -/
def ReadiesUpTo (n : Nat) (render : Arena → BlockId → Arena) : Prop :=
  ∀ a x v, Walk a [x] v → Distinct a v → Renderable a v → Shallow a n [x] → Readies a (render a x) x

theorem Furnishes.append (h : Furnishes a b id v ys w) (k : Furnishes b c id v' ys' w')
    (hd : Distinct a ([id] ++ v ++ v')) : Furnishes a c id (v ++ v') (ys ++ ys') (w ++ w') := by
  have hmid := (Regrows.both h.step k.step hd).2
  refine ⟨h.toServes.append k.toServes hd, h.tame.trans k.tame, k.kind.trans h.kind, fun y hy => ?_⟩
  rcases List.mem_append.mp hy with hy | hy
  · exact (h.finished y hy).regrows h.walk hy k.step k.tame hmid
  · exact k.finished y hy

theorem Furnishes.none (hv : Distinct a ([id] ++ v)) : Furnishes a a id v [] [] := by
  refine ⟨⟨.nil, (Regrows.refl hv).subset (List.nodup_singleton id) ?_⟩, .refl a, rfl, ?_⟩
  · exact List.subset_append_left [id] v
  · exact fun y hy => absurd hy List.not_mem_nil

variable {render : Arena → BlockId → Arena}

theorem Renderable.sublist (h : Renderable a v) (hwalk : Walk a xs u) (hu : Distinct a u) (hsub : u ⊆ v) :
    Renderable a u :=
  ⟨.ofWalk hwalk hu, fun x hx => h.plain x (hsub hx)⟩

/-- Trees outside of a step. -/
theorem Renderable.outside (h : Renderable a u) (hstep : Regrows a b v w) (htame : Tame a b) (hwalk : Walk a xs u)
    (hu : Distinct a (v ++ u)) : Renderable b u := by
  refine ⟨.ofWalk (hstep.walk hwalk hu) (hu.right.later hstep.keeps.size), fun x hx => ?_⟩
  have hlt := hu.right.lt x hx
  exact htame.plain (Nat.lt_of_lt_of_le hlt htame.size) fun _ => h.plain x hx

/-- A rendered content that is put into a block, under a label of another kind than `dynamic`, is finished. -/
theorem Rendered.finished_inject {content : BlockId} (h : Rendered a content) (hnameless : (a.block content).Nameless)
    (hwalk : Walk a [content] v) (hv : Distinct a ([id] ++ v)) {label : String} (hlabel : label ≠ "dynamic") :
    Finished (a.inject id content label) content := by
  have hlt := hv.right.lt content (hwalk.subset List.mem_cons_self)
  refine ⟨fun hdynamic => ?_, fun _ => h.inject hnameless hwalk hv label⟩
  rw [kind_injected _ label hlt] at hdynamic
  exact absurd hdynamic (ofName_ne_dynamic hlabel)

theorem furnishes_renderCopy (hrender : ∀ a x, Grows a [x] (render a x) [x]) (hready : ReadiesUpTo n render)
    {label : String} (hlabel : label ≠ "dynamic") (hwalk : Walk a [copy] v) (hv : Distinct a ([id] ++ v))
    (hall : Renderable a v) (hn : Shallow a n [copy]) :
    ∃ ys w, Furnishes a (renderCopy render id label a copy) id v ys w
      ∧ (renderCopy render id label a copy).inside id = a.inside id ++ ys := by
  obtain ⟨ys, w, hserves, hinside⟩ := serves_renderCopy hrender label hwalk hv
  refine ⟨ys, w, ?_, hinside⟩
  revert hserves hinside
  rw [renderCopy]
  split
  · next content hcontent =>
    intro hserves hinside
    have hmem : content ∈ a.inside copy := mem_of_childId? hcontent
    obtain ⟨u, hcontentWalk, hsub⟩ := hwalk.exists_of_mem (hwalk.inside_subset (hwalk.subset List.mem_cons_self) hmem)
    have hu := hv.sublist (hsub.append_left [id])
    have hheight : Shallow a n [content] := by
      cases n with
      | zero => exact hn.not_zero.elim
      | succ n => exact ((hn copy List.mem_cons_self).2.of_mem hmem).mono (Nat.le_succ n)
    obtain ⟨htame, hrendered, hkind⟩ :=
      hready a content u hcontentWalk hu.right (hall.sublist hcontentWalk hu.right hsub.subset) hheight
    obtain ⟨w', hgrown, hstep⟩ := hrender a content u hcontentWalk hu.right
    have hout : id ∉ u := hu.apart List.mem_cons_self
    have hid := hv.lt id List.mem_cons_self
    have hsame : (render a content).inside id = a.inside id := hstep.keeps.inside id hid hout
    have hidLater := Nat.lt_of_lt_of_le hid hstep.keeps.size
    have hys : ys = [content] := by
      rw [inside_inject, if_pos ⟨rfl, hidLater⟩, hsame] at hinside
      exact (List.append_cancel_left hinside).symm
    subst hys
    have hnameless : ((render a content).block content).Nameless := by
      rw [Block.Nameless, hkind]
      exact .inl (by simpa using List.find?_some hcontent)
    refine ⟨hserves, htame.trans (tame_inject hnameless _ _), ?_, fun y hy => ?_⟩
    · rw [kind_inject, hstep.keeps.kind id hid hout]
      rintro rfl
      exact hout (hcontentWalk.subset List.mem_cons_self)
    · rw [List.mem_singleton.mp hy]
      exact hrendered.finished_inject hnameless hgrown (hstep.outside hu).distinct hlabel
  · intro hserves hinside
    obtain rfl : ys = [] := by simpa using hinside
    exact ⟨hserves, .refl a, rfl, fun y hy => absurd hy List.not_mem_nil⟩

theorem furnishes_renderCopies (hrender : ∀ a x, Grows a [x] (render a x) [x]) (hready : ReadiesUpTo n render)
    {label : String} (hlabel : label ≠ "dynamic") (hwalk : Walk a xs v) (hv : Distinct a ([id] ++ v))
    (hall : Renderable a v) (hn : Shallow a n xs) :
    ∃ ys w, Furnishes a (xs.foldl (renderCopy render id label) a) id v ys w
      ∧ (xs.foldl (renderCopy render id label) a).inside id = a.inside id ++ ys := by
  induction xs generalizing a v with
  | nil =>
    cases hwalk
    exact ⟨[], [], .none hv, (List.append_nil _).symm⟩
  | cons x xs ih =>
    obtain ⟨v, v', rfl, hx, hxs⟩ := hwalk.exists_cons
    rw [← List.append_assoc] at hv
    have hfirstPart := hall.sublist hx hv.left.right (List.subset_append_left v v')
    obtain ⟨ys, w, hfirst, hinside⟩ :=
      furnishes_renderCopy hrender hready hlabel hx hv.left hfirstPart (hn.of_mem List.mem_cons_self)
    have hrest : Distinct a ([id] ++ v') := hv.sublist ((List.sublist_append_left [id] v).append_right v')
    have hrestPart := (hall.sublist hxs hv.right (List.subset_append_right v v')).outside hfirst.step hfirst.tame hxs hv
    have hothersHeight := (hn.subset (List.subset_cons_self x xs)).regrows hxs hfirst.step hv
    obtain ⟨ys', w', hothers, hinside'⟩ :=
      ih (hfirst.step.walk hxs hv) (hrest.later hfirst.step.keeps.size) hrestPart hothersHeight
    refine ⟨ys ++ ys', w ++ w', hfirst.append hothers hv, ?_⟩
    rw [List.foldl_cons, hinside', hinside, List.append_assoc]

theorem furnishes_renderDynamic (hrender : ∀ a x, Grows a [x] (render a x) [x]) (hready : ReadiesUpTo n render)
    (root : ScopeId) (hkind : (a.block dynamic).kind = .dynamic) (hwalk : Walk a [dynamic] v)
    (hv : Distinct a ([id] ++ v)) (hall : Renderable a v) (hn : Shallow a n [dynamic]) :
    ∃ ys w, Furnishes a (renderDynamic render root id a dynamic) id v ys w
      ∧ ∀ rest, dynamic ∉ rest → (a.inside id).Perm (rest ++ [dynamic]) →
        ((renderDynamic render root id a dynamic).inside id).Perm (rest ++ ys) := by
  have hdynamic : dynamic ∈ v := hwalk.subset List.mem_cons_self
  rw [renderDynamic]
  split
  · next hexpanded =>
    refine ⟨[dynamic], v, ⟨⟨hwalk, .refl hv⟩, .refl a, rfl, fun y hy => ?_⟩, fun rest _ hperm => hperm⟩
    rw [List.mem_singleton.mp hy]
    exact ⟨fun _ => hexpanded, fun hplain => absurd hkind hplain⟩
  · let left := a.removeChild id dynamic
    let made := left.expandForEach root [dynamic]
    have hremoved : Regrows a left [id] [id] := regrows_removeChild hv.left dynamic
    have hleftWalk : Walk left [dynamic] v := hremoved.walk hwalk hv
    have hleftTame : Tame a left := tame_removeChild a id dynamic
    have hleft : Renderable left v := hall.outside hremoved hleftTame hwalk hv
    have hleftHeight : Shallow left n [dynamic] := hn.regrows hwalk hremoved hv
    have hmadeTame : Tame left made.2 := by
      simp only [made, expandForEach_singleton]
      exact hleft.tame_expand hdynamic .forEach root
    have hmadeHeight : Shallow made.2 n made.1 := by
      simp only [made, expandForEach_singleton]
      exact shallow_expandElements hleftHeight root
    have hbeside := hremoved.beside hv
    obtain ⟨w, hmade, hstep⟩ := grows_expandForEach left root [dynamic] v hleftWalk hbeside.distinct.right
    have hdetached := hstep.outside hbeside.distinct
    have hid := hbeside.distinct.lt id List.mem_cons_self
    have hout : id ∉ v := hv.apart List.mem_cons_self
    obtain ⟨ys, u, hfurnishes, hinside⟩ := furnishes_renderCopies hrender hready (hall.plain dynamic hdynamic hkind)
      hmade hdetached.distinct (hleft.regrows hstep hmadeTame hmade) hmadeHeight
    refine ⟨ys, u, ⟨⟨hfurnishes.walk, (hbeside.trans hdetached hv).trans hfurnishes.step hv⟩, ?_, ?_,
      hfurnishes.finished⟩, fun rest hrest hperm => ?_⟩
    · exact (hleftTame.trans hmadeTame).trans hfurnishes.tame
    · rw [hfurnishes.kind, hstep.keeps.kind id hid hout]
      exact a.modify_same Block.kind id (by intro _; rfl) id
    · rw [hinside, hstep.keeps.inside id hid hout]
      exact (inside_removeChild (hv.lt id List.mem_cons_self) hrest hperm).append_right ys

theorem furnishes_renderDynamics (hrender : ∀ a x, Grows a [x] (render a x) [x]) (hready : ReadiesUpTo n render)
    (root : ScopeId) (hkind : ∀ x ∈ xs, (a.block x).kind = .dynamic) (hwalk : Walk a xs v)
    (hv : Distinct a ([id] ++ v)) (hall : Renderable a v) (hn : Shallow a n xs) :
    ∃ ys w, Furnishes a (xs.foldl (renderDynamic render root id) a) id v ys w
      ∧ ∀ rest, (∀ x ∈ xs, x ∉ rest) → (a.inside id).Perm (rest ++ xs) →
        ((xs.foldl (renderDynamic render root id) a).inside id).Perm (rest ++ ys) := by
  induction xs generalizing a v with
  | nil =>
    cases hwalk
    exact ⟨[], [], .none hv, fun _ _ hperm => hperm⟩
  | cons x xs ih =>
    obtain ⟨v, v', rfl, hx, hxs⟩ := hwalk.exists_cons
    rw [← List.append_assoc] at hv
    have hfirstPart := hall.sublist hx hv.left.right (List.subset_append_left v v')
    obtain ⟨ys, w, hfirst, hinside⟩ := furnishes_renderDynamic hrender hready root (hkind x List.mem_cons_self) hx
      hv.left hfirstPart (hn.of_mem List.mem_cons_self)
    have hrest : Distinct a ([id] ++ v') := hv.sublist ((List.sublist_append_left [id] v).append_right v')
    have hrestPart := (hall.sublist hxs hv.right (List.subset_append_right v v')).outside hfirst.step hfirst.tame hxs hv
    have hrestKind (y : BlockId) (hy : y ∈ xs) :
        ((renderDynamic render root id a x).block y).kind = .dynamic := by
      have hmem := hxs.subset hy
      rw [hfirst.step.keeps.kind y (hv.right.lt y hmem) fun h => hv.apart h hmem]
      exact hkind y (List.mem_cons_of_mem x hy)
    obtain ⟨ys', w', hothers, hinside'⟩ := ih hrestKind (hfirst.step.walk hxs hv)
      (hrest.later hfirst.step.keeps.size) hrestPart
      ((hn.subset (List.subset_cons_self x xs)).regrows hxs hfirst.step hv)
    exact ⟨ys ++ ys', w ++ w', hfirst.append hothers hv,
      hfirst.toServes.turns hothers.toServes hv hx hxs hinside hinside'⟩

/-- Trees that are rendered one after another. -/
theorem readies_foldl (hrender : ∀ a x, Grows a [x] (render a x) [x]) (hready : ReadiesUpTo n render)
    (hwalk : Walk a xs v) (hv : Distinct a v) (hall : Renderable a v) (hn : Shallow a n xs) :
    Tame a (xs.foldl render a) ∧ ∀ x ∈ xs, Rendered (xs.foldl render a) x
      ∧ ((xs.foldl render a).block x).kind = (a.block x).kind := by
  induction xs generalizing a v with
  | nil => exact ⟨.refl a, fun x hx => absurd hx List.not_mem_nil⟩
  | cons x xs ih =>
    obtain ⟨v, v', rfl, hx, hxs⟩ := hwalk.exists_cons
    obtain ⟨w, hgrown, hstep⟩ := hrender a x v hx hv.left
    have hone := hready a x v hx hv.left (hall.sublist hx hv.left (List.subset_append_left v v'))
      (hn.of_mem List.mem_cons_self)
    have hrestPart := (hall.sublist hxs hv.right (List.subset_append_right v v')).outside hstep hone.tame hxs hv
    have hrestWalk := hstep.walk hxs hv
    have hrest := hv.right.later hstep.keeps.size
    obtain ⟨htame, hothers⟩ :=
      ih hrestWalk hrest hrestPart ((hn.subset (List.subset_cons_self x xs)).regrows hxs hstep hv)
    refine ⟨hone.tame.trans htame, fun y hy => ?_⟩
    rcases List.mem_cons.mp hy with rfl | hy
    · obtain ⟨u, -, hlater⟩ := Grows.foldl hrender (render a y) xs v' hrestWalk hrest
      have hapart : Distinct (render a y) (v' ++ w) :=
        (hstep.beside hv).distinct.perm List.perm_append_comm
      have hyw := hgrown.subset List.mem_cons_self
      refine ⟨hone.rendered.regrows hgrown hlater htame hapart, ?_⟩
      rw [List.foldl_cons, hlater.keeps.kind y (hapart.right.lt y hyw) fun hmem => hapart.apart hmem hyw, hone.kind]
    · obtain ⟨hrendered, hkind⟩ := hothers y hy
      have hmem := hxs.subset hy
      refine ⟨hrendered, ?_⟩
      rw [List.foldl_cons, hkind, hstep.keeps.kind y (hv.right.lt y hmem) fun h => hv.apart h hmem]

theorem readies_renderInside (hrender : ∀ a x, Grows a [x] (render a x) [x]) (hready : ReadiesUpTo n render)
    (root : ScopeId) : ReadiesUpTo (n + 1) (renderInside root render) := by
  intro a id v hwalk hv hall hn
  obtain ⟨vp, vd, wp, hplain⟩ := exists_plainFirst hrender hwalk hv
  rw [renderInside_eq]
  have hinside : Shallow a n (a.inside id) := (hn id List.mem_cons_self).2
  have hinner := hplain.distinct.right
  have hsub : vp ++ vd ⊆ v := fun x hx => hplain.perm.symm.subset (List.mem_append_right [id] hx)
  obtain ⟨htame, hplainDone⟩ := readies_foldl hrender hready hplain.plain hinner.left
    (hall.sublist hplain.plain hinner.left fun x hx => hsub (List.mem_append_left vd hx))
    (hinside.subset List.filter_sublist.subset)
  have hdynamicAll := hall.sublist hplain.dynamics hinner.right fun x hx => hsub (List.mem_append_right vp hx)
  have hdynamicKind (x : BlockId) (hx : x ∈ a.dynamicInside id) :
      (((a.plainInside id).foldl render a).block x).kind = .dynamic := by
    have hmem := hplain.dynamics.subset hx
    rw [hplain.step.keeps.kind x (hinner.right.lt x hmem) fun h => hinner.apart h hmem]
    simpa using (List.mem_filter.mp hx).2
  obtain ⟨ys, wd, hsecond, hchildren⟩ := furnishes_renderDynamics hrender hready root hdynamicKind
    (hplain.step.walk hplain.dynamics hinner) hplain.later
    (hdynamicAll.outside hplain.step htame hplain.dynamics hinner)
    ((hinside.subset List.filter_sublist.subset).regrows hplain.dynamics hplain.step hinner)
  have hmid := (Regrows.both (m := []) hplain.step hsecond.step hplain.swapped).2
  have hnow := hchildren (a.plainInside id) hplain.apart hplain.inside
  refine ⟨htame.trans hsecond.tame, .ofFinished fun c hc => ?_, ?_⟩
  · rcases List.mem_append.mp (hnow.subset hc) with hc | hc
    · obtain ⟨hrendered, hkind⟩ := hplainDone c hc
      have hnot : (a.block c).kind ≠ .dynamic := by simpa using (List.mem_filter.mp hc).2
      refine Finished.regrows ⟨fun h => ?_, fun _ => hrendered⟩ hplain.rendered hc hsecond.step hsecond.tame hmid
      exact absurd (hkind.symm.trans h) hnot
    · exact hsecond.finished c hc
  · exact hsecond.kind.trans (hplain.step.keeps.kind id (hv.lt id (hwalk.subset List.mem_cons_self)) hplain.not_mem)

/-- Down to the height of a tree, rendering leaves no dynamic blocks in it. -/
theorem readies_expandDynamicUpTo (root : ScopeId) (n : Nat) : ReadiesUpTo n (expandDynamicUpTo root n) := by
  induction n with
  | zero => exact fun a x v _ _ _ hn => hn.not_zero.elim
  | succ n ih =>
    rw [expandDynamicUpTo_succ]
    exact readies_renderInside (grows_expandDynamicUpTo root n) ih root

/-- Rendering reaches all of a tree. -/
theorem readies_expandDynamic (root : ScopeId) (hwalk : Walk a [id] v) (hv : Distinct a v) (hall : Renderable a v) :
    Readies a (a.expandDynamic root id) id :=
  readies_expandDynamicUpTo root a.blocks.size a id v hwalk hv hall ((hwalk.shallow hv).mono hv.length_le)

end Arena

end InfraConfig
