import InfraConfig.Proofs.RunChanges
import InfraConfig.Proofs.Recursions
import InfraConfig.Proofs.UnrolledTrees

/-!
# Dynamic blocks are unrolled

Rendering goes through the plain children of a block first. Then each dynamic child has its turn: it is taken away,
copied for the elements of the collection that it is repeated by at that time, and the contents of its copies are
rendered and put into the block. What has been done in one tree is left by all that comes later, so the whole tree is
unrolled in the end.
-/

namespace InfraConfig

namespace Arena

variable {T a b c : Arena} {root above : ScopeId} {u v w xs ys : List BlockId} {x y z id content copy d : BlockId}
  {names : List String} {element : Value × Value} {i : Option (Value × Value)} {n : Nat}

/-! ## Blocks that can be rendered -/

/-- A block that can be rendered down to a depth. -/
structure Ready (root : ScopeId) (n : Nat) (a : Arena) (y : BlockId) : Prop where
  has : a.Has root y
  fresh : ∀ z, a.Below (a.inside y) z → (a.block z).kind = .dynamic → (a.block z).expanded = false
  height : Shallow a n [y]

namespace Ready

theorem child (h : Ready root (n + 1) a y) (hsite : Site (fun _ => True) a root) (hc : x ∈ a.inside y) :
    Ready root n a x :=
  ⟨h.has.child hsite.well hc, fun z hz => h.fresh z (hz.within (.listed hc)),
    (h.height y List.mem_cons_self).2.of_mem hc⟩

/-- What is inside is not higher. -/
theorem inner (h : Ready root n a y) (hsite : Site (fun _ => True) a root) (hc : x ∈ a.inside y) :
    Ready root n a x := by
  cases n with
  | zero => exact h.height.not_zero.elim
  | succ n =>
    have hchild := h.child hsite hc
    exact ⟨hchild.has, hchild.fresh, hchild.height.mono (Nat.le_succ n)⟩

/-- A step elsewhere leaves a block ready. -/
theorem later (h : Ready root n a y) (hsite : Site (fun _ => True) a root) (hwalk : Walk a [y] u)
    (hstep : Moves root a b v w) (hu : Distinct a (v ++ u)) : Ready root n b y := by
  have hspared : Spared a v u := .ofWalk hwalk hu
  have hy : y ∈ u := hwalk.subset List.mem_cons_self
  refine ⟨h.has.changes hsite.well hstep.changes, fun z hz hkind => ?_, h.height.regrows hwalk hstep.toRegrows hu⟩
  rw [hspared.inside hstep.toConfined hy] at hz
  obtain ⟨q, hq, hbelow⟩ := hz.exists_of_mem
  obtain ⟨hmem, hold⟩ := hspared.of_below hstep.toConfined ((hspared.closed y hy).2 hq) hbelow
  rw [Block.kind_of_written (hspared.written hstep.toConfined hmem)] at hkind
  rw [hstep.changes.expanded_eq (hspared.lt hmem)]
  exact h.fresh z (hold.trans (.listed hq)) hkind

end Ready

/-- A block that says what `x` says in `T`, and can be rendered. -/
structure ReadyAs (root : ScopeId) (n : Nat) (T a : Arena) (x y : BlockId) : Prop extends Ready root n a y where
  mirrors : Mirrors T a x y

theorem ReadyAs.later (h : ReadyAs root n T a x y) (hsite : Site (fun _ => True) a root) (hwalk : Walk a [y] u)
    (hstep : Moves root a b v w) (hu : Distinct a (v ++ u)) : ReadyAs root n T b x y :=
  ⟨h.toReady.later hsite hwalk hstep hu,
    h.mirrors.outside hwalk hstep.toConfined fun _ hz hv => hu.apart hv hz⟩

/-! ## What rendering comes to -/

/-- What comes of rendering a block `y` that says what `x` says in `T`. -/
structure Unrolled (root : ScopeId) (T a : Arena) (x y : BlockId) (v : List BlockId) (result : List Turn × Arena)
    (w : List BlockId) : Prop where
  walk : Walk result.2 [y] w
  moves : Moves root a result.2 v w
  written : (result.2.block y).written = (a.block y).written
  unrolls : Unrolls T result.2 result.1 x y

/-- A way of rendering that unrolls trees of a height. -/
def UnrollsUpTo (root : ScopeId) (n : Nat) (render : Arena → BlockId → List Turn × Arena) : Prop :=
  ∀ {T a x y v}, Site (fun _ => True) a root → ReadyAs root n T a x y → Walk a [y] v → Distinct a v →
    ∃ w, Unrolled root T a x y v (render a y) w

variable {render : Arena → BlockId → List Turn × Arena}

/-! ## Copies of dynamic blocks -/

/-- A copy of a dynamic block `d` of `T`. If it is made for an element, that is bound in the one scope in which the copy
stands with all that is inside. -/
structure CopyFor (root : ScopeId) (n : Nat) (T : Arena) (d : BlockId) (above : ScopeId) (names : List String)
    (a : Arena) (i : Option (Value × Value)) (copy : BlockId) : Prop where
  ready : Ready root n a copy
  inside : List.Forall₂ (Mirrors T a) (T.inside d) (a.inside copy)
  binds : ∀ element, i = some element → BindsElement a (a.block copy).scope above names element
    ∧ ∀ z, a.Below [copy] z → (a.block z).scope = (a.block copy).scope

/-- What has come of such a copy: its content, if it has one, in a turn with the turns inside. -/
structure Yields (T : Arena) (d : BlockId) (above : ScopeId) (names : List String) (b : Arena)
    (i : Option (Value × Value)) (result : List BlockId × List Turn) : Prop where
  empty : T.childId? (T.block d) "content" = none → result.1 = []
  content : ∀ source, T.childId? (T.block d) "content" = some source → ∃ content, result.1 = [content]
    ∧ (b.block content).kind = .ofName (T.block d).typeLabel ∧ (b.block content).labels = []
    ∧ Unrolls T b result.2 source content ∧ ∀ element, i = some element → MadeFor b above names element content

theorem CopyFor.later (h : CopyFor root n T d above names a i copy) (hsite : Site (fun _ => True) a root)
    (hwalk : Walk a [copy] u) (hstep : Moves root a b v w) (hu : Distinct a (v ++ u)) :
    CopyFor root n T d above names b i copy := by
  have hspared : Spared a v u := .ofWalk hwalk hu
  have hcopy : copy ∈ u := hwalk.subset List.mem_cons_self
  have hscope := hstep.scope copy (hspared.lt hcopy)
  refine ⟨h.ready.later hsite hwalk hstep hu, ?_, fun element helement => ?_⟩
  · rw [hspared.inside hstep.toConfined hcopy]
    refine forall₂_imp_of_mem h.inside fun p _ q hq hmirrors => ?_
    obtain ⟨own, hown, hsub⟩ := hwalk.exists_of_mem ((hspared.closed copy hcopy).2 hq)
    exact hmirrors.outside hown hstep.toConfined fun z hz => hspared.out z (hsub.subset hz)
  · obtain ⟨hbinds, hshared⟩ := h.binds element helement
    rw [hscope]
    refine ⟨hbinds.later hstep.toConfined hsite.top, fun z hz => ?_⟩
    obtain ⟨hmem, hold⟩ := hspared.of_below hstep.toConfined hcopy hz
    rw [hstep.scope z (hspared.lt hmem), hshared z hold]

theorem Yields.later {result : List BlockId × List Turn} (h : Yields T d above names a i result)
    (hsite : Site (fun _ => True) a root) (hwalk : Walk a result.1 u) (hstep : Moves root a b v w)
    (hu : Distinct a (v ++ u)) : Yields T d above names b i result := by
  have hspared : Spared a v u := .ofWalk hwalk hu
  refine ⟨h.empty, fun source hsource => ?_⟩
  obtain ⟨content, hresult, hkind, hlabels, hunrolls, hmade⟩ := h.content source hsource
  have hmem : content ∈ u := hwalk.subset (hresult ▸ List.mem_cons_self)
  have hsame := hspared.written hstep.toConfined hmem
  refine ⟨content, hresult, (Block.kind_of_written hsame).trans hkind,
    (Block.labels_of_written hsame).trans hlabels, ?_, ?_⟩
  · exact hunrolls.later hspared (hspared.closed content hmem).2 (hspared.inside hstep.toConfined hmem)
      hstep.toConfined hsite.top
  · exact fun element helement => (hmade element helement).spared hspared hmem hstep.toConfined hsite.top

theorem forall₂_find? {α β : Type} {R : α → β → Prop} {p : α → Bool} {q : β → Bool} {cs : List α} {ds : List β}
    (h : List.Forall₂ R cs ds) (hpq : ∀ c d, R c d → p c = q d) : Option.Rel R (cs.find? p) (ds.find? q) := by
  induction h with
  | nil => exact .none
  | @cons c d cs ds hcd _ ih =>
    rw [List.find?_cons, List.find?_cons, hpq c d hcd]
    split
    · exact .some hcd
    · exact ih

/-- Blocks inside of which the same is said have the same content. -/
theorem childId?_mirrors (h : List.Forall₂ (Mirrors T a) (T.inside d) (a.inside copy)) (kind : String) :
    Option.Rel (Mirrors T a) (T.childId? (T.block d) kind) (a.childId? (a.block copy) kind) :=
  forall₂_find? h fun p q hpq => by rw [hpq.kind]

theorem labels_injected (a : Arena) (id : BlockId) (label : String) (hcontent : content < a.blocks.size) :
    ((a.inject id content label).block content).labels = [] := by
  rw [block_inject, modify_same Block.labels _ id (by intro _; rfl), renamed, block_modify, if_pos ⟨rfl, hcontent⟩]

/-- What has been rendered stays unrolled when it is put into another block. -/
theorem Unrolls.inject {source : BlockId} {turns : List Turn} (h : Unrolls T a turns source content)
    (hsite : Site (fun _ => True) a root) (hid : a.Has root id) (hcontent : a.Has root content)
    (hwalk : Walk a [content] w) (hw : Distinct a ([id] ++ w)) (label : String) :
    Unrolls T (a.inject id content label) turns source content := by
  obtain ⟨inner, rfl, hinner⟩ := hwalk.exists_inside
  have happarts : Distinct a (([id] ++ [content]) ++ inner) := hw
  have hstep := moves_inject hsite hid hcontent happarts.left List.mem_cons_self label
  refine h.later (.ofWalk hinner happarts) hinner.subset ?_ hstep.toConfined hsite.top
  rw [inside_inject, if_neg]
  rintro ⟨rfl, -⟩
  exact hw.apart List.mem_cons_self List.mem_cons_self

theorem MadeFor.inject (h : MadeFor a above names element content) (hsite : Site (fun _ => True) a root)
    (hid : a.Has root id) (hcontent : a.Has root content) (hwalk : Walk a [content] w) (hw : Distinct a ([id] ++ w))
    (label : String) : MadeFor (a.inject id content label) above names element content := by
  have hown : content ∈ w := hwalk.subset List.mem_cons_self
  have hstep := moves_inject hsite hid hcontent hw hown label
  have hlater := hwalk.inject (hw.apart List.mem_cons_self) content label
  refine h.later hcontent.1 (fun z hz => ?_) hstep.toConfined hsite.top
  have hz : z ∈ w := hlater.mem_iff.mpr hz
  exact ⟨hw.right.lt z hz, hwalk.mem_iff.mp hz⟩

/-- What is rendered inside a block stays where it is. -/
theorem Unrolled.advances {result : List Turn × Arena} (h : Unrolled root T a x y v result w)
    (hid : id < a.blocks.size) (hv : Distinct a ([id] ++ v)) :
    Advances root a result.2 id (fun _ => true) v [y] [] w := by
  have hout : id ∉ v := hv.apart List.mem_cons_self
  refine ⟨h.walk, h.moves.outside hv, h.moves.written hid hout, ?_, List.nil_subset _⟩
  rw [h.moves.inside hid hout, List.filter_true, List.append_nil]

/-- What the content of a copy becomes is made for the element of the copy. -/
theorem CopyFor.madeFor {source : BlockId} {result : List Turn × Arena}
    (h : CopyFor root n T d above names a (some element) copy) (hmem : content ∈ a.inside copy)
    (hwalk : Walk a [content] u) (hu : Distinct a u) (hdone : Unrolled root T a source content u result w)
    (htop : a.IsTop root) : MadeFor result.2 above names element content := by
  obtain ⟨hbinds, hshared⟩ := h.binds element rfl
  have hscope : ∀ z ∈ u, (a.block z).scope = (a.block copy).scope := fun z hz =>
    hshared z ((hwalk.mem_iff.mp hz).trans ((Below.listed List.mem_cons_self).inside hmem))
  exact .ofMoves hbinds hscope (hwalk.subset List.mem_cons_self) hu hdone.moves hdone.walk htop

/-- The content of a copy is rendered and put into the parent. -/
theorem exists_injectContent (hrender : UnrollsUpTo root n render) (hsite : Site (fun _ => True) a root)
    (hid : a.Has root id) (h : CopyFor root n T d above names a i copy) (hwalk : Walk a [copy] v)
    (hv : Distinct a ([id] ++ v)) :
    let result := injectContent render id (T.block d).typeLabel a copy
    ∃ w, Advances root a result.2 id (fun _ => true) v result.1.1 result.1.1 w
      ∧ Yields T d above names result.2 i result.1 := by
  have hfound := childId?_mirrors h.inside "content"
  rw [injectContent]
  generalize hsource : T.childId? (T.block d) "content" = source? at hfound
  generalize hcontent : a.childId? (a.block copy) "content" = content? at hfound ⊢
  cases hfound with
  | none =>
    refine ⟨[], (Advances.none root hv.left).mono (List.nil_sublist v) hv, fun _ => rfl, fun source hsome => ?_⟩
    cases hsource.symm.trans hsome
  | @some source content hmirrors =>
    have hmem : content ∈ a.inside copy := mem_of_childId? hcontent
    obtain ⟨u, hown, hsub⟩ := hwalk.exists_of_mem (hwalk.inside_subset (hwalk.subset List.mem_cons_self) hmem)
    have hu : Distinct a ([id] ++ u) := hv.sublist (hsub.append_left [id])
    have hready : Ready root n a content := h.ready.inner hsite hmem
    obtain ⟨w, hdone⟩ := hrender hsite ⟨hready, hmirrors⟩ hown hu.right
    have hadvances := (hdone.advances hid.1 hu).mono hsub hv
    have hchanges := hdone.moves.changes
    have hsite' := hsite.changes hchanges
    have hid' := hid.changes hsite.well hchanges
    have hcontent' := hready.has.changes hsite.well hchanges
    have hw := hadvances.moves.distinct
    refine ⟨w, hadvances.inject hsite' hid' hcontent' hv _, fun hnone => ?_, fun source' hsome => ?_⟩
    · cases hsource.symm.trans hnone
    · obtain rfl : source = source' := Option.some.inj (hsource.symm.trans hsome)
      refine ⟨content, rfl, kind_injected _ _ hcontent'.1, labels_injected _ id _ hcontent'.1,
        hdone.unrolls.inject hsite' hid' hcontent' hdone.walk hw _, ?_⟩
      rintro element rfl
      exact (h.madeFor hmem hown hu.right hdone hsite.top).inject hsite' hid' hcontent' hdone.walk hw _

/-! ## Turns -/

/-- What the copies of a dynamic block are made for. -/
def copiesFor (collection? : Option Value) : List (Option (Value × Value)) :=
  match collection? with
  | none => [none]
  | some collection => collection.elements.map some

theorem items?_of_dynamic (hkind : (a.block x).kind = .dynamic) (hfresh : (a.block x).expanded = false) :
    a.items? x .forEach = (a.collection? x).map fun collection => collection.elements.map fun element =>
      ⟨elementNames (a.block x).iteratorName true, element.1, element.2⟩ := by
  rw [items?, collection?]
  cases (a.block x).attribute? "for_each" with
  | none => rfl
  | some attr =>
    rw [hkind, hfresh, Option.bind_some, Option.map_some, Option.filter_some]
    dsimp only
    cases (a.value (a.block x) attr).isIterable with
    | true =>
      rw [if_pos (by simp), if_pos rfl]
      rfl
    | false =>
      rw [if_neg (by simp), if_neg (by simp)]
      rfl

/-- An instance that was made for an element. -/
theorem CopyFor.ofCopied {key : InstanceKey} (hready : Ready root n a copy)
    (h : Copied T a d above key (instanceBindings names element.1 element.2) copy)
    (hkey : (InstanceKey.ofValue? element.1).isSome) : CopyFor root n T d above names a (some element) copy := by
  refine ⟨hready, h.inside, fun other hother => ?_⟩
  obtain rfl : element = other := Option.some.inj hother
  refine ⟨⟨h.parent, fun name hname => ?_, fun hvalue name hname => ?_⟩, fun z hz => (h.shared z hz).2⟩
  · rw [h.bindings]
    exact instanceBindings.mem_key (Value.entries?_of_key hkey) hname
  · rw [h.bindings]
    exact instanceBindings.mem_value hvalue hname

theorem iteratorName_of_written {b d : Block} (h : b.written = d.written) : b.iteratorName = d.iteratorName := by
  rw [Block.iteratorName, Block.iteratorName, Block.attribute?, Block.attribute?, Block.typeLabel, Block.typeLabel,
    Block.attributes_of_written h, Block.labels_of_written h]

/-- The copies that stand for a dynamic block. -/
theorem exists_copies (hsite : Site (fun _ => True) a root) (hready : ReadyAs root n T a d x)
    (hkind : (a.block x).kind = .dynamic) (hfresh : (a.block x).expanded = false)
    (hheight : Shallow a a.blocks.size [x]) :
    List.Forall₂ (CopyFor root n T d (a.block x).scope (elementNames (T.block d).iteratorName true)
        (expandElements root a x).2) (copiesFor (a.collection? x)) (expandElements root a x).1 := by
  have hitems := items?_of_dynamic hkind hfresh
  have hnames := iteratorName_of_written hready.mirrors.written
  have hretains : Retains root a (expandElements root a x).2 := retains_expand .forEach hsite.top.1 hheight
  obtain ⟨hchanges, hexpands⟩ := hsite.expandElements hready.has
  have hhas := hexpands.has (hready.has.changes hsite.well hchanges)
  have hheights : Shallow (expandElements root a x).2 n (expandElements root a x).1 :=
    shallow_expandElements hready.height root
  cases hcollection : a.collection? x with
  | none =>
    rw [hcollection] at hitems
    obtain ⟨-, hitself⟩ := retains_expand_of_none .forEach root hitems
    rw [show (expandElements root a x).1 = [x] from hitself] at hheights ⊢
    refine .cons ⟨⟨hready.has.changes hsite.well hchanges, fun z hz hdynamic => ?_, hheights⟩, ?_, ?_⟩ .nil
    · have hlt (y : BlockId) (hy : a.Below (a.inside x) y) : y < a.blocks.size :=
        (hy.has hsite.well fun c hc => hready.has.child hsite.well hc).1
      rw [hretains.inside hready.has.1, hretains.below_iff hlt] at hz
      rw [hretains.part_eq Block.kind (by intro _; rfl) (hlt z hz)] at hdynamic
      rw [hretains.part_eq Block.expanded (by intro _; rfl) (hlt z hz)]
      exact hready.fresh z hz hdynamic
    · rw [hretains.inside hready.has.1]
      exact hready.mirrors.inside.imp fun _ _ h => h.later hretains.toKeepsBlocks
    · exact fun element helement => nomatch helement
  | some collection =>
    rw [hcollection] at hitems
    have hinstances := (instances_expand .forEach hsite.top.1 hready.mirrors hheight hitems).copied
    rw [List.forall₂_map_left_iff] at hinstances
    rw [copiesFor, List.forall₂_map_left_iff, ← hnames]
    refine forall₂_imp_of_mem hinstances fun element helement copy hcopy hcopied => ?_
    refine .ofCopied ⟨hhas copy hcopy, fun z hz _ => hcopied.plain z hz, hheights.of_mem hcopy⟩ hcopied ?_
    have hmem : element ∈ instanceElements collection false := helement
    refine isSome_ofValue?_of_mem ?_ hmem
    exact fun hby => nomatch hby

/-- A dynamic block that says what `d` says in `T` and has not had its turn. -/
structure Awaits (root : ScopeId) (n : Nat) (T a : Arena) (d x : BlockId) : Prop extends ReadyAs root n T a d x where
  kind : (a.block x).kind = .dynamic
  plain : (a.block x).expanded = false

/-- What a dynamic block has put into `id`, first of all turns. -/
structure Took (T b : Arena) (id d : BlockId) (turns : List Turn) (t : Turn) : Prop where
  first : turns.head? = some t
  turn : HasTurn T b id d t
  unrolls : ∀ source, T.childId? (T.block d) "content" = some source → ∀ content ∈ t.contents,
    Unrolls T b turns source content

theorem forall₂_flatMap_single {α β γ : Type} {Q : α → γ → Prop} {g : β → List γ} {es : List α} {rs : List β}
    (h : List.Forall₂ (fun e r => ∃ q, g r = [q] ∧ Q e q) es rs) : List.Forall₂ Q es (rs.flatMap g) := by
  induction h with
  | nil => exact .nil
  | cons hfirst _ ih =>
    obtain ⟨q, hq, hQ⟩ := hfirst
    rw [List.flatMap_cons, hq]
    exact .cons hQ ih

/-- The contents that the copies yield are those of the turn. -/
theorem hasTurn_of_yields {t : Turn} {results : List (List BlockId × List Turn)} (hparent : t.parent = id)
    (hwritten : (t.moment.block t.dynamic).written = (T.block d).written)
    (hcontents : t.contents = results.flatMap (·.1))
    (h : List.Forall₂ (Yields T d (t.moment.block t.dynamic).scope (elementNames (T.block d).iteratorName true) b)
      (copiesFor t.collection?) results) : HasTurn T b id d t := by
  have hresult {r : List BlockId × List Turn} (hr : r ∈ results) :
      ∃ i, Yields T d (t.moment.block t.dynamic).scope (elementNames (T.block d).iteratorName true) b i r :=
    (exists_of_mem_forall₂ h hr).imp fun _ hi => hi.2
  refine ⟨hparent, hwritten, fun content hcontent => ?_, fun hnone => ?_, fun source hsource hnone => ?_,
    fun source collection hsource hsome => ?_⟩
  · rw [hcontents] at hcontent
    obtain ⟨r, hr, hmem⟩ := List.mem_flatMap.mp hcontent
    obtain ⟨i, hyields⟩ := hresult hr
    cases hsource : T.childId? (T.block d) "content" with
    | none =>
      rw [hyields.empty hsource] at hmem
      cases hmem
    | some source =>
      obtain ⟨q, hq, hkind, hlabels, -⟩ := hyields.content source hsource
      rw [hq] at hmem
      rw [List.mem_singleton.mp hmem]
      exact ⟨hkind, hlabels⟩
  · rw [hcontents, List.flatMap_eq_nil_iff]
    intro r hr
    obtain ⟨i, hyields⟩ := hresult hr
    exact hyields.empty hnone
  · rw [hnone, copiesFor] at h
    obtain ⟨r, rest, hyields, hrest, rfl⟩ := List.forall₂_cons_left_iff.mp h
    cases hrest
    obtain ⟨q, hq, -⟩ := hyields.content source hsource
    exact ⟨q, by rw [hcontents, List.flatMap_singleton, hq]⟩
  · rw [hsome, copiesFor, List.forall₂_map_left_iff] at h
    rw [hcontents]
    refine forall₂_flatMap_single (h.imp fun element r hyields => ?_)
    obtain ⟨q, hq, -, -, -, hmade⟩ := hyields.content source hsource
    exact ⟨q, hq, hmade element rfl⟩

/-- What stands for a dynamic block that has been taken away from its parent. -/
theorem exists_detached_copies (hsite : Site (fun _ => True) a root) (hid : a.Has root id) (h : Awaits root n T a d x)
    (hwalk : Walk a [x] v) (hv : Distinct a ([id] ++ v)) :
    let expanded := expandElements root (a.removeChild id x) x
    ∃ w, Walk expanded.2 expanded.1 w ∧ Moves root a expanded.2 ([id] ++ v) ([id] ++ w)
      ∧ (expanded.2.block id).written = (a.block id).written
      ∧ expanded.2.inside id = (a.inside id).filter (· != x)
      ∧ List.Forall₂ (CopyFor root n T d (a.block x).scope (elementNames (T.block d).iteratorName true) expanded.2)
        (copiesFor (a.collection? x)) expanded.1 := by
  intro expanded
  let left := a.removeChild id x
  have hx : x ∈ v := hwalk.subset List.mem_cons_self
  have hout : id ∉ v := hv.apart List.mem_cons_self
  have hremoved : Moves root a left [id] [id] := moves_removeChild root hv.left x
  have hbeside : Moves root a left ([id] ++ v) ([id] ++ v) := hremoved.beside hv
  have hsite' : Site (fun _ => True) left root := hsite.changes hremoved.changes
  have hwalk' : Walk left [x] v := hremoved.toRegrows.walk hwalk hv
  have hv' : Distinct left ([id] ++ v) := hbeside.distinct
  have hready : ReadyAs root n T left d x := h.toReadyAs.later hsite hwalk hremoved hv
  have hne : x ≠ id := fun heq => hout (heq ▸ hx)
  have hblock : left.block x = a.block x :=
    (a.block_modify id _ x).trans (if_neg fun heq => hne heq.1)
  have hcollection : left.collection? x = a.collection? x := by
    rw [collection?, collection?, hblock]
    rfl
  obtain ⟨w, hmade, hexpand⟩ := exists_moves_expandElements hsite' hready.has hwalk' hv'.right
  have hcopies := exists_copies hsite' hready (hblock ▸ h.kind) (hblock ▸ h.plain)
    ((hwalk'.shallow hv'.right).mono hv'.right.length_le)
  rw [hblock, hcollection] at hcopies
  refine ⟨w, hmade, hbeside.trans (hexpand.outside hv') hv, ?_, ?_, hcopies⟩
  · rw [hexpand.written (hv'.lt id List.mem_cons_self) hout]
    exact a.modify_same Block.written id (by intro _; rfl) id
  · rw [hexpand.inside (hv'.lt id List.mem_cons_self) hout]
    exact inside_removeChild_self hid.1 x

/-- The turn of a dynamic block. -/
theorem exists_takeTurn (hrender : UnrollsUpTo root n render) (hsite : Site (fun _ => True) a root)
    (hid : a.Has root id) (h : Awaits root n T a d x) (hwalk : Walk a [x] v) (hv : Distinct a ([id] ++ v)) :
    let result := takeTurn render root id a x
    ∃ t w, Advances root a result.2 id (· != x) v t.contents t.contents w ∧ Took T result.2 id d result.1 t := by
  intro result
  obtain ⟨w, hmade, hmoves, hwritten, hinside, hcopies⟩ := exists_detached_copies hsite hid h hwalk hv
  let expanded := expandElements root (a.removeChild id x) x
  let pass := mapThrough (injectContent render id (T.block d).typeLabel) expanded.2 expanded.1
  let t : Turn := ⟨id, x, a, expanded.1, pass.1.flatMap (·.1)⟩
  have hlabel : (a.block x).typeLabel = (T.block d).typeLabel := by
    rw [Block.typeLabel, Block.typeLabel, h.mirrors.labels]
  have hresult : result = (t :: pass.1.flatMap (·.2), pass.2) := by
    simp only [result, takeTurn]
    rw [if_neg (by rw [h.plain]; decide), expandForEach_singleton, hlabel]
  obtain ⟨u, hpass, hyields⟩ := exists_pass (f := injectContent render id (T.block d).typeLabel) (fun _ _ => true)
    (·.1) (·.1)
    (fun hsite hid h => exists_injectContent hrender hsite hid h) (fun _ _ _ => rfl) CopyFor.later Yields.later
    (hsite.changes hmoves.changes) (hid.changes hsite.well hmoves.changes) hcopies hmade hmoves.distinct
  rw [hresult]
  refine ⟨t, u, ⟨hpass.walk, hmoves.trans hpass.moves hv, hpass.written.trans hwritten, ?_, List.Subset.refl _⟩,
    rfl, ?_, ?_⟩
  · rw [hpass.inside, hinside, List.filter_eq_self.mpr fun y _ => List.all_eq_true.mpr fun _ _ => rfl]
  · exact hasTurn_of_yields rfl h.mirrors.written rfl hyields
  · intro source hsource content hcontent
    obtain ⟨r, hr, hmem⟩ := List.mem_flatMap.mp hcontent
    obtain ⟨i, -, hone⟩ := exists_of_mem_forall₂ hyields hr
    obtain ⟨q, hq, -, -, hunrolls, -⟩ := hone.content source hsource
    rw [hq] at hmem
    rw [List.mem_singleton.mp hmem]
    have hsub := (List.singleton_sublist.mpr hr).flatMap (·.2)
    rw [List.flatMap_singleton] at hsub
    exact hunrolls.mono (hsub.cons t)

/-! ## Passes -/

/-- A plain block that has been rendered where it is. -/
structure Stays (T b : Arena) (x : BlockId) (result : BlockId × List Turn) : Prop where
  written : (b.block result.1).written = (T.block x).written
  unrolls : Unrolls T b result.2 x result.1

theorem Stays.later {result : BlockId × List Turn} (h : Stays T a x result) (hsite : Site (fun _ => True) a root)
    (hwalk : Walk a [result.1] u) (hstep : Moves root a b v w) (hu : Distinct a (v ++ u)) : Stays T b x result := by
  have hspared : Spared a v u := .ofWalk hwalk hu
  have hmem : result.1 ∈ u := hwalk.subset List.mem_cons_self
  exact ⟨(hspared.written hstep.toConfined hmem).trans h.written,
    h.unrolls.later hspared (hspared.closed _ hmem).2 (hspared.inside hstep.toConfined hmem) hstep.toConfined hsite.top⟩

theorem Awaits.later (h : Awaits root n T a d x) (hsite : Site (fun _ => True) a root) (hwalk : Walk a [x] u)
    (hstep : Moves root a b v w) (hu : Distinct a (v ++ u)) : Awaits root n T b d x := by
  have hspared : Spared a v u := .ofWalk hwalk hu
  have hmem : x ∈ u := hwalk.subset List.mem_cons_self
  refine ⟨h.toReadyAs.later hsite hwalk hstep hu, ?_, ?_⟩
  · rw [Block.kind_of_written (hspared.written hstep.toConfined hmem), h.kind]
  · rw [hstep.changes.expanded_eq (hspared.lt hmem), h.plain]

/-- The first of some turns. -/
def firstTurn (turns : List Turn) : List Turn :=
  turns.head?.toList

theorem Took.firstTurn {turns : List Turn} {t : Turn} (h : Took T b id d turns t) : firstTurn turns = [t] := by
  rw [Arena.firstTurn, h.first]
  rfl

theorem Took.later {turns : List Turn} {t : Turn} (h : Took T a id d turns t) (hsite : Site (fun _ => True) a root)
    (hwalk : Walk a t.contents u) (hstep : Moves root a b v w) (hu : Distinct a (v ++ u)) : Took T b id d turns t := by
  have hspared : Spared a v u := .ofWalk hwalk hu
  refine ⟨h.first, h.turn.later hspared hwalk.subset hstep.toConfined hsite.top,
    fun source hsource content hcontent => ?_⟩
  have hmem : content ∈ u := hwalk.subset hcontent
  exact (h.unrolls source hsource content hcontent).later hspared (hspared.closed content hmem).2
    (hspared.inside hstep.toConfined hmem) hstep.toConfined hsite.top

theorem mapThrough_with_inputs {σ α β : Type} (f : σ → α → β × σ) (s : σ) (cs : List α) :
    mapThrough (fun s x => ((x, (f s x).1), (f s x).2)) s cs
      = (cs.zip (mapThrough f s cs).1, (mapThrough f s cs).2) := by
  induction cs generalizing s with
  | nil => rfl
  | cons x cs ih =>
    rw [mapThrough_cons, mapThrough_cons, ih]
    rfl

/-- A plain child is rendered where it is. -/
theorem UnrollsUpTo.advances (hrender : UnrollsUpTo root n render) (hsite : Site (fun _ => True) a root)
    (hid : a.Has root id) (h : ReadyAs root n T a x y) (hwalk : Walk a [y] v) (hv : Distinct a ([id] ++ v)) :
    ∃ w, Advances root a (render a y).2 id (fun _ => true) v [y] [] w
      ∧ Stays T (render a y).2 x (y, (render a y).1) := by
  obtain ⟨w, hdone⟩ := hrender hsite h hwalk hv.right
  exact ⟨w, hdone.advances hid.1 hv, hdone.written.trans h.mirrors.written, hdone.unrolls⟩

theorem length_mapThrough {σ α β : Type} (f : σ → α → β × σ) (s : σ) (cs : List α) :
    (mapThrough f s cs).1.length = cs.length := by
  induction cs generalizing s with
  | nil => rfl
  | cons x cs ih => exact congrArg (· + 1) (ih _)

/-- All plain children are rendered. -/
theorem exists_plain_pass (hrender : UnrollsUpTo root n render) (hsite : Site (fun _ => True) a root)
    (hid : a.Has root id) (h : List.Forall₂ (ReadyAs root n T a) xs ys) (hwalk : Walk a ys v)
    (hv : Distinct a ([id] ++ v)) :
    let pass := mapThrough render a ys
    ∃ w, Advances root a pass.2 id (fun _ => true) v ys [] w
      ∧ List.Forall₂ (fun x y => ∃ turns ∈ pass.1, Stays T pass.2 x (y, turns)) xs ys := by
  intro pass
  obtain ⟨w, hpass, hstays⟩ := exists_pass (I := ReadyAs root n T) (Q := Stays T)
    (f := fun a y => ((y, (render a y).1), (render a y).2)) (fun _ _ => true) (fun result => [result.1]) (fun _ => [])
    (fun hsite hid h hwalk hv => hrender.advances hsite hid h hwalk hv) (fun _ _ _ => rfl) ReadyAs.later Stays.later
    hsite hid h hwalk hv
  rw [mapThrough_with_inputs] at hpass hstays
  have hall : (fun _ : BlockId => ys.all fun _ => true) = fun _ => true :=
    funext fun _ => List.all_eq_true.mpr fun _ _ => rfl
  have hfirsts : (ys.zip pass.1).map (·.1) = ys :=
    List.map_fst_zip (Nat.le_of_eq (length_mapThrough render a ys).symm)
  have hroots : (ys.zip pass.1).flatMap (fun result => [result.1]) = ys := by
    rw [← List.map_eq_flatMap, hfirsts]
  have hput : (ys.zip pass.1).flatMap (fun _ => ([] : List BlockId)) = [] := by simp
  rw [hall, hroots, hput] at hpass
  refine ⟨w, hpass, ?_⟩
  rw [← hfirsts, List.forall₂_map_right_iff]
  exact forall₂_imp_of_mem hstays fun _ _ result hresult hstays =>
    ⟨result.2, (List.of_mem_zip (a := result.1) (b := result.2) hresult).2, hstays⟩

/-- Each dynamic child has its turn. -/
theorem exists_dynamic_pass (hrender : UnrollsUpTo root n render) (hsite : Site (fun _ => True) a root)
    (hid : a.Has root id) (h : List.Forall₂ (Awaits root n T a) xs ys) (hwalk : Walk a ys v)
    (hv : Distinct a ([id] ++ v)) :
    let pass := mapThrough (takeTurn render root id) a ys
    let contents := (pass.1.flatMap firstTurn).flatMap Turn.contents
    ∃ w, Advances root a pass.2 id (fun z => ys.all (z != ·)) v contents contents w
      ∧ List.Forall₂ (fun d t => ∃ turns ∈ pass.1, Took T pass.2 id d turns t) xs (pass.1.flatMap firstTurn) := by
  intro pass contents
  let roots (turns : List Turn) : List BlockId := (firstTurn turns).flatMap Turn.contents
  have hroots {b : Arena} {d : BlockId} {turns : List Turn} {t : Turn} (h : Took T b id d turns t) :
      roots turns = t.contents := by
    simp only [roots]
    rw [h.firstTurn, List.flatMap_singleton]
  have hturn {a : Arena} {d x : BlockId} {v : List BlockId} (hsite : Site (fun _ => True) a root) (hid : a.Has root id)
      (h : Awaits root n T a d x) (hwalk : Walk a [x] v) (hv : Distinct a ([id] ++ v)) :
      let result := takeTurn render root id a x
      ∃ w, Advances root a result.2 id (fun z => z != x) v (roots result.1) (roots result.1) w
        ∧ ∃ t, Took T result.2 id d result.1 t := by
    obtain ⟨t, w, hadvances, htook⟩ := exists_takeTurn hrender hsite hid h hwalk hv
    intro result
    rw [hroots htook]
    exact ⟨w, hadvances, t, htook⟩
  have hlater {a b : Arena} {d : BlockId} {turns : List Turn} {u v w : List BlockId} (h : ∃ t, Took T a id d turns t)
      (hsite : Site (fun _ => True) a root) (hwalk : Walk a (roots turns) u) (hstep : Moves root a b v w)
      (hu : Distinct a (v ++ u)) : ∃ t, Took T b id d turns t := by
    obtain ⟨t, htook⟩ := h
    rw [hroots htook] at hwalk
    exact ⟨t, htook.later hsite hwalk hstep hu⟩
  obtain ⟨w, hpass, htook⟩ := exists_pass (I := Awaits root n T) (Q := fun b d turns => ∃ t, Took T b id d turns t)
    (fun x z => z != x) roots roots hturn (fun _ _ hne => bne_iff_ne.mpr hne) Awaits.later hlater hsite hid h hwalk hv
  have hcontents : pass.1.flatMap roots = contents := List.flatMap_assoc.symm
  rw [hcontents] at hpass
  refine ⟨w, hpass, forall₂_flatMap_single (forall₂_imp_of_mem htook fun d _ turns hturns ⟨t, htook⟩ => ?_)⟩
  exact ⟨t, htook.firstTurn, turns, hturns, htook⟩

/-! ## All levels -/

theorem turnsUpTo_succ (root : ScopeId) (n : Nat) (a : Arena) (y : BlockId) :
    let plain := mapThrough (turnsUpTo root n) a (a.plainInside y)
    let own := mapThrough (takeTurn (turnsUpTo root n) root y) plain.2 (a.dynamicInside y)
    turnsUpTo root (n + 1) a y = (plain.1.flatten ++ own.1.flatten, own.2) := by
  rw [turnsUpTo, List.partition_eq_filter_filter]
  rfl

theorem ReadyAs.plainInside (h : ReadyAs root (n + 1) T a x y) (hsite : Site (fun _ => True) a root) :
    List.Forall₂ (ReadyAs root n T a) (T.plainInside x) (a.plainInside y) := by
  have hall : List.Forall₂ (Mirrors T a) (T.plainInside x) (a.plainInside y) :=
    List.rel_filter (fun p q hpq => by simp [hpq.kind]) h.mirrors.inside
  exact forall₂_imp_of_mem hall fun _ _ c hc hmirrors => ⟨h.child hsite (List.mem_filter.mp hc).1, hmirrors⟩

theorem ReadyAs.dynamicInside (h : ReadyAs root (n + 1) T a x y) (hsite : Site (fun _ => True) a root) :
    List.Forall₂ (Awaits root n T a) (T.dynamicInside x) (a.dynamicInside y) := by
  have hall : List.Forall₂ (Mirrors T a) (T.dynamicInside x) (a.dynamicInside y) :=
    List.rel_filter (fun p q hpq => by simp [hpq.kind]) h.mirrors.inside
  refine forall₂_imp_of_mem hall fun _ _ c hc hmirrors => ?_
  obtain ⟨hmem, hdynamic⟩ := List.mem_filter.mp hc
  have hkind : (a.block c).kind = .dynamic := by simpa using hdynamic
  exact ⟨⟨h.child hsite hmem, hmirrors⟩, hkind, h.fresh c (.listed hmem) hkind⟩

theorem firstTurn_sublist (results : List (List Turn)) : (results.flatMap firstTurn).Sublist results.flatten := by
  induction results with
  | nil => exact .slnil
  | cons turns results ih =>
    rw [List.flatMap_cons, List.flatten_cons]
    refine List.Sublist.append ?_ ih
    cases turns with
    | nil => exact .slnil
    | cons t turns => exact List.singleton_sublist.mpr List.mem_cons_self

/-- What is left of the children of a block when the dynamic ones are gone. -/
theorem filter_ne_dynamicInside (a : Arena) (y : BlockId) :
    (a.inside y).filter (fun z => true && (a.dynamicInside y).all (z != ·)) = a.plainInside y := by
  refine List.filter_congr fun z hz => ?_
  rw [Bool.true_and, Bool.eq_iff_iff, List.all_eq_true]
  constructor
  · intro h
    by_contra hkind
    have hdynamic : z ∈ a.dynamicInside y := List.mem_filter.mpr ⟨hz, by simpa using hkind⟩
    exact bne_iff_ne.mp (h z hdynamic) rfl
  · intro hkind d hd
    refine bne_iff_ne.mpr fun heq => ?_
    have hdynamic := (List.mem_filter.mp hd).2
    rw [← heq] at hdynamic
    simp [hdynamic] at hkind

/-- A block is unrolled when its plain children are, and so is what its dynamic ones have put into it. -/
theorem Unrolls.ofChildren {plain own : List (List Turn)} (hlt : y < b.blocks.size)
    (hwritten : (b.block y).written = (T.block x).written)
    (hinside : b.inside y = ys ++ (own.flatMap firstTurn).flatMap Turn.contents)
    (hstays : List.Forall₂ (fun c p => ∃ turns ∈ plain, Stays T b c (p, turns)) (T.plainInside x) ys)
    (htook : List.Forall₂ (fun d t => ∃ turns ∈ own, Took T b y d turns t) (T.dynamicInside x)
      (own.flatMap firstTurn)) : Unrolls T b (plain.flatten ++ own.flatten) x y := by
  have hlevel : Level T b (plain.flatten ++ own.flatten) x y ys (own.flatMap firstTurn) :=
    ⟨hlt, Block.attributes_of_written hwritten, Block.range_of_written hwritten, hinside,
      hstays.imp fun _ _ ⟨_, _, hstays⟩ => hstays.written,
      (firstTurn_sublist own).trans (List.sublist_append_right _ _),
      htook.imp fun _ _ ⟨_, _, htook⟩ => htook.turn⟩
  refine .intro hlevel (fun hmem => ?_) fun hmem hsource hcontent => ?_
  · obtain ⟨turns, hturns, hstays⟩ := (List.forall₂_iff_zip.mp hstays).2 hmem
    exact hstays.unrolls.mono ((List.sublist_flatten_of_mem hturns).trans (List.sublist_append_left _ _))
  · obtain ⟨turns, hturns, htook⟩ := (List.forall₂_iff_zip.mp htook).2 hmem
    exact (htook.unrolls _ hsource _ hcontent).mono
      ((List.sublist_flatten_of_mem hturns).trans (List.sublist_append_right _ _))

/-- Levels are unrolled from the inside out. -/
theorem UnrollsUpTo.succ (hrender : UnrollsUpTo root n (turnsUpTo root n)) :
    UnrollsUpTo root (n + 1) (turnsUpTo root (n + 1)) := by
  intro T a x y v hsite h hwalk hv
  obtain ⟨inner, rfl, hinner⟩ := hwalk.exists_inside
  obtain ⟨vp, vd, hplain, hdynamics, hperm⟩ := hinner.exists_filter fun child => (a.block child).kind == .dynamic
  have hall : Distinct a ([y] ++ vp ++ vd) := hv.perm (hperm.append_left [y])
  have hawaits := h.dynamicInside hsite
  obtain ⟨wp, hfirst, hstays⟩ := exists_plain_pass hrender hsite h.has (h.plainInside hsite) hplain hall.left
  let plain := mapThrough (turnsUpTo root n) a (a.plainInside y)
  let own := mapThrough (takeTurn (turnsUpTo root n) root y) plain.2 (a.dynamicInside y)
  have hsite' : Site (fun _ => True) plain.2 root := hsite.changes hfirst.moves.changes
  have hlater : List.Forall₂ (Awaits root n T plain.2) (T.dynamicInside x) (a.dynamicInside y) := by
    refine forall₂_later (Q := Awaits root n T) (fun y => [y]) Awaits.later hsite hawaits ?_ hfirst.moves hall
    rwa [List.flatMap_singleton']
  have hpart : Distinct a ([y] ++ vd) := hall.sublist ((List.sublist_append_left [y] vp).append_right vd)
  obtain ⟨wd, hsecond, htook⟩ := exists_dynamic_pass hrender hsite' (h.has.changes hsite.well hfirst.moves.changes)
    hlater (hfirst.moves.toRegrows.walk hdynamics hall) (hpart.later hfirst.moves.keeps.size)
  have hmid := (Regrows.both hfirst.moves.toRegrows hsecond.moves.toRegrows hall).2
  have hboth := hfirst.append hsecond hall fun z hz => absurd hz List.not_mem_nil
  have hinside : own.2.inside y = a.plainInside y ++ (own.1.flatMap firstTurn).flatMap Turn.contents := by
    rw [hboth.inside, filter_ne_dynamicInside]
    rfl
  have hturns : turnsUpTo root (n + 1) a y = (plain.1.flatten ++ own.1.flatten, own.2) := turnsUpTo_succ root n a y
  have hstays' : List.Forall₂ (fun c p => ∃ turns ∈ plain.1, Stays T own.2 c (p, turns)) (T.plainInside x)
      (a.plainInside y) := by
    refine forall₂_later (Q := fun b c p => ∃ turns ∈ plain.1, Stays T b c (p, turns)) (fun p => [p])
      (fun h hsite hwalk hstep hu => ?_) hsite' hstays ?_ hsecond.moves hmid
    · exact h.imp fun turns h => ⟨h.1, h.2.later hsite hwalk hstep hu⟩
    · rw [List.flatMap_singleton']
      exact hfirst.walk
  have hwritten : (own.2.block y).written = (a.block y).written := hboth.written
  have hlt : y < own.2.blocks.size := Nat.lt_of_lt_of_le h.has.1 hboth.moves.changes.size_blocks_le
  have hwalked : Walk own.2 (own.2.inside y) (wp ++ wd) := by
    rw [hinside]
    exact hboth.walk
  rw [hturns]
  exact ⟨y :: (wp ++ wd), hwalked.single, hboth.moves.perm (hperm.symm.append_left [y]) (.refl _), hwritten,
    .ofChildren hlt (hwritten.trans h.mirrors.written) hinside hstays' htook⟩

/-- Down to the height of a tree, rendering unrolls it. -/
theorem unrollsUpTo_turnsUpTo (root : ScopeId) (n : Nat) : UnrollsUpTo root n (turnsUpTo root n) := by
  induction n with
  | zero => exact fun _ h _ _ => h.height.not_zero.elim
  | succ n ih => exact ih.succ

/-- Rendering the dynamic blocks inside a block unrolls its tree, in the turns that they have on the way. If none of
them is an instance or labelled `dynamic`, no dynamic block is left inside. -/
theorem expandDynamic_unrolls (hwell : a.WellFormed) (htop : a.IsTop root) (hid : a.Has root id) (hwalk : Walk a [id] v)
    (hv : Distinct a v) (hdynamic : ∀ x ∈ v, (a.block x).kind = .dynamic →
      (a.block x).expanded = false ∧ (a.block x).typeLabel ≠ "dynamic") :
    ∃ turns, turnsUpTo root a.blocks.size a id = (turns, a.expandDynamic root id)
      ∧ Unrolls a (a.expandDynamic root id) turns id id
      ∧ ((a.expandDynamic root id).block id).written = (a.block id).written
      ∧ ∀ x, (a.expandDynamic root id).Below ((a.expandDynamic root id).inside id) x →
        ((a.expandDynamic root id).block x).kind ≠ .dynamic := by
  have hheight : Shallow a a.blocks.size [id] := (hwalk.shallow hv).mono hv.length_le
  have hready : ReadyAs root a.blocks.size a a id id :=
    ⟨⟨hid, fun z hz hkind => (hdynamic z (hwalk.mem_iff.mpr hz.single) hkind).1, hheight⟩, .self hheight (.refl a)⟩
  obtain ⟨w, hdone⟩ := unrollsUpTo_turnsUpTo root a.blocks.size ⟨hwell, htop, trivial⟩ hready hwalk hv
  have hresult : (turnsUpTo root a.blocks.size a id).2 = a.expandDynamic root id := turnsUpTo_snd root _ a id
  have hunrolls := hdone.unrolls
  have hwritten := hdone.written
  rw [hresult] at hunrolls hwritten
  refine ⟨_, Prod.ext rfl hresult, hunrolls, hwritten, fun x hx => hunrolls.kind_ne_dynamic (fun z hz hkind => ?_) hx⟩
  exact (hdynamic z (hwalk.mem_iff.mpr hz) hkind).2

/-- A resource with a plain block after a dynamic one, in whose content there is one over what the first is at. -/
def dynamicBlocks : List BlockTree :=
  [.node "resource" ["a", "x"] []
    [.node "dynamic" ["rule"] [⟨"for_each", .list [.text "p", .text "q"], default⟩]
      [.node "content" [] []
        [.node "dynamic" ["port"] [⟨"for_each", .list [.traversal (.variable "rule") [.attribute "value"]], default⟩]
          [.node "content" [] [⟨"name", .traversal (.variable "port") [.attribute "value"], default⟩] [] default]
          default] default] default,
    .node "tag" ["t"] [] [] default] default]

theorem expandDynamic_unrolls_dynamicBlocks :
    let start := (Arena.empty "/").newRoot
    let a := (insertAll start.1 none start.2 dynamicBlocks).2
    let b := a.expandDynamic start.1 5
    let kinds (id : BlockId) : List String := (b.inside id).map fun id => (b.block id).kind.name
    a.WellFormed ∧ a.IsTop start.1 ∧ a.Has start.1 5
      ∧ kinds 5 = ["tag", "rule", "rule"] ∧ (b.inside 5).map kinds = [[], ["port"], ["port"]]
      ∧ ∃ turns, turnsUpTo start.1 a.blocks.size a 5 = (turns, b) ∧ Unrolls a b turns 5 5 := by
  intro start a b kinds
  have hempty : start.2.WellFormed := ModuleRun.wellFormed_empty "/"
  have hroot : start.1 < start.2.scopes.size := by decide +kernel
  have hrow : Row a 0 [5] 6 := (adds_insertAll start.1 none dynamicBlocks start.2).row
  obtain ⟨v, hwalk, hnodup, hmem⟩ := Walk.ofRow hrow
  have hlt (x : Nat) (hx : x ∈ v) : x < 6 := ((hmem x).mp hx).2
  obtain ⟨hinsert, -⟩ := changes_insertAll (P := fun _ => True) none dynamicBlocks hempty hroot trivial
  have hwell : a.WellFormed := hinsert.wellFormed hempty
  have htop : a.IsTop start.1 := ⟨by decide +kernel, by decide +kernel⟩
  have hid : a.Has start.1 5 := ⟨by decide +kernel, by decide +kernel⟩
  have hdynamic : ∀ x < 6, (a.block x).kind = .dynamic →
      (a.block x).expanded = false ∧ (a.block x).typeLabel ≠ "dynamic" := by decide +kernel
  obtain ⟨turns, hturns, hunrolls, -⟩ := expandDynamic_unrolls hwell htop hid hwalk ⟨hnodup, hlt⟩
    fun x hx => hdynamic x (hlt x hx)
  exact ⟨hwell, htop, hid, by decide +kernel, by decide +kernel, turns, hturns, hunrolls⟩

end Arena

end InfraConfig
