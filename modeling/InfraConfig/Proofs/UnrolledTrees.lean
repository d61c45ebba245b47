import InfraConfig.Proofs.ConfinedSteps
import InfraConfig.Proofs.TameSteps

/-!
# Unrolled trees

A tree is unrolled when the dynamic blocks in it have given way to their contents, level by level: what else is inside a
block stays in its order and comes first, and the contents of the dynamic blocks follow, one after another. What is made
for an element stands in a scope in which the element is bound, and all that is inside stands there or below.
-/

namespace InfraConfig

/-- The collection that a block is repeated by, if its `for_each` is one. -/
def Arena.collection? (a : Arena) (id : BlockId) : Option Value :=
  (((a.block id).attribute? "for_each").map (a.value (a.block id))).filter Value.isIterable

/-- The collection that a dynamic block is repeated by when it has its turn. -/
def Turn.collection? (t : Turn) : Option Value :=
  t.moment.collection? t.dynamic

namespace Arena

variable {T a b c : Arena} {root σ above : ScopeId} {u v w : List BlockId} {x y z id content d : BlockId}
  {names : List String} {element : Value × Value} {turns turns' : List Turn} {t : Turn}

theorem exists_mem_zip {α β : Type} {xs : List α} {ys : List β} (hlength : xs.length = ys.length) {y : β}
    (hy : y ∈ ys) : ∃ x, (x, y) ∈ xs.zip ys := by
  obtain ⟨i, hi, rfl⟩ := List.getElem_of_mem hy
  refine ⟨xs[i], List.mem_iff_getElem.mpr ⟨i, ?_, List.getElem_zip⟩⟩
  rw [List.length_zip, hlength, Nat.min_self]
  exact hi

theorem Below.self_or_inside (h : a.Below [x] z) : z = x ∨ a.Below (a.inside x) z := by
  induction h with
  | listed hmem => exact .inl (List.mem_singleton.mp hmem)
  | inside _ hc ih =>
    rcases ih with rfl | hbelow
    · exact .inr (.listed hc)
    · exact .inr (hbelow.inside hc)

theorem Below.trans {ids : List BlockId} (h : a.Below [x] z) (hx : a.Below ids x) : a.Below ids z := by
  rcases h.self_or_inside with rfl | hinside
  · exact hx
  · exact hinside.within hx

/-! ## Blocks made for elements -/

/-- A scope below `above` that binds an element under some names. -/
structure BindsElement (a : Arena) (σ above : ScopeId) (names : List String) (element : Value × Value) : Prop where
  parent : a.scopes.parent? σ = some above
  key : ∀ name ∈ names, (a.scopes.bindings σ).getPath? [name, "key"] = some element.1
  /-- If a name is bound twice, the value is merged with itself; a map without equal keys stays what it is. -/
  value : names.Nodup ∨ element.2.HasDistinctKeys →
    ∀ name ∈ names, (a.scopes.bindings σ).getPath? [name, "value"] = some element.2

theorem BindsElement.later (h : BindsElement a σ above names element) (hstep : Confined root v a b)
    (htop : a.IsTop root) : BindsElement b σ above names element := by
  have hlt : σ < a.scopes.size := Scopes.lt_size_of_parent? h.parent
  have hne : σ ≠ root := by
    rintro rfl
    exact nomatch h.parent.symm.trans htop.2
  have hbindings := hstep.bindings σ hlt hne
  refine ⟨(hstep.changes.parent?_eq hlt).trans h.parent, ?_, ?_⟩
  · rw [hbindings]
    exact h.key
  · rw [hbindings]
    exact h.value

/-- A block that was made for an element: its scope binds the element, and all that is inside stands in this scope or in
one below. -/
structure MadeFor (a : Arena) (above : ScopeId) (names : List String) (element : Value × Value) (content : BlockId) :
    Prop where
  binds : BindsElement a (a.block content).scope above names element
  below : ∀ z, a.Below [content] z → a.scopes.Sees (a.block z).scope (a.block content).scope

/-! ## Levels -/

/-- The turn of a dynamic block `d` of `T` inside `y`, with what it has put there. -/
structure HasTurn (T b : Arena) (y d : BlockId) (t : Turn) : Prop where
  parent : t.parent = y
  written : (t.moment.block t.dynamic).written = (T.block d).written
  named : ∀ content ∈ t.contents,
    (b.block content).kind = .ofName (T.block d).typeLabel ∧ (b.block content).labels = []
  empty : T.childId? (T.block d) "content" = none → t.contents = []
  once : ∀ source, T.childId? (T.block d) "content" = some source → t.collection? = none →
    ∃ content, t.contents = [content]
  each : ∀ source collection, T.childId? (T.block d) "content" = some source → t.collection? = some collection →
    List.Forall₂ (MadeFor b (t.moment.block t.dynamic).scope (elementNames (T.block d).iteratorName true))
      collection.elements t.contents

/-- What is directly inside a block `y` that is unrolled from `x` in `T`: first its plain blocks, then what its dynamic
blocks have put there in their turns. -/
structure Level (T b : Arena) (turns : List Turn) (x y : BlockId) (plain : List BlockId) (own : List Turn) : Prop where
  lt : y < b.blocks.size
  attributes : (b.block y).attributes = (T.block x).attributes
  range : (b.block y).range = (T.block x).range
  inside : b.inside y = plain ++ own.flatMap Turn.contents
  kept : List.Forall₂ (fun c p => (b.block p).written = (T.block c).written) (T.plainInside x) plain
  turns : own.Sublist turns
  taken : List.Forall₂ (HasTurn T b y) (T.dynamicInside x) own

/-- The tree of `y` is that of `x` in `T`, unrolled in some turns. -/
inductive Unrolls (T b : Arena) (turns : List Turn) : BlockId → BlockId → Prop where
  | intro {x y : BlockId} {plain : List BlockId} {own : List Turn} (level : Level T b turns x y plain own)
      (plains : ∀ {c p : BlockId}, (c, p) ∈ (T.plainInside x).zip plain → Unrolls T b turns c p)
      (contents : ∀ {d source content : BlockId} {t : Turn}, (d, t) ∈ (T.dynamicInside x).zip own →
        T.childId? (T.block d) "content" = some source → content ∈ t.contents → Unrolls T b turns source content) :
      Unrolls T b turns x y

/-- There may have been other turns as well. -/
theorem Unrolls.mono (h : Unrolls T b turns x y) (hturns : turns.Sublist turns') : Unrolls T b turns' x y := by
  induction h with
  | intro level _ _ ihplains ihcontents =>
    exact .intro { level with turns := level.turns.trans hturns } ihplains ihcontents

/-! ## Unrolled trees outside of a step -/

/-- Blocks outside of a step, with all that is inside them. -/
structure Spared (a : Arena) (v u : List BlockId) : Prop where
  closed : Closed a u
  out : ∀ z ∈ u, z ∉ v

namespace Spared

theorem ofWalk {ids : List BlockId} (hwalk : Walk a ids u) (hu : Distinct a (v ++ u)) : Spared a v u :=
  ⟨.ofWalk hwalk hu.right, fun _ hz hv => hu.apart hv hz⟩

theorem lt (h : Spared a v u) (hz : z ∈ u) : z < a.blocks.size :=
  (h.closed z hz).1

theorem inside (h : Spared a v u) (hstep : Confined root v a b) (hz : z ∈ u) : b.inside z = a.inside z :=
  hstep.inside (h.lt hz) (h.out z hz)

theorem written (h : Spared a v u) (hstep : Confined root v a b) (hz : z ∈ u) :
    (b.block z).written = (a.block z).written :=
  hstep.written (h.lt hz) (h.out z hz)

theorem of_below (h : Spared a v u) (hstep : Confined root v a b) (hx : x ∈ u) (hz : b.Below [x] z) :
    z ∈ u ∧ a.Below [x] z := by
  induction hz with
  | listed hmem =>
    obtain rfl := List.mem_singleton.mp hmem
    exact ⟨hx, .listed hmem⟩
  | inside _ hc ih =>
    rw [h.inside hstep ih.1] at hc
    exact ⟨(h.closed _ ih.1).2 hc, ih.2.inside hc⟩

end Spared

theorem MadeFor.later (h : MadeFor a above names element content) (hcontent : content < a.blocks.size)
    (hbelow : ∀ z, b.Below [content] z → z < a.blocks.size ∧ a.Below [content] z) (hstep : Confined root v a b)
    (htop : a.IsTop root) : MadeFor b above names element content := by
  have hscope := hstep.scope content hcontent
  constructor
  · rw [hscope]
    exact h.binds.later hstep htop
  · intro z hz
    obtain ⟨hlt, hold⟩ := hbelow z hz
    rw [hscope, hstep.scope z hlt]
    exact hstep.changes.sees (h.below z hold)

theorem MadeFor.spared (h : MadeFor a above names element content) (hu : Spared a v u) (hcontent : content ∈ u)
    (hstep : Confined root v a b) (htop : a.IsTop root) : MadeFor b above names element content :=
  h.later (hu.lt hcontent) (fun _ hz => (hu.of_below hstep hcontent hz).imp_left hu.lt) hstep htop

/-- What takes the place of a tree in a scope that binds an element. -/
theorem MadeFor.ofMoves (hbinds : BindsElement a σ above names element) (hshared : ∀ z ∈ u, (a.block z).scope = σ)
    (hcontent : content ∈ u) (hu : Distinct a u) (hstep : Moves root a b u w) (hwalk : Walk b [content] w)
    (htop : a.IsTop root) : MadeFor b above names element content := by
  have hscope : (b.block content).scope = σ :=
    (hstep.scope content (hu.lt content hcontent)).trans (hshared content hcontent)
  constructor
  · rw [hscope]
    exact hbinds.later hstep.toConfined htop
  · intro z hz
    obtain ⟨y, hy, hsees⟩ := hstep.descends z (hwalk.mem_iff.mpr hz)
    rw [hscope]
    rwa [hshared y hy] at hsees

theorem HasTurn.later (h : HasTurn T a y d t) (hu : Spared a v u) (hcontents : t.contents ⊆ u)
    (hstep : Confined root v a b) (htop : a.IsTop root) : HasTurn T b y d t := by
  refine ⟨h.parent, h.written, fun content hmem => ?_, h.empty, h.once, fun source collection hsource hcollection => ?_⟩
  · have hsame := hu.written hstep (hcontents hmem)
    obtain ⟨hkind, hlabels⟩ := h.named content hmem
    exact ⟨(Block.kind_of_written hsame).trans hkind, (Block.labels_of_written hsame).trans hlabels⟩
  · exact forall₂_imp_of_mem (h.each source collection hsource hcollection) fun _ _ content hmem hmade =>
      hmade.spared hu (hcontents hmem) hstep htop

/-- A step elsewhere leaves a tree unrolled, whatever becomes of its root beside what is inside it. -/
theorem Unrolls.later (h : Unrolls T a turns x y) (hu : Spared a v u) (hinside : a.inside y ⊆ u)
    (hsame : b.inside y = a.inside y) (hstep : Confined root v a b) (htop : a.IsTop root) :
    Unrolls T b turns x y := by
  induction h with
  | @intro x y plain own level _ _ ihplains ihcontents =>
    have hplain {p : BlockId} (hp : p ∈ plain) : p ∈ u :=
      hinside (level.inside ▸ List.mem_append_left _ hp)
    have hcontents {t : Turn} (ht : t ∈ own) : t.contents ⊆ u := fun content hmem =>
      hinside (level.inside ▸ List.mem_append_right _ (List.mem_flatMap.mpr ⟨t, ht, hmem⟩))
    have hrest {z : BlockId} (hz : z ∈ u) : a.inside z ⊆ u ∧ b.inside z = a.inside z :=
      ⟨(hu.closed z hz).2, hu.inside hstep hz⟩
    have hlevel : Level T b turns x y plain own := by
      constructor
      · exact Nat.lt_of_lt_of_le level.lt hstep.changes.size_blocks_le
      · rw [hstep.changes.attributes_eq level.lt, level.attributes]
      · rw [hstep.range level.lt, level.range]
      · rw [hsame, level.inside]
      · exact forall₂_imp_of_mem level.kept fun _ _ p hp hkept => (hu.written hstep (hplain hp)).trans hkept
      · exact level.turns
      · exact forall₂_imp_of_mem level.taken fun _ _ t ht htaken => htaken.later hu (hcontents ht) hstep htop
    refine .intro hlevel (fun hmem => ?_) fun hmem hsource hcontent => ?_
    · obtain ⟨hsub, hstays⟩ := hrest (hplain (List.of_mem_zip hmem).2)
      exact ihplains hmem hsub hstays
    · obtain ⟨hsub, hstays⟩ := hrest (hcontents (List.of_mem_zip hmem).2 hcontent)
      exact ihcontents hmem hsource hcontent hsub hstays

/-! ## What is left -/

/-- Where no dynamic block renders dynamic blocks, none is left inside an unrolled tree. -/
theorem Unrolls.kind_ne_dynamic (h : Unrolls T b turns x y) (hplain : ∀ z, T.Below [x] z → (T.block z).RendersPlain)
    (hz : b.Below (b.inside y) z) : (b.block z).kind ≠ .dynamic := by
  induction h generalizing z with
  | @intro x y plain own level _ _ ihplains ihcontents =>
    obtain ⟨q, hq, hbelow⟩ := hz.exists_of_mem
    rw [level.inside] at hq
    have hinner {p k : BlockId} (hp : p ∈ T.inside x) (hk : T.Below [p] k) : T.Below [x] k :=
      hk.trans ((Below.listed List.mem_cons_self).inside hp)
    rcases List.mem_append.mp hq with hq | hq
    · obtain ⟨p, hmem⟩ := exists_mem_zip level.kept.length_eq hq
      obtain ⟨hp, hkind⟩ := List.mem_filter.mp (List.of_mem_zip hmem).1
      rcases hbelow.self_or_inside with rfl | hbelow
      · have hwritten := (List.forall₂_iff_zip.mp level.kept).2 hmem
        rw [Block.kind_of_written hwritten]
        simpa using hkind
      · exact ihplains hmem (fun k hk => hplain k (hinner hp hk)) hbelow
    · obtain ⟨t, ht, hq⟩ := List.mem_flatMap.mp hq
      obtain ⟨d, hmem⟩ := exists_mem_zip level.taken.length_eq ht
      obtain ⟨hd, hkind⟩ := List.mem_filter.mp (List.of_mem_zip hmem).1
      have hturn := (List.forall₂_iff_zip.mp level.taken).2 hmem
      cases hsource : T.childId? (T.block d) "content" with
      | none =>
        rw [hturn.empty hsource] at hq
        exact absurd hq List.not_mem_nil
      | some source =>
        have hown : T.Below [x] d := hinner hd (.listed List.mem_cons_self)
        rcases hbelow.self_or_inside with rfl | hbelow
        · rw [(hturn.named z hq).1]
          exact ofName_ne_dynamic (hplain d hown (by simpa using hkind))
        · have hinside := mem_of_childId? hsource
          exact ihcontents hmem hsource hq
            (fun k hk => hplain k (hinner hd (hk.trans ((Below.listed List.mem_cons_self).inside hinside)))) hbelow

end Arena

end InfraConfig
