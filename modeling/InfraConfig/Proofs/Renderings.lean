import Mathlib.Data.List.Find
import InfraConfig.Proofs.ExpandedTrees

/-!
# Turns of dynamic blocks

Rendering goes through the trees of the blocks. Each dynamic block has one turn, in which its contents are put
into its parent, and nothing takes them away afterwards: what comes later is about trees that have nothing in
common with those before.
-/

namespace InfraConfig

/-- The turn of a dynamic block: the arena when it comes, what then stands for the block, and what is put into
the parent. -/
structure Turn where
  parent : BlockId
  dynamic : BlockId
  moment : Arena
  made : List BlockId
  contents : List BlockId

namespace Turn

/-- What stands for the dynamic block in the arena in which it has been made. -/
def expansion (t : Turn) (root : ScopeId) : List BlockId × Arena :=
  Arena.expandElements root (t.moment.removeChild t.parent t.dynamic) t.dynamic

/-- In its turn a dynamic block is expanded by its `for_each`, and the contents of all that stands for it are
rendered. -/
structure Proper (root : ScopeId) (t : Turn) : Prop where
  kind : (t.moment.block t.dynamic).kind = .dynamic
  fresh : (t.moment.block t.dynamic).expanded = false
  made : t.made = (t.expansion root).1
  contents : t.contents = t.made.flatMap fun copy =>
    ((t.expansion root).2.childId? ((t.expansion root).2.block copy) "content").toList

end Turn

namespace Arena

/-! ## Rendering with its turns -/

/-- Renders the content of one copy of a dynamic block, if it has one. -/
def injectContent (render : Arena → BlockId → List Turn × Arena) (id : BlockId) (label : String) (a : Arena)
    (copy : BlockId) : (List BlockId × List Turn) × Arena :=
  match a.childId? (a.block copy) "content" with
  | some content =>
    let (turns, b) := render a content
    (([content], turns), b.inject id content label)
  | none => (([], []), a)

/-- The turn of a dynamic block, followed by those inside its contents. -/
def takeTurn (render : Arena → BlockId → List Turn × Arena) (root : ScopeId) (id : BlockId) (a : Arena)
    (dynamic : BlockId) : List Turn × Arena :=
  if (a.block dynamic).expanded then ([], a)
  else
    let (made, b) := (a.removeChild id dynamic).expandForEach root [dynamic]
    let (done, c) := mapThrough (injectContent render id (a.block dynamic).typeLabel) b made
    (⟨id, dynamic, a, made, done.flatMap (·.1)⟩ :: done.flatMap (·.2), c)

/-- The turns in a block, down to a depth, and the arena after them. -/
def turnsUpTo (root : ScopeId) : Nat → Arena → BlockId → List Turn × Arena
  | 0, a, _ => ([], a)
  | depth + 1, a, id =>
    let (dynamics, plain) := (a.block id).children.partition fun child => (a.block child).kind == .dynamic
    let (inner, b) := mapThrough (turnsUpTo root depth) a plain
    let (own, c) := mapThrough (takeTurn (turnsUpTo root depth) root id) b dynamics
    (inner.flatten ++ own.flatten, c)

theorem mapThrough_singleton {σ α β : Type} (f : σ → α → β × σ) (s : σ) (x : α) :
    mapThrough f s [x] = ([(f s x).1], (f s x).2) := rfl

theorem injectContent_snd {render : Arena → BlockId → List Turn × Arena} {plain : Arena → BlockId → Arena}
    (h : ∀ a id, (render a id).2 = plain a id) (id : BlockId) (label : String) (a : Arena) (copy : BlockId) :
    (injectContent render id label a copy).2 = match a.childId? (a.block copy) "content" with
      | some content => (plain a content).inject id content label
      | none => a := by
  rw [injectContent]
  split
  · next content _ => rw [← h]
  · rfl

/-- Rendering is the same with and without its turns. -/
theorem turnsUpTo_snd (root : ScopeId) (depth : Nat) (a : Arena) (id : BlockId) :
    (turnsUpTo root depth a id).2 = a.expandDynamicUpTo root depth id := by
  induction depth generalizing a id with
  | zero => rfl
  | succ depth ih =>
    rw [turnsUpTo, expandDynamicUpTo]
    dsimp only
    have hplain : (fun a child => (turnsUpTo root depth a child).2) = expandDynamicUpTo root depth := by
      funext b c
      exact ih b c
    rw [mapThrough_snd, mapThrough_snd, hplain]
    congr 1
    funext b dynamic
    rw [takeTurn]
    split
    · rfl
    · dsimp only
      rw [mapThrough_snd]
      congr 1
      funext c copy
      exact injectContent_snd ih _ _ _ _

/-! ## Steps in separate trees -/

/-- What is put where in the turns of a list. -/
def injections (turns : List Turn) : List (Nat × Nat) :=
  turns.flatMap fun turn => turn.contents.map (turn.parent, ·)

/-- What is put into `id`, and elsewhere, for one copy of a dynamic block. -/
def injectionsOfCopy (id : BlockId) (done : List BlockId × List Turn) : List (Nat × Nat) :=
  done.1.map (id, ·) ++ injections done.2

/-- A step in the tree of `x` that may also put blocks into those in `M`, from which it may remove those in `R`.
The blocks that it has put somewhere are there, and whatever comes later in other trees leaves them. -/
structure Step (low : Nat → Nat) (M R : Nat → Prop) (x : Nat) (a b : Arena) (placed : List (Nat × Nat)) :
    Prop where
  keeps : Keeps (fun y => (y < low x ∨ x < y) ∧ ¬ M y) a b
  grows : ∀ q, M q → ∀ k ∈ a.inside q, ¬ R k → k ∈ b.inside q
  there : ∀ q k, (q, k) ∈ placed → q < b.blocks.size ∧ k ∈ b.inside q
  sheltered : ∀ q k, (q, k) ∈ placed →
    (low x ≤ q ∧ q ≤ x) ∨ a.blocks.size ≤ q ∨ (M q ∧ ¬ R k)

/-- Steps in separate trees. -/
structure Steps (low : Nat → Nat) (M R : Nat → Prop) (xs : List BlockId) (a b : Arena)
    (placed : List (Nat × Nat)) : Prop where
  keeps : Keeps (fun y => (∀ x : Nat, x ∈ xs → y < low x ∨ x < y) ∧ ¬ M y) a b
  grows : ∀ q, M q → ∀ k ∈ a.inside q, ¬ R k → k ∈ b.inside q
  there : ∀ q k, (q, k) ∈ placed → q < b.blocks.size ∧ k ∈ b.inside q
  sheltered : ∀ q k, (q, k) ∈ placed →
    (∃ x : Nat, x ∈ xs ∧ low x ≤ q ∧ q ≤ x) ∨ a.blocks.size ≤ q ∨ (M q ∧ ¬ R k)

variable {a b c : Arena} {low : Nat → Nat} {M R : Nat → Prop} {xs : List BlockId}

/-- Blocks that are there, outside of some trees. -/
def Outside (a : Arena) (low : Nat → Nat) (M : Nat → Prop) (xs : List BlockId) : Prop :=
  ∀ q, M q → q < a.blocks.size ∧ ∀ x : Nat, x ∈ xs → q < low x ∨ x < q

theorem Step.steps {x : Nat} {placed : List (Nat × Nat)} (h : Step low M R x a b placed) :
    Steps low M R [x] a b placed := by
  constructor
  · exact h.keeps.mono fun y _ hy => ⟨hy.1 x List.mem_cons_self, hy.2⟩
  · exact h.grows
  · exact h.there
  · exact fun q k hmem => (h.sheltered q k hmem).imp (fun hin => ⟨x, List.mem_cons_self, hin⟩) fun hout => hout

/-- What some steps have put somewhere stays there while other trees are gone through. -/
theorem Steps.persists {ys : List BlockId} {q k : Nat} {placed more : List (Nat × Nat)}
    (hfirst : Steps low M R xs a b placed) (hrest : Steps low M R ys b c more)
    (hM : Outside a low M (xs ++ ys)) (hapart : ∀ x y : Nat, x ∈ xs → y ∈ ys → x < low y ∨ y < low x)
    (hlt : ∀ y : Nat, y ∈ ys → y < a.blocks.size) (hmem : (q, k) ∈ placed) : k ∈ c.inside q := by
  obtain ⟨hq, hk⟩ := hfirst.there q k hmem
  by_cases hMq : M q
  · apply hrest.grows q hMq k hk
    obtain ⟨hold, hout⟩ := hM q hMq
    rcases hfirst.sheltered q k hmem with ⟨x, hx, hin⟩ | hnew | hshelter
    · have := hout x (List.mem_append_left ys hx)
      omega
    · omega
    · exact hshelter.2
  · have hout : ∀ y : Nat, y ∈ ys → q < low y ∨ y < q := by
      intro y hy
      rcases hfirst.sheltered q k hmem with ⟨x, hx, hin⟩ | hnew | hshelter
      · have := hapart x y hx hy
        omega
      · have := hlt y hy
        omega
      · exact absurd hshelter.1 hMq
    have hsame := hrest.keeps.inside q hq ⟨hout, hMq⟩
    rw [hsame]
    exact hk

theorem Steps.append {ys : List BlockId} {placed more : List (Nat × Nat)}
    (hfirst : Steps low M R xs a b placed) (hrest : Steps low M R ys b c more)
    (hM : Outside a low M (xs ++ ys)) (hapart : ∀ x y : Nat, x ∈ xs → y ∈ ys → x < low y ∨ y < low x)
    (hlt : ∀ y : Nat, y ∈ ys → y < a.blocks.size) : Steps low M R (xs ++ ys) a c (placed ++ more) := by
  constructor
  · refine (hfirst.keeps.mono fun z _ hz => ⟨fun x hx => ?_, hz.2⟩).trans hrest.keeps
      fun z _ hz => ⟨fun y hy => ?_, hz.2⟩
    · exact hz.1 x (List.mem_append_left ys hx)
    · exact hz.1 y (List.mem_append_right xs hy)
  · exact fun q hq k hk hR => hrest.grows q hq k (hfirst.grows q hq k hk hR) hR
  · intro q k hmem
    rcases List.mem_append.mp hmem with hmem | hmem
    · have hq := (hfirst.there q k hmem).1
      exact ⟨Nat.lt_of_lt_of_le hq hrest.keeps.size, hfirst.persists hrest hM hapart hlt hmem⟩
    · exact hrest.there q k hmem
  · intro q k hmem
    rcases List.mem_append.mp hmem with hmem | hmem
    · rcases hfirst.sheltered q k hmem with ⟨x, hx, hin⟩ | hout
      · exact .inl ⟨x, List.mem_append_left ys hx, hin⟩
      · exact .inr hout
    · rcases hrest.sheltered q k hmem with ⟨y, hy, hin⟩ | hnew | hshelter
      · exact .inl ⟨y, List.mem_append_right xs hy, hin⟩
      · exact .inr (.inl (Nat.le_trans hfirst.keeps.size hnew))
      · exact .inr (.inr hshelter)

/-- Other trees are as before. -/
theorem Steps.keepsTree {ys : List BlockId} {placed : List (Nat × Nat)} (h : Steps low M R xs a b placed)
    (hM : Outside a low M ys) (hapart : ∀ x y : Nat, x ∈ xs → y ∈ ys → x < low y ∨ y < low x)
    (hlow : ∀ x : Nat, x ∈ xs → low x ≤ x) :
    Keeps (fun z => ∃ y : Nat, y ∈ ys ∧ low y ≤ z ∧ z ≤ y) a b := by
  refine h.keeps.mono ?_
  rintro z - ⟨y, hy, hlo, hz⟩
  refine ⟨fun x hx => ?_, fun hMz => ?_⟩
  · have := hapart x y hx hy
    have := hlow x hx
    omega
  · have := (hM z hMz).2 y hy
    omega

theorem Outside.later (hM : Outside a low M xs) (hsize : a.blocks.size ≤ b.blocks.size) : Outside b low M xs :=
  fun q hq => ⟨Nat.lt_of_lt_of_le (hM q hq).1 hsize, (hM q hq).2⟩

/-- A loop over separate trees. Each step finds its tree as it was at the beginning. -/
theorem Steps.mapThrough {β : Type} {f : Arena → BlockId → β × Arena} {placed : β → List (Nat × Nat)}
    {Q : BlockId → β → Prop} (htrees : Trees a low xs) (hlt : ∀ x : Nat, x ∈ xs → x < a.blocks.size)
    (hM : Outside a low M xs)
    (hf : ∀ (b : Arena) (x : Nat), x ∈ xs → Keeps (fun y => low x ≤ y ∧ y ≤ x) a b →
      Step low M R x b (f b x).2 (placed (f b x).1) ∧ Q x (f b x).1) :
    Steps low M R xs a (mapThrough f a xs).2 ((mapThrough f a xs).1.flatMap placed)
      ∧ List.Forall₂ Q xs (mapThrough f a xs).1 := by
  induction xs generalizing a with
  | nil =>
    refine ⟨⟨.refl, fun _ _ _ hk _ => hk, ?_, ?_⟩, .nil⟩
    · intro q k hmem
      cases hmem
    · intro q k hmem
      cases hmem
  | cons x xs ih =>
    have hrest (y : Nat) (hy : y ∈ xs) : y ∈ x :: xs := List.mem_cons_of_mem x hy
    obtain ⟨hstep, hx⟩ := hf a x List.mem_cons_self .refl
    have hsize := hstep.keeps.size
    have hMrest : Outside a low M xs := fun q hq => ⟨(hM q hq).1, fun y hy => (hM q hq).2 y (hrest y hy)⟩
    have hapart : ∀ z y : Nat, z ∈ [x] → y ∈ xs → z < low y ∨ y < low z := by
      intro z y hz hy
      rw [List.mem_singleton.mp hz]
      exact (List.pairwise_cons.mp htrees.apart).1 y hy
    have hlow : ∀ z : Nat, z ∈ [x] → low z ≤ z := by
      intro z hz
      exact htrees.low_le (List.mem_singleton.mp hz ▸ List.mem_cons_self)
    have hkept := hstep.steps.keepsTree hMrest hapart hlow
    have hothers := (htrees.sublist (List.sublist_cons_self x xs)).keeps (fun y hy => hlt y (hrest y hy)) hkept
      fun y hy z hlo hz => ⟨y, hy, hlo, hz⟩
    obtain ⟨hloop, hresults⟩ := ih hothers (fun y hy => Nat.lt_of_lt_of_le (hlt y (hrest y hy)) hsize)
      (hMrest.later hsize) fun b y hy hb => hf b y (hrest y hy)
        ((hkept.mono fun z _ hz => ⟨y, hy, hz⟩).trans hb fun _ _ hz => hz)
    exact ⟨hstep.steps.append hloop hM hapart fun y hy => hlt y (hrest y hy), .cons hx hresults⟩

theorem Step.none {x : Nat} : Step low M R x a a [] :=
  ⟨.refl, fun _ _ _ hk _ => hk, fun _ _ h => absurd h List.not_mem_nil, fun _ _ h => absurd h List.not_mem_nil⟩

theorem Step.subset {x : Nat} {placed some : List (Nat × Nat)} (h : Step low M R x a b placed)
    (hsub : some ⊆ placed) : Step low M R x a b some :=
  ⟨h.keeps, h.grows, fun q k hmem => h.there q k (hsub hmem), fun q k hmem => h.sheltered q k (hsub hmem)⟩

/-! ## Steps of rendering -/

/-- Injecting renames a block and puts it last among those inside the parent. -/
theorem blocks_inject (a : Arena) (parent child : BlockId) (kind : String) :
    (a.inject parent child kind).blocks = ((a.renamed child kind).modify parent fun b =>
      { b with children := b.children ++ [child] }).blocks := by
  obtain ⟨noted, values, path, hnoted, heq⟩ := inject_eq a parent child kind
  have hblocks : (values.foldl (fun b w =>
      b.bind (noted.scopes.root (noted.block parent).scope) w.2 (path w.1)) noted).blocks = noted.blocks :=
    blocks_foldl (by intro _ _; rfl) _ _
  rw [heq, modify, hblocks, hnoted]
  rfl

theorem size_inject (a : Arena) (parent child : BlockId) (kind : String) :
    (a.inject parent child kind).blocks.size = a.blocks.size := by
  rw [blocks_inject, size_blocks_modify]
  exact size_blocks_modify _ _ _

theorem block_inject (a : Arena) (parent child : BlockId) (kind : String) (q : BlockId) :
    (a.inject parent child kind).block q = ((a.renamed child kind).modify parent fun b =>
      { b with children := b.children ++ [child] }).block q := by
  rw [block, blocks_inject]
  rfl

theorem inside_inject (a : Arena) (parent child : BlockId) (kind : String) (q : BlockId) :
    (a.inject parent child kind).inside q
      = if q = parent ∧ parent < a.blocks.size then a.inside q ++ [child] else a.inside q := by
  have hsize : (a.renamed child kind).blocks.size = a.blocks.size := size_blocks_modify _ _ _
  have hsame : (a.renamed child kind).inside q = a.inside q :=
    a.modify_same Block.children child (by intro _; rfl) q
  rw [inside, block_inject, block_modify, hsize]
  split
  · rw [← hsame]
    rfl
  · exact hsame

theorem kind_inject (a : Arena) {parent child : BlockId} {kind : String} {q : BlockId} (hq : q ≠ child) :
    ((a.inject parent child kind).block q).kind = (a.block q).kind := by
  rw [block_inject, modify_same Block.kind _ parent (by intro _; rfl), renamed, block_modify,
    if_neg fun h => hq h.1]

/-- A rendering stays in the tree that it is begun in, and its contents stay where it puts them. -/
def Renders (root : ScopeId) (render : Arena → BlockId → List Turn × Arena) : Prop :=
  ∀ (a : Arena) (lo id : Nat), Row a lo (a.inside id) id → id < a.blocks.size →
    Step (fun _ => lo) (fun _ => False) (fun _ => False) id a (render a id).2 (injections (render a id).1)
      ∧ ∀ turn ∈ (render a id).1, turn.Proper root

/-- What is directly inside a block is in its tree. -/
theorem childId?_keeps {lo x : Nat} (hrow : Row a lo (a.inside x) x) (hx : x < a.blocks.size)
    (hab : Keeps (fun y => lo ≤ y ∧ y ≤ x) a b) (kind : String) :
    b.childId? (b.block x) kind = a.childId? (a.block x) kind := by
  have hlo := hrow.le
  obtain ⟨low, htrees, hbounds⟩ := hrow.trees
  have hinside : (b.block x).children = (a.block x).children := hab.inside x hx ⟨hlo, Nat.le_refl _⟩
  rw [childId?, childId?, hinside]
  apply List.find?_congr
  intro c hc
  have hin := hbounds c hc
  have := htrees.low_le hc
  rw [hab.kind c (by omega) ⟨by omega, by omega⟩]

variable {render : Arena → BlockId → List Turn × Arena} {root : ScopeId}

/-- The content of a copy is rendered, and put into a block outside of the copy. -/
theorem Step.inject {lo id copy content : Nat} {placed : List (Nat × Nat)}
    (h : Step (fun _ => lo) (fun _ => False) (fun _ => False) content a b placed) (label : String)
    (hlo : low copy ≤ lo) (hle : lo ≤ content) (hlt : content < copy) (hid : id < a.blocks.size)
    (hout : id < low copy ∨ copy < id) (hR : ¬ R content) :
    Step low (fun q => q = id) R copy a (b.inject id content label) ((id, content) :: placed) := by
  have hsize := h.keeps.size
  have hidKept : b.inside id = a.inside id := h.keeps.inside id hid ⟨by omega, fun h => h⟩
  have hinside (q : Nat) (hq : q ≠ id) : (b.inject id content label).inside q = b.inside q := by
    rw [inside_inject, if_neg fun h => hq h.1]
  have hinsideId : (b.inject id content label).inside id = a.inside id ++ [content] := by
    rw [inside_inject, if_pos ⟨rfl, Nat.lt_of_lt_of_le hid hsize⟩, hidKept]
  have hsheltered (q k : Nat) (hqk : (q, k) ∈ placed) : (lo ≤ q ∧ q ≤ content) ∨ a.blocks.size ≤ q :=
    (h.sheltered q k hqk).imp_right fun hout => hout.resolve_right fun h => h.1
  refine ⟨⟨?_, fun y hy hS => ?_, fun y hy hS => ?_⟩, ?_, fun q k hqk => ?_, fun q k hqk => ?_⟩
  · rw [size_inject]
    exact hsize
  · rw [hinside y hS.2]
    exact h.keeps.inside y hy ⟨by omega, fun h => h⟩
  · have hne : y ≠ content := by
      rintro rfl
      omega
    rw [kind_inject _ hne]
    exact h.keeps.kind y hy ⟨by omega, fun h => h⟩
  · rintro q rfl k hk -
    rw [hinsideId]
    exact List.mem_append_left _ hk
  · rw [size_inject]
    rcases List.mem_cons.mp hqk with heq | hqk
    · obtain ⟨rfl, rfl⟩ := Prod.mk.inj heq
      rw [hinsideId]
      exact ⟨Nat.lt_of_lt_of_le hid hsize, List.mem_append_right _ List.mem_cons_self⟩
    · have hne : q ≠ id := by
        have := hsheltered q k hqk
        omega
      rw [hinside q hne]
      exact h.there q k hqk
  · rcases List.mem_cons.mp hqk with heq | hqk
    · obtain ⟨rfl, rfl⟩ := Prod.mk.inj heq
      exact .inr (.inr ⟨rfl, hR⟩)
    · exact (hsheltered q k hqk).imp (fun hin => by omega) .inl

theorem Renders.injectContent (hrender : Renders root render) {id copy : Nat} (label : String)
    (hrow : Row a (low copy) (a.inside copy) copy) (hcopy : copy < a.blocks.size) (hid : id < a.blocks.size)
    (hout : id < low copy ∨ copy < id) (hR : ∀ k, low copy ≤ k → k < copy → ¬ R k) :
    Step low (fun q => q = id) R copy a (injectContent render id label a copy).2
        (injectionsOfCopy id (injectContent render id label a copy).1)
      ∧ (injectContent render id label a copy).1.1 = (a.childId? (a.block copy) "content").toList
      ∧ ∀ turn ∈ (injectContent render id label a copy).1.2, turn.Proper root := by
  rw [Arena.injectContent]
  split
  · next content hcontent =>
    obtain ⟨lowInside, htrees, hbounds⟩ := hrow.trees
    have hmem : content ∈ a.inside copy := mem_of_childId? hcontent
    obtain ⟨hlo, hlt⟩ := hbounds content hmem
    have hle := htrees.low_le hmem
    obtain ⟨hstep, hproper⟩ :=
      hrender a (lowInside content) content (htrees.row content hmem) (Nat.lt_trans hlt hcopy)
    refine ⟨?_, by rw [hcontent]; rfl, hproper⟩
    exact hstep.inject label hlo hle hlt hid hout (hR content (Nat.le_trans hlo hle) hlt)
  · next hnone => exact ⟨.none, by rw [hnone]; rfl, by simp⟩

/-- What a copy has put into `id`, and the turns inside its content. -/
structure Injects (a : Arena) (root : ScopeId) (copy : BlockId) (done : List BlockId × List Turn) : Prop where
  contents : done.1 = (a.childId? (a.block copy) "content").toList
  turns : ∀ turn ∈ done.2, turn.Proper root

/-- The contents of the copies are put into a block outside of their trees. -/
theorem Renders.injectContents (hrender : Renders root render) {id : Nat} (label : String) (htrees : Trees a low xs)
    (hxs : ∀ x : Nat, x ∈ xs → x < a.blocks.size) (hM : Outside a low (fun q => q = id) xs)
    (hR : ∀ x : Nat, x ∈ xs → ∀ k, low x ≤ k → k < x → ¬ R k) :
    Steps low (fun q => q = id) R xs a (mapThrough (Arena.injectContent render id label) a xs).2
        ((mapThrough (Arena.injectContent render id label) a xs).1.flatMap (injectionsOfCopy id))
      ∧ List.Forall₂ (Injects a root) xs (mapThrough (Arena.injectContent render id label) a xs).1 := by
  refine Steps.mapThrough htrees hxs hM fun b x hx hb => ?_
  have hrow := htrees.rowKept (hxs x hx) hx hb
  obtain ⟨hid, hout⟩ := hM id rfl
  obtain ⟨hstep, hcontent, hproper⟩ := hrender.injectContent label hrow (Nat.lt_of_lt_of_le (hxs x hx) hb.size)
    (Nat.lt_of_lt_of_le hid hb.size) (hout x hx) (hR x hx)
  rw [childId?_keeps (htrees.row x hx) (hxs x hx) hb] at hcontent
  exact ⟨hstep, hcontent, hproper⟩

theorem expandForEach_singleton (a : Arena) (root : ScopeId) (id : BlockId) :
    a.expandForEach root [id] = expandElements root a id := by
  rw [expandForEach, mapThrough_singleton]
  simp

/-- The trees that stand for a block are its own, or new. -/
theorem Replaces.trees_low {x : Nat} {made : List BlockId} (h : Replaces a b x made)
    (hrow : Row a (low x) (a.inside x) x) (hx : x < a.blocks.size) :
    ∃ lowMade, Trees b lowMade made ∧ ∀ y : Nat, y ∈ made →
      y < b.blocks.size ∧ ((y = x ∧ lowMade y = low x) ∨ a.blocks.size ≤ lowMade y) := by
  cases h with
  | itself hkeeps =>
    have htrees : Trees a low [x] := by
      refine ⟨fun y hy => ?_, List.pairwise_singleton _ _⟩
      rw [List.mem_singleton.mp hy]
      exact hrow
    have hlt : ∀ y : Nat, y ∈ [x] → y < a.blocks.size := by
      intro y hy
      rwa [List.mem_singleton.mp hy]
    refine ⟨low, htrees.keepsAll hlt hkeeps, fun y hy => ?_⟩
    rw [List.mem_singleton.mp hy]
    exact ⟨Nat.lt_of_lt_of_le hx hkeeps.size, .inl ⟨rfl, rfl⟩⟩
  | trees hadds =>
    obtain ⟨lowMade, htrees, hbounds⟩ := hadds.row.trees
    exact ⟨lowMade, htrees, fun y hy => ⟨(hbounds y hy).2, .inr (hbounds y hy).1⟩⟩

theorem mem_inside_removeChild {parent child q k : BlockId} (hk : k ∈ a.inside q) (hne : k ≠ child) :
    k ∈ (a.removeChild parent child).inside q := by
  rw [inside, removeChild, block_modify]
  split
  · exact List.mem_filter.mpr ⟨hk, by simpa using hne⟩
  · exact hk

theorem mem_flatMap_injectionsOfCopy {id : BlockId} {done : List (List BlockId × List Turn)} {p : Nat × Nat} :
    p ∈ done.flatMap (injectionsOfCopy id)
      ↔ p ∈ (done.flatMap (·.1)).map (id, ·) ∨ p ∈ injections (done.flatMap (·.2)) := by
  induction done with
  | nil => simp [injections]
  | cons first done ih =>
    rw [List.flatMap_cons, List.mem_append, ih, injectionsOfCopy, List.mem_append]
    simp only [List.flatMap_cons, List.map_append, List.mem_append, injections, List.flatMap_append]
    tauto

theorem flatMap_of_forall₂ {α β γ : Type} {f : α → List γ} {g : β → List γ} {xs : List α} {ys : List β}
    (h : List.Forall₂ (fun x y => g y = f x) xs ys) : ys.flatMap g = xs.flatMap f := by
  induction h with
  | nil => rfl
  | cons hxy _ ih => rw [List.flatMap_cons, List.flatMap_cons, hxy, ih]

theorem exists_of_mem_forall₂ {α β : Type} {Q : α → β → Prop} {xs : List α} {ys : List β}
    (h : List.Forall₂ Q xs ys) {y : β} (hy : y ∈ ys) : ∃ x ∈ xs, Q x y := by
  induction h with
  | nil => cases hy
  | cons hxy _ ih =>
    rcases List.mem_cons.mp hy with rfl | hy
    · exact ⟨_, List.mem_cons_self, hxy⟩
    · obtain ⟨x, hx, hQ⟩ := ih hy
      exact ⟨x, List.mem_cons_of_mem _ hx, hQ⟩

/-- A dynamic block is taken out of its parent, and what stands for it is gone through. -/
theorem Steps.turn {id x : Nat} {lowMade : Nat → Nat} {made : List BlockId} {placed : List (Nat × Nat)}
    (h : Steps lowMade (fun q => q = id) R made b c placed) (hab : Keeps (fun y => y ≠ id) a b)
    (hleft : ∀ k ∈ a.inside id, ¬ R k → k ∈ b.inside id)
    (hmade : ∀ y : Nat, y ∈ made → (y = x ∧ lowMade y = low x) ∨ a.blocks.size ≤ lowMade y) :
    Step low (fun q => q = id) R x a c placed := by
  constructor
  · refine (hab.mono fun z _ hz => hz.2).trans h.keeps fun z hzlt hz => ⟨fun y hy => ?_, hz.2⟩
    rcases hmade y hy with ⟨rfl, hsame⟩ | hnew <;> omega
  · rintro q rfl k hk hRk
    exact h.grows q rfl k (hleft k hk hRk) hRk
  · exact h.there
  · intro q k hmem
    rcases h.sheltered q k hmem with ⟨y, hy, hin⟩ | hnew | hshelter
    · rcases hmade y hy with ⟨rfl, hsame⟩ | hnew
      · exact .inl (by omega)
      · exact .inr (.inl (by omega))
    · exact .inr (.inl (Nat.le_trans hab.size hnew))
    · exact .inr (.inr hshelter)

/-- What stands for a dynamic block that is taken out of its parent: separate trees, outside of the parent. -/
theorem exists_trees_of_turn {id x : Nat} (root : ScopeId) (hrow : Row a (low x) (a.inside x) x) (hx : x < id)
    (hid : id < a.blocks.size) :
    let expanded := expandElements root (a.removeChild id x) x
    Keeps (fun y => y ≠ id) a expanded.2 ∧ (∀ k ∈ a.inside id, k ≠ x → k ∈ expanded.2.inside id)
      ∧ ∃ lowMade, Trees expanded.2 lowMade expanded.1 ∧ ∀ y : Nat, y ∈ expanded.1 →
        y < expanded.2.blocks.size ∧ ((y = x ∧ lowMade y = low x) ∨ a.blocks.size ≤ lowMade y) := by
  intro expanded
  have hlow := hrow.le
  have hleft : Keeps (fun y => y ≠ id) a (a.removeChild id x) := .modifyOther a _ fun h => h rfl
  have hsize : (a.removeChild id x).blocks.size = a.blocks.size := size_blocks_modify _ _ _
  have hrowLeft : Row (a.removeChild id x) (low x) ((a.removeChild id x).inside x) x := by
    rw [hleft.inside x (by omega) (Nat.ne_of_lt hx)]
    exact hrow.keeps (by omega) hleft fun y _ hy => by omega
  have hreplaced : Replaces (a.removeChild id x) expanded.2 x expanded.1 := replaces_expand .forEach root _ x
  refine ⟨hleft.trans hreplaced.keeps fun _ _ _ => trivial, fun k hk hne => ?_, ?_⟩
  · rw [hreplaced.keeps.inside id (by omega) trivial]
    exact mem_inside_removeChild hk hne
  · rw [← hsize]
    exact hreplaced.trees_low hrowLeft (by omega)

theorem Renders.takeTurn (hrender : Renders root render) {id x : Nat}
    (hrow : Row a (low x) (a.inside x) x) (hx : x < id) (hid : id < a.blocks.size)
    (hkind : (a.block x).kind = .dynamic) (hRx : R x)
    (hR : ∀ k, (low x ≤ k ∧ k < x) ∨ a.blocks.size ≤ k → ¬ R k) :
    Step low (fun q => q = id) R x a (takeTurn render root id a x).2
        (injections (takeTurn render root id a x).1)
      ∧ ∀ turn ∈ (takeTurn render root id a x).1, turn.Proper root := by
  rw [Arena.takeTurn]
  split
  · exact ⟨.none, by simp⟩
  · next hfresh =>
    rw [expandForEach_singleton]
    dsimp only
    obtain ⟨hbefore, hleft, lowMade, htrees, hmade⟩ := exists_trees_of_turn root hrow hx hid
    have hlow := hrow.le
    have hsize := hbefore.size
    -- the parent is outside of the trees that stand for the block, be they its own or new
    have hM : Outside (expandElements root (a.removeChild id x) x).2 lowMade (fun q => q = id)
        (expandElements root (a.removeChild id x) x).1 := by
      rintro q rfl
      refine ⟨by omega, fun y hy => ?_⟩
      rcases (hmade y hy).2 with ⟨rfl, hsame⟩ | hnew <;> omega
    obtain ⟨hloop, hresults⟩ := hrender.injectContents (R := R) (a.block x).typeLabel htrees
      (fun y hy => (hmade y hy).1) hM fun y hy k hlo hk => hR k <| by
        rcases (hmade y hy).2 with ⟨rfl, hsame⟩ | hnew <;> omega
    have hstep : Step low (fun q => q = id) R x a _ _ :=
      hloop.turn hbefore (fun k hk hRk => hleft k hk fun heq => hRk (heq ▸ hRx)) fun y hy => (hmade y hy).2
    constructor
    · refine hstep.subset ?_
      rintro ⟨q, k⟩ hmem
      rw [mem_flatMap_injectionsOfCopy]
      rw [injections, List.flatMap_cons, List.mem_append] at hmem
      exact hmem
    · intro turn hturn
      rcases List.mem_cons.mp hturn with rfl | hturn
      · exact ⟨hkind, by simpa using hfresh, rfl, flatMap_of_forall₂ (hresults.imp fun _ _ h => h.contents)⟩
      · obtain ⟨done, hdone, hturn⟩ := List.mem_flatMap.mp hturn
        obtain ⟨copy, -, hcopy⟩ := exists_of_mem_forall₂ hresults hdone
        exact hcopy.turns turn hturn

/-- A step in one tree leaves a block outside of it. -/
theorem Step.beside {id x lo : Nat} {placed : List (Nat × Nat)}
    (h : Step (fun _ => lo) (fun _ => False) (fun _ => False) x a b placed) (hlo : low x = lo)
    (hid : id < a.blocks.size) (hout : id < low x ∨ x < id) : Step low (fun q => q = id) R x a b placed := by
  subst hlo
  constructor
  · exact h.keeps.mono fun y _ hy => ⟨hy.1, fun h => h⟩
  · rintro q rfl k hk -
    rw [h.keeps.inside q hid ⟨hout, fun h => h⟩]
    exact hk
  · exact h.there
  · intro q k hmem
    rcases h.sheltered q k hmem with hin | hnew | hshelter
    · exact .inl hin
    · exact .inr (.inl hnew)
    · exact absurd hshelter.1 fun h => h

/-- Steps in the trees inside a block are one step in the tree of the block. -/
theorem Steps.within {lo id : Nat} {placed : List (Nat × Nat)} (h : Steps low (fun q => q = id) R xs a b placed)
    (hlo : lo ≤ id) (hbounds : ∀ x : Nat, x ∈ xs → lo ≤ low x ∧ x < id) :
    Step (fun _ => lo) (fun _ => False) (fun _ => False) id a b placed := by
  constructor
  · refine h.keeps.mono fun y _ hy => ⟨fun x hx => ?_, ?_⟩
    · have := hbounds x hx
      omega
    · rintro rfl
      omega
  · exact fun _ h => h.elim
  · exact h.there
  · intro q k hmem
    rcases h.sheltered q k hmem with ⟨x, hx, hin⟩ | hnew | ⟨rfl, -⟩
    · have := hbounds x hx
      exact .inl (by omega)
    · exact .inr (.inl hnew)
    · exact .inl ⟨hlo, Nat.le_refl _⟩

/-- Separate trees inside a block. -/
structure Inner (a : Arena) (lo id : Nat) (low : Nat → Nat) (xs : List BlockId) : Prop where
  trees : Trees a low xs
  bounds : ∀ x : Nat, x ∈ xs → lo ≤ low x ∧ x < id
  lt : id < a.blocks.size

namespace Inner

variable {lo id : Nat}

theorem mem_lt (h : Inner a lo id low xs) {x : Nat} (hx : x ∈ xs) : x < a.blocks.size :=
  Nat.lt_trans (h.bounds x hx).2 h.lt

theorem outside (h : Inner a lo id low xs) : Outside a low (fun q => q = id) xs := by
  rintro q rfl
  exact ⟨h.lt, fun x hx => .inr (h.bounds x hx).2⟩

theorem sublist (h : Inner a lo id low xs) {some : List BlockId} (hsub : some.Sublist xs) :
    Inner a lo id low some :=
  ⟨h.trees.sublist hsub, fun x hx => h.bounds x (hsub.subset hx), h.lt⟩

/-- The blocks inside a block, those with a property last. -/
theorem exists_partition (hrow : Row a lo (a.inside id) id) (hid : id < a.blocks.size) (p : BlockId → Bool) :
    ∃ low, Inner a lo id low ((a.inside id).filter (not ∘ p) ++ (a.inside id).filter p) := by
  obtain ⟨low, htrees, hbounds⟩ := hrow.trees
  have hperm := perm_filter_append p (a.inside id)
  exact ⟨low, htrees.perm hperm, fun x hx => hbounds x (hperm.symm.subset hx), hid⟩

end Inner

/-- The plain blocks inside a block are gone through. -/
theorem Renders.eachPlain (hrender : Renders root render) {lo id : Nat} (h : Inner a lo id low xs) :
    Steps low (fun q => q = id) R xs a (mapThrough render a xs).2 ((mapThrough render a xs).1.flatMap injections)
      ∧ List.Forall₂ (fun _ turns => ∀ turn ∈ turns, turn.Proper root) xs (mapThrough render a xs).1 := by
  refine Steps.mapThrough h.trees (fun x hx => h.mem_lt hx) h.outside fun b x hx hb => ?_
  obtain ⟨hstep, hproper⟩ := hrender b (low x) x (h.trees.rowKept (h.mem_lt hx) hx hb)
    (Nat.lt_of_lt_of_le (h.mem_lt hx) hb.size)
  exact ⟨hstep.beside rfl (Nat.lt_of_lt_of_le h.lt hb.size) (.inr (h.bounds x hx).2), hproper⟩

/-- The dynamic blocks inside a block have their turns. -/
theorem Renders.eachDynamic (hrender : Renders root render) {lo id : Nat} (h : Inner a lo id low xs)
    (hkind : ∀ x ∈ xs, (a.block x).kind = .dynamic) :
    Steps low (fun q => q = id) (fun k => k ∈ xs) xs a (mapThrough (Arena.takeTurn render root id) a xs).2
        ((mapThrough (Arena.takeTurn render root id) a xs).1.flatMap injections)
      ∧ List.Forall₂ (fun _ turns => ∀ turn ∈ turns, turn.Proper root) xs
        (mapThrough (Arena.takeTurn render root id) a xs).1 := by
  refine Steps.mapThrough h.trees (fun x hx => h.mem_lt hx) h.outside fun b x hx hb => ?_
  have hkindb : (b.block x).kind = .dynamic := by
    rw [hb.kind x (h.mem_lt hx) ⟨h.trees.low_le hx, Nat.le_refl _⟩, hkind x hx]
  refine hrender.takeTurn (h.trees.rowKept (h.mem_lt hx) hx hb) (h.bounds x hx).2
    (Nat.lt_of_lt_of_le h.lt hb.size) hkindb hx ?_
  -- none of the dynamic blocks is inside another one, or new
  rintro k (hk | hk) hmem
  · have := h.trees.apart_of_ne hmem hx (Nat.ne_of_lt hk.2)
    have := h.trees.low_le hmem
    omega
  · exact absurd (Nat.le_trans hb.size hk) (Nat.not_le.mpr (h.mem_lt hmem))

theorem forall_mem_flatten {α β : Type} {Q : β → Prop} {xs : List α} {ys : List (List β)}
    (h : List.Forall₂ (fun _ y => ∀ z ∈ y, Q z) xs ys) : ∀ z ∈ ys.flatten, Q z := by
  intro z hz
  obtain ⟨y, hy, hz⟩ := List.mem_flatten.mp hz
  obtain ⟨-, -, hall⟩ := exists_of_mem_forall₂ h hy
  exact hall z hz

/-- First the trees of the plain children are gone through, then those of the dynamic ones. -/
theorem renders_turnsUpTo (root : ScopeId) (depth : Nat) : Renders root (turnsUpTo root depth) := by
  induction depth with
  | zero =>
    intro a lo id hrow hid
    exact ⟨.none, by simp [turnsUpTo]⟩
  | succ depth ih =>
    intro a lo id hrow hid
    rw [turnsUpTo, List.partition_eq_filter_filter]
    dsimp only
    obtain ⟨low, hall⟩ := Inner.exists_partition hrow hid fun child => (a.block child).kind == .dynamic
    generalize hplain : (a.block id).children.filter (not ∘ _) = plain
    generalize hdynamics : (a.block id).children.filter _ = dynamics
    rw [show (a.inside id).filter (not ∘ _) = plain from hplain,
      show (a.inside id).filter _ = dynamics from hdynamics] at hall
    have hleft := hall.sublist (List.sublist_append_left plain dynamics)
    have hright := hall.sublist (List.sublist_append_right plain dynamics)
    have hapart : ∀ x y : Nat, x ∈ plain → y ∈ dynamics → x < low y ∨ y < low x := fun x y hx hy =>
      (List.pairwise_append.mp hall.trees.apart).2.2 x hx y hy
    have hkind : ∀ x ∈ dynamics, (a.block x).kind = .dynamic := by
      intro x hx
      rw [← hdynamics] at hx
      simpa using (List.mem_filter.mp hx).2
    obtain ⟨hinner, hinnerTurns⟩ := ih.eachPlain (R := fun k => k ∈ dynamics) hleft
    -- the dynamic children are still what they were when their turns come
    have hkept := hinner.keepsTree hright.outside hapart fun x hx => hleft.trees.low_le hx
    have hlater : Inner (mapThrough (turnsUpTo root depth) a plain).2 lo id low dynamics :=
      ⟨hright.trees.keeps (fun x hx => hright.mem_lt hx) hkept fun x hx z hlo hz => ⟨x, hx, hlo, hz⟩,
        hright.bounds, Nat.lt_of_lt_of_le hid hinner.keeps.size⟩
    obtain ⟨hown, hownTurns⟩ := ih.eachDynamic hlater fun x hx => by
      rw [hkept.kind x (hright.mem_lt hx) ⟨x, hx, hright.trees.low_le hx, Nat.le_refl _⟩, hkind x hx]
    have hboth := hinner.append hown hall.outside hapart fun y hy => hright.mem_lt hy
    constructor
    · refine (hboth.within hrow.le hall.bounds).subset fun p hp => ?_
      rw [injections, List.flatMap_append, List.flatten_eq_flatMap, List.flatten_eq_flatMap, List.flatMap_assoc,
        List.flatMap_assoc] at hp
      exact hp
    · intro turn hturn
      rcases List.mem_append.mp hturn with hturn | hturn
      · exact forall_mem_flatten hinnerTurns turn hturn
      · exact forall_mem_flatten hownTurns turn hturn

end Arena

end InfraConfig
