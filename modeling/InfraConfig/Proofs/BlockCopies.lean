import Mathlib.Data.List.Forall2
import InfraConfig.Proofs.Forests
import InfraConfig.Proofs.LayeredExpansions

/-!
# Copies of blocks

A copy says what its block says, down to the last block inside. It is made of new blocks in one new scope, and
nothing that was there before changes by it, except for the number of instances of the block. What is made one after
another stands in different scopes.
-/

namespace InfraConfig

/-- A block, but for the number of its instances. -/
def Block.uncounted (b : Block) : Block :=
  { b with clones := 0 }

/-- What is written in a block itself. -/
def Block.written (b : Block) : BlockKind × List String × List Attribute × SourceRange :=
  (b.kind, b.labels, b.attributes, b.range)

namespace Block

variable {b d : Block}

theorem kind_of_written (h : b.written = d.written) : b.kind = d.kind := congrArg (·.1) h

theorem labels_of_written (h : b.written = d.written) : b.labels = d.labels := congrArg (·.2.1) h

theorem attributes_of_written (h : b.written = d.written) : b.attributes = d.attributes := congrArg (·.2.2.1) h

theorem range_of_written (h : b.written = d.written) : b.range = d.range := congrArg (·.2.2.2) h

end Block

namespace Arena

variable {T a b c : Arena} {root above ρ : ScopeId} {id x y made : BlockId} {ids xs ys : List BlockId}
  {key : InstanceKey} {es : Entries Value} {n : Nat}

theorem forall₂_imp_of_mem {α β : Type} {Q R : α → β → Prop} {xs : List α} {ys : List β} (h : List.Forall₂ Q xs ys)
    (himp : ∀ x ∈ xs, ∀ y ∈ ys, Q x y → R x y) : List.Forall₂ R xs ys := by
  obtain ⟨hlength, hall⟩ := List.forall₂_iff_zip.mp h
  refine List.forall₂_iff_zip.mpr ⟨hlength, fun hmem => ?_⟩
  obtain ⟨hx, hy⟩ := List.of_mem_zip hmem
  exact himp _ hx _ hy (hall hmem)

/-! ## What is kept -/

/-- Blocks are kept, but for the numbers of their instances. -/
structure KeepsBlocks (a b : Arena) : Prop where
  size : a.blocks.size ≤ b.blocks.size
  block : ∀ x, x < a.blocks.size → (b.block x).uncounted = (a.block x).uncounted

namespace KeepsBlocks

theorem refl (a : Arena) : KeepsBlocks a a := ⟨Nat.le_refl _, fun _ _ => rfl⟩

theorem trans (h : KeepsBlocks a b) (k : KeepsBlocks b c) : KeepsBlocks a c := by
  refine ⟨Nat.le_trans h.size k.size, fun x hx => ?_⟩
  rw [k.block x (Nat.lt_of_lt_of_le hx h.size), h.block x hx]

theorem ofExtends (h : Extends a b) : KeepsBlocks a b :=
  ⟨h.size, fun x hx => congrArg Block.uncounted (h.kept x hx)⟩

theorem ofBlocks (h : b.blocks = a.blocks) : KeepsBlocks a b := by
  refine ⟨Nat.le_of_eq (congrArg Array.size h).symm, fun x _ => ?_⟩
  rw [Arena.block, Arena.block, h]

theorem count (a : Arena) (id : BlockId) : KeepsBlocks a (a.modify id fun b => { b with clones := b.clones + 1 }) :=
  ⟨by simp, fun x _ => a.modify_same Block.uncounted id (by intro _; rfl) x⟩

theorem part_eq {β : Type} (part : Block → β) (hpart : ∀ b, part b.uncounted = part b) (h : KeepsBlocks a b)
    (hx : x < a.blocks.size) : part (b.block x) = part (a.block x) := by
  rw [← hpart (b.block x), h.block x hx, hpart]

theorem written (h : KeepsBlocks a b) (hx : x < a.blocks.size) : (b.block x).written = (a.block x).written :=
  h.part_eq Block.written (by intro _; rfl) hx

theorem inside (h : KeepsBlocks a b) (hx : x < a.blocks.size) : b.inside x = a.inside x :=
  h.part_eq Block.children (by intro _; rfl) hx

theorem scope (h : KeepsBlocks a b) (hx : x < a.blocks.size) : (b.block x).scope = (a.block x).scope :=
  h.part_eq Block.scope (by intro _; rfl) hx

theorem keeps (h : KeepsBlocks a b) : Keeps (fun _ => True) a b :=
  ⟨h.size, fun _ hx _ => h.inside hx, fun _ hx _ => h.part_eq Block.kind (by intro _; rfl) hx⟩

theorem below_iff (h : KeepsBlocks a b) (hids : ∀ x, a.Below ids x → x < a.blocks.size) :
    b.Below ids x ↔ a.Below ids x := by
  constructor
  · intro hx
    induction hx with
    | listed hmem => exact .listed hmem
    | inside _ hc ih =>
      rw [h.inside (hids _ ih)] at hc
      exact ih.inside hc
  · intro hx
    induction hx with
    | listed hmem => exact .listed hmem
    | @inside z c hz hc ih => exact ih.inside ((h.inside (hids z hz)).symm ▸ hc)

end KeepsBlocks

/-- Scopes are kept as well, but for the bindings of one. -/
structure Retains (root : ScopeId) (a b : Arena) : Prop extends KeepsBlocks a b where
  scopes : a.scopes.size ≤ b.scopes.size
  parent : ∀ σ, σ < a.scopes.size → b.scopes.parent? σ = a.scopes.parent? σ
  bindings : ∀ σ, σ < a.scopes.size → σ ≠ root → b.scopes.bindings σ = a.scopes.bindings σ

namespace Retains

theorem refl (root : ScopeId) (a : Arena) : Retains root a a :=
  ⟨.refl a, Nat.le_refl _, fun _ _ => rfl, fun _ _ _ => rfl⟩

theorem trans (h : Retains root a b) (k : Retains root b c) : Retains root a c := by
  refine ⟨h.toKeepsBlocks.trans k.toKeepsBlocks, Nat.le_trans h.scopes k.scopes, fun σ hσ => ?_, fun σ hσ hne => ?_⟩
  · rw [k.parent σ (Nat.lt_of_lt_of_le hσ h.scopes), h.parent σ hσ]
  · rw [k.bindings σ (Nat.lt_of_lt_of_le hσ h.scopes) hne, h.bindings σ hσ hne]

/-- Only bindings of the one scope are written. -/
theorem bind (root : ScopeId) (a : Arena) (v : Value) (path : ValuePath) : Retains root a (a.bind root v path) := by
  refine ⟨.ofBlocks rfl, ?_, fun σ _ => ?_, fun σ _ hne => ?_⟩
  · rw [scopes_bind, Scopes.size_set]
  · rw [scopes_bind, Scopes.parent?_set]
  · rw [scopes_bind, Scopes.bindings_set_of_ne _ hne]

theorem bindAt (root : ScopeId) (a : Arena) (id : BlockId) (v : Value) : Retains root a (a.bindAt root id v) := by
  rw [Arena.bindAt]
  split
  · exact .bind root a _ _
  · exact .refl root a

theorem copyBinding (root : ScopeId) (a : Arena) (source target : BlockId) :
    Retains root a (a.copyBinding root source target) := by
  rw [Arena.copyBinding]
  split
  · split
    · exact .bind root a _ _
    · exact .refl root a
  · exact .refl root a

theorem noting (root : ScopeId) (a : Arena) (b : Block) (attrs : List Attribute) :
    Retains root a (a.noting b attrs) :=
  ⟨.ofBlocks rfl, Nat.le_refl _, fun _ _ => rfl, fun _ _ _ => rfl⟩

theorem ofFills {σ : ScopeId} (h : Fills a b σ es) : Retains σ a b :=
  ⟨.ofBlocks h.blocks, Nat.le_of_eq h.size.symm, fun _ hτ => h.changes.parent?_eq hτ, fun τ _ hne => h.others τ hne⟩

/-- Bindings of a scope that has not been there do not matter. -/
theorem fills (h : Retains root a b) {σ : ScopeId} (hσ : a.scopes.size ≤ σ) (k : Fills b c σ es) :
    Retains root a c := by
  have hbc : Retains σ b c := .ofFills k
  refine ⟨h.toKeepsBlocks.trans hbc.toKeepsBlocks, Nat.le_trans h.scopes hbc.scopes, fun τ hτ => ?_, fun τ hτ hne => ?_⟩
  · rw [hbc.parent τ (Nat.lt_of_lt_of_le hτ h.scopes), h.parent τ hτ]
  · rw [k.others τ (Nat.ne_of_lt (Nat.lt_of_lt_of_le hτ hσ)), h.bindings τ hτ hne]

end Retains

/-! ## Blocks that say the same -/

/-- A block says what another one says in an arena, and so does all that is inside them, in the same order. -/
inductive Mirrors (a b : Arena) : BlockId → BlockId → Prop where
  | intro {x y : BlockId} (lt : y < b.blocks.size) (written : (b.block y).written = (a.block x).written)
      (length : (a.inside x).length = (b.inside y).length)
      (inside : ∀ {p q : BlockId}, (p, q) ∈ (a.inside x).zip (b.inside y) → Mirrors a b p q) : Mirrors a b x y

namespace Mirrors

theorem of_forall₂ (lt : y < b.blocks.size) (written : (b.block y).written = (a.block x).written)
    (h : List.Forall₂ (Mirrors a b) (a.inside x) (b.inside y)) : Mirrors a b x y := by
  obtain ⟨hlength, hinside⟩ := List.forall₂_iff_zip.mp h
  exact .intro lt written hlength hinside

theorem lt (h : Mirrors a b x y) : y < b.blocks.size := by
  cases h with
  | intro lt _ _ _ => exact lt

theorem written (h : Mirrors a b x y) : (b.block y).written = (a.block x).written := by
  cases h with
  | intro _ written _ _ => exact written

theorem inside (h : Mirrors a b x y) : List.Forall₂ (Mirrors a b) (a.inside x) (b.inside y) := by
  cases h with
  | intro _ _ length inside => exact List.forall₂_iff_zip.mpr ⟨length, inside⟩

theorem later (h : Mirrors a b x y) (hbc : KeepsBlocks b c) : Mirrors a c x y := by
  induction h with
  | @intro x y lt written length _ ih =>
    have hsame := hbc.inside lt
    refine .intro (Nat.lt_of_lt_of_le lt hbc.size) ((hbc.written lt).trans written) ?_ fun hpq => ih ?_
    · rw [hsame, length]
    · rwa [hsame] at hpq

/-- What is kept says the same as before. -/
theorem self (hx : Shallow a n [x]) (hab : KeepsBlocks a b) : Mirrors a b x x := by
  induction n generalizing x with
  | zero => exact hx.not_zero.elim
  | succ n ih =>
    obtain ⟨hlt, hinner⟩ := hx x List.mem_cons_self
    refine .of_forall₂ (Nat.lt_of_lt_of_le hlt hab.size) (hab.written hlt) ?_
    rw [hab.inside hlt, List.forall₂_same]
    exact fun z hz => ih (hinner.of_mem hz)

end Mirrors

theorem Mirrors.kind (h : Mirrors a b x y) : (b.block y).kind = (a.block x).kind :=
  Block.kind_of_written h.written

theorem Mirrors.labels (h : Mirrors a b x y) : (b.block y).labels = (a.block x).labels :=
  Block.labels_of_written h.written

theorem Mirrors.attributes (h : Mirrors a b x y) : (b.block y).attributes = (a.block x).attributes :=
  Block.attributes_of_written h.written

theorem Mirrors.range (h : Mirrors a b x y) : (b.block y).range = (a.block x).range :=
  Block.range_of_written h.written

/-- Trees are copied one after another. -/
theorem mirrors_mapThrough {f : Arena → BlockId → BlockId × Arena} {cs : List BlockId}
    (hextends : ∀ a x, Extends a (f a x).2)
    (hf : ∀ a c x, Mirrors T a c x → Shallow a n [x] → Mirrors T (f a x).2 c (f a x).1)
    (h : List.Forall₂ (Mirrors T a) cs xs) (hn : Shallow a n xs) :
    List.Forall₂ (Mirrors T (mapThrough f a xs).2) cs (mapThrough f a xs).1 := by
  induction xs generalizing a cs with
  | nil =>
    cases h
    exact .nil
  | cons x xs ih =>
    cases h with
    | cons hx hxs =>
      have hstep : KeepsBlocks a (f a x).2 := .ofExtends (hextends a x)
      have hrest : KeepsBlocks (f a x).2 (mapThrough f (f a x).2 xs).2 :=
        .ofExtends (extends_mapThrough hextends _ xs)
      have hlater := (hn.subset (List.subset_cons_self x xs)).keeps hstep.keeps
      rw [mapThrough]
      exact .cons ((hf a _ x hx (hn.of_mem List.mem_cons_self)).later hrest)
        (ih (hxs.imp fun _ _ hy => hy.later hstep) hlater)

/-- A copy says what its block says. -/
theorem mirrors_copyUpTo (scope : ScopeId) {z : BlockId} (h : Mirrors T a z x) (hn : Shallow a n [x]) :
    Mirrors T (copyUpTo scope n a x).2 z (copyUpTo scope n a x).1 := by
  induction n generalizing a x z with
  | zero => exact hn.not_zero.elim
  | succ n ih =>
    obtain ⟨-, hinner⟩ := hn x List.mem_cons_self
    have hchildren := mirrors_mapThrough (extends_copyUpTo scope n) (fun a c x => ih) h.inside hinner
    rw [copyUpTo]
    dsimp only
    have hpush : ∀ d, KeepsBlocks _ (push (mapThrough (copyUpTo scope n) a (a.block x).children).2 d).2 :=
      fun d => .ofExtends (.push _ d)
    refine .of_forall₂ (by simp) ?_ ?_
    · rw [push_fst, block_push, if_pos rfl]
      exact h.written
    · have hinside : ∀ d, (push (mapThrough (copyUpTo scope n) a (a.block x).children).2 d).2.inside
          (mapThrough (copyUpTo scope n) a (a.block x).children).2.blocks.size = d.children := by
        intro d
        rw [inside, block_push, if_pos rfl]
      rw [push_fst, hinside]
      exact hchildren.imp fun _ _ hc => hc.later (hpush _)

/-! ## New trees in new scopes -/

/-- Of the blocks that were added none is an instance. -/
def AddsPlain (a b : Arena) : Prop :=
  ∀ x, a.blocks.size ≤ x → x < b.blocks.size → (b.block x).expanded = false

namespace AddsPlain

theorem refl (a : Arena) : AddsPlain a a := fun _ hx hlt => absurd hlt (Nat.not_lt.mpr hx)

theorem trans (h : AddsPlain a b) (k : AddsPlain b c) (hbc : Extends b c) : AddsPlain a c := by
  intro x hx hlt
  rcases Nat.lt_or_ge x b.blocks.size with hold | hnew
  · rw [hbc.kept x hold]
    exact h x hx hold
  · exact k x hnew hlt

theorem push (a : Arena) {d : Block} (hd : d.expanded = false) : AddsPlain a (a.push d).2 := by
  intro x hx hlt
  rw [size_blocks_push] at hlt
  rw [block_push, if_pos (Nat.le_antisymm (Nat.le_of_lt_succ hlt) hx), hd]

theorem mapThrough {f : Arena → BlockId → BlockId × Arena} (hextends : ∀ a x, Extends a (f a x).2)
    (hf : ∀ a x, AddsPlain a (f a x).2) (a : Arena) (xs : List BlockId) :
    AddsPlain a (mapThrough f a xs).2 :=
  mapThrough_induction (.refl a) fun b hb x _ => hb.trans (hf b x) (hextends b x)

theorem copyUpTo (scope : ScopeId) (n : Nat) (a : Arena) (x : BlockId) :
    AddsPlain a (copyUpTo scope n a x).2 := by
  induction n generalizing a x with
  | zero => exact .push a rfl
  | succ n ih =>
    rw [Arena.copyUpTo]
    exact (mapThrough (extends_copyUpTo scope n) ih a _).trans (.push _ rfl) (.push _ _)

end AddsPlain

/-- Blocks that were made one after another, each in a scope that was made with it. -/
structure Fresh (a b : Arena) (made : List BlockId) : Prop where
  block : ∀ x ∈ made, a.blocks.size ≤ x ∧ x < b.blocks.size
  scope : ∀ x ∈ made, a.scopes.size ≤ (b.block x).scope ∧ (b.block x).scope < b.scopes.size
  inOrder : made.Pairwise fun x y => x < y ∧ (b.block x).scope < (b.block y).scope

namespace Fresh

theorem nil (a b : Arena) : Fresh a b [] :=
  ⟨fun _ h => absurd h List.not_mem_nil, fun _ h => absurd h List.not_mem_nil, .nil⟩

theorem later (h : Fresh a b xs) (hbc : Retains root b c) : Fresh a c xs := by
  refine ⟨fun x hx => ⟨(h.block x hx).1, Nat.lt_of_lt_of_le (h.block x hx).2 hbc.size⟩, fun x hx => ?_,
    h.inOrder.imp_of_mem fun hx hy hxy => ?_⟩
  · rw [hbc.scope (h.block x hx).2]
    exact ⟨(h.scope x hx).1, Nat.lt_of_lt_of_le (h.scope x hx).2 hbc.scopes⟩
  · rwa [hbc.scope (h.block _ hx).2, hbc.scope (h.block _ hy).2]

theorem earlier (h : Fresh b c xs) (hab : Retains root a b) : Fresh a c xs :=
  ⟨fun x hx => ⟨Nat.le_trans hab.size (h.block x hx).1, (h.block x hx).2⟩,
    fun x hx => ⟨Nat.le_trans hab.scopes (h.scope x hx).1, (h.scope x hx).2⟩, h.inOrder⟩

theorem append (h : Fresh a b xs) (k : Fresh b c ys) (hab : Retains root a b) (hbc : Retains root b c) :
    Fresh a c (xs ++ ys) := by
  have hfirst := h.later hbc
  have hlast := k.earlier hab
  refine ⟨fun x hx => (List.mem_append.mp hx).elim (hfirst.block x) (hlast.block x),
    fun x hx => (List.mem_append.mp hx).elim (hfirst.scope x) (hlast.scope x),
    List.pairwise_append.mpr ⟨hfirst.inOrder, hlast.inOrder, fun x hx y hy => ⟨?_, ?_⟩⟩⟩
  · exact Nat.lt_of_lt_of_le (h.block x hx).2 (k.block y hy).1
  · rw [hbc.scope (h.block x hx).2]
    exact Nat.lt_of_lt_of_le (h.scope x hx).2 (k.scope y hy).1

end Fresh

/-! ## Instances -/

/-- An instance of a block under a key. It stands with all that is inside it in one scope below `above`, which has the
bindings `es`. -/
structure Copied (T b : Arena) (id : BlockId) (above : ScopeId) (key : InstanceKey) (es : Entries Value)
    (made : BlockId) : Prop where
  lt : made < b.blocks.size
  kind : (b.block made).kind = (T.block id).kind
  labels : (b.block made).labels = extendLabel (T.block id).labels key.text
  attributes : (b.block made).attributes = (T.block id).attributes
  range : (b.block made).range = (T.block id).range
  key : (b.block made).key = some key
  expanded : (b.block made).expanded = true
  inside : List.Forall₂ (Mirrors T b) (T.inside id) (b.inside made)
  /-- Nothing inside is an instance. -/
  plain : ∀ x, b.Below (b.inside made) x → (b.block x).expanded = false
  shared : ∀ x, b.Below [made] x → x < b.blocks.size ∧ (b.block x).scope = (b.block made).scope
  parent : b.scopes.parent? (b.block made).scope = some above
  bindings : b.scopes.bindings (b.block made).scope = es

theorem Below.single (h : a.Below (a.inside x) y) : a.Below [x] y :=
  h.within (.listed List.mem_cons_self)

/-- An instance in a later arena, in which its scope may have other bindings. -/
theorem Copied.rebound {es' : Entries Value} (h : Copied T b id above key es made) (hbc : Retains root b c)
    (hbindings : c.scopes.bindings (b.block made).scope = es') : Copied T c id above key es' made := by
  have hscope : (b.block made).scope < b.scopes.size := Scopes.lt_size_of_parent? h.parent
  have hbelow : ∀ x, c.Below [made] x → b.Below [made] x :=
    fun x hx => (hbc.below_iff fun y hy => (h.shared y hy).1).mp hx
  constructor
  · exact Nat.lt_of_lt_of_le h.lt hbc.size
  · exact (hbc.part_eq Block.kind (by intro _; rfl) h.lt).trans h.kind
  · exact (hbc.part_eq Block.labels (by intro _; rfl) h.lt).trans h.labels
  · exact (hbc.part_eq Block.attributes (by intro _; rfl) h.lt).trans h.attributes
  · exact (hbc.part_eq Block.range (by intro _; rfl) h.lt).trans h.range
  · exact (hbc.part_eq Block.key (by intro _; rfl) h.lt).trans h.key
  · exact (hbc.part_eq Block.expanded (by intro _; rfl) h.lt).trans h.expanded
  · rw [hbc.inside h.lt]
    exact h.inside.imp fun _ _ hc => hc.later hbc.toKeepsBlocks
  · intro x hx
    rw [hbc.inside h.lt] at hx
    have hold := (hbc.below_iff fun y hy => (h.shared y hy.single).1).mp hx
    exact (hbc.part_eq Block.expanded (by intro _; rfl) (h.shared x hold.single).1).trans (h.plain x hold)
  · intro x hx
    obtain ⟨hlt, hsame⟩ := h.shared x (hbelow x hx)
    rw [hbc.scope hlt, hbc.scope h.lt, hsame]
    exact ⟨Nat.lt_of_lt_of_le hlt hbc.size, rfl⟩
  · rw [hbc.scope h.lt, hbc.parent _ hscope, h.parent]
  · rw [hbc.scope h.lt, hbindings]

theorem Copied.later (h : Copied T b id above key es made) (hbc : Retains root b c)
    (hne : (b.block made).scope ≠ root) : Copied T c id above key es made :=
  h.rebound hbc ((hbc.bindings _ (Scopes.lt_size_of_parent? h.parent) hne).trans h.bindings)

/-- An instance is made of the block `id`, which says what `z` says in `T`. -/
structure Instantiates (root : ScopeId) (T a b : Arena) (z id : BlockId) (key : InstanceKey) (es : Entries Value)
    (made : BlockId) : Prop where
  retains : Retains root a b
  fresh : Fresh a b [made]
  copied : Copied T b z (a.block id).scope key es made

namespace Instantiates

variable {z : BlockId}

/-- The one scope in which values are bound is older than the instance. -/
theorem later (h : Instantiates root T a b z id key es made) (hbc : Retains root b c) (hroot : root < a.scopes.size) :
    Instantiates root T a c z id key es made := by
  have hnew := (h.fresh.scope made List.mem_cons_self).1
  exact ⟨h.retains.trans hbc, h.fresh.later hbc, h.copied.later hbc (Nat.ne_of_gt (Nat.lt_of_lt_of_le hroot hnew))⟩

/-- Values are bound in the scope of the instance. -/
theorem fills {es' : Entries Value} (h : Instantiates root T a b z id key es made)
    (k : Fills b c (b.block made).scope es') : Instantiates root T a c z id key es' made := by
  have hbc : Retains (b.block made).scope b c := .ofFills k
  exact ⟨h.retains.fills (h.fresh.scope made List.mem_cons_self).1 k, h.fresh.later hbc, h.copied.rebound hbc k.own⟩

end Instantiates

/-! ## Instances made of blocks -/

/-- An instance is added after copies of what is inside its block. -/
theorem exists_clone_eq (hid : id < a.blocks.size) (index : Value) : ∃ n, a.blocks.size = n + 1 ∧
    let inner := mapThrough (copyUpTo a.scopes.size n) (a.newChild (a.block id).scope).2 (a.inside id)
    let made := (a.block id).asInstance (instanceKey (a.block id) index) a.scopes.size inner.1
    (a.clone id index).1 = inner.2.blocks.size
      ∧ (a.clone id index).2.blocks = ((inner.2.push made).2.countInstance id).blocks := by
  obtain ⟨n, hn⟩ := Nat.exists_eq_add_one_of_ne_zero (Nat.ne_of_gt (Nat.zero_lt_of_lt hid))
  refine ⟨n, hn, ?_⟩
  intro inner made
  have hcopied : a.copyBelow id = inner.2.push { a.block id with
      children := inner.1, scope := a.scopes.size, expanded := false, clones := 0, key := none } := by
    rw [copyBelow, copyTree, blocks_newChild, hn, copyUpTo]
    rfl
  have hmarked : (a.copyBelow id).2.markInstance (a.copyBelow id).1 (instanceKey (a.block id) index)
      = (inner.2.push made).2 := by
    rw [hcopied, markInstance, push_fst, modify_push]
    rfl
  rw [blocks_clone, hmarked]
  exact ⟨congrArg Prod.fst hcopied, rfl⟩

/-- The tree of a row takes up the interval of the row. -/
theorem Row.of_below {lo hi : Nat} (h : Row a lo ids hi) (hx : a.Below ids x) : lo ≤ x ∧ x < hi := by
  obtain ⟨v, hwalk, -, hmem⟩ := Walk.ofRow h
  exact (hmem x).mp (hwalk.mem_iff.mpr hx)

theorem Row.inside_of_below {lo hi : Nat} (h : Row a lo [made] hi) (hx : a.Below (a.inside made) x) :
    lo ≤ x ∧ x < made := by
  cases h with
  | cons first _ => exact first.of_below hx

/-- The scope of an instance is the only new one. -/
theorem parent?_clone_of_lt (a : Arena) (id : BlockId) (index : Value) {σ : ScopeId} (hσ : σ < a.scopes.size) :
    (a.clone id index).2.scopes.parent? σ = a.scopes.parent? σ := by
  have hfirst : (a.newChild (a.block id).scope).2.scopes.parent? σ = a.scopes.parent? σ := by
    rw [scopes_newChild, Scopes.parent?_push, if_neg (Nat.ne_of_lt hσ)]
  rw [scopes_clone]
  split
  · rw [Scopes.parent?_set, hfirst]
  · exact hfirst

/-- A new block `made` around new copies of what is inside `id`, which says what `z` says in `T`. -/
structure Assembles (T a b : Arena) (z id : BlockId) (key : InstanceKey) (made : BlockId) : Prop where
  keeps : KeepsBlocks a b
  size : a.blocks.size ≤ made
  lt : made < b.blocks.size
  block : b.block made =
    { a.block id with
      labels := extendLabel (a.block id).labels key.text
      children := b.inside made, scope := a.scopes.size, expanded := true, clones := 0, key := some key }
  inside : List.Forall₂ (Mirrors T b) (T.inside z) (b.inside made)
  plain : ∀ x, a.blocks.size ≤ x → x < made → (b.block x).expanded = false

theorem assembles_clone {z : BlockId} (hz : Mirrors T a z id) (hn : Shallow a a.blocks.size [id]) (index : Value) :
    Assembles T a (a.clone id index).2 z id (instanceKey (a.block id) index) (a.clone id index).1 := by
  obtain ⟨n, hsize, hmade, hblocks⟩ := exists_clone_eq hz.lt index
  let first := (a.newChild (a.block id).scope).2
  let inner := mapThrough (copyUpTo a.scopes.size n) first (a.inside id)
  let made := inner.2.blocks.size
  let copy := (a.block id).asInstance (instanceKey (a.block id) index) a.scopes.size inner.1
  let pushed := (inner.2.push copy).2
  let counted := pushed.countInstance id
  have hcounted : (a.clone id index).2.blocks = counted.blocks := hblocks
  have hextends := extends_copyUpTo a.scopes.size n
  have hfirst : KeepsBlocks a first := .ofBlocks rfl
  have hinner : KeepsBlocks a inner.2 := hfirst.trans (.ofExtends (extends_mapThrough hextends first _))
  have hpush : KeepsBlocks inner.2 pushed := .ofExtends (.push inner.2 copy)
  have hend : KeepsBlocks inner.2 (a.clone id index).2 := (hpush.trans (.count pushed id)).trans (.ofBlocks hcounted)
  have hlt : id < made := Nat.lt_of_lt_of_le hz.lt hinner.size
  have hblock : (a.clone id index).2.block made = copy := by
    have hsame : (a.clone id index).2.block made = counted.block made := by rw [block, block, hcounted]
    rw [hsame, block_countInstance_of_ne pushed (Nat.ne_of_gt hlt), block_push, if_pos rfl]
  have hinside : (a.clone id index).2.inside made = inner.1 := congrArg Block.children hblock
  rw [hmade]
  refine ⟨hinner.trans hend, hinner.size, ?_, ?_, ?_, fun x hge hx => ?_⟩
  · rw [hcounted, size_blocks_countInstance, size_blocks_push]
    exact Nat.lt_succ_self made
  · rw [hblock, hinside]
    rfl
  · have hheight : Shallow first n (a.inside id) := by
      rw [hsize] at hn
      exact (hn id List.mem_cons_self).2.keeps hfirst.keeps
    have hcopies := mirrors_mapThrough hextends (fun _ _ _ hc => mirrors_copyUpTo a.scopes.size hc)
      (hz.inside.imp fun _ _ hc => hc.later hfirst) hheight
    rw [hinside]
    exact hcopies.imp fun _ _ hc => hc.later hend
  · have hplain : AddsPlain a inner.2 := .mapThrough hextends (.copyUpTo a.scopes.size n) first (a.inside id)
    exact (hend.part_eq Block.expanded (by intro _; rfl) hx).trans (hplain x hge hx)

/-- What is made of a block that says the same as `z`. -/
theorem instantiates_clone (root : ScopeId) {z : BlockId} (hz : Mirrors T a z id) (hn : Shallow a a.blocks.size [id])
    (index value : Value) : Instantiates root T a (a.clone id index).2 z id (instanceKey (a.block id) index)
      (instanceBindings [] index value) (a.clone id index).1 := by
  have hparts := assembles_clone hz hn index
  -- The new blocks are those of one tree, and all of them stand in the new scope.
  have hrow := (adds_clone a id index).row
  have hnew := (clone_addsIn a id index).new
  generalize (a.clone id index).1 = made at hparts hrow ⊢
  have hblock := hparts.block
  have hscope : ((a.clone id index).2.block made).scope = a.scopes.size := congrArg Block.scope hblock
  constructor
  · refine ⟨hparts.keeps, ?_, fun σ hσ => parent?_clone_of_lt a id index hσ,
      fun σ hσ _ => bindings_clone_of_ne a id index (Nat.ne_of_lt hσ)⟩
    rw [size_scopes_clone]
    exact Nat.le_succ _
  · refine ⟨fun x hx => ?_, fun x hx => ?_, List.pairwise_singleton _ _⟩
    · rw [List.mem_singleton.mp hx]
      exact ⟨hparts.size, hparts.lt⟩
    · rw [List.mem_singleton.mp hx, hscope, size_scopes_clone]
      exact ⟨Nat.le_refl _, Nat.lt_succ_self _⟩
  · constructor
    · exact hparts.lt
    · rw [hblock]
      exact hz.kind
    · rw [hblock, ← hz.labels]
    · rw [hblock]
      exact hz.attributes
    · rw [hblock]
      exact hz.range
    · rw [hblock]
    · rw [hblock]
    · exact hparts.inside
    · intro x hx
      obtain ⟨hge, hlt⟩ := hrow.inside_of_below hx
      exact hparts.plain x hge hlt
    · intro x hx
      obtain ⟨hge, hlt⟩ := hrow.of_below hx
      rw [hscope]
      exact ⟨hlt, (hnew x hge hlt).1⟩
    · rw [hscope]
      exact parent?_clone a id index
    · rw [hscope]
      exact bindings_clone a id index value

theorem instanceKey_eq {b : Block} {index : Value} (h : InstanceKey.ofValue? index = some key) :
    instanceKey b index = key := by
  rw [instanceKey, h]
  rfl

theorem instantiates_cloneIndex {z : BlockId} (hroot : root < a.scopes.size) (hz : Mirrors T a z id)
    (hn : Shallow a a.blocks.size [id]) {i : Nat} (hi : i < int32Limit) :
    Instantiates root T a (cloneIndex root id a i).2 z id (.index i) (instanceBindings [] (.int i) .null)
      (cloneIndex root id a i).1.1 := by
  have hclone := instantiates_clone root hz hn (.int i) .null
  rw [instanceKey_eq (ofValue?_index hi)] at hclone
  exact (hclone.later (.copyBinding root _ id _) hroot).later (.noting root _ _ _) hroot

theorem instantiates_cloneElement {z : BlockId} (hroot : root < a.scopes.size) (hz : Mirrors T a z id)
    (hn : Shallow a a.blocks.size [id]) (binding : String) (isDynamic : Bool) {element : Value × Value}
    (hkey : InstanceKey.ofValue? element.1 = some key) :
    Instantiates root T a (cloneElement root id binding isDynamic a element).2 z id key
      (instanceBindings (elementNames binding isDynamic) element.1 element.2)
      (cloneElement root id binding isDynamic a element).1 := by
  obtain ⟨index, value⟩ := element
  have hclone := instantiates_clone root hz hn index value
  rw [instanceKey_eq hkey] at hclone
  let scope := ((a.clone id index).2.block (a.clone id index).1).scope
  have hscope : scope < (a.clone id index).2.scopes.size :=
    (hclone.fresh.scope _ List.mem_cons_self).2
  have hstart : Fills (a.clone id index).2 (a.clone id index).2 scope (instanceBindings [] index value) :=
    ⟨.refl, rfl, rfl, fun _ _ => rfl, hclone.copied.bindings⟩
  have hfilled := hclone.fills (hstart.bindElements hscope (elementNames binding isDynamic))
  exact hfilled.later (.copyBinding root _ id _) hroot

end Arena

end InfraConfig
