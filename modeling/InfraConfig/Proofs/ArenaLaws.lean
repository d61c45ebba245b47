import InfraConfig.Block.Placement
import InfraConfig.Expansion
import InfraConfig.Proofs.ScopeLaws

/-!
# Laws of the arena

Blocks get consecutive numbers and keep them. A write into a scope leaves all blocks, and a change of a block
leaves all others and all scopes.
-/

namespace InfraConfig

/-! ## Loops -/

theorem mapThrough_cons {σ α β : Type} (f : σ → α → β × σ) (s : σ) (x : α) (xs : List α) :
    mapThrough f s (x :: xs) = ((f s x).1 :: (mapThrough f (f s x).2 xs).1, (mapThrough f (f s x).2 xs).2) := rfl

theorem mapThrough_append {σ α β : Type} (f : σ → α → β × σ) (s : σ) (xs ys : List α) :
    mapThrough f s (xs ++ ys) = ((mapThrough f s xs).1 ++ (mapThrough f (mapThrough f s xs).2 ys).1,
      (mapThrough f (mapThrough f s xs).2 ys).2) := by
  induction xs generalizing s with
  | nil => rfl
  | cons x xs ih =>
    rw [List.cons_append, mapThrough_cons, mapThrough_cons, ih]
    rfl

theorem mapThrough_snd {σ α β : Type} (f : σ → α → β × σ) (s : σ) (xs : List α) :
    (mapThrough f s xs).2 = xs.foldl (fun s x => (f s x).2) s := by
  induction xs generalizing s with
  | nil => rfl
  | cons x xs ih => exact ih _

/-- A loop that finds nothing to do. -/
theorem foldl_of_fixed {σ α : Type} {f : σ → α → σ} {s : σ} {xs : List α} (h : ∀ x ∈ xs, f s x = s) :
    xs.foldl f s = s :=
  List.foldlRecOn (motive := (· = s)) xs f rfl fun _ ht x hx => ht ▸ h x hx

/-- What every step of a loop keeps holds after it. -/
theorem mapThrough_induction {σ α β : Type} {motive : σ → Prop} {f : σ → α → β × σ} {s : σ} {xs : List α} (h : motive s)
    (hf : ∀ t, motive t → ∀ x ∈ xs, motive (f t x).2) : motive (mapThrough f s xs).2 := by
  rw [mapThrough_snd]
  exact List.foldlRecOn xs _ h hf

section Pairs

variable {σ α β : Type} {R : σ → σ → Prop} {f : σ → α → β × σ} {s : σ} {l : List α}

/-- A loop of steps as `R` has them, whose results have a property that no such step takes away. -/
theorem mapThrough_pairs {Q : σ → α → β → Prop} (hs : R s s) (hrefl : ∀ t, R s t → R t t)
    (htrans : ∀ {t u v}, R t u → R u v → R t v) (hQ : ∀ {t u x y}, R s t → R t u → Q t x y → Q u x y)
    (hf : ∀ t, R s t → ∀ x ∈ l, R t (f t x).2 ∧ Q (f t x).2 x (f t x).1) :
    R s (mapThrough f s l).2 ∧ List.Forall₂ (Q (mapThrough f s l).2) l (mapThrough f s l).1 := by
  suffices h : ∀ t, R s t → R t (mapThrough f t l).2 ∧
      List.Forall₂ (Q (mapThrough f t l).2) l (mapThrough f t l).1 from h s hs
  induction l with
  | nil => exact fun t ht => ⟨hrefl t ht, .nil⟩
  | cons x l ih =>
    intro t ht
    obtain ⟨hstep, hx⟩ := hf t ht x List.mem_cons_self
    have hmid := htrans ht hstep
    obtain ⟨hrest, hys⟩ := ih (fun u hu y hy => hf u hu y (List.mem_cons_of_mem x hy)) _ hmid
    rw [mapThrough_cons]
    exact ⟨htrans hstep hrest, .cons (hQ hmid hrest hx) hys⟩

theorem mapThrough_all {Q : σ → β → Prop} (hs : R s s) (hrefl : ∀ t, R s t → R t t)
    (htrans : ∀ {t u v}, R t u → R u v → R t v) (hQ : ∀ {t u y}, R s t → R t u → Q t y → Q u y)
    (hf : ∀ t, R s t → ∀ x ∈ l, R t (f t x).2 ∧ Q (f t x).2 (f t x).1) :
    R s (mapThrough f s l).2 ∧ ∀ y ∈ (mapThrough f s l).1, Q (mapThrough f s l).2 y := by
  obtain ⟨hloop, hpairs⟩ := mapThrough_pairs (Q := fun t _ y => Q t y) hs hrefl htrans hQ hf
  refine ⟨hloop, fun y hy => ?_⟩
  obtain ⟨i, hi, rfl⟩ := List.getElem_of_mem hy
  exact hpairs.get (hpairs.length_eq ▸ hi) hi

end Pairs

/-- Elements that stand for themselves alone, and change nothing. -/
theorem mapThrough_of_fixed {σ α : Type} {f : σ → α → List α × σ} {s : σ} {xs : List α}
    (h : ∀ x ∈ xs, f s x = ([x], s)) : (mapThrough f s xs).1.flatten = xs ∧ (mapThrough f s xs).2 = s := by
  induction xs with
  | nil => exact ⟨rfl, rfl⟩
  | cons x xs ih =>
    obtain ⟨hxs, hs⟩ := ih fun y hy => h y (List.mem_cons_of_mem x hy)
    rw [mapThrough, h x List.mem_cons_self]
    simp only [List.flatten_cons, hxs, hs]
    exact ⟨rfl, trivial⟩

namespace Arena

/-! ## Blocks -/

@[simp] theorem size_blocks_push (a : Arena) (b : Block) : (a.push b).2.blocks.size = a.blocks.size + 1 := by
  simp [push]

@[simp] theorem push_fst (a : Arena) (b : Block) : (a.push b).1 = a.blocks.size := rfl

@[simp] theorem scopes_push (a : Arena) (b : Block) : (a.push b).2.scopes = a.scopes := rfl

@[simp] theorem files_push (a : Arena) (b : Block) : (a.push b).2.files = a.files := rfl

theorem block_push (a : Arena) (b : Block) (id : BlockId) :
    (a.push b).2.block id = if id = a.blocks.size then b else a.block id :=
  getD_push a.blocks b id default

@[simp] theorem size_blocks_modify (a : Arena) (id : BlockId) (f : Block → Block) :
    (a.modify id f).blocks.size = a.blocks.size := by
  simp [modify]

@[simp] theorem scopes_modify (a : Arena) (id : BlockId) (f : Block → Block) :
    (a.modify id f).scopes = a.scopes := rfl

@[simp] theorem files_modify (a : Arena) (id : BlockId) (f : Block → Block) :
    (a.modify id f).files = a.files := rfl

theorem block_modify (a : Arena) (id : BlockId) (f : Block → Block) (j : BlockId) :
    (a.modify id f).block j = if j = id ∧ id < a.blocks.size then f (a.block j) else a.block j :=
  getD_modify a.blocks id j f default

/-- A part of a block that a change leaves alone is the same in all blocks afterwards. -/
theorem modify_same {β : Type} (part : Block → β) (a : Arena) (id : BlockId) {f : Block → Block}
    (hf : ∀ b, part (f b) = part b) (j : BlockId) : part ((a.modify id f).block j) = part (a.block j) := by
  rw [block_modify]
  split
  · exact hf _
  · rfl

theorem block_of_size_le (a : Arena) {id : BlockId} (h : a.blocks.size ≤ id) : a.block id = default := by
  have hid : a.blocks[id]? = none := Array.getElem?_eq_none h
  simp [block, hid]

/-! ## Scopes -/

@[simp] theorem blocks_bind (a : Arena) (scope : ScopeId) (v : Value) (path : ValuePath) :
    (a.bind scope v path).blocks = a.blocks := rfl

@[simp] theorem block_bind (a : Arena) (scope : ScopeId) (v : Value) (path : ValuePath) (id : BlockId) :
    (a.bind scope v path).block id = a.block id := rfl

@[simp] theorem scopes_bind (a : Arena) (scope : ScopeId) (v : Value) (path : ValuePath) :
    (a.bind scope v path).scopes = a.scopes.set scope v path := rfl

@[simp] theorem files_bind (a : Arena) (scope : ScopeId) (v : Value) (path : ValuePath) :
    (a.bind scope v path).files = a.files := rfl

@[simp] theorem newChild_fst (a : Arena) (parent : ScopeId) : (a.newChild parent).1 = a.scopes.size := rfl

@[simp] theorem blocks_newChild (a : Arena) (parent : ScopeId) :
    (a.newChild parent).2.blocks = a.blocks := rfl

@[simp] theorem block_newChild (a : Arena) (parent : ScopeId) (id : BlockId) :
    (a.newChild parent).2.block id = a.block id := rfl

@[simp] theorem scopes_newChild (a : Arena) (parent : ScopeId) :
    (a.newChild parent).2.scopes = (a.scopes.push (some parent)).2 := rfl

@[simp] theorem files_newChild (a : Arena) (parent : ScopeId) : (a.newChild parent).2.files = a.files := rfl

@[simp] theorem newRoot_fst (a : Arena) : a.newRoot.1 = a.scopes.size := rfl

@[simp] theorem block_newRoot (a : Arena) (id : BlockId) : a.newRoot.2.block id = a.block id := rfl

@[simp] theorem blocks_newRoot (a : Arena) : a.newRoot.2.blocks = a.blocks := rfl

@[simp] theorem scopes_newRoot (a : Arena) : a.newRoot.2.scopes = (a.scopes.push none).2 := rfl

@[simp] theorem block_noting (a : Arena) (b : Block) (attrs : List Attribute) (id : BlockId) :
    (a.noting b attrs).block id = a.block id := rfl

@[simp] theorem blocks_noting (a : Arena) (b : Block) (attrs : List Attribute) :
    (a.noting b attrs).blocks = a.blocks := rfl

@[simp] theorem scopes_noting (a : Arena) (b : Block) (attrs : List Attribute) :
    (a.noting b attrs).scopes = a.scopes := rfl

@[simp] theorem block_addSource (a : Arena) (path text : String) (id : BlockId) :
    (a.addSource path text).block id = a.block id := rfl

/-- What placing a block and making a scope keep holds after all that is inside a block has got scopes of its own. -/
theorem rescopeUpTo_induction {motive : Arena → Prop} {a : Arena}
    (hplace : ∀ b id scope, motive b → motive (b.modify id fun c => { c with scope }))
    (hnew : ∀ b scope, motive b → motive (b.newChild scope).2) (h : motive a) (depth : Nat) (id : BlockId)
    (scope : ScopeId) : motive (a.rescopeUpTo depth id scope) := by
  induction depth generalizing a id scope with
  | zero => exact hplace a id scope h
  | succ depth ih =>
    rw [rescopeUpTo]
    refine List.foldlRecOn _ _ (hplace a id scope h) fun b hb child _ => ?_
    exact ih (hnew b scope hb) child _

/-! ## Insertion -/

/-- A later arena with the same scopes and files, in which all blocks are still what they were. -/
structure Extends (a b : Arena) : Prop where
  scopes : b.scopes = a.scopes
  files : b.files = a.files
  size : a.blocks.size ≤ b.blocks.size
  kept : ∀ id, id < a.blocks.size → b.block id = a.block id

namespace Extends

theorem refl (a : Arena) : Extends a a := ⟨rfl, rfl, Nat.le_refl _, fun _ _ => rfl⟩

theorem trans {a b c : Arena} (h : Extends a b) (k : Extends b c) : Extends a c := by
  refine ⟨k.scopes.trans h.scopes, k.files.trans h.files, Nat.le_trans h.size k.size, fun id hid => ?_⟩
  rw [k.kept id (Nat.lt_of_lt_of_le hid h.size), h.kept id hid]

theorem push (a : Arena) (b : Block) : Extends a (a.push b).2 := by
  refine ⟨rfl, rfl, by simp, fun id hid => ?_⟩
  rw [block_push, if_neg (Nat.ne_of_lt hid)]

theorem addSource (a : Arena) (path text : String) : Extends a (a.addSource path text) :=
  ⟨rfl, rfl, Nat.le_refl _, fun _ _ => rfl⟩

end Extends

mutual

theorem extends_insert (scope : ScopeId) (caller : Option BlockId) :
    ∀ (t : BlockTree) (a : Arena), Extends a (insert scope caller a t).2
  | .node kind labels attributes children range, a => by
    rw [insert]
    exact (extends_insertAll scope caller children a).trans (.push _ _)

theorem extends_insertAll (scope : ScopeId) (caller : Option BlockId) :
    ∀ (trees : List BlockTree) (a : Arena), Extends a (insertAll scope caller a trees).2
  | [], a => .refl a
  | t :: rest, a => by
    rw [insertAll]
    exact (extends_insert scope caller t a).trans (extends_insertAll scope caller rest _)

end

end Arena

end InfraConfig
