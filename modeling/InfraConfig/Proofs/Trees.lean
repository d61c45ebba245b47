import Mathlib.Data.List.Pairwise
import InfraConfig.Proofs.PlacementChanges

/-!
# Trees of blocks

A block is added right after all that is inside it, so that its tree takes up one interval of the arena. This
holds of what is read from files and of copies, until dynamic blocks are rendered: contents are then put into
blocks that are older. Trees that take up different intervals have nothing in common.
-/

namespace InfraConfig

/-- What is put aside first comes last. -/
theorem perm_filter_append {α : Type} (p : α → Bool) (xs : List α) :
    xs.Perm (xs.filter (not ∘ p) ++ xs.filter p) :=
  (List.filter_append_perm p xs).symm.trans List.perm_append_comm

namespace Arena

/-- The blocks directly inside a block. -/
def inside (a : Arena) (id : BlockId) : List BlockId :=
  (a.block id).children

/-- The blocks from `lo` on and before `hi` are those of a list, each right after all that is inside it. -/
inductive Row (a : Arena) : Nat → List BlockId → Nat → Prop where
  | nil (n : Nat) : Row a n [] n
  | cons {lo hi id : Nat} {rest : List BlockId} (first : Row a lo (a.inside id) id)
      (others : Row a (id + 1) rest hi) : Row a lo (id :: rest) hi

/-- Blocks in `S` are of the same kind as before, with the same blocks inside. -/
structure Keeps (S : Nat → Prop) (a b : Arena) : Prop where
  size : a.blocks.size ≤ b.blocks.size
  inside : ∀ x : Nat, x < a.blocks.size → S x → b.inside x = a.inside x
  kind : ∀ x : Nat, x < a.blocks.size → S x → (b.block x).kind = (a.block x).kind

variable {a b c : Arena} {S T : Nat → Prop} {lo hi : Nat} {ids : List BlockId}

namespace Keeps

theorem refl : Keeps S a a := ⟨Nat.le_refl _, fun _ _ _ => rfl, fun _ _ _ => rfl⟩

theorem trans (h : Keeps S a b) (k : Keeps T b c) (hST : ∀ x < a.blocks.size, S x → T x) : Keeps S a c := by
  refine ⟨Nat.le_trans h.size k.size, fun x hx hS => ?_, fun x hx hS => ?_⟩
  · rw [k.inside x (Nat.lt_of_lt_of_le hx h.size) (hST x hx hS), h.inside x hx hS]
  · rw [k.kind x (Nat.lt_of_lt_of_le hx h.size) (hST x hx hS), h.kind x hx hS]

theorem mono (h : Keeps T a b) (hST : ∀ x < a.blocks.size, S x → T x) : Keeps S a b :=
  ⟨h.size, fun x hx hS => h.inside x hx (hST x hx hS), fun x hx hS => h.kind x hx (hST x hx hS)⟩

theorem ofBlocks (h : b.blocks = a.blocks) : Keeps S a b := by
  refine ⟨Nat.le_of_eq (congrArg Array.size h.symm), fun x _ _ => ?_, fun x _ _ => ?_⟩
  · rw [Arena.inside, Arena.inside, block, block, h]
  · rw [block, block, h]

theorem ofExtends (h : Extends a b) : Keeps S a b :=
  ⟨h.size, fun x hx _ => congrArg Block.children (h.kept x hx), fun x hx _ => congrArg Block.kind (h.kept x hx)⟩

/-- A change of one block that leaves its kind and what is inside it. -/
theorem modify (a : Arena) (id : BlockId) {f : Block → Block} (hf : ∀ b, (f b).children = b.children)
    (hkind : ∀ b, (f b).kind = b.kind) : Keeps S a (a.modify id f) :=
  ⟨by simp, fun x _ _ => a.modify_same Block.children id hf x, fun x _ _ => a.modify_same Block.kind id hkind x⟩

/-- A change of one block. -/
theorem modifyOther (a : Arena) {id : BlockId} (f : Block → Block) (hid : ¬ S id) :
    Keeps S a (a.modify id f) := by
  have hsame (x : Nat) (hS : S x) : (a.modify id f).block x = a.block x := by
    rw [block_modify, if_neg]
    rintro ⟨rfl, -⟩
    exact hid hS
  exact ⟨by simp, fun x _ hS => congrArg Block.children (hsame x hS), fun x _ hS => congrArg Block.kind (hsame x hS)⟩

theorem foldl {α : Type} {f : Arena → α → Arena} {xs : List α}
    (hf : ∀ b x, x ∈ xs → Keeps S b (f b x)) : Keeps S a (xs.foldl f a) :=
  List.foldlRecOn xs f .refl fun b hb x hx => hb.trans (hf b x hx) fun _ _ hS => hS

/-- The results of a loop, with a property that is kept when all blocks keep what is inside. -/
theorem mapThrough_all {α β : Type} {f : Arena → α → β × Arena} {Q : Arena → β → Prop} {l : List α}
    (hQ : ∀ {b c y}, Keeps (fun _ => True) b c → Q b y → Q c y)
    (hf : ∀ b, Keeps (fun _ => True) a b → ∀ x ∈ l, Keeps (fun _ => True) b (f b x).2 ∧ Q (f b x).2 (f b x).1) :
    ∀ y ∈ (mapThrough f a l).1, Q (mapThrough f a l).2 y :=
  (InfraConfig.mapThrough_all (Q := Q) .refl (fun _ _ => .refl) (fun h k => h.trans k fun _ _ _ => trivial)
    (fun _ => hQ) hf).2

end Keeps

namespace Row

theorem le (h : Row a lo ids hi) : lo ≤ hi := by
  induction h with
  | nil => exact Nat.le_refl _
  | cons _ _ hfirst hothers => omega

theorem append {mid : Nat} {more : List BlockId} (h : Row a lo ids mid) (k : Row a mid more hi) :
    Row a lo (ids ++ more) hi := by
  induction h with
  | nil => exact k
  | cons first _ _ ih => exact .cons first (ih k)

/-- Only what is inside the blocks of a row matters. -/
theorem congr (h : Row a lo ids hi) (hsame : ∀ x : Nat, lo ≤ x → x < hi → b.inside x = a.inside x) :
    Row b lo ids hi := by
  induction h with
  | nil n => exact .nil n
  | @cons lo hi id rest first others ihfirst ihothers =>
    have hlo := first.le
    have hhi := others.le
    have hid : b.inside id = a.inside id := hsame id hlo (by omega)
    refine .cons ?_ (ihothers fun x hx hlt => hsame x (by omega) hlt)
    rw [hid]
    exact ihfirst fun x hx hlt => hsame x hx (by omega)

theorem keeps (h : Row a lo ids hi) (hhi : hi ≤ a.blocks.size) (hab : Keeps S a b)
    (hS : ∀ x, lo ≤ x → x < hi → S x) : Row b lo ids hi :=
  h.congr fun x hlo hlt => hab.inside x (by omega) (hS x hlo hlt)

/-- What is inside blocks of a module belongs to the module. -/
theorem has {top : ScopeId} (h : Row a lo ids hi) (ha : a.WellFormed) (hids : ∀ id ∈ ids, a.Has top id) :
    ∀ x : Nat, lo ≤ x → x < hi → a.Has top x := by
  induction h with
  | nil => intros; omega
  | @cons lo hi id rest first others ihfirst ihothers =>
    intro x hlo hlt
    have hin := hids id List.mem_cons_self
    rcases Nat.lt_trichotomy x id with hx | rfl | hx
    · exact ihfirst (fun c hc => hin.child ha hc) x hlo hx
    · exact hin
    · exact ihothers (fun c hc => hids c (List.mem_cons_of_mem id hc)) x hx hlt

end Row

/-- Blocks whose trees have nothing in common; that of a block begins at `low`. -/
structure Trees (a : Arena) (low : Nat → Nat) (ids : List BlockId) : Prop where
  row : ∀ id ∈ ids, Row a (low id) (a.inside id) id
  apart : ids.Pairwise fun x y : Nat => x < low y ∨ y < low x

namespace Trees

variable {low : Nat → Nat}

theorem nil (a : Arena) (low : Nat → Nat) : Trees a low [] :=
  ⟨fun _ h => absurd h List.not_mem_nil, .nil⟩

theorem low_le (h : Trees a low ids) {id : Nat} (hid : id ∈ ids) : low id ≤ id :=
  (h.row id hid).le

theorem apart_of_ne (h : Trees a low ids) {x y : Nat} (hx : x ∈ ids) (hy : y ∈ ids) (hne : x ≠ y) :
    x < low y ∨ y < low x := by
  have hsymm : Std.Symm fun x y : Nat => x < low y ∨ y < low x := ⟨fun _ _ h => h.symm⟩
  exact h.apart.forall hx hy hne

theorem sublist (h : Trees a low ids) {some : List BlockId} (hsub : some.Sublist ids) : Trees a low some :=
  ⟨fun id hid => h.row id (hsub.subset hid), h.apart.sublist hsub⟩

theorem perm (h : Trees a low ids) {others : List BlockId} (hperm : ids.Perm others) : Trees a low others :=
  ⟨fun id hid => h.row id (hperm.symm.subset hid), hperm.pairwise h.apart fun hxy => hxy.symm⟩

/-- A tree stays as it is when its own blocks are left alone. -/
theorem rowKept (h : Trees a low ids) {id : Nat} (hlt : id < a.blocks.size) (hid : id ∈ ids)
    (hab : Keeps (fun x => low id ≤ x ∧ x ≤ id) a b) : Row b (low id) (b.inside id) id := by
  rw [hab.inside id hlt ⟨h.low_le hid, Nat.le_refl _⟩]
  exact (h.row id hid).keeps (Nat.le_of_lt hlt) hab fun x hlo hx => ⟨hlo, Nat.le_of_lt hx⟩

/-- Trees stay as they are when their blocks are left alone. -/
theorem keeps (h : Trees a low ids) (hids : ∀ id : Nat, id ∈ ids → id < a.blocks.size) (hab : Keeps S a b)
    (hS : ∀ id : Nat, id ∈ ids → ∀ x, low id ≤ x → x ≤ id → S x) : Trees b low ids := by
  refine ⟨fun id hid => ?_, h.apart⟩
  exact h.rowKept (hids id hid) hid (hab.mono fun x _ hx => hS id hid x hx.1 hx.2)

theorem keepsAll (h : Trees a low ids) (hids : ∀ id : Nat, id ∈ ids → id < a.blocks.size)
    (hab : Keeps (fun _ => True) a b) : Trees b low ids :=
  h.keeps hids hab fun _ _ _ _ _ => trivial

end Trees

/-- The trees of a row. -/
theorem Row.trees (h : Row a lo ids hi) :
    ∃ low, Trees a low ids ∧ ∀ id : Nat, id ∈ ids → lo ≤ low id ∧ id < hi := by
  induction h with
  | nil n => exact ⟨id, .nil a id, by simp⟩
  | @cons lo hi id rest first others _ ih =>
    obtain ⟨low, htrees, hbounds⟩ := ih
    have hlo := first.le
    have hhi := others.le
    have hlater (c : Nat) (hc : c ∈ rest) : id < c := by
      have := (hbounds c hc).1
      have := htrees.low_le hc
      omega
    have hsame (c : Nat) (hc : c ∈ rest) : Function.update low id lo c = low c :=
      Function.update_of_ne (Nat.ne_of_gt (hlater c hc)) _ _
    refine ⟨Function.update low id lo, ⟨fun c hc => ?_, List.pairwise_cons.mpr ⟨fun c hc => ?_, ?_⟩⟩, fun c hc => ?_⟩
    · rcases List.mem_cons.mp hc with rfl | hc
      · rwa [Function.update_self]
      · rw [hsame c hc]
        exact htrees.row c hc
    · have := (hbounds c hc).1
      rw [hsame c hc]
      omega
    · refine htrees.apart.imp_of_mem fun hx hy hxy => ?_
      rwa [hsame _ hx, hsame _ hy]
    · rcases List.mem_cons.mp hc with rfl | hc
      · rw [Function.update_self]
        omega
      · have := hbounds c hc
        rw [hsame c hc]
        omega

/-! ## New trees -/

/-- The blocks that are new are those of a list and what is inside them; all others keep what is inside. -/
structure Adds (a b : Arena) (made : List BlockId) : Prop where
  keeps : Keeps (fun _ => True) a b
  row : Row b a.blocks.size made b.blocks.size

namespace Adds

theorem none (h : b.blocks = a.blocks) : Adds a b [] := by
  refine ⟨.ofBlocks h, ?_⟩
  rw [h]
  exact .nil _

theorem append {xs ys : List BlockId} (h : Adds a b xs) (k : Adds b c ys) : Adds a c (xs ++ ys) := by
  refine ⟨h.keeps.trans k.keeps fun _ _ _ => trivial, ?_⟩
  exact (h.row.keeps (Nat.le_refl _) k.keeps fun _ _ _ => trivial).append k.row

theorem lt {x : BlockId} (h : Adds a b [x]) : x < b.blocks.size := by
  cases h.row with
  | cons first others => exact others.le

/-- Blocks that have just been added get one above them. -/
theorem push {xs : List BlockId} (h : Adds a b xs) {d : Block} (hd : d.children = xs) :
    Adds a (b.push d).2 [(b.push d).1] := by
  have hkeeps : Keeps (fun _ => True) b (b.push d).2 := .ofExtends (.push b d)
  have hinside : (b.push d).2.inside b.blocks.size = xs := by
    rw [inside, block_push, if_pos rfl, hd]
  refine ⟨h.keeps.trans hkeeps fun _ _ _ => trivial, ?_⟩
  rw [push_fst, size_blocks_push]
  refine .cons ?_ (.nil _)
  rw [hinside]
  exact h.row.keeps (Nat.le_refl _) hkeeps fun _ _ _ => trivial

/-- Whatever happens before and after without new blocks. -/
theorem within {a' b' : Arena} {xs : List BlockId} (h : Adds a b xs) (ha : Keeps (fun _ => True) a' a)
    (hsize : a.blocks.size = a'.blocks.size) (hb : Keeps (fun _ => True) b b')
    (hsize' : b'.blocks.size = b.blocks.size) : Adds a' b' xs := by
  refine ⟨(ha.trans h.keeps fun _ _ _ => trivial).trans hb fun _ _ _ => trivial, ?_⟩
  rw [hsize', ← hsize]
  exact h.row.keeps (Nat.le_refl _) hb fun _ _ _ => trivial

theorem mapThrough {α β : Type} {f : Arena → α → β × Arena} {g : β → BlockId} {xs : List α}
    (hf : ∀ b x, x ∈ xs → Keeps (fun _ => True) a b → Adds b (f b x).2 [g (f b x).1]) :
    Adds a (mapThrough f a xs).2 ((mapThrough f a xs).1.map g) := by
  suffices hs : ∀ b, Keeps (fun _ => True) a b →
      Adds b (InfraConfig.mapThrough f b xs).2 ((InfraConfig.mapThrough f b xs).1.map g) from hs a .refl
  induction xs with
  | nil => exact fun b _ => .none rfl
  | cons x xs ih =>
    intro b hb
    have hfirst := hf b x List.mem_cons_self hb
    have hrest := ih (fun c y hy hc => hf c y (List.mem_cons_of_mem x hy) hc) (f b x).2
      (hb.trans hfirst.keeps fun _ _ _ => trivial)
    exact hfirst.append hrest

end Adds

mutual

theorem adds_insert (scope : ScopeId) (caller : Option BlockId) :
    ∀ (t : BlockTree) (a : Arena), Adds a (insert scope caller a t).2 [(insert scope caller a t).1]
  | .node kind labels attributes children range, a => by
    rw [insert]
    exact (adds_insertAll scope caller children a).push rfl

theorem adds_insertAll (scope : ScopeId) (caller : Option BlockId) :
    ∀ (trees : List BlockTree) (a : Arena),
      Adds a (insertAll scope caller a trees).2 (insertAll scope caller a trees).1
  | [], a => .none rfl
  | t :: rest, a => by
    rw [insertAll]
    exact (adds_insert scope caller t a).append (adds_insertAll scope caller rest _)

end

theorem adds_insertFiles (scope : ScopeId) (caller : Option BlockId) (files : List SourceFile) (a : Arena) :
    Adds a (insertFiles scope caller a files).2 (insertFiles scope caller a files).1 := by
  induction files generalizing a with
  | nil => exact .none rfl
  | cons file files ih =>
    rw [insertFiles]
    have hfirst := adds_insertAll scope caller file.blocks a
    have hsource : Adds (insertAll scope caller a file.blocks).2
        ((insertAll scope caller a file.blocks).2.addSource file.path file.text) [] := .none rfl
    have hboth := (hfirst.append hsource).append (ih _)
    rwa [List.append_nil] at hboth

theorem adds_copyUpTo (scope : ScopeId) (depth : Nat) (a : Arena) (id : BlockId) :
    Adds a (copyUpTo scope depth a id).2 [(copyUpTo scope depth a id).1] := by
  induction depth generalizing a id with
  | zero => exact (Adds.none (b := a) rfl).push rfl
  | succ depth ih =>
    rw [copyUpTo]
    have hinner : Adds a (mapThrough (copyUpTo scope depth) a (a.block id).children).2
        ((mapThrough (copyUpTo scope depth) a (a.block id).children).1.map fun c => c) :=
      Adds.mapThrough fun b c _ _ => ih b c
    rw [List.map_id'] at hinner
    exact hinner.push rfl

/-- What is done to the copy that an instance is made of leaves what is inside. -/
theorem keeps_clone (a : Arena) (id : BlockId) (index : Value) :
    Keeps (fun _ => True) (a.copyBelow id).2 (a.clone id index).2
      ∧ (a.clone id index).2.blocks.size = (a.copyBelow id).2.blocks.size := by
  let marked := (a.copyBelow id).2.markInstance (a.copyBelow id).1 (instanceKey (a.block id) index)
  have hmarked : Keeps (fun _ => True) (a.copyBelow id).2 marked := .modify _ _ (by intro _; rfl) (by intro _; rfl)
  have hcounted : Keeps (fun _ => True) marked (marked.countInstance id) :=
    .modify _ _ (by intro _; rfl) (by intro _; rfl)
  have hall := (hmarked.trans hcounted fun _ _ _ => trivial).trans (.ofBlocks (blocks_clone a id index))
    fun _ _ _ => trivial
  exact ⟨hall, by rw [blocks_clone, size_blocks_countInstance, size_blocks_markInstance]⟩

/-- An instance is a new tree. -/
theorem adds_clone (a : Arena) (id : BlockId) (index : Value) :
    Adds a (a.clone id index).2 [(a.clone id index).1] := by
  obtain ⟨hkeeps, hsize⟩ := keeps_clone a id index
  exact (adds_copyUpTo _ _ _ _).within (.ofBlocks rfl) rfl hkeeps hsize

end Arena

end InfraConfig
