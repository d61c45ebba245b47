import InfraConfig.Proofs.ExpansionChanges
import InfraConfig.Proofs.InstanceBindings

/-!
# Scopes of instances

Below the top of a module only the scopes of instances hold bindings, and whatever is inside a block sees all such
scopes that the block sees. Both are kept by everything that evaluation does: what a scope below the top holds, and
which of them a block sees, never changes once it is there.
-/

namespace InfraConfig

namespace Scopes

/-- A scope below the top of a module that holds bindings. -/
def Filled (s : Scopes) (σ : ScopeId) : Prop :=
  (s.parent? σ).isSome ∧ s.bindings σ ≠ []

/-- A scope that sees no bindings below the top of its module. -/
def Clear (s : Scopes) (id : ScopeId) : Prop :=
  ∀ σ ∈ s.chain id, ¬ s.Filled σ

theorem Filled.lt_size {s : Scopes} {σ : ScopeId} (h : s.Filled σ) : σ < s.size := by
  obtain ⟨p, hp⟩ := Option.isSome_iff_exists.mp h.1
  exact lt_size_of_parent? hp

theorem Clear.of_root {s : Scopes} {id : ScopeId} (h : s.parent? id = none) : s.Clear id := by
  intro σ hσ hfilled
  rw [chain_of_root h, List.mem_singleton] at hσ
  rw [Filled, hσ, h] at hfilled
  exact absurd hfilled.1 (by simp)

theorem Clear.of_parent {s : Scopes} (hs : s.Ordered) {id p : ScopeId} (h : s.parent? id = some p)
    (hempty : s.bindings id = []) (hp : s.Clear p) : s.Clear id := by
  intro σ hσ hfilled
  rw [chain_of_parent hs h] at hσ
  rcases List.mem_cons.mp hσ with rfl | hσ
  · exact hfilled.2 hempty
  · exact hp σ hσ hfilled

end Scopes

namespace Arena

/-- An instance for a key and an element, which its scope holds under some names. -/
structure IsInstance (a : Arena) (names : List String) (key value : Value) (e : BlockId) : Prop where
  block : e < a.blocks.size
  expanded : (a.block e).expanded = true
  known : (InstanceKey.ofValue? key).isSome
  keyed : (a.block e).key = InstanceKey.ofValue? key
  data : value.IsData
  filled : a.scopes.Filled (a.block e).scope
  bindings : a.scopes.bindings (a.block e).scope = instanceBindings names key value

/-- The scope of an instance. -/
def Holds (a : Arena) (e : BlockId) (σ : ScopeId) : Prop :=
  (a.block e).scope = σ ∧ ∃ names key value, a.IsInstance names key value e

/-- Of the filled scopes, one block sees all that the other sees. -/
def Encloses (a : Arena) (x c : BlockId) : Prop :=
  ∀ σ, a.scopes.Filled σ → σ ∈ a.scopes.chain (a.block x).scope → σ ∈ a.scopes.chain (a.block c).scope

structure Layered (a : Arena) : Prop where
  held : ∀ σ, a.scopes.Filled σ → ∃ e, a.Holds e σ
  nested : ∀ x c, x < a.blocks.size → c ∈ (a.block x).children → a.Encloses x c

/-- Changes that leave all scopes below the tops of modules alone. Blocks stay in their scopes, except that those
that see no filled scope may be moved to others of this kind. -/
structure Rests (a b : Arena) : Prop where
  well : a.WellFormed
  changes : Changes (fun _ => True) a b
  bindings : ∀ σ, (a.scopes.parent? σ).isSome → b.scopes.bindings σ = a.scopes.bindings σ
  scope : ∀ x, x < a.blocks.size → (b.block x).scope = (a.block x).scope
    ∨ a.scopes.Clear (a.block x).scope ∧ b.scopes.Clear (b.block x).scope

/-- Such changes of layered arenas lead to layered arenas. -/
structure Deepens (a b : Arena) : Prop extends Rests a b where
  layered : a.Layered → b.Layered

variable {P : ScopeId → Prop} {a b c : Arena} {root top : ScopeId} {x y e : BlockId} {σ s : ScopeId}

theorem Encloses.refl (a : Arena) (x : BlockId) : a.Encloses x x := fun _ _ h => h

theorem Encloses.trans {z : BlockId} (h : a.Encloses x y) (k : a.Encloses y z) : a.Encloses x z :=
  fun σ hσ hx => k σ hσ (h σ hσ hx)

theorem Encloses.of_scope (h : (a.block x).scope = (a.block y).scope) : a.Encloses x y :=
  fun _ _ hx => h ▸ hx

namespace Rests

theorem chain_eq (h : Rests a b) (hs : s < a.scopes.size) : b.scopes.chain s = a.scopes.chain s :=
  Scopes.chain_congr h.well.ordered (h.changes.wellFormed h.well).ordered fun _ hj _ =>
    h.changes.parent?_eq (Nat.lt_of_le_of_lt hj hs)

theorem filled_iff (h : Rests a b) (hσ : σ < a.scopes.size) : b.scopes.Filled σ ↔ a.scopes.Filled σ := by
  have hparent := h.changes.parent?_eq hσ
  constructor
  · rintro ⟨hsome, hne⟩
    rw [hparent] at hsome
    exact ⟨hsome, h.bindings σ hsome ▸ hne⟩
  · rintro ⟨hsome, hne⟩
    exact ⟨hparent.symm ▸ hsome, (h.bindings σ hsome).symm ▸ hne⟩

theorem clear_iff (h : Rests a b) (hs : s < a.scopes.size) : b.scopes.Clear s ↔ a.scopes.Clear s := by
  rw [Scopes.Clear, Scopes.Clear, h.chain_eq hs]
  refine forall₂_congr fun σ hσ => ?_
  have hlt := Nat.lt_of_le_of_lt (Scopes.mem_chain h.well.ordered hσ).2 hs
  rw [h.filled_iff hlt]

theorem refl (ha : a.WellFormed) : Rests a a :=
  ⟨ha, .refl, fun _ _ => rfl, fun _ _ => .inl rfl⟩

theorem trans (h : Rests a b) (k : Rests b c) : Rests a c := by
  refine ⟨h.well, h.changes.trans k.changes, ?_, ?_⟩
  · intro σ hσ
    obtain ⟨p, hp⟩ := Option.isSome_iff_exists.mp hσ
    have hsame := h.changes.parent?_eq (Scopes.lt_size_of_parent? hp)
    rw [k.bindings σ (hsame.symm ▸ hσ), h.bindings σ hσ]
  · intro x hx
    have hx' := Nat.lt_of_lt_of_le hx h.changes.size_blocks_le
    have hplaced := h.well.placed x hx
    rcases h.scope x hx with hsame | ⟨hclear, hclear'⟩
    · rcases k.scope x hx' with hsame' | ⟨hclear', hlast⟩
      · exact .inl (hsame'.trans hsame)
      · rw [hsame, h.clear_iff hplaced] at hclear'
        exact .inr ⟨hclear', hlast⟩
    · rcases k.scope x hx' with hsame' | ⟨-, hlast⟩
      · refine .inr ⟨hclear, ?_⟩
        rw [hsame', k.clear_iff ((h.changes.wellFormed h.well).placed x hx')]
        exact hclear'
      · exact .inr ⟨hclear, hlast⟩

/-- A block that sees a filled scope stays where it is. -/
theorem scope_eq (h : Rests a b) (hx : x < a.blocks.size) (hσ : a.scopes.Filled σ)
    (hmem : σ ∈ a.scopes.chain (a.block x).scope) : (b.block x).scope = (a.block x).scope :=
  (h.scope x hx).resolve_right fun hclear => hclear.1 σ hmem hσ

theorem sees_iff (h : Rests a b) (hx : x < a.blocks.size) (hσ : b.scopes.Filled σ) :
    σ ∈ b.scopes.chain (b.block x).scope
      ↔ a.scopes.Filled σ ∧ σ ∈ a.scopes.chain (a.block x).scope := by
  have hplaced := h.well.placed x hx
  constructor
  · intro hmem
    rcases h.scope x hx with hsame | ⟨-, hclear⟩
    · rw [hsame, h.chain_eq hplaced] at hmem
      have hlt := Nat.lt_of_le_of_lt (Scopes.mem_chain h.well.ordered hmem).2 hplaced
      exact ⟨(h.filled_iff hlt).mp hσ, hmem⟩
    · exact absurd hσ (hclear σ hmem)
  · rintro ⟨hfilled, hmem⟩
    rw [h.scope_eq hx hfilled hmem, h.chain_eq hplaced]
    exact hmem

theorem encloses (h : Rests a b) (hx : x < a.blocks.size) (hy : y < a.blocks.size)
    (hxy : a.Encloses x y) : b.Encloses x y := by
  intro σ hσ hmem
  obtain ⟨hfilled, hmem⟩ := (h.sees_iff hx hσ).mp hmem
  exact (h.sees_iff hy hσ).mpr ⟨hfilled, hxy σ hfilled hmem⟩

theorem isInstance {names : List String} {key value : Value} (h : Rests a b)
    (he : a.IsInstance names key value e) : b.IsInstance names key value e := by
  have hscope : (b.block e).scope = (a.block e).scope :=
    h.scope_eq he.block he.filled (a.scopes.self_mem_chain _)
  refine ⟨Nat.lt_of_lt_of_le he.block h.changes.size_blocks_le, ?_, he.known, ?_, he.data, ?_, ?_⟩
  · rw [h.changes.expanded_eq he.block, he.expanded]
  · rw [h.changes.key_eq he.block, he.keyed]
  · rw [hscope, h.filled_iff he.filled.lt_size]
    exact he.filled
  · rw [hscope, h.bindings _ he.filled.1, he.bindings]

theorem holds (h : Rests a b) (he : a.Holds e σ) : b.Holds e σ := by
  obtain ⟨rfl, names, key, value, hone⟩ := he
  exact ⟨h.scope_eq hone.block hone.filled (a.scopes.self_mem_chain _), names, key, value,
    h.isInstance hone⟩

/-- It is enough to look at the scopes that are newly filled, and at what is newly inside blocks. -/
theorem deepens (h : Rests a b)
    (hheld : ∀ σ, b.scopes.Filled σ → a.scopes.size ≤ σ → ∃ e, b.Holds e σ)
    (hnested : ∀ x c, x < b.blocks.size → c ∈ (b.block x).children →
      x < a.blocks.size ∧ c ∈ (a.block x).children ∨ b.Encloses x c) : Deepens a b := by
  refine ⟨h, fun hlayered => ⟨?_, ?_⟩⟩
  · intro σ hσ
    by_cases hlt : σ < a.scopes.size
    · have hold := (h.filled_iff hlt).mp hσ
      obtain ⟨e, he⟩ := hlayered.held σ hold
      exact ⟨e, h.holds he⟩
    · exact hheld σ hσ (Nat.le_of_not_lt hlt)
  · intro x c hx hc
    rcases hnested x c hx hc with ⟨hold, hc⟩ | hencloses
    · exact h.encloses hold (h.well.inside x hold c hc).1 (hlayered.nested x c hold hc)
    · exact hencloses

end Rests

namespace Deepens

theorem refl (ha : a.WellFormed) : Deepens a a := ⟨.refl ha, id⟩

theorem trans (h : Deepens a b) (k : Deepens b c) : Deepens a c :=
  ⟨h.toRests.trans k.toRests, k.layered ∘ h.layered⟩

theorem later (h : Deepens a b) : b.WellFormed := h.changes.wellFormed h.well

theorem foldl {α : Type} {f : Arena → α → Arena} (ha : a.WellFormed) {xs : List α}
    (hf : ∀ b, Deepens a b → ∀ x ∈ xs, Deepens b (f b x)) : Deepens a (xs.foldl f a) :=
  List.foldlRecOn xs f (.refl ha) fun b hb x hx => hb.trans (hf b hb x hx)

/-- A loop whose results have a property that is kept. -/
theorem mapThrough_pairs {α β : Type} {f : Arena → α → β × Arena} {Q : Arena → α → β → Prop}
    (hQ : ∀ {b c x y}, Deepens b c → Q b x y → Q c x y) (ha : a.WellFormed) {xs : List α}
    (hf : ∀ b, Deepens a b → ∀ x ∈ xs, Deepens b (f b x).2 ∧ Q (f b x).2 x (f b x).1) :
    Deepens a (mapThrough f a xs).2
      ∧ List.Forall₂ (Q (mapThrough f a xs).2) xs (mapThrough f a xs).1 :=
  InfraConfig.mapThrough_pairs (.refl ha) (fun _ hb => .refl hb.later) trans (fun _ => hQ) hf

/-! ## Single steps -/

/-- Steps that move no block and fill no scope below the top of a module. -/
theorem of_same (h : Changes (fun _ => True) a b) (ha : a.WellFormed)
    (hbindings : ∀ σ, (b.scopes.parent? σ).isSome → b.scopes.bindings σ = a.scopes.bindings σ)
    (hscope : ∀ x, x < a.blocks.size → (b.block x).scope = (a.block x).scope)
    (hchildren : ∀ x c, x < b.blocks.size → c ∈ (b.block x).children →
      x < a.blocks.size ∧ c ∈ (a.block x).children ∨ b.Encloses x c) : Deepens a b := by
  have hrests : Rests a b := by
    refine ⟨ha, h, fun σ hσ => hbindings σ ?_, fun x hx => .inl (hscope x hx)⟩
    obtain ⟨p, hp⟩ := Option.isSome_iff_exists.mp hσ
    rw [h.parent?_eq (Scopes.lt_size_of_parent? hp), hp]
    rfl
  refine hrests.deepens (fun σ hσ hnew => ?_) hchildren
  have hempty : b.scopes.bindings σ = [] := by
    rw [hbindings σ hσ.1, Scopes.bindings, a.scopes.node_of_size_le hnew]
  exact absurd hempty hσ.2

theorem of_blocks (h : Changes (fun _ => True) a b) (ha : a.WellFormed) (hblocks : b.blocks = a.blocks)
    (hbindings : ∀ σ, (b.scopes.parent? σ).isSome → b.scopes.bindings σ = a.scopes.bindings σ) :
    Deepens a b := by
  have hblock (x : BlockId) : b.block x = a.block x := by rw [block, block, hblocks]
  refine of_same h ha hbindings (fun x _ => by rw [hblock]) fun x c hx hc => .inl ?_
  rw [hblocks] at hx
  rw [hblock] at hc
  exact ⟨hx, hc⟩

theorem noting (ha : a.WellFormed) (b : Block) (attrs : List Attribute) : Deepens a (a.noting b attrs) :=
  of_blocks (.noting a b attrs) ha rfl fun _ _ => rfl

theorem bindTop (ha : a.WellFormed) (htop : a.IsTop top) (v : Value) (path : ValuePath) :
    Deepens a (a.bind top v path) := by
  refine of_blocks (.bindTop htop trivial v path) ha rfl fun σ hσ => Scopes.bindings_set_of_ne _ ?_ v path
  rintro rfl
  rw [scopes_bind, Scopes.parent?_set, htop.2] at hσ
  cases hσ

theorem newChild (ha : a.WellFormed) (hs : s < a.scopes.size) : Deepens a (a.newChild s).2 :=
  of_blocks (.single (.newChild s hs)) ha rfl fun σ _ => Scopes.bindings_push_same _ _ σ

theorem newRoot (ha : a.WellFormed) : Deepens a a.newRoot.2 :=
  of_blocks (.single .newRoot) ha rfl fun σ _ => Scopes.bindings_push_same _ _ σ

/-- A new block sees what is inside it in its own scope. -/
theorem push (ha : a.WellFormed) {b : Block} (hs : b.scope < a.scopes.size)
    (hc : ∀ c ∈ b.children, c < a.blocks.size ∧ (a.block c).scope = b.scope) : Deepens a (a.push b).2 := by
  have hchange : Changes (fun _ => True) a (a.push b).2 := by
    refine .single (.push b hs trivial fun c hmem => ⟨(hc c hmem).1, ?_⟩)
    rw [home, (hc c hmem).2]
  have hold {x : BlockId} (hx : x < a.blocks.size) : (a.push b).2.block x = a.block x := by
    rw [block_push, if_neg (Nat.ne_of_lt hx)]
  refine of_same hchange ha (fun _ _ => rfl) (fun x hx => by rw [hold hx]) fun x c hx hmem => ?_
  rw [size_blocks_push] at hx
  rcases Nat.lt_or_eq_of_le (Nat.le_of_lt_succ hx) with hlt | rfl
  · rw [hold hlt] at hmem
    exact .inl ⟨hlt, hmem⟩
  · have hnew : (a.push b).2.block a.blocks.size = b := by rw [block_push, if_pos rfl]
    rw [hnew] at hmem
    obtain ⟨hlt, hscope⟩ := hc c hmem
    refine .inr (.of_scope ?_)
    rw [hnew, hold hlt, hscope]

/-- A change of a block that leaves its scope and puts nothing inside it. -/
theorem modify {f : Block → Block} (h : Changes (fun _ => True) a (a.modify x f)) (ha : a.WellFormed)
    (hscope : ∀ b, (f b).scope = b.scope) (hchildren : ∀ b, (f b).children ⊆ b.children) :
    Deepens a (a.modify x f) := by
  refine of_same h ha (fun _ _ => rfl) (fun y _ => a.modify_same Block.scope x hscope y) fun y c hy hc => .inl ?_
  rw [size_blocks_modify] at hy
  rw [block_modify] at hc
  split at hc
  · exact ⟨hy, hchildren _ hc⟩
  · exact ⟨hy, hc⟩

theorem removeChild (ha : a.WellFormed) (hx : x < a.blocks.size) (y : BlockId) :
    Deepens a (a.removeChild x y) :=
  modify (.single (.remove x y hx trivial)) ha (fun _ => rfl) fun _ => List.filter_subset_self _

theorem rename (ha : a.WellFormed) (hx : x < a.blocks.size) (kind : BlockKind) :
    Deepens a (a.modify x fun b => { b with kind, labels := [] }) :=
  modify (.single (.rename x kind hx trivial)) ha (fun _ => rfl) fun _ => List.Subset.refl _

/-- A block that sees no filled scope may be moved to another place of this kind. -/
theorem place (ha : a.WellFormed) (hx : a.Has top x) (hs : s < a.scopes.size)
    (htop : a.scopes.root s = top) (hclear : a.scopes.Clear (a.block x).scope) (hnew : a.scopes.Clear s) :
    Deepens a (a.modify x fun b => { b with scope := s }) := by
  have hrests : Rests a (a.modify x fun b => { b with scope := s }) := by
    refine ⟨ha, .single (.place x s hx.1 trivial hs (htop.trans hx.2.symm)), fun _ _ => rfl, ?_⟩
    intro y _
    rw [block_modify]
    split
    · next hy => exact .inr ⟨hy.1 ▸ hclear, hnew⟩
    · exact .inl rfl
  refine hrests.deepens (fun σ hσ hlt => absurd hσ.lt_size (Nat.not_lt_of_le hlt)) fun y c hy hc => .inl ?_
  rw [size_blocks_modify] at hy
  have hsame : ((a.modify x fun b => { b with scope := s }).block y).children = (a.block y).children :=
    a.modify_same Block.children x (by intro _; rfl) y
  exact ⟨hy, hsame ▸ hc⟩

/-- A block that sees all filled scopes that another sees may be put inside it. -/
theorem adopt (ha : a.WellFormed) (hx : a.Has root x) (hy : a.Has root y) (hxy : a.Encloses x y) :
    Deepens a (a.modify x fun b => { b with children := b.children ++ [y] }) := by
  have hscope (z : BlockId) : ((a.modify x fun b => { b with children := b.children ++ [y] }).block z).scope
      = (a.block z).scope := a.modify_same Block.scope x (by intro _; rfl) z
  refine of_same (.single (.adopt x y hx.1 trivial hy.1 (hy.2.trans hx.2.symm))) ha (fun _ _ => rfl)
    (fun z _ => hscope z) fun z c hz hc => ?_
  rw [size_blocks_modify] at hz
  rw [block_modify] at hc
  split at hc
  · next hzx =>
    obtain rfl := hzx.1
    rcases List.mem_append.mp hc with hc | hc
    · exact .inl ⟨hz, hc⟩
    · obtain rfl := List.mem_singleton.mp hc
      refine .inr fun σ hσ hmem => ?_
      rw [hscope, scopes_modify] at hmem ⊢
      exact hxy σ hσ hmem
  · exact .inl ⟨hz, hc⟩

end Deepens

end Arena

end InfraConfig
