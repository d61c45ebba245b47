import InfraConfig.ModuleRun.Calls
import InfraConfig.Proofs.Changes

/-!
# Placing and expanding blocks as changes

Adding, copying, moving and rendering blocks of a module changes that module only, and what is made of a
block of a module stands in that module.
-/

namespace InfraConfig

/-- An instance of a block, in a scope and with children of its own. -/
def Block.asInstance (b : Block) (key : InstanceKey) (scope : ScopeId) (children : List BlockId) : Block :=
  { b with
    labels := Arena.extendLabel b.labels key.text, children, scope, expanded := true, clones := 0, key := some key }

namespace Arena

/-- A block of the module whose scope at the top is `top`. -/
def Has (a : Arena) (top : ScopeId) (id : BlockId) : Prop :=
  id < a.blocks.size ∧ a.home id = top

/-- A scope at the top of a module. -/
def IsTop (a : Arena) (top : ScopeId) : Prop :=
  top < a.scopes.size ∧ a.scopes.parent? top = none

variable {P : ScopeId → Prop} {a b : Arena} {top : ScopeId}

theorem Has.changes {id : BlockId} (h : a.Has top id) (ha : a.WellFormed) (hab : Changes P a b) : b.Has top id :=
  ⟨Nat.lt_of_lt_of_le h.1 hab.size_blocks_le, (hab.home_eq ha h.1).trans h.2⟩

theorem IsTop.changes (h : a.IsTop top) (hab : Changes P a b) : b.IsTop top :=
  ⟨Nat.lt_of_lt_of_le h.1 hab.size_scopes_le, (hab.parent?_eq h.1).trans h.2⟩

theorem IsTop.root_eq (h : a.IsTop top) : a.scopes.root top = top :=
  Scopes.root_of_root h.2

theorem Has.child {id : BlockId} (h : a.Has top id) (ha : a.WellFormed) {c : BlockId}
    (hc : c ∈ (a.block id).children) : a.Has top c := by
  obtain ⟨hlt, hhome⟩ := ha.inside id h.1 c hc
  exact ⟨hlt, hhome.trans h.2⟩

/-! ## Loops -/

theorem Changes.foldl {α : Type} {f : Arena → α → Arena} {xs : List α}
    (hf : ∀ b, Changes P a b → ∀ x ∈ xs, Changes P b (f b x)) : Changes P a (xs.foldl f a) :=
  List.foldlRecOn xs f .refl fun b hb x hx => hb.trans (hf b hb x hx)

/-- A loop whose steps are changes, and whose results have a property that no change takes away. -/
theorem Changes.mapThrough_pairs {α β : Type} {f : Arena → α → β × Arena} {Q : Arena → α → β → Prop}
    (hQ : ∀ {b c x y}, b.WellFormed → Changes P b c → Q b x y → Q c x y) (ha : a.WellFormed) {xs : List α}
    (hf : ∀ b, Changes P a b → ∀ x ∈ xs, Changes P b (f b x).2 ∧ Q (f b x).2 x (f b x).1) :
    Changes P a (mapThrough f a xs).2 ∧ List.Forall₂ (Q (mapThrough f a xs).2) xs (mapThrough f a xs).1 :=
  InfraConfig.mapThrough_pairs .refl (fun _ _ => .refl) Changes.trans (fun hb => hQ (hb.wellFormed ha)) hf

theorem Changes.mapThrough {α β : Type} {f : Arena → α → β × Arena} {Q : Arena → β → Prop}
    (hQ : ∀ {b c y}, b.WellFormed → Changes P b c → Q b y → Q c y) (ha : a.WellFormed) {xs : List α}
    (hf : ∀ b, Changes P a b → ∀ x ∈ xs, Changes P b (f b x).2 ∧ Q (f b x).2 (f b x).1) :
    Changes P a (mapThrough f a xs).2 ∧ ∀ y ∈ (mapThrough f a xs).1, Q (mapThrough f a xs).2 y :=
  mapThrough_all .refl (fun _ _ => .refl) Changes.trans (fun hb => hQ (hb.wellFormed ha)) hf

/-- Results that are blocks of one module. -/
theorem Changes.mapThrough_has {α : Type} {f : Arena → α → BlockId × Arena} (ha : a.WellFormed)
    {xs : List α}
    (hf : ∀ b, Changes P a b → ∀ x ∈ xs, Changes P b (f b x).2 ∧ (f b x).2.Has top (f b x).1) :
    Changes P a (InfraConfig.mapThrough f a xs).2
      ∧ ∀ id ∈ (InfraConfig.mapThrough f a xs).1, (InfraConfig.mapThrough f a xs).2.Has top id :=
  Changes.mapThrough (Q := fun c id => c.Has top id) (fun hb hbc h => h.changes hb hbc) ha hf

/-! ## Single changes -/

theorem Changes.noting (a : Arena) (b : Block) (attrs : List Attribute) : Changes P a (a.noting b attrs) :=
  .single (.record _ _ rfl)

theorem Changes.addSource (a : Arena) (path text : String) : Changes P a (a.addSource path text) :=
  .single (.record _ _ rfl)

theorem Changes.bindTop (h : a.IsTop top) (hp : P top) (v : Value) (path : ValuePath) :
    Changes P a (a.bind top v path) :=
  .single (.bind top v path h.1 (h.root_eq.symm ▸ hp))

/-! ## Insertion -/

mutual

theorem changes_insert {scope : ScopeId} (caller : Option BlockId) :
    ∀ (t : BlockTree) {a : Arena}, a.WellFormed → scope < a.scopes.size → P (a.scopes.root scope) →
      Changes P a (insert scope caller a t).2
        ∧ (insert scope caller a t).2.Has (a.scopes.root scope) (insert scope caller a t).1
  | .node kind labels attributes children range, a, ha, hs, hp => by
    obtain ⟨hchildren, hids⟩ := changes_insertAll caller children ha hs hp
    have hscopes := (extends_insertAll scope caller children a).scopes
    rw [insert]
    refine ⟨hchildren.tail (.push _ ?_ ?_ ?_), by simp, ?_⟩
    · exact hscopes ▸ hs
    · exact hscopes ▸ hp
    · exact fun c hc => ⟨(hids c hc).1, (hids c hc).2.trans (by rw [hscopes])⟩
    · rw [home, block_push, push_fst, if_pos rfl, scopes_push, hscopes]

theorem changes_insertAll {scope : ScopeId} (caller : Option BlockId) :
    ∀ (trees : List BlockTree) {a : Arena}, a.WellFormed → scope < a.scopes.size →
      P (a.scopes.root scope) → Changes P a (insertAll scope caller a trees).2
        ∧ ∀ id ∈ (insertAll scope caller a trees).1,
            (insertAll scope caller a trees).2.Has (a.scopes.root scope) id
  | [], a, _, _, _ => ⟨.refl, by simp [insertAll]⟩
  | t :: rest, a, ha, hs, hp => by
    obtain ⟨hfirst, hid⟩ := changes_insert caller t ha hs hp
    have hscopes := (extends_insert scope caller t a).scopes
    have hmid := hfirst.wellFormed ha
    obtain ⟨hrest, hids⟩ := changes_insertAll caller rest hmid (hscopes ▸ hs) (hscopes ▸ hp)
    rw [insertAll]
    refine ⟨hfirst.trans hrest, fun id hmem => ?_⟩
    rcases List.mem_cons.mp hmem with rfl | hmem
    · exact hid.changes hmid hrest
    · exact hscopes ▸ hids id hmem

end

theorem extends_insertFiles (scope : ScopeId) (caller : Option BlockId) (files : List SourceFile)
    (a : Arena) : Extends a (insertFiles scope caller a files).2 := by
  induction files generalizing a with
  | nil => exact .refl a
  | cons file files ih =>
    rw [insertFiles]
    exact ((extends_insertAll scope caller file.blocks a).trans (.addSource _ _ _)).trans (ih _)

theorem changes_insertFiles {scope : ScopeId} (caller : Option BlockId) (files : List SourceFile)
    (ha : a.WellFormed) (hs : scope < a.scopes.size) (hp : P (a.scopes.root scope)) :
    Changes P a (insertFiles scope caller a files).2
      ∧ ∀ id ∈ (insertFiles scope caller a files).1,
          (insertFiles scope caller a files).2.Has (a.scopes.root scope) id := by
  induction files generalizing a with
  | nil => exact ⟨.refl, by simp [insertFiles]⟩
  | cons file files ih =>
    obtain ⟨hfirst, hids⟩ := changes_insertAll caller file.blocks ha hs hp
    have hscopes := (extends_insertAll scope caller file.blocks a).scopes
    have hsource : Changes P (insertAll scope caller a file.blocks).2 _ :=
      Changes.addSource _ file.path file.text
    have hmid := (hfirst.trans hsource).wellFormed ha
    obtain ⟨hrest, hmore⟩ := ih hmid (hscopes ▸ hs) (hscopes ▸ hp)
    rw [insertFiles]
    refine ⟨(hfirst.trans hsource).trans hrest, fun id hmem => ?_⟩
    rcases List.mem_append.mp hmem with hmem | hmem
    · exact ((hids id hmem).changes (hfirst.wellFormed ha) hsource).changes hmid hrest
    · exact hscopes ▸ hmore id hmem

/-! ## Copies -/

theorem extends_mapThrough {α β : Type} {f : Arena → α → β × Arena} (hf : ∀ a x, Extends a (f a x).2)
    (a : Arena) (xs : List α) : Extends a (mapThrough f a xs).2 :=
  mapThrough_induction (.refl a) fun b hb x _ => hb.trans (hf b x)

theorem extends_copyUpTo (scope : ScopeId) (depth : Nat) (a : Arena) (id : BlockId) :
    Extends a (copyUpTo scope depth a id).2 := by
  induction depth generalizing a id with
  | zero => exact .push a _
  | succ depth ih =>
    rw [copyUpTo]
    exact (extends_mapThrough ih a _).trans (.push _ _)

theorem size_le_copyUpTo (scope : ScopeId) (depth : Nat) (a : Arena) (id : BlockId) :
    a.blocks.size ≤ (copyUpTo scope depth a id).1
      ∧ (copyUpTo scope depth a id).1 < (copyUpTo scope depth a id).2.blocks.size := by
  cases depth with
  | zero => exact ⟨Nat.le_refl _, by rw [copyUpTo]; simp⟩
  | succ depth =>
    rw [copyUpTo]
    exact ⟨(extends_mapThrough (extends_copyUpTo scope depth) a _).size, by simp⟩

theorem block_copyUpTo (scope : ScopeId) (depth : Nat) (a : Arena) (id : BlockId) :
    ∃ children, (copyUpTo scope depth a id).2.block (copyUpTo scope depth a id).1
      = { a.block id with children, scope, expanded := false, clones := 0, key := none } := by
  cases depth <;> exact ⟨_, by rw [copyUpTo, push_fst, block_push, if_pos rfl]⟩

/-- A block is copied after what is inside it. -/
theorem copyUpTo_eq_push {scope : ScopeId} (depth : Nat) (id : BlockId) (ha : a.WellFormed)
    (hs : scope < a.scopes.size) (hp : P (a.scopes.root scope)) :
    ∃ (mid : Arena) (children : List BlockId), Changes P a mid ∧ mid.scopes = a.scopes ∧
      (∀ c ∈ children, mid.Has (a.scopes.root scope) c) ∧
      copyUpTo scope depth a id
        = mid.push { a.block id with children, scope, expanded := false, clones := 0, key := none } := by
  induction depth generalizing a id with
  | zero => exact ⟨a, [], .refl, rfl, by simp, rfl⟩
  | succ depth ih =>
    have hscopes := (extends_mapThrough (extends_copyUpTo scope depth) a (a.block id).children).scopes
    have hstep (b : Arena) (hb : Changes P a b) (c : BlockId) : Changes P b (copyUpTo scope depth b c).2
        ∧ (copyUpTo scope depth b c).2.Has (a.scopes.root scope) (copyUpTo scope depth b c).1 := by
      have hroot : b.scopes.root scope = a.scopes.root scope := hb.root_eq ha hs
      have hsb := Nat.lt_of_lt_of_le hs hb.size_scopes_le
      obtain ⟨mid, children, hmid, hsame, hids, heq⟩ := ih c (hb.wellFormed ha) hsb (hroot ▸ hp)
      rw [heq]
      refine ⟨hmid.tail (.push _ ?_ ?_ fun d hd => ?_), by simp, ?_⟩
      · exact hsame ▸ hsb
      · exact hsame ▸ hroot ▸ hp
      · exact ⟨(hids d hd).1, (hids d hd).2.trans (by rw [hsame])⟩
      · rw [home, block_push, push_fst, if_pos rfl, scopes_push, hsame]
        exact hroot
    obtain ⟨hchildren, hids⟩ := Changes.mapThrough_has ha fun b hb c _ => hstep b hb c
    exact ⟨_, _, hchildren, hscopes, hids, rfl⟩

/-! ## Scopes of blocks -/

theorem root_newChild (ha : a.WellFormed) {parent : ScopeId} (hs : parent < a.scopes.size) :
    (a.newChild parent).2.scopes.root a.scopes.size = a.scopes.root parent := by
  have hnew : Changes (fun _ => False) a (a.newChild parent).2 := .single (.newChild parent hs)
  have hparent : (a.newChild parent).2.scopes.parent? a.scopes.size = some parent := by
    rw [scopes_newChild, Scopes.parent?_push, if_pos rfl]
  rw [Scopes.root_of_parent (hnew.wellFormed ha).ordered hparent, hnew.root_eq ha hs]

theorem changes_rescopeUpTo {scope : ScopeId} (depth : Nat) {id : BlockId} (ha : a.WellFormed)
    (hid : a.Has top id) (hs : scope < a.scopes.size) (htop : a.scopes.root scope = top) (hp : P top) :
    Changes P a (rescopeUpTo depth a id scope) := by
  have hplace {a : Arena} {id : BlockId} {scope : ScopeId} (hid : a.Has top id)
      (hs : scope < a.scopes.size) (htop : a.scopes.root scope = top) :
      Changes P a (a.modify id fun b => { b with scope }) :=
    .single (.place id scope hid.1 (hid.2.symm ▸ hp) hs (htop.trans hid.2.symm))
  induction depth generalizing a id scope with
  | zero => exact hplace hid hs htop
  | succ depth ih =>
    rw [rescopeUpTo]
    have hfirst := hplace hid hs htop
    have hmid := hfirst.wellFormed ha
    refine hfirst.trans (Changes.foldl fun b hb child hchild => ?_)
    have hs' := Nat.lt_of_lt_of_le hs hb.size_scopes_le
    have hnew : Changes P b (b.newChild scope).2 := .single (.newChild scope hs')
    have hwell := hb.wellFormed hmid
    have hin : (b.newChild scope).2.Has top child :=
      (((hid.changes ha hfirst).child hmid hchild).changes hmid hb).changes hwell hnew
    refine hnew.trans (ih (hnew.wellFormed hwell) hin (by simp) ?_)
    exact (root_newChild hwell hs').trans ((hb.root_eq hmid hs).trans htop)

/-! ## Instances -/

theorem modify_push (a : Arena) (b : Block) (f : Block → Block) :
    (a.push b).2.modify a.blocks.size f = (a.push (f b)).2 := by
  have hblocks : (a.blocks.push b).modify a.blocks.size f = a.blocks.push (f b) := by
    refine Array.ext_getElem? fun i => ?_
    rw [Array.getElem?_modify, Array.getElem?_push, Array.getElem?_push]
    by_cases hi : i = a.blocks.size
    · simp [hi]
    · have hne : a.blocks.size ≠ i := fun h => hi h.symm
      simp [hi, hne]
  rw [modify, push, push]
  simp only [hblocks]

/-- The key that an instance gets. -/
def instanceKey (b : Block) (index : Value) : InstanceKey :=
  (InstanceKey.ofValue? index).getD (.index b.clones)

theorem some_instanceKey {index : Value} (b : Block) (h : (InstanceKey.ofValue? index).isSome) :
    some (instanceKey b index) = InstanceKey.ofValue? index := by
  obtain ⟨key, hkey⟩ := Option.isSome_iff_exists.mp h
  rw [instanceKey, hkey]
  rfl

/-- The copy of a block that an instance is made of, in a new scope below that of the block. -/
def copyBelow (a : Arena) (id : BlockId) : BlockId × Arena :=
  (a.newChild (a.block id).scope).2.copyTree id a.scopes.size

/-- Marks a block as the instance with a key. -/
def markInstance (a : Arena) (id : BlockId) (key : InstanceKey) : Arena :=
  a.modify id fun c => { c with labels := extendLabel c.labels key.text, expanded := true, key := some key }

/-- Binds the index of an instance in its scope, if it is a number. -/
def bindIndex (a : Arena) (scope : ScopeId) (index : Value) : Arena :=
  if isNumber index then a.bind scope index ["count", "index"] else a

/-- Counts one more instance of a block. -/
def countInstance (a : Arena) (id : BlockId) : Arena :=
  a.modify id fun b => { b with clones := b.clones + 1 }

theorem clone_eq (a : Arena) (id : BlockId) (index : Value) : a.clone id index = ((a.copyBelow id).1,
    (((a.copyBelow id).2.markInstance (a.copyBelow id).1 (instanceKey (a.block id) index)).bindIndex a.scopes.size
      index).countInstance id) := rfl

@[simp] theorem blocks_bindIndex (a : Arena) (scope : ScopeId) (index : Value) :
    (a.bindIndex scope index).blocks = a.blocks := by
  rw [bindIndex]
  split <;> rfl

@[simp] theorem block_bindIndex (a : Arena) (scope : ScopeId) (index : Value) (id : BlockId) :
    (a.bindIndex scope index).block id = a.block id := by
  rw [block, blocks_bindIndex]
  rfl

@[simp] theorem files_bindIndex (a : Arena) (scope : ScopeId) (index : Value) :
    (a.bindIndex scope index).files = a.files := by
  rw [bindIndex]
  split <;> rfl

@[simp] theorem size_blocks_markInstance (a : Arena) (id : BlockId) (key : InstanceKey) :
    (a.markInstance id key).blocks.size = a.blocks.size :=
  size_blocks_modify _ _ _

@[simp] theorem size_blocks_countInstance (a : Arena) (id : BlockId) :
    (a.countInstance id).blocks.size = a.blocks.size :=
  size_blocks_modify _ _ _

theorem block_markInstance_of_ne {id x : BlockId} (a : Arena) (key : InstanceKey) (h : x ≠ id) :
    (a.markInstance id key).block x = a.block x := by
  rw [markInstance, block_modify, if_neg fun hsame => h hsame.1]

theorem block_countInstance_of_ne {id x : BlockId} (a : Arena) (h : x ≠ id) : (a.countInstance id).block x = a.block x := by
  rw [countInstance, block_modify, if_neg fun hsame => h hsame.1]

/-- What is bound for an instance is no part of its block. -/
theorem blocks_clone (a : Arena) (id : BlockId) (index : Value) : (a.clone id index).2.blocks
    = (((a.copyBelow id).2.markInstance (a.copyBelow id).1 (instanceKey (a.block id) index)).countInstance id).blocks := by
  rw [clone_eq, countInstance, countInstance, modify, modify, blocks_bindIndex]

theorem size_le_copyBelow (a : Arena) (id : BlockId) :
    a.blocks.size ≤ (a.copyBelow id).1 ∧ (a.copyBelow id).1 < (a.copyBelow id).2.blocks.size :=
  size_le_copyUpTo a.scopes.size _ (a.newChild (a.block id).scope).2 id

/-- The instance of a block has the children that were copied, and all else from the block and its key. -/
theorem block_markInstance (a : Arena) (id : BlockId) (key : InstanceKey) : ∃ children,
    ((a.copyBelow id).2.markInstance (a.copyBelow id).1 key).block (a.copyBelow id).1
      = (a.block id).asInstance key a.scopes.size children := by
  let first := (a.newChild (a.block id).scope).2
  obtain ⟨children, hcopy⟩ := block_copyUpTo a.scopes.size first.blocks.size first id
  refine ⟨children, ?_⟩
  rw [markInstance, block_modify, if_pos ⟨rfl, (size_le_copyBelow a id).2⟩]
  rw [show (a.copyBelow id).2.block (a.copyBelow id).1 = _ from hcopy]
  rfl

theorem block_clone {id : BlockId} (hid : id < a.blocks.size) (index : Value) : ∃ children,
    (a.clone id index).2.block (a.clone id index).1
      = (a.block id).asInstance (instanceKey (a.block id) index) a.scopes.size children := by
  obtain ⟨children, hmarked⟩ := block_markInstance a id (instanceKey (a.block id) index)
  have hne : (a.copyBelow id).1 ≠ id := Nat.ne_of_gt (Nat.lt_of_lt_of_le hid (size_le_copyBelow a id).1)
  rw [clone_eq, block_countInstance_of_ne _ hne, block_bindIndex]
  exact ⟨children, hmarked⟩

/-- A copy is added as an instance after what is inside it. -/
theorem changes_markInstance {id : BlockId} (ha : a.WellFormed) (hid : a.Has top id) (hp : P top) (key : InstanceKey) :
    Changes P a ((a.copyBelow id).2.markInstance (a.copyBelow id).1 key)
      ∧ ((a.copyBelow id).2.markInstance (a.copyBelow id).1 key).Has top (a.copyBelow id).1
      ∧ ((a.copyBelow id).2.markInstance (a.copyBelow id).1 key).scopes = (a.newChild (a.block id).scope).2.scopes := by
  let first := (a.newChild (a.block id).scope).2
  have hplaced := ha.placed id hid.1
  have hnew : Changes P a first := .single (.newChild _ hplaced)
  have hroot : first.scopes.root a.scopes.size = top := (root_newChild ha hplaced).trans hid.2
  have hscope : a.scopes.size < first.scopes.size := by simp [first]
  obtain ⟨mid, children, hmid, hsame, hids, hcopy⟩ :=
    copyUpTo_eq_push first.blocks.size id (hnew.wellFormed ha) hscope (hroot.symm ▸ hp)
  let made := (a.block id).asInstance key a.scopes.size children
  have hpush : Change P mid (mid.push made).2 := by
    refine .push made ?_ ?_ fun c hc => ?_
    · exact hsame ▸ hscope
    · exact hsame ▸ hroot.symm ▸ hp
    · exact ⟨(hids c hc).1, (hids c hc).2.trans (by rw [hsame]; rfl)⟩
  have hcopied : a.copyBelow id = mid.push
      { a.block id with children, scope := a.scopes.size, expanded := false, clones := 0, key := none } := hcopy
  have hmarked : (a.copyBelow id).2.markInstance (a.copyBelow id).1 key = (mid.push made).2 := by
    rw [hcopied, markInstance, push_fst, modify_push]
    rfl
  rw [hmarked, hcopied, push_fst]
  refine ⟨(hnew.trans hmid).tail hpush, ⟨by simp, ?_⟩, hsame⟩
  rw [home, block_push, if_pos rfl, scopes_push, hsame]
  exact hroot

/-- An instance of a block stands in a new scope below that of the block, under a key of its own. -/
theorem clone_spec {id : BlockId} (ha : a.WellFormed) (hid : a.Has top id) (hp : P top) (index : Value) :
    Changes P a (a.clone id index).2 ∧ (a.clone id index).2.Has top (a.clone id index).1
      ∧ ∃ children, (a.clone id index).2.block (a.clone id index).1
          = (a.block id).asInstance (instanceKey (a.block id) index) a.scopes.size children := by
  let marked := (a.copyBelow id).2.markInstance (a.copyBelow id).1 (instanceKey (a.block id) index)
  obtain ⟨hmarked, hmade, hscopes⟩ := changes_markInstance ha hid hp (instanceKey (a.block id) index)
  have hbound : Changes P marked (marked.bindIndex a.scopes.size index) := by
    rw [bindIndex]
    split
    · refine .single (.bind _ _ _ ?_ ?_)
      · exact hscopes ▸ (by simp)
      · rw [hscopes, root_newChild ha (ha.placed id hid.1)]
        exact show P (a.home id) from hid.2.symm ▸ hp
    · exact .refl
  have hall := hmarked.trans hbound
  have hin := hid.changes ha hall
  have hcounted : Changes P (marked.bindIndex a.scopes.size index) (a.clone id index).2 :=
    .single (.count id hin.1 (hin.2.symm ▸ hp))
  have hlater := hmade.changes (hmarked.wellFormed ha) (hbound.trans hcounted)
  exact ⟨hall.trans hcounted, hlater, block_clone hid.1 index⟩

/-- An instance in a module, with its key. -/
structure Made (a : Arena) (top : ScopeId) (key : Option InstanceKey) (made : BlockId) : Prop where
  has : a.Has top made
  key : (a.block made).key = key
  expanded : (a.block made).expanded = true

theorem Made.changes {key : Option InstanceKey} {made : BlockId} (h : Made a top key made)
    (ha : a.WellFormed) (hab : Changes P a b) : Made b top key made :=
  ⟨h.has.changes ha hab, (hab.key_eq h.has.1).trans h.key, (hab.expanded_eq h.has.1).trans h.expanded⟩

theorem clone_made {id : BlockId} (ha : a.WellFormed) (hid : a.Has top id) (hp : P top) (index : Value) :
    Made (a.clone id index).2 top (some (instanceKey (a.block id) index)) (a.clone id index).1 := by
  obtain ⟨-, hmade, children, hblock⟩ := clone_spec ha hid hp index
  exact ⟨hmade, congrArg Block.key hblock, congrArg Block.expanded hblock⟩

end Arena

end InfraConfig
