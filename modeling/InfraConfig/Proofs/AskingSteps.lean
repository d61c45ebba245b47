import InfraConfig.Proofs.BlockNames
import InfraConfig.Proofs.FileRequests

/-!
# Steps that ask for files

Between two moments in which files are read, steps of a run can only ask for more of them. What they ask for is
asked by attributes of blocks, and no step makes an attribute that was not written before.
-/

namespace InfraConfig

theorem FileTable.want_want (t : FileTable) (xs ys : List String) : (t.want xs).want ys = t.want (xs ++ ys) := by
  simp only [want, List.foldl_append]

namespace Arena

/-- An attribute of a block. -/
def HasAttribute (a : Arena) (attr : Attribute) : Prop :=
  ∃ id : Nat, attr ∈ (a.block id).attributes

/-- What attributes of blocks may ask for: a file that has not been read, by a call of a file function. -/
structure MayAsk (a : Arena) (p : String) : Prop where
  pending : a.files.Pending p
  called : ∃ attr, a.HasAttribute attr ∧ attr.value.callsFiles = true

/-- A step that reads no file. The blocks have the same attributes before and after. -/
structure Demands (a b : Arena) : Prop where
  attributes : ∀ attr, b.HasAttribute attr ↔ a.HasAttribute attr
  files : ∃ paths, b.files = a.files.want paths ∧ ∀ p ∈ paths, a.MayAsk p

variable {a b c : Arena} {id : BlockId} {attr : Attribute} {attrs : List Attribute} {p : String}

theorem mem_asked {block : Block} (h : p ∈ a.asked block attr) :
    a.files.Pending p ∧ attr.value.callsFiles = true := by
  rw [asked] at h
  split at h
  · exact Expr.mem_askedFiles h
  · cases h

theorem HasAttribute.of_mem (h : attr ∈ (a.block id).attributes) : a.HasAttribute attr := ⟨id, h⟩

namespace Demands

theorem refl (a : Arena) : Demands a a := ⟨fun _ => Iff.rfl, [], rfl, by simp⟩

theorem trans (h : Demands a b) (k : Demands b c) : Demands a c := by
  obtain ⟨xs, hxs, hasked⟩ := h.files
  obtain ⟨ys, hys, hmore⟩ := k.files
  refine ⟨fun attr => (k.attributes attr).trans (h.attributes attr), xs ++ ys, ?_, fun p hp => ?_⟩
  · rw [hys, hxs, FileTable.want_want]
  · rcases List.mem_append.mp hp with hp | hp
    · exact hasked p hp
    · obtain ⟨hpending, attr, hattr, hcalls⟩ := hmore p hp
      rw [hxs] at hpending
      exact ⟨hpending.congr rfl rfl, attr, (h.attributes attr).mp hattr, hcalls⟩

theorem ofBlocks (h : b.blocks = a.blocks) (hfiles : b.files = a.files) : Demands a b := by
  refine ⟨fun attr => ?_, [], hfiles, by simp⟩
  simp only [HasAttribute, block, h]

theorem modify (a : Arena) (id : BlockId) {f : Block → Block} (hf : ∀ b, (f b).attributes = b.attributes) :
    Demands a (a.modify id f) := by
  refine ⟨fun attr => ?_, [], rfl, by simp⟩
  simp only [HasAttribute, a.modify_same Block.attributes id hf]

/-- A block that has its attributes from another one. -/
theorem push (a : Arena) {b : Block} (h : ∀ attr ∈ b.attributes, a.HasAttribute attr) : Demands a (a.push b).2 := by
  refine ⟨fun attr => ⟨?_, ?_⟩, [], rfl, by simp⟩
  · rintro ⟨id, hattr⟩
    rw [block_push] at hattr
    split at hattr
    · exact h attr hattr
    · exact ⟨id, hattr⟩
  · rintro ⟨id, hattr⟩
    -- A block with attributes is one of those that are there, and stays at its place.
    have hlt : id < a.blocks.size := by
      by_contra hge
      rw [a.block_of_size_le (Nat.le_of_not_lt hge)] at hattr
      cases hattr
    exact ⟨id, by rwa [block_push, if_neg (Nat.ne_of_lt hlt)]⟩

theorem noting (a : Arena) (block : Block) (h : ∀ attr ∈ attrs, a.HasAttribute attr) : Demands a (a.noting block attrs) := by
  refine ⟨fun attr => Iff.rfl, attrs.flatMap (a.asked block), rfl, fun p hp => ?_⟩
  obtain ⟨attr, hattr, hp⟩ := List.mem_flatMap.mp hp
  obtain ⟨hpending, hcalls⟩ := mem_asked hp
  exact ⟨hpending, attr, h attr hattr, hcalls⟩

theorem foldl {α : Type} {f : Arena → α → Arena} (hf : ∀ b x, Demands b (f b x)) (xs : List α) (a : Arena) :
    Demands a (xs.foldl f a) :=
  List.foldlRecOn xs f (.refl a) fun b hb x _ => hb.trans (hf b x)

theorem mapThrough {α β : Type} {f : Arena → α → β × Arena} (hf : ∀ b x, Demands b (f b x).2) (a : Arena)
    (xs : List α) : Demands a (mapThrough f a xs).2 :=
  mapThrough_induction (.refl a) fun b hb x _ => hb.trans (hf b x)

end Demands

/-! ## Placing -/

/-- Scopes are no part of what a block asks for. -/
theorem demands_rescopeUpTo (depth : Nat) (a : Arena) (id : BlockId) (scope : ScopeId) :
    Demands a (rescopeUpTo depth a id scope) :=
  rescopeUpTo_induction (fun _ id _ hb => hb.trans (.modify _ id (by intro _; rfl)))
    (fun _ _ hb => hb.trans (.ofBlocks rfl rfl)) (.refl a) depth id scope

theorem demands_copyUpTo (scope : ScopeId) (depth : Nat) (a : Arena) (id : BlockId) :
    Demands a (copyUpTo scope depth a id).2 := by
  induction depth generalizing a id with
  | zero => exact .push a fun attr hattr => .of_mem hattr
  | succ depth ih =>
    rw [copyUpTo]
    have hinside : Demands a (InfraConfig.mapThrough (copyUpTo scope depth) a (a.block id).children).2 := .mapThrough ih a _
    exact hinside.trans (.push _ fun attr hattr => (hinside.attributes attr).mpr (.of_mem hattr))

theorem demands_clone (a : Arena) (id : BlockId) (index : Value) : Demands a (a.clone id index).2 := by
  let marked := (a.copyBelow id).2.markInstance (a.copyBelow id).1 (instanceKey (a.block id) index)
  have hplaced : Demands a (a.newChild (a.block id).scope).2 := .ofBlocks rfl rfl
  have hcopied : Demands a (a.copyBelow id).2 := hplaced.trans (demands_copyUpTo _ _ _ id)
  have hmarked : Demands (a.copyBelow id).2 marked := .modify _ _ (by intro _; rfl)
  have hbound : Demands marked (marked.bindIndex a.scopes.size index) :=
    .ofBlocks (blocks_bindIndex _ _ _) (files_bindIndex _ _ _)
  rw [clone_eq]
  exact ((hcopied.trans hmarked).trans hbound).trans (.modify _ _ (by intro _; rfl))

theorem demands_copyBinding (a : Arena) (root : ScopeId) (source target : BlockId) :
    Demands a (a.copyBinding root source target) := by
  rw [copyBinding]
  split
  · split
    · exact .ofBlocks rfl rfl
    · exact .refl a
  · exact .refl a

theorem demands_bindAt (a : Arena) (root : ScopeId) (id : BlockId) (v : Value) : Demands a (a.bindAt root id v) := by
  rw [bindAt]
  split
  · exact .ofBlocks rfl rfl
  · exact .refl a

/-! ## Expansion -/

theorem demands_cloneIndex (root : ScopeId) (id : BlockId) (a : Arena) (i : Nat) : Demands a (cloneIndex root id a i).2 := by
  rw [cloneIndex]
  refine ((demands_clone a id _).trans (demands_copyBinding _ _ _ _)).trans (.noting _ _ fun attr hattr => ?_)
  exact .of_mem hattr

theorem demands_cloneElement (root : ScopeId) (id : BlockId) (binding : String) (isDynamic : Bool) (a : Arena)
    (element : Value × Value) : Demands a (cloneElement root id binding isDynamic a element).2 := by
  obtain ⟨key, value⟩ := element
  rw [cloneElement]
  dsimp only
  have hclone := demands_clone a id key
  generalize a.clone id key = cloned at hclone ⊢
  have hnames (b : Arena) (name : String) :
      Demands b ((b.bind (cloned.2.block cloned.1).scope key [name, "key"]).bind (cloned.2.block cloned.1).scope value
        [name, "value"]) := .ofBlocks rfl rfl
  exact (hclone.trans (.foldl hnames _ _)).trans (demands_copyBinding _ _ _ _)

theorem hasAttribute_of_attribute? {name : String} (h : (a.block id).attribute? name = some attr) :
    ∀ other ∈ [attr], a.HasAttribute other := by
  intro other hother
  rw [List.mem_singleton.mp hother]
  exact .of_mem (List.mem_of_find?_eq_some h)

theorem demands_expand (kind : Repetition) (root : ScopeId) (a : Arena) (id : BlockId) :
    Demands a (kind.expand root a id).2 := by
  rcases (a.block id).spent_or kind with hspent | ⟨attr, hattr, happlies⟩
  · rw [expand_of_spent hspent]
    exact .refl a
  · have hnoted : Demands a (a.noting (a.block id) [attr]) := .noting _ _ (hasAttribute_of_attribute? hattr)
    cases kind with
    | count =>
      rw [expand_count root hattr happlies]
      exact (hnoted.trans (.mapThrough (demands_cloneIndex root id) _ _)).trans (demands_bindAt _ _ _ _)
    | forEach =>
      by_cases hcollection : (a.value (a.block id) attr).isIterable = true
      · rw [expand_elements root hattr happlies hcollection]
        exact (hnoted.trans (.mapThrough (demands_cloneElement root id _ _) _ _)).trans (demands_bindAt _ _ _ _)
      · rw [expand_noCollection root hattr happlies hcollection]
        exact hnoted

theorem demands_expandCounts (a : Arena) (root : ScopeId) (ids : List BlockId) : Demands a (a.expandCounts root ids).2 :=
  .mapThrough (demands_expand .count root) a ids

theorem demands_expandForEach (a : Arena) (root : ScopeId) (ids : List BlockId) : Demands a (a.expandForEach root ids).2 :=
  .mapThrough (demands_expand .forEach root) a ids

theorem demands_inject (a : Arena) (parent child : BlockId) (kind : String) : Demands a (a.inject parent child kind) := by
  obtain ⟨noted, values, path, hnoted, heq⟩ := inject_eq a parent child kind
  have hrenamed : Demands a (a.renamed child kind) := .modify _ _ (by intro _; rfl)
  have hnoting : Demands (a.renamed child kind) noted := hnoted ▸ .noting _ _ fun attr hattr => .of_mem hattr
  have hbind (b : Arena) (w : String × Value) :
      Demands b (b.bind (noted.scopes.root (noted.block parent).scope) w.2 (path w.1)) := .ofBlocks rfl rfl
  rw [heq]
  exact ((hrenamed.trans hnoting).trans (.foldl hbind _ _)).trans (.modify _ _ (by intro _; rfl))

theorem demands_expandDynamicUpTo (root : ScopeId) (depth : Nat) (a : Arena) (id : BlockId) :
    Demands a (expandDynamicUpTo root depth a id) := by
  induction depth generalizing a id with
  | zero => exact .refl a
  | succ depth ih =>
    rw [expandDynamicUpTo]
    dsimp only
    refine (Demands.foldl ih _ _).trans (.foldl (fun b dynamic => ?_) _ _)
    split
    · exact .refl b
    · have hremoved : Demands b (b.removeChild id dynamic) := .modify _ _ (by intro _; rfl)
      refine (hremoved.trans (demands_expandForEach _ _ _)).trans (.foldl (fun c copy => ?_) _ _)
      split
      · exact (ih c _).trans (demands_inject _ _ _ _)
      · exact .refl c

end Arena

end InfraConfig
