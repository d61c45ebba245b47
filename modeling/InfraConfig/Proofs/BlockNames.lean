import InfraConfig.Proofs.Fates

/-!
# Names of blocks

A block is called by its kind and its labels, and has the attributes that were written for it. Only contents of
dynamic blocks are ever given other names; every other block keeps its own, and an instance has those of its
block with its key after the last label.
-/

namespace InfraConfig

namespace Block

/-- What a block is called by. -/
def names (b : Block) : BlockKind × List String :=
  (b.kind, b.labels)

/-- What no step ever changes of a block. -/
def fixed (b : Block) : List Attribute × Bool × Option InstanceKey :=
  (b.attributes, b.expanded, b.key)

/-- The content of a dynamic block, or a block without labels. -/
def Nameless (b : Block) : Prop :=
  b.kind.name = "content" ∨ b.labels = []

variable {b c : Block}

theorem kind_of_names (h : b.names = c.names) : b.kind = c.kind := congrArg Prod.fst h

theorem labels_of_names (h : b.names = c.names) : b.labels = c.labels := congrArg Prod.snd h

theorem attributes_of_fixed (h : b.fixed = c.fixed) : b.attributes = c.attributes := congrArg (·.1) h

theorem expanded_of_fixed (h : b.fixed = c.fixed) : b.expanded = c.expanded := congrArg (·.2.1) h

theorem key_of_fixed (h : b.fixed = c.fixed) : b.key = c.key := congrArg (·.2.2) h

theorem Nameless.ofNames (h : b.Nameless) (hnames : c.names = b.names) : c.Nameless := by
  rw [Nameless, kind_of_names hnames, labels_of_names hnames]
  exact h

theorem label_of_names (h : b.names = c.names) : b.label = c.label := by
  rw [label, label, labels_of_names h]

theorem localName_of_names (h : b.names = c.names) : b.localName = c.localName := by
  rw [localName, localName, reference, reference, kind_of_names h, labels_of_names h]

end Block

namespace Arena

variable {a b c : Arena} {root : ScopeId} {id : BlockId} {ids made : List BlockId}

/-- Blocks keep what was written of them and, as long as they are called by any, their names. -/
structure KeepsText (a b : Arena) : Prop where
  size : a.blocks.size ≤ b.blocks.size
  fixed : ∀ id : Nat, id < a.blocks.size → (b.block id).fixed = (a.block id).fixed
  names : ∀ id : Nat, id < a.blocks.size → (b.block id).names = (a.block id).names
    ∨ (a.block id).Nameless ∧ (b.block id).labels = []

namespace KeepsText

theorem refl (a : Arena) : KeepsText a a :=
  ⟨Nat.le_refl _, fun _ _ => rfl, fun _ _ => .inl rfl⟩

theorem trans (h : KeepsText a b) (k : KeepsText b c) : KeepsText a c := by
  refine ⟨Nat.le_trans h.size k.size, fun id hid => ?_, fun id hid => ?_⟩
  · rw [k.fixed id (Nat.lt_of_lt_of_le hid h.size), h.fixed id hid]
  · rcases h.names id hid, k.names id (Nat.lt_of_lt_of_le hid h.size) with ⟨hab | ⟨ha, hb⟩, hbc | ⟨hb', hc⟩⟩
    · exact .inl (hbc.trans hab)
    · exact .inr ⟨hb'.ofNames hab.symm, hc⟩
    · exact .inr ⟨ha, (Block.labels_of_names hbc).trans hb⟩
    · exact .inr ⟨ha, hc⟩

theorem ofBlocks (h : b.blocks = a.blocks) : KeepsText a b := by
  have hsame (id : BlockId) : b.block id = a.block id := by rw [block, block, h]
  exact ⟨Nat.le_of_eq (congrArg Array.size h.symm), fun id _ => congrArg Block.fixed (hsame id),
    fun id _ => .inl (congrArg Block.names (hsame id))⟩

theorem ofExtends (h : Extends a b) : KeepsText a b :=
  ⟨h.size, fun id hid => congrArg Block.fixed (h.kept id hid),
    fun id hid => .inl (congrArg Block.names (h.kept id hid))⟩

theorem modify (a : Arena) (id : BlockId) {f : Block → Block} (hfixed : ∀ b, (f b).fixed = b.fixed)
    (hnames : ∀ b, (f b).names = b.names) : KeepsText a (a.modify id f) :=
  ⟨by simp, fun x _ => a.modify_same Block.fixed id hfixed x,
    fun x _ => .inl (a.modify_same Block.names id hnames x)⟩

/-- A change of a block that was not there at the beginning. -/
theorem modifyNew (h : KeepsText a b) (hid : a.blocks.size ≤ id) (f : Block → Block) :
    KeepsText a (b.modify id f) := by
  have hsame (x : Nat) (hx : x < a.blocks.size) : (b.modify id f).block x = b.block x := by
    rw [block_modify, if_neg fun h => absurd h.1 (Nat.ne_of_lt (Nat.lt_of_lt_of_le hx hid))]
  refine ⟨by simpa using h.size, fun x hx => ?_, fun x hx => ?_⟩
  · rw [hsame x hx, h.fixed x hx]
  · rw [hsame x hx]
    exact h.names x hx

theorem foldl {α : Type} {f : Arena → α → Arena} (hf : ∀ b x, KeepsText b (f b x)) (xs : List α) (a : Arena) :
    KeepsText a (xs.foldl f a) :=
  List.foldlRecOn xs f (.refl a) fun b hb x _ => hb.trans (hf b x)

theorem mapThrough {α β : Type} {f : Arena → α → β × Arena} (hf : ∀ b x, KeepsText b (f b x).2) (a : Arena)
    (xs : List α) : KeepsText a (mapThrough f a xs).2 :=
  mapThrough_induction (.refl a) fun b hb x _ => hb.trans (hf b x)

/-- The results of a loop, with a property that is kept when all blocks keep their texts. -/
theorem mapThrough_all {α β : Type} {f : Arena → α → β × Arena} {Q : Arena → β → Prop} {l : List α}
    (hQ : ∀ {b c y}, KeepsText b c → Q b y → Q c y)
    (hf : ∀ b, KeepsText a b → ∀ x ∈ l, KeepsText b (f b x).2 ∧ Q (f b x).2 (f b x).1) :
    ∀ y ∈ (InfraConfig.mapThrough f a l).1, Q (InfraConfig.mapThrough f a l).2 y :=
  (InfraConfig.mapThrough_all (R := KeepsText) (Q := Q) (.refl a) (fun b _ => .refl b) trans (fun _ => hQ) hf).2

theorem names_eq (h : KeepsText a b) {id : BlockId} (hid : id < a.blocks.size) (hnamed : ¬ (a.block id).Nameless) :
    (b.block id).names = (a.block id).names :=
  (h.names id hid).resolve_right fun hnone => hnamed hnone.1

end KeepsText

theorem keepsText_rescopeUpTo (depth : Nat) (a : Arena) (id : BlockId) (scope : ScopeId) :
    KeepsText a (rescopeUpTo depth a id scope) :=
  rescopeUpTo_induction (fun _ id _ hb => hb.trans (.modify _ id (by intro _; rfl) (by intro _; rfl)))
    (fun _ _ hb => hb.trans (.ofBlocks rfl)) (.refl a) depth id scope

/-! ## Instances -/

/-- An instance of a block has its attributes and, if the block is called by any, its names with a key. Where the
block has no `for_each`, the key is one that a `count` can give. -/
structure InstanceOf (b copy : Block) : Prop where
  attributes : copy.attributes = b.attributes
  expanded : copy.expanded = true
  indexed : (b.attribute? "for_each").isSome ∨ ∃ i : Nat, i < int32Limit ∧ copy.key = some (.index i)
  names : (∃ key, copy.key = some key ∧ copy.names = (b.kind, extendLabel b.labels key.text))
    ∨ b.Nameless ∧ copy.labels = []

theorem extendLabel_ne_nil {labels : List String} (h : labels ≠ []) (text : String) :
    extendLabel labels text ≠ [] := by
  rw [extendLabel, List.getLast?_eq_getLast_of_ne_nil h]
  simp

theorem extendLabel_nil (text : String) : extendLabel [] text = [] := rfl

namespace InstanceOf

variable {d d' copy copy' : Block}

theorem nameless_iff (h : InstanceOf d copy) : copy.Nameless ↔ d.Nameless := by
  rcases h.names with ⟨key, -, hnames⟩ | ⟨hnone, hcopy⟩
  · have hkind : copy.kind = d.kind := congrArg Prod.fst hnames
    have hlabels : copy.labels = extendLabel d.labels key.text := congrArg Prod.snd hnames
    rw [Block.Nameless, Block.Nameless, hkind, hlabels]
    refine or_congr Iff.rfl ⟨fun hnil => ?_, fun hnil => ?_⟩
    · by_contra hne
      exact extendLabel_ne_nil hne key.text hnil
    · rw [hnil, extendLabel_nil]
  · exact ⟨fun _ => hnone, fun _ => .inr hcopy⟩

/-- Whatever becomes of an instance, as long as it keeps its text. -/
theorem later (h : InstanceOf d copy) (hfixed : copy'.fixed = copy.fixed)
    (hnames : copy'.names = copy.names ∨ copy.Nameless ∧ copy'.labels = []) : InstanceOf d copy' := by
  refine ⟨(Block.attributes_of_fixed hfixed).trans h.attributes, (Block.expanded_of_fixed hfixed).trans h.expanded,
    h.indexed.imp_right fun ⟨i, hi, hkey⟩ => ⟨i, hi, (Block.key_of_fixed hfixed).trans hkey⟩, ?_⟩
  rcases hnames with hsame | ⟨hnone, hnone'⟩
  · refine h.names.imp (fun ⟨key, hkey, hcopy⟩ => ⟨key, ?_, hsame.trans hcopy⟩)
      fun ⟨hd, hcopy⟩ => ⟨hd, (Block.labels_of_names hsame).trans hcopy⟩
    exact (Block.key_of_fixed hfixed).trans hkey
  · exact .inr ⟨h.nameless_iff.mp hnone, hnone'⟩

/-- Whatever was before the instance was made, as long as the block kept its text. -/
theorem earlier (h : InstanceOf d copy) (hfixed : d.fixed = d'.fixed)
    (hnames : d.names = d'.names ∨ d'.Nameless ∧ d.labels = []) : InstanceOf d' copy := by
  have hasked : d.attribute? "for_each" = d'.attribute? "for_each" := by
    rw [Block.attribute?, Block.attribute?, Block.attributes_of_fixed hfixed]
  refine ⟨h.attributes.trans (Block.attributes_of_fixed hfixed), h.expanded, hasked ▸ h.indexed, ?_⟩
  rcases hnames with hsame | ⟨hnone', hnone⟩
  · refine h.names.imp (fun ⟨key, hkey, hcopy⟩ => ⟨key, hkey, ?_⟩) fun ⟨hd, hcopy⟩ => ⟨?_, hcopy⟩
    · rw [hcopy, Block.kind_of_names hsame, Block.labels_of_names hsame]
    · exact hd.ofNames hsame.symm
  · refine .inr ⟨hnone', h.names.elim (fun ⟨key, _, hcopy⟩ => ?_) And.right⟩
    have hlabels : copy.labels = extendLabel d.labels key.text := congrArg Prod.snd hcopy
    rw [hlabels, hnone, extendLabel_nil]

theorem ofBlocks {made : BlockId} (h : InstanceOf d (a.block made)) (hblocks : b.blocks = a.blocks) :
    InstanceOf d (b.block made) := by
  have hsame : b.block made = a.block made := by rw [block, block, hblocks]
  exact hsame ▸ h

end InstanceOf

/-- What instances of a block are made for: elements of its `for_each`, or numbers below a `count`. -/
def IsAsked (b : Block) (index : Value) : Prop :=
  (b.attribute? "for_each").isSome ∨ ∃ i : Nat, i < int32Limit ∧ index = .int i

theorem instanceOf_clone (a : Arena) (id : BlockId) (index : Value) :
    KeepsText a (a.clone id index).2 ∧ (IsAsked (a.block id) index →
      InstanceOf (a.block id) ((a.clone id index).2.block (a.clone id index).1)) := by
  let key := instanceKey (a.block id) index
  let marked := (a.copyBelow id).2.markInstance (a.copyBelow id).1 key
  have hplaced : KeepsText a (a.newChild (a.block id).scope).2 := .ofBlocks rfl
  have hcopied : KeepsText a (a.copyBelow id).2 := hplaced.trans (.ofExtends (extends_copyUpTo a.scopes.size _ _ id))
  have hmarked : KeepsText a marked := hcopied.modifyNew (size_le_copyBelow a id).1 _
  have hcounted : KeepsText marked (marked.countInstance id) := .modify _ _ (by intro _; rfl) (by intro _; rfl)
  have hlater : KeepsText marked (a.clone id index).2 := hcounted.trans (.ofBlocks (blocks_clone a id index))
  refine ⟨hmarked.trans hlater, fun hasked => ?_⟩
  obtain ⟨children, hblock⟩ := block_markInstance a id key
  have hmade : InstanceOf (a.block id) (marked.block (a.copyBelow id).1) := by
    rw [hblock]
    refine ⟨rfl, rfl, hasked.imp_right ?_, .inl ⟨key, rfl, rfl⟩⟩
    rintro ⟨i, hi, rfl⟩
    exact ⟨i, hi, congrArg (fun k : Option InstanceKey => some (k.getD _)) (ofValue?_index hi)⟩
  have hlt : (a.copyBelow id).1 < marked.blocks.size := by
    rw [size_blocks_markInstance]
    exact (size_le_copyBelow a id).2
  exact hmade.later (hlater.fixed _ hlt) (hlater.names _ hlt)

/-- The instances that a loop makes of a block, for what the block asks for. -/
theorem instancesOf_mapThrough {α β : Type} {f : Arena → α → β × Arena} {g : β → BlockId} {v : α → Value}
    (hf : ∀ b x, KeepsText b (f b x).2 ∧ g (f b x).1 < (f b x).2.blocks.size
      ∧ (IsAsked (b.block id) (v x) → InstanceOf (b.block id) ((f b x).2.block (g (f b x).1))))
    (hid : id < a.blocks.size) (xs : List α) (hasked : ∀ x ∈ xs, IsAsked (a.block id) (v x)) :
    ∀ y ∈ (mapThrough f a xs).1, g y < (mapThrough f a xs).2.blocks.size
      ∧ InstanceOf (a.block id) ((mapThrough f a xs).2.block (g y)) := by
  refine KeepsText.mapThrough_all (Q := fun b y => g y < b.blocks.size ∧ InstanceOf (a.block id) (b.block (g y)))
    (fun hbc hy => ?_) fun b hb x hx => ?_
  · exact ⟨Nat.lt_of_lt_of_le hy.1 hbc.size, hy.2.later (hbc.fixed _ hy.1) (hbc.names _ hy.1)⟩
  · obtain ⟨hkept, hlt, hmade⟩ := hf b x
    have hsame : (b.block id).attribute? "for_each" = (a.block id).attribute? "for_each" := by
      rw [Block.attribute?, Block.attribute?, Block.attributes_of_fixed (hb.fixed id hid)]
    have hstill : IsAsked (b.block id) (v x) := by
      rw [IsAsked, hsame]
      exact hasked x hx
    exact ⟨hkept, hlt, (hmade hstill).earlier (hb.fixed id hid) (hb.names id hid)⟩

/-! ## Expansion -/

/-- An instance stays as it is made while values are bound. -/
theorem instanceOf_clone_bound (a : Arena) (id : BlockId) (index : Value) (b : Arena)
    (hblocks : b.blocks = (a.clone id index).2.blocks) :
    KeepsText a b ∧ (a.clone id index).1 < b.blocks.size
      ∧ (IsAsked (a.block id) index → InstanceOf (a.block id) (b.block (a.clone id index).1)) := by
  obtain ⟨hkept, hmade⟩ := instanceOf_clone a id index
  exact ⟨hkept.trans (.ofBlocks hblocks), hblocks ▸ (adds_clone a id index).lt,
    fun hasked => (hmade hasked).ofBlocks hblocks⟩

theorem instanceOf_cloneIndex (root : ScopeId) (id : BlockId) (a : Arena) (i : Nat) :
    KeepsText a (cloneIndex root id a i).2
      ∧ (cloneIndex root id a i).1.1 < (cloneIndex root id a i).2.blocks.size
      ∧ (IsAsked (a.block id) (.int i) →
        InstanceOf (a.block id) ((cloneIndex root id a i).2.block (cloneIndex root id a i).1.1)) := by
  have hclone := instanceOf_clone_bound a id (.int i)
  rw [cloneIndex]
  dsimp only
  generalize a.clone id (.int i) = cloned at hclone ⊢
  exact hclone _ (blocks_copyBinding _ _ _ _)

theorem instanceOf_cloneElement (root : ScopeId) (id : BlockId) (binding : String) (isDynamic : Bool) (a : Arena)
    (element : Value × Value) :
    KeepsText a (cloneElement root id binding isDynamic a element).2
      ∧ (cloneElement root id binding isDynamic a element).1
        < (cloneElement root id binding isDynamic a element).2.blocks.size
      ∧ (IsAsked (a.block id) element.1 → InstanceOf (a.block id)
        ((cloneElement root id binding isDynamic a element).2.block
          (cloneElement root id binding isDynamic a element).1)) := by
  obtain ⟨key, value⟩ := element
  have hclone := instanceOf_clone_bound a id key
  rw [cloneElement]
  dsimp only
  generalize a.clone id key = cloned at hclone ⊢
  exact hclone _ ((blocks_copyBinding _ _ _ _).trans (blocks_foldl (by intro _ _; rfl) _ _))

/-- What stands for a block after it may have been expanded: the block itself, or an instance of it. -/
structure StandsFor (a b : Arena) (id made : BlockId) : Prop where
  lt : made < b.blocks.size
  origin : made = id ∨ (a.block id).expanded = false ∧ InstanceOf (a.block id) (b.block made)

namespace StandsFor

variable {made : BlockId}

theorem later (h : StandsFor a b id made) (hbc : KeepsText b c) : StandsFor a c id made := by
  refine ⟨Nat.lt_of_lt_of_le h.lt hbc.size, h.origin.imp_right fun ⟨hplain, hmade⟩ => ⟨hplain, ?_⟩⟩
  exact hmade.later (hbc.fixed made h.lt) (hbc.names made h.lt)

theorem earlier (h : StandsFor b c id made) (hid : id < a.blocks.size) (hab : KeepsText a b) :
    StandsFor a c id made := by
  refine ⟨h.lt, h.origin.imp_right fun ⟨hplain, hmade⟩ => ⟨?_, ?_⟩⟩
  · exact (Block.expanded_of_fixed (hab.fixed id hid)).symm.trans hplain
  · exact hmade.earlier (hab.fixed id hid) (hab.names id hid)

/-- An instance stands for itself. -/
theorem trans {last : BlockId} (h : StandsFor a b id made) (k : StandsFor b c made last) (hid : id < a.blocks.size)
    (hab : KeepsText a b) (hbc : KeepsText b c) : StandsFor a c id last := by
  rcases h.origin with rfl | ⟨-, hmade⟩
  · exact k.earlier hid hab
  · rcases k.origin with rfl | ⟨hplain, -⟩
    · exact h.later hbc
    · rw [hmade.expanded] at hplain
      cases hplain

theorem attributes (h : StandsFor a b id made) (hid : id < a.blocks.size) (hab : KeepsText a b) :
    (b.block made).attributes = (a.block id).attributes := by
  rcases h.origin with rfl | ⟨-, hmade⟩
  · exact Block.attributes_of_fixed (hab.fixed made hid)
  · exact hmade.attributes

/-- What stands for a block and has labels is of the same kind and has the same labels, with a key in an
instance. -/
theorem names (h : StandsFor a b id made) (hid : id < a.blocks.size) (hab : KeepsText a b)
    (hlabels : (b.block made).labels ≠ []) : (b.block made).names = (a.block id).names
      ∨ ∃ key, (b.block made).key = some key
        ∧ (b.block made).names = ((a.block id).kind, extendLabel (a.block id).labels key.text) := by
  rcases h.origin with rfl | ⟨-, hmade⟩
  · exact .inl ((hab.names made hid).resolve_right fun hnone => hlabels hnone.2)
  · exact .inr (hmade.names.resolve_right fun hnone => hlabels hnone.2)

end StandsFor

/-- A block that is left as it is stands for itself. -/
theorem standsFor_itself (id : BlockId) (hblocks : b.blocks = a.blocks) :
    KeepsText a b ∧ (id < a.blocks.size → ∀ made ∈ [id], StandsFor a b id made) := by
  refine ⟨.ofBlocks hblocks, fun hid made hmade => ⟨?_, .inl (List.mem_singleton.mp hmade)⟩⟩
  rw [List.mem_singleton.mp hmade, hblocks]
  exact hid

/-- The instances that a loop makes of a block stand for it. -/
theorem standsFor_instances {α β : Type} {f : Arena → α → β × Arena} {g : β → BlockId} {v : α → Value}
    (hf : ∀ b x, KeepsText b (f b x).2 ∧ g (f b x).1 < (f b x).2.blocks.size
      ∧ (IsAsked (b.block id) (v x) → InstanceOf (b.block id) ((f b x).2.block (g (f b x).1))))
    {xs : List α} (hasked : ∀ x ∈ xs, IsAsked (a.block id) (v x)) (hplain : (a.block id).expanded = false)
    (hb : b.blocks = a.blocks) (hc : c.blocks = (mapThrough f b xs).2.blocks) :
    KeepsText a c ∧ (id < a.blocks.size → ∀ made ∈ (mapThrough f b xs).1.map g, StandsFor a c id made) := by
  have hsame : b.block id = a.block id := by rw [block, block, hb]
  have hloop : KeepsText b (mapThrough f b xs).2 := .mapThrough (fun b x => (hf b x).1) _ _
  refine ⟨((KeepsText.ofBlocks hb).trans hloop).trans (.ofBlocks hc), fun hid made hmade => ?_⟩
  obtain ⟨y, hy, rfl⟩ := List.mem_map.mp hmade
  obtain ⟨hlt, hone⟩ := instancesOf_mapThrough hf (hb ▸ hid) xs (hsame.symm ▸ hasked) y hy
  rw [hsame] at hone
  exact ⟨hc ▸ hlt, .inr ⟨hplain, hone.ofBlocks hc⟩⟩

/-- A block is expanded into what stands for it. -/
theorem standsFor_expand (kind : Repetition) (root : ScopeId) (a : Arena) (id : BlockId) :
    KeepsText a (kind.expand root a id).2 ∧ (id < a.blocks.size → ∀ made ∈ (kind.expand root a id).1,
      StandsFor a (kind.expand root a id).2 id made) := by
  rcases (a.block id).spent_or kind with hspent | ⟨attr, hattr, happlies⟩
  · rw [expand_of_spent hspent]
    exact standsFor_itself id rfl
  · have hplain : (a.block id).expanded = false := by
      by_contra hexpanded
      rw [Block.applies_of_expanded kind (Bool.not_eq_false _ ▸ hexpanded)] at happlies
      cases happlies
    cases kind with
    | count =>
      have hasked : ∀ i ∈ List.range (instanceCount (a.value (a.block id) attr)), IsAsked (a.block id) (.int i) :=
        fun i hi => .inr ⟨i, lt_of_mem_indices hi, rfl⟩
      rw [expand_count root hattr happlies]
      exact standsFor_instances (instanceOf_cloneIndex root id) hasked hplain rfl (blocks_bindAt _ _ _ _)
    | forEach =>
      by_cases hcollection : (a.value (a.block id) attr).isIterable = true
      · have hasked : ∀ element ∈ a.elementsAsked id attr, IsAsked (a.block id) element.1 :=
          fun _ _ => .inl (Option.isSome_of_mem hattr)
        rw [expand_elements root hattr happlies hcollection, ← List.map_id' (a.elementLoop root id attr).1]
        exact standsFor_instances (g := fun made => made) (instanceOf_cloneElement root id _ _) hasked hplain rfl
          (blocks_bindAt _ _ _ _)
      · rw [expand_noCollection root hattr happlies hcollection]
        exact standsFor_itself id rfl

/-- One round over a list of blocks. -/
theorem standsFor_round (kind : Repetition) (root : ScopeId) (a : Arena) (hids : ∀ id ∈ ids, id < a.blocks.size) :
    ∀ made ∈ (mapThrough (kind.expand root) a ids).1.flatten,
      ∃ id ∈ ids, StandsFor a (mapThrough (kind.expand root) a ids).2 id made := by
  intro made hmade
  obtain ⟨group, hgroup, hmade⟩ := List.mem_flatten.mp hmade
  refine KeepsText.mapThrough_all (Q := fun b group => ∀ made ∈ group, ∃ id ∈ ids, StandsFor a b id made)
    (fun hbc hgroup made hmade => ?_) (fun b hb id hid => ?_) group hgroup made hmade
  · obtain ⟨id, hid, hstands⟩ := hgroup made hmade
    exact ⟨id, hid, hstands.later hbc⟩
  · obtain ⟨hkept, hstands⟩ := standsFor_expand kind root b id
    refine ⟨hkept, fun made hmade => ⟨id, hid, ?_⟩⟩
    exact (hstands (Nat.lt_of_lt_of_le (hids id hid) hb.size) made hmade).earlier (hids id hid) hb

theorem keepsText_expandCounts (a : Arena) (root : ScopeId) (ids : List BlockId) :
    KeepsText a (a.expandCounts root ids).2 :=
  .mapThrough (fun b id => (standsFor_expand .count root b id).1) a ids

theorem keepsText_expandForEach (a : Arena) (root : ScopeId) (ids : List BlockId) :
    KeepsText a (a.expandForEach root ids).2 :=
  .mapThrough (fun b id => (standsFor_expand .forEach root b id).1) a ids

/-- Both rounds over a list of blocks. -/
theorem standsFor_rounds (root : ScopeId) (a : Arena) (hids : ∀ id ∈ ids, id < a.blocks.size) :
    ∀ made ∈ ((a.expandCounts root ids).2.expandForEach root (a.expandCounts root ids).1).1,
      ∃ id ∈ ids,
        StandsFor a ((a.expandCounts root ids).2.expandForEach root (a.expandCounts root ids).1).2 id made := by
  intro made hmade
  have hfirst : ∀ mid ∈ (a.expandCounts root ids).1, ∃ id ∈ ids, StandsFor a (a.expandCounts root ids).2 id mid :=
    standsFor_round .count root a hids
  have hmids (mid : Nat) (hmid : mid ∈ (a.expandCounts root ids).1) : mid < (a.expandCounts root ids).2.blocks.size :=
    (hfirst mid hmid).elim fun _ hstands => hstands.2.lt
  obtain ⟨mid, hmid, hlast⟩ := standsFor_round .forEach root _ hmids made hmade
  obtain ⟨id, hid, hstands⟩ := hfirst mid hmid
  exact ⟨id, hid, hstands.trans hlast (hids id hid) (keepsText_expandCounts a root ids) (keepsText_expandForEach _ _ _)⟩

/-! ## Dynamic blocks -/

theorem keepsText_renamed (a : Arena) {child : BlockId} (hnone : child < a.blocks.size → (a.block child).Nameless)
    (kind : String) : KeepsText a (a.renamed child kind) := by
  refine ⟨by simp [renamed], fun x _ => a.modify_same Block.fixed child (by intro _; rfl) x, fun x hx => ?_⟩
  rw [renamed, block_modify]
  split
  · next hx =>
    rw [hx.1]
    exact .inr ⟨hnone hx.2, rfl⟩
  · exact .inl rfl

theorem keepsText_inject (a : Arena) {child : BlockId} (hnone : child < a.blocks.size → (a.block child).Nameless)
    (parent : BlockId) (kind : String) : KeepsText a (a.inject parent child kind) := by
  obtain ⟨noted, values, path, hnoted, heq⟩ := inject_eq a parent child kind
  have hbinds : (values.foldl (fun b w =>
      b.bind (noted.scopes.root (noted.block parent).scope) w.2 (path w.1)) noted).blocks
        = (a.renamed child kind).blocks := by
    rw [blocks_foldl (by intro _ _; rfl), hnoted]
    rfl
  rw [heq]
  have hinjected := (keepsText_renamed a hnone kind).trans (.ofBlocks hbinds)
  exact hinjected.trans (.modify _ _ (by intro _; rfl) (by intro _; rfl))

/-- Rendering dynamic blocks gives new names to their contents alone. -/
theorem keepsText_expandDynamicUpTo (root : ScopeId) (depth : Nat) (a : Arena) (id : BlockId) :
    KeepsText a (expandDynamicUpTo root depth a id) := by
  induction depth generalizing a id with
  | zero => exact .refl a
  | succ depth ih =>
    rw [expandDynamicUpTo]
    dsimp only
    refine (KeepsText.foldl ih _ _).trans (.foldl (fun b dynamic => ?_) _ _)
    split
    · exact .refl b
    · have hremoved : KeepsText b (b.removeChild id dynamic) := .modify _ _ (by intro _; rfl) (by intro _; rfl)
      refine (hremoved.trans (keepsText_expandForEach _ _ _)).trans (.foldl (fun c copy => ?_) _ _)
      split
      · next content hcontent =>
        have hkind := List.find?_some hcontent
        have hnamed : (c.block content).Nameless := .inl (by simpa using hkind)
        have hlt : content < c.blocks.size := by
          by_contra hge
          rw [c.block_of_size_le (Nat.le_of_not_lt hge)] at hkind
          exact absurd hkind (by decide)
        have hkept := ih c content
        refine hkept.trans (keepsText_inject _ (fun _ => ?_) id _)
        rcases hkept.names content hlt with hsame | ⟨-, hnone⟩
        · exact hnamed.ofNames hsame
        · exact .inr hnone
      · exact .refl c

end Arena

end InfraConfig
