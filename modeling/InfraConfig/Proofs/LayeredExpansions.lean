import InfraConfig.Proofs.BlockNames
import InfraConfig.Proofs.InstanceScopes
import InfraConfig.Proofs.Renderings

/-!
# Expansions in layers

Every instance gets a scope of its own below that of the block it is made of, and all its parts are copied into that
scope.
-/

namespace InfraConfig

namespace Arena

variable {a b c : Arena} {root ρ : ScopeId} {id : BlockId} {names : List String} {key value : Value} {attr : Attribute}

/-! ## Blocks in one scope -/

/-- Blocks are added that stand in one scope with all that is inside them. -/
structure AddsIn (a b : Arena) (ρ : ScopeId) : Prop where
  size : a.blocks.size ≤ b.blocks.size
  old : ∀ x, x < a.blocks.size → (b.block x).scope = (a.block x).scope
    ∧ (b.block x).children = (a.block x).children
  new : ∀ x, a.blocks.size ≤ x → x < b.blocks.size → (b.block x).scope = ρ
    ∧ ∀ c ∈ (b.block x).children, c < b.blocks.size ∧ (b.block c).scope = ρ

namespace AddsIn

theorem refl (a : Arena) (ρ : ScopeId) : AddsIn a a ρ :=
  ⟨Nat.le_refl _, fun _ _ => ⟨rfl, rfl⟩, fun _ hle hlt => absurd hlt (Nat.not_lt_of_le hle)⟩

theorem push (h : AddsIn a b ρ) {d : Block} (hd : d.scope = ρ)
    (hc : ∀ c ∈ d.children, c < b.blocks.size ∧ (b.block c).scope = ρ) : AddsIn a (b.push d).2 ρ := by
  have hold {x : BlockId} (hx : x < b.blocks.size) : (b.push d).2.block x = b.block x := by
    rw [block_push, if_neg (Nat.ne_of_lt hx)]
  have hinside {x : BlockId} (hx : x < b.blocks.size ∧ (b.block x).scope = ρ) :
      x < (b.push d).2.blocks.size ∧ ((b.push d).2.block x).scope = ρ := by
    rw [size_blocks_push, hold hx.1]
    exact ⟨Nat.lt_succ_of_lt hx.1, hx.2⟩
  refine ⟨?_, fun x hx => ?_, fun x hle hlt => ?_⟩
  · rw [size_blocks_push]
    exact Nat.le_succ_of_le h.size
  · rw [hold (Nat.lt_of_lt_of_le hx h.size)]
    exact h.old x hx
  · rw [size_blocks_push] at hlt
    rcases Nat.lt_or_eq_of_le (Nat.le_of_lt_succ hlt) with hlt | rfl
    · obtain ⟨hscope, hchildren⟩ := h.new x hle hlt
      rw [hold hlt]
      exact ⟨hscope, fun c hmem => hinside (hchildren c hmem)⟩
    · have hnew : (b.push d).2.block b.blocks.size = d := by rw [block_push, if_pos rfl]
      rw [hnew]
      exact ⟨hd, fun c hmem => hinside (hc c hmem)⟩

/-- What is done to blocks beside their scopes and children does not matter. -/
theorem of_parts (h : AddsIn a b ρ) (hsize : c.blocks.size = b.blocks.size)
    (hparts : ∀ x, (c.block x).scope = (b.block x).scope ∧ (c.block x).children = (b.block x).children) :
    AddsIn a c ρ := by
  refine ⟨hsize ▸ h.size, fun x hx => ?_, fun x hle hlt => ?_⟩
  · rw [(hparts x).1, (hparts x).2]
    exact h.old x hx
  · rw [(hparts x).1, (hparts x).2, hsize]
    obtain ⟨hscope, hchildren⟩ := h.new x hle (hsize ▸ hlt)
    refine ⟨hscope, fun y hy => ?_⟩
    rw [(hparts y).1]
    exact hchildren y hy

theorem modify (h : AddsIn a b ρ) (x : BlockId) {f : Block → Block} (hscope : ∀ d, (f d).scope = d.scope)
    (hchildren : ∀ d, (f d).children = d.children) : AddsIn a (b.modify x f) ρ :=
  h.of_parts (size_blocks_modify _ _ _) fun y =>
    ⟨b.modify_same Block.scope x hscope y, b.modify_same Block.children x hchildren y⟩

theorem of_blocks (h : AddsIn a b ρ) (hblocks : c.blocks = b.blocks) : AddsIn a c ρ := by
  refine h.of_parts (by rw [hblocks]) fun x => ?_
  rw [block, block, hblocks]
  exact ⟨rfl, rfl⟩

theorem nested (h : AddsIn a b ρ) : ∀ x c, x < b.blocks.size → c ∈ (b.block x).children →
    x < a.blocks.size ∧ c ∈ (a.block x).children ∨ b.Encloses x c := by
  intro x c hx hc
  rcases Nat.lt_or_ge x a.blocks.size with hlt | hle
  · rw [(h.old x hlt).2] at hc
    exact .inl ⟨hlt, hc⟩
  · obtain ⟨hscope, hchildren⟩ := h.new x hle hx
    exact .inr (.of_scope (hscope.trans (hchildren c hc).2.symm))

theorem mapThrough {α : Type} {f : Arena → α → BlockId × Arena} (xs : List α) (h : AddsIn a b ρ)
    (hf : ∀ b, AddsIn a b ρ → ∀ x ∈ xs, AddsIn a (f b x).2 ρ ∧ Extends b (f b x).2
      ∧ (f b x).1 < (f b x).2.blocks.size ∧ ((f b x).2.block (f b x).1).scope = ρ) :
    AddsIn a (InfraConfig.mapThrough f b xs).2 ρ
      ∧ Extends b (InfraConfig.mapThrough f b xs).2
      ∧ ∀ y ∈ (InfraConfig.mapThrough f b xs).1, y < (InfraConfig.mapThrough f b xs).2.blocks.size
        ∧ ((InfraConfig.mapThrough f b xs).2.block y).scope = ρ := by
  obtain ⟨⟨hloop, hrest⟩, hmade⟩ := mapThrough_all (R := fun c d => AddsIn a d ρ ∧ Extends c d)
    (Q := fun c y => y < c.blocks.size ∧ (c.block y).scope = ρ) (l := xs) ⟨h, .refl b⟩ (fun c hc => ⟨hc.1, .refl c⟩)
    (fun hcd hde => ⟨hde.1, hcd.2.trans hde.2⟩)
    (fun _ hcd hy => ⟨Nat.lt_of_lt_of_le hy.1 hcd.2.size, (congrArg Block.scope (hcd.2.kept _ hy.1)).trans hy.2⟩)
    fun c hc x hx => by
      obtain ⟨hstep, hfirst, hmade⟩ := hf c hc.1 x hx
      exact ⟨⟨hstep, hfirst⟩, hmade⟩
  exact ⟨hloop, hrest, hmade⟩

theorem copyUpTo (depth : Nat) (h : AddsIn a b ρ) (id : BlockId) :
    AddsIn a (copyUpTo ρ depth b id).2 ρ := by
  induction depth generalizing b id with
  | zero => exact h.push rfl fun c hc => absurd hc List.not_mem_nil
  | succ depth ih =>
    have hstep (d : Arena) (hd : AddsIn a d ρ) (x : BlockId) : AddsIn a (Arena.copyUpTo ρ depth d x).2 ρ
        ∧ Extends d (Arena.copyUpTo ρ depth d x).2
        ∧ (Arena.copyUpTo ρ depth d x).1 < (Arena.copyUpTo ρ depth d x).2.blocks.size
        ∧ ((Arena.copyUpTo ρ depth d x).2.block (Arena.copyUpTo ρ depth d x).1).scope = ρ := by
      obtain ⟨children, hcopy⟩ := block_copyUpTo ρ depth d x
      exact ⟨ih hd x, extends_copyUpTo ρ depth d x, (size_le_copyUpTo ρ depth d x).2, by rw [hcopy]⟩
    obtain ⟨hloop, -, hmade⟩ := h.mapThrough (b.block id).children fun d hd x _ => hstep d hd x
    rw [Arena.copyUpTo]
    exact hloop.push rfl hmade

end AddsIn

/-! ## Instances -/

theorem clone_addsIn (a : Arena) (id : BlockId) (index : Value) :
    AddsIn a (a.clone id index).2 a.scopes.size := by
  have hplaced : AddsIn a (a.newChild (a.block id).scope).2 a.scopes.size := (AddsIn.refl a _).of_blocks rfl
  have hcopied : AddsIn a (a.copyBelow id).2 a.scopes.size := hplaced.copyUpTo _ id
  have hmarked : AddsIn a ((a.copyBelow id).2.markInstance (a.copyBelow id).1 (instanceKey (a.block id) index))
      a.scopes.size := hcopied.modify _ (by intro _; rfl) (by intro _; rfl)
  exact (hmarked.modify id (by intro _; rfl) (by intro _; rfl)).of_blocks (blocks_clone a id index)

theorem scopes_clone (a : Arena) (id : BlockId) (index : Value) :
    (a.clone id index).2.scopes = if isNumber index
      then (a.newChild (a.block id).scope).2.scopes.set a.scopes.size index ["count", "index"]
      else (a.newChild (a.block id).scope).2.scopes := by
  have hcopied := (extends_copyUpTo a.scopes.size (a.newChild (a.block id).scope).2.blocks.size
    (a.newChild (a.block id).scope).2 id).scopes
  rw [clone]
  dsimp only [scopes_modify]
  split
  · rw [scopes_bind, scopes_modify, copyTree]
    exact congrArg (·.set a.scopes.size index ["count", "index"]) hcopied
  · exact hcopied

theorem size_scopes_clone (a : Arena) (id : BlockId) (index : Value) :
    (a.clone id index).2.scopes.size = a.scopes.size + 1 := by
  rw [scopes_clone]
  split <;> simp

theorem parent?_clone (a : Arena) (id : BlockId) (index : Value) :
    (a.clone id index).2.scopes.parent? a.scopes.size = some (a.block id).scope := by
  rw [scopes_clone]
  split
  · rw [Scopes.parent?_set, scopes_newChild, Scopes.parent?_push, if_pos rfl]
  · rw [scopes_newChild, Scopes.parent?_push, if_pos rfl]

theorem bindings_clone_of_ne (a : Arena) (id : BlockId) (index : Value) {σ : ScopeId} (h : σ ≠ a.scopes.size) :
    (a.clone id index).2.scopes.bindings σ = a.scopes.bindings σ := by
  have hfirst : (a.newChild (a.block id).scope).2.scopes.bindings σ = a.scopes.bindings σ := by
    rw [scopes_newChild, Scopes.bindings_push, if_neg h]
  rw [scopes_clone]
  split
  · rw [Scopes.bindings_set_of_ne _ h, hfirst]
  · exact hfirst

theorem bindings_clone (a : Arena) (id : BlockId) (index value : Value) :
    (a.clone id index).2.scopes.bindings a.scopes.size = instanceBindings [] index value := by
  have hempty : (a.newChild (a.block id).scope).2.scopes.bindings a.scopes.size = [] := by
    rw [scopes_newChild, Scopes.bindings_push, if_pos rfl]
  rw [scopes_clone, instanceBindings, List.foldl_nil]
  split
  · rw [Scopes.bindings_set_self _ (by simp), hempty]
  · exact hempty

/-- The bindings of one scope are written to, and nothing else changes. -/
structure Fills (a b : Arena) (σ : ScopeId) (es : Entries Value) : Prop where
  changes : Changes (fun _ => True) a b
  blocks : b.blocks = a.blocks
  size : b.scopes.size = a.scopes.size
  others : ∀ τ, τ ≠ σ → b.scopes.bindings τ = a.scopes.bindings τ
  own : b.scopes.bindings σ = es

theorem fills_clone (a : Arena) (id : BlockId) (index value : Value) :
    Fills (a.clone id index).2 (a.clone id index).2 a.scopes.size (instanceBindings [] index value) :=
  ⟨.refl, rfl, rfl, fun _ _ => rfl, bindings_clone a id index value⟩

/-- One name of an instance is bound in its scope. -/
def bindElement (σ : ScopeId) (key value : Value) (a : Arena) (name : String) : Arena :=
  (a.bind σ key [name, "key"]).bind σ value [name, "value"]

theorem Fills.bindElement {σ : ScopeId} (h : Fills a b σ (instanceBindings names key value))
    (hσ : σ < a.scopes.size) (name : String) :
    Fills a (b.bindElement σ key value name) σ (instanceBindings (names ++ [name]) key value) := by
  have hlt : σ < b.scopes.size := h.size.symm ▸ hσ
  have hlt' : σ < (b.scopes.set σ key [name, "key"]).size := by rwa [Scopes.size_set]
  have hkey : Changes (fun _ => True) b (b.bind σ key [name, "key"]) := .single (.bind σ key _ hlt trivial)
  have hscopes : (b.bindElement σ key value name).scopes
      = (b.scopes.set σ key [name, "key"]).set σ value [name, "value"] := rfl
  refine ⟨h.changes.trans (hkey.tail (.bind σ value _ hlt' trivial)), h.blocks, ?_, fun τ hτ => ?_, ?_⟩
  · rw [hscopes, Scopes.size_set, Scopes.size_set, h.size]
  · rw [hscopes, Scopes.bindings_set_of_ne _ hτ, Scopes.bindings_set_of_ne _ hτ, h.others τ hτ]
  · rw [hscopes, Scopes.bindings_set_self _ hlt', Scopes.bindings_set_self _ hlt, h.own, instanceBindings.snoc]

theorem Fills.bindElements {σ : ScopeId} (h : Fills a b σ (instanceBindings names key value))
    (hσ : σ < a.scopes.size) (more : List String) :
    Fills a (more.foldl (Arena.bindElement σ key value) b) σ (instanceBindings (names ++ more) key value) := by
  induction more generalizing b names with
  | nil => rwa [List.append_nil]
  | cons name more ih =>
    rw [List.append_cons]
    exact ih (h.bindElement hσ name)

/-- An instance that stands below the block that it is made of. -/
structure StandsBelow (a : Arena) (id : BlockId) (names : List String) (key value : Value) (made : BlockId) :
    Prop where
  isInstance : a.IsInstance names key value made
  encloses : a.Encloses id made
  template : id < a.blocks.size

theorem StandsBelow.rests {made : BlockId} (h : a.StandsBelow id names key value made) (hab : Rests a b) :
    b.StandsBelow id names key value made :=
  ⟨hab.isInstance h.isInstance, hab.encloses h.template h.isInstance.block h.encloses,
    Nat.lt_of_lt_of_le h.template hab.changes.size_blocks_le⟩

/-- A copy of a block becomes an instance by what is bound in its new scope. -/
theorem deepens_instance (ha : a.WellFormed) (hid : a.Has root id)
    (hknown : (InstanceKey.ofValue? key).isSome) (hdata : value.IsData)
    (h : Fills (a.clone id key).2 b a.scopes.size (instanceBindings names key value))
    (hne : instanceBindings names key value ≠ []) :
    Deepens a b ∧ b.StandsBelow id names key value (a.clone id key).1 := by
  obtain ⟨hclone, hmade, children, hcopy⟩ := clone_spec (P := fun _ => True) ha hid trivial key
  have hall := hclone.trans h.changes
  have hblock (x : BlockId) : b.block x = (a.clone id key).2.block x := by rw [block, block, h.blocks]
  have hadds : AddsIn a b a.scopes.size := (clone_addsIn a id key).of_blocks h.blocks
  have hsize : b.scopes.size = a.scopes.size + 1 := h.size.trans (size_scopes_clone a id key)
  have hscope : (b.block (a.clone id key).1).scope = a.scopes.size := by
    rw [hblock, hcopy]
    rfl
  have hparent : b.scopes.parent? a.scopes.size = some (a.block id).scope := by
    rw [h.changes.parent?_eq (size_scopes_clone a id key ▸ Nat.lt_succ_self _), parent?_clone]
  have hinstance : b.IsInstance names key value (a.clone id key).1 := by
    refine ⟨Nat.lt_of_lt_of_le hmade.1 h.changes.size_blocks_le, ?_, hknown, ?_, hdata, ?_, ?_⟩
    · rw [hblock, hcopy]
      rfl
    · rw [hblock, hcopy]
      exact some_instanceKey (a.block id) hknown
    · rw [hscope]
      exact ⟨hparent ▸ rfl, h.own ▸ hne⟩
    · rw [hscope, h.own]
  have hencloses : b.Encloses id (a.clone id key).1 := by
    intro σ _ hmem
    rw [hscope, Scopes.chain_of_parent (hall.wellFormed ha).ordered hparent]
    rw [(hadds.old id hid.1).1] at hmem
    exact List.mem_cons_of_mem _ hmem
  have hrests : Rests a b := by
    refine ⟨ha, hall, fun σ hσ => ?_, fun x hx => .inl (hadds.old x hx).1⟩
    obtain ⟨p, hp⟩ := Option.isSome_iff_exists.mp hσ
    have hold : σ ≠ a.scopes.size := Nat.ne_of_lt (Scopes.lt_size_of_parent? hp)
    rw [h.others σ hold, bindings_clone_of_ne a id key hold]
  refine ⟨hrests.deepens (fun σ hσ hle => ?_) hadds.nested, hinstance, hencloses, ?_⟩
  · -- The scope of the copy is the only new one.
    have hlt := hσ.lt_size
    rw [hsize] at hlt
    obtain rfl := Nat.le_antisymm (Nat.le_of_lt_succ hlt) hle
    exact ⟨_, hscope, names, key, value, hinstance⟩
  · exact (hid.changes ha hall).1

theorem deepens_copyBinding (ha : a.WellFormed) (htop : a.IsTop root) (source target : BlockId) :
    Deepens a (a.copyBinding root source target) := by
  rw [copyBinding]
  split
  · split
    · exact .bindTop ha htop _ _
    · exact .refl ha
  · exact .refl ha

theorem deepens_bindAt (ha : a.WellFormed) (htop : a.IsTop root) (id : BlockId) (v : Value) :
    Deepens a (a.bindAt root id v) := by
  rw [bindAt]
  split
  · exact .bindTop ha htop _ _
  · exact .refl ha

theorem deepens_cloneIndex (ha : a.WellFormed) (htop : a.IsTop root) (hid : a.Has root id) (i : Nat) :
    Deepens a (cloneIndex root id a i).2
      ∧ (cloneIndex root id a i).2.StandsBelow id [] (.int i) .null (cloneIndex root id a i).1.1 := by
  have hdata : Value.IsData .null := ⟨.null, rfl⟩
  obtain ⟨hclone, hstands⟩ := deepens_instance ha hid rfl hdata (fills_clone a id (.int i) .null)
    (List.cons_ne_nil _ _)
  let copied := (a.clone id (.int i)).2.copyBinding root id (a.clone id (.int i)).1
  have hcopied : Deepens (a.clone id (.int i)).2 copied :=
    deepens_copyBinding hclone.later (htop.changes hclone.changes) id (a.clone id (.int i)).1
  have hnoted := Deepens.noting hcopied.later (copied.block (a.clone id (.int i)).1)
    (copied.block (a.clone id (.int i)).1).attributes
  have hrest := hcopied.trans hnoted
  exact ⟨hclone.trans hrest, hstands.rests hrest.toRests⟩

/-- The names under which the element of an instance is known. -/
def elementNames (binding : String) (isDynamic : Bool) : List String :=
  ["each", binding] ++ (if isDynamic then ["dynamic"] else [])

theorem cloneElement_eq (hid : id < a.blocks.size) (root : ScopeId) (binding : String) (isDynamic : Bool)
    (element : Value × Value) : cloneElement root id binding isDynamic a element
      = ((a.clone id element.1).1,
        ((elementNames binding isDynamic).foldl (bindElement a.scopes.size element.1 element.2)
          (a.clone id element.1).2).copyBinding root id (a.clone id element.1).1) := by
  obtain ⟨key, value⟩ := element
  obtain ⟨children, hcopy⟩ := block_clone hid key
  have hscope : ((a.clone id key).2.block (a.clone id key).1).scope = a.scopes.size := congrArg Block.scope hcopy
  rw [cloneElement]
  dsimp only
  rw [hscope]
  rfl

theorem deepens_cloneElement (ha : a.WellFormed) (htop : a.IsTop root) (hid : a.Has root id)
    (binding : String) (isDynamic : Bool) {element : Value × Value}
    (hknown : (InstanceKey.ofValue? element.1).isSome) (hdata : element.2.IsData) :
    Deepens a (cloneElement root id binding isDynamic a element).2
      ∧ (cloneElement root id binding isDynamic a element).2.StandsBelow id (elementNames binding isDynamic)
          element.1 element.2 (cloneElement root id binding isDynamic a element).1 := by
  let names := elementNames binding isDynamic
  have hlt : a.scopes.size < (a.clone id element.1).2.scopes.size := by simp [size_scopes_clone]
  have hfills := (fills_clone a id element.1 element.2).bindElements hlt names
  have hne : instanceBindings names element.1 element.2 ≠ [] := by
    intro hnil
    have heach : (instanceBindings names element.1 element.2).getPath? ["each", "key"] = some element.1 :=
      instanceBindings.mem_key (Value.entries?_of_key hknown) (List.mem_append_left _ List.mem_cons_self)
    rw [hnil] at heach
    cases heach
  obtain ⟨hclone, hstands⟩ := deepens_instance ha hid hknown hdata hfills hne
  have hcopied := deepens_copyBinding hclone.later (htop.changes hclone.changes) id (a.clone id element.1).1
  rw [cloneElement_eq hid.1]
  exact ⟨hclone.trans hcopied, hstands.rests hcopied.toRests⟩

/-! ## Expanding a block -/

/-- What an instance is made for: a key and a value, and the names that they are known under. -/
structure Item where
  names : List String
  key : Value
  value : Value

/-- What a `count` or `for_each` makes instances for, if it makes any. -/
def items? (a : Arena) (id : BlockId) : Repetition → Option (List Item)
  | .count => ((a.block id).attribute? "count").bind fun attr =>
    if (a.block id).isExpandable then
      some ((List.range (instanceCount (a.value (a.block id) attr))).map fun i : Nat => ⟨[], .int i, .null⟩)
    else none
  | .forEach => ((a.block id).attribute? "for_each").bind fun attr =>
    let isDynamic := (a.block id).kind == .dynamic
    let collection := a.value (a.block id) attr
    if ((a.block id).isExpandable || isDynamic && !(a.block id).expanded) && collection.isIterable then
      some ((instanceElements collection (!isDynamic && isTextList collection)).map fun element =>
        ⟨elementNames (a.block id).iteratorName isDynamic, element.1, element.2⟩)
    else none

theorem items?_of_spent {kind : Repetition} (h : (a.block id).Spent kind) : a.items? id kind = none := by
  cases hattr : (a.block id).attribute? kind.name with
  | none =>
    cases kind <;>
    · rw [Repetition.name] at hattr
      rw [items?, hattr]
      rfl
  | some attr =>
    have hnot := h (Option.isSome_of_mem hattr)
    cases kind with
    | count =>
      rw [Repetition.name] at hattr
      rw [items?, hattr]
      exact if_neg (Bool.eq_false_iff.mp hnot)
    | forEach =>
      rw [Repetition.name] at hattr
      rw [Repetition.applies] at hnot
      simp [items?, hattr, hnot]

theorem items?_count (hattr : (a.block id).attribute? Repetition.count.name = some attr)
    (happlies : Repetition.count.applies (a.block id) = true) : a.items? id .count
      = some ((List.range (instanceCount (a.value (a.block id) attr))).map fun i : Nat => ⟨[], .int i, .null⟩) := by
  rw [Repetition.name] at hattr
  rw [items?, hattr]
  exact if_pos happlies

theorem items?_elements (hattr : (a.block id).attribute? Repetition.forEach.name = some attr)
    (happlies : Repetition.forEach.applies (a.block id) = true) (h : (a.value (a.block id) attr).isIterable = true) :
    a.items? id .forEach = some ((a.elementsAsked id attr).map fun element =>
      ⟨elementNames (a.block id).iteratorName ((a.block id).kind == .dynamic), element.1, element.2⟩) := by
  rw [Repetition.name] at hattr
  rw [items?, hattr]
  exact if_pos ((Bool.and_eq_true _ _).mpr ⟨happlies, h⟩)

theorem items?_noCollection (hattr : (a.block id).attribute? Repetition.forEach.name = some attr)
    (h : (a.value (a.block id) attr).isIterable ≠ true) : a.items? id .forEach = none := by
  rw [Repetition.name] at hattr
  simp [items?, hattr, h]

/-- A block with its instances below it, or with itself if none are made. -/
structure Spreads (a b : Arena) (kind : Repetition) (id : BlockId) (made : List BlockId) : Prop where
  deepens : Deepens a b
  instances : ∀ items, a.items? id kind = some items →
    List.Forall₂ (fun (item : Item) m => b.StandsBelow id item.names item.key item.value m) items made
  itself : a.items? id kind = none → made = [id]

theorem Spreads.encloses {kind : Repetition} {made : List BlockId} (h : Spreads a b kind id made) :
    ∀ m ∈ made, b.Encloses id m := by
  intro m hm
  cases hitems : a.items? id kind with
  | none =>
    rw [h.itself hitems] at hm
    exact List.mem_singleton.mp hm ▸ .refl b id
  | some items =>
    obtain ⟨item, -, hstands⟩ := exists_of_mem_forall₂ (h.instances items hitems) hm
    exact hstands.encloses

theorem spreads_itself {kind : Repetition} (h : Deepens a b) (hnone : a.items? id kind = none) :
    Spreads a b kind id [id] :=
  ⟨h, fun _ hitems => (nomatch hnone.symm.trans hitems), fun _ => rfl⟩

/-- A loop that makes instances, with what is noted before it and bound after it. -/
theorem spreads_loop {α β : Type} {f : Arena → α → β × Arena} {g : β → BlockId} (item : α → Item) {xs : List α}
    {noted : Arena} {kind : Repetition} (htop : a.IsTop root) (hid : a.Has root id) (hnoted : Deepens a noted)
    (hf : ∀ b x, b.WellFormed → b.IsTop root → b.Has root id → x ∈ xs → Deepens b (f b x).2
      ∧ (f b x).2.StandsBelow id (item x).names (item x).key (item x).value (g (f b x).1))
    (hitems : a.items? id kind = some (xs.map item)) (v : Value) :
    Spreads a ((mapThrough f noted xs).2.bindAt root id v) kind id ((mapThrough f noted xs).1.map g) := by
  obtain ⟨hloop, hmade⟩ := Deepens.mapThrough_pairs (f := f)
    (Q := fun c x made => c.StandsBelow id (item x).names (item x).key (item x).value (g made))
    (fun hbc hmade => hmade.rests hbc.toRests) hnoted.later fun b hb x (hx : x ∈ xs) => by
      have hab := hnoted.trans hb
      exact hf b x hb.later (htop.changes hab.changes) (hid.changes hab.well hab.changes) hx
  have hall := hnoted.trans hloop
  have hbound := deepens_bindAt hloop.later (htop.changes hall.changes) id v
  refine ⟨hall.trans hbound, fun items hsome => ?_, fun hnone => nomatch hnone.symm.trans hitems⟩
  obtain rfl := Option.some.inj (hitems.symm.trans hsome)
  rw [List.forall₂_map_left_iff, List.forall₂_map_right_iff]
  exact hmade.imp fun _ _ hstands => hstands.rests hbound.toRests

theorem spreads_expand (kind : Repetition) (ha : a.WellFormed) (htop : a.IsTop root) (hid : a.Has root id) :
    Spreads a (kind.expand root a id).2 kind id (kind.expand root a id).1 := by
  rcases (a.block id).spent_or kind with hspent | ⟨attr, hattr, happlies⟩
  · rw [expand_of_spent hspent]
    exact spreads_itself (.refl ha) (items?_of_spent hspent)
  · cases kind with
    | count =>
      rw [expand_count root hattr happlies]
      exact spreads_loop (fun i : Nat => ⟨[], .int i, .null⟩) htop hid (.noting ha _ _)
        (fun b i hb htop hid _ => deepens_cloneIndex hb htop hid i) (items?_count hattr happlies) _
    | forEach =>
      by_cases hcollection : (a.value (a.block id) attr).isIterable = true
      · rw [expand_elements root hattr happlies hcollection, ← List.map_id' (a.elementLoop root id attr).1]
        refine spreads_loop (g := fun made => made)
          (fun element => ⟨elementNames (a.block id).iteratorName ((a.block id).kind == .dynamic), element.1, element.2⟩)
          htop hid (.noting ha _ _) (fun b element hb htop hid helement => ?_) (items?_elements hattr happlies hcollection) _
        exact deepens_cloneElement hb htop hid _ _ (isSome_ofValue?_of_mem_elementsAsked helement)
          (isData_of_mem_instanceElements (a.isData_value _ _) helement)
      · rw [expand_noCollection root hattr happlies hcollection]
        exact spreads_itself (.noting ha _ _) (items?_noCollection hattr hcollection)

theorem deepens_expandAll (kind : Repetition) (ha : a.WellFormed) (htop : a.IsTop root) {ids : List BlockId}
    (hids : ∀ id ∈ ids, a.Has root id) : Deepens a (mapThrough (kind.expand root) a ids).2 := by
  refine (Deepens.mapThrough_pairs (Q := fun _ _ _ => True) (fun _ _ => trivial) ha fun b hb id hid => ?_).1
  have hin := (hids id hid).changes ha hb.changes
  exact ⟨(spreads_expand kind hb.later (htop.changes hb.changes) hin).deepens, trivial⟩

end Arena

end InfraConfig
