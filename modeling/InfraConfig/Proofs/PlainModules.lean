import InfraConfig.Proofs.LocalPasses
import InfraConfig.Proofs.PlacementChanges
import InfraConfig.Project

/-!
# Modules of variables and locals

A module that declares only variables and locals calls nothing, has no instances and reads no files. All its
blocks see the bindings of the one scope at the top, and a pass changes nothing but these.
-/

namespace InfraConfig

namespace Block

/-- What is written of a block, without where it has come to stand. -/
def bare (b : Block) : Block :=
  ⟨b.kind, b.labels, b.attributes, [], 0, none, b.range, false, 0, none⟩

/-- Whether a block is neither rendered nor asks for files. -/
def IsQuiet (b : Block) : Prop :=
  b.kind ≠ .dynamic ∧ ∀ attr ∈ b.attributes, attr.value.mentionsFiles = false

end Block

namespace BlockTree

/-- The block that a tree describes, without what is inside it. -/
def block : BlockTree → Block
  | .node kind labels attributes _ range =>
    ⟨.ofName kind, labels, attributes, [], 0, none, range, false, 0, none⟩

mutual

/-- Whether no block of a tree is rendered or asks for files. -/
def IsQuiet : BlockTree → Prop
  | .node kind _ attributes children _ =>
    BlockKind.ofName kind ≠ .dynamic ∧ (∀ attr ∈ attributes, attr.value.mentionsFiles = false)
      ∧ AllQuiet children

def AllQuiet : List BlockTree → Prop
  | [] => True
  | t :: rest => t.IsQuiet ∧ AllQuiet rest

end

end BlockTree

/-- The blocks that files are written with. -/
def writtenBlocks (files : List SourceFile) : List Block :=
  (files.flatMap (·.blocks)).map BlockTree.block

namespace Arena

/-- An arena with one scope at the top, in which all bindings are, and with quiet blocks. -/
structure Flat (a : Arena) : Prop where
  top : a.scopes.parent? 0 = none
  nonempty : 0 < a.scopes.size
  below : ∀ id, id < a.scopes.size → id ≠ 0 →
    a.scopes.bindings id = [] ∧ ∃ p, a.scopes.parent? id = some p ∧ p < id
  nodup : (a.scopes.bindings 0).keys.Nodup
  placed : ∀ id, (a.block id).scope < a.scopes.size
  quiet : ∀ id, (a.block id).IsQuiet
  unasked : a.files.wanted = []

namespace Flat

variable {a : Arena}

theorem ordered (h : a.Flat) : a.scopes.Ordered := by
  intro id p hp
  have hid := Scopes.lt_size_of_parent? hp
  by_cases hz : id = 0
  · rw [hz, h.top] at hp
    cases hp
  · obtain ⟨q, hq, hlt⟩ := (h.below id hid hz).2
    rw [hp] at hq
    exact Option.some.inj hq ▸ hlt

theorem under (h : a.Flat) {id : ScopeId} (hid : id < a.scopes.size) : a.scopes.Under 0 id := by
  induction id using Nat.strong_induction_on with
  | _ id ih =>
    by_cases hz : id = 0
    · rw [hz]
      exact .top h.top
    · obtain ⟨hempty, p, hp, hlt⟩ := h.below id hid hz
      exact .inner hp hempty (ih p hlt (Nat.lt_trans hlt hid))

/-- Every block sees the bindings at the top. -/
theorem environment (h : a.Flat) (id : BlockId) :
    a.scopes.environment (a.block id).scope = .ofBindings (a.scopes.bindings 0) :=
  (h.under (h.placed id)).environment h.ordered h.nodup

theorem resolve_eq (h : a.Flat) (id : BlockId) {attr : Attribute} (hattr : attr ∈ (a.block id).attributes) :
    a.resolve (a.block id) attr = attr.value.valueIn (a.scopes.bindings 0) :=
  resolve_eq_valueIn ((h.quiet id).2 attr hattr) (h.environment id)

/-! ## What keeps an arena flat -/

theorem push (h : a.Flat) {b : Block} (hscope : b.scope < a.scopes.size) (hquiet : b.IsQuiet) :
    (a.push b).2.Flat := by
  refine ⟨h.top, h.nonempty, h.below, h.nodup, fun id => ?_, fun id => ?_, h.unasked⟩
  · rw [block_push]
    split
    · exact hscope
    · exact h.placed id
  · rw [block_push]
    split
    · exact hquiet
    · exact h.quiet id

theorem place (h : a.Flat) (id : BlockId) {scope : ScopeId} (hscope : scope < a.scopes.size) :
    (a.modify id fun b => { b with scope }).Flat := by
  refine ⟨h.top, h.nonempty, h.below, h.nodup, fun j => ?_, fun j => ?_, h.unasked⟩
  · rw [block_modify]
    split
    · exact hscope
    · exact h.placed j
  · rw [block_modify]
    split
    · exact h.quiet j
    · exact h.quiet j

theorem newChild (h : a.Flat) {parent : ScopeId} (hp : parent < a.scopes.size) :
    (a.newChild parent).2.Flat := by
  have hzero : (0 : ScopeId) ≠ a.scopes.size := Nat.ne_of_lt h.nonempty
  refine ⟨?_, ?_, fun id hid hz => ?_, ?_, fun id => ?_, h.quiet, h.unasked⟩
  · rw [scopes_newChild, Scopes.parent?_push, if_neg hzero, h.top]
  · simp
  · rw [scopes_newChild, Scopes.size_push] at hid
    rw [scopes_newChild, Scopes.bindings_push, Scopes.parent?_push]
    by_cases hnew : id = a.scopes.size
    · rw [if_pos hnew, if_pos hnew]
      exact ⟨rfl, parent, rfl, hnew ▸ hp⟩
    · rw [if_neg hnew, if_neg hnew]
      exact h.below id (Nat.lt_of_le_of_ne (Nat.le_of_lt_succ hid) hnew) hz
  · rw [scopes_newChild, Scopes.bindings_push, if_neg hzero]
    exact h.nodup
  · rw [scopes_newChild, Scopes.size_push, block_newChild]
    exact Nat.lt_succ_of_lt (h.placed id)

theorem bind (h : a.Flat) (v : Value) (path : ValuePath) : (a.bind 0 v path).Flat := by
  refine ⟨?_, ?_, fun id hid hz => ?_, ?_, fun id => ?_, h.quiet, h.unasked⟩
  · simpa using h.top
  · simpa using h.nonempty
  · rw [scopes_bind, Scopes.size_set] at hid
    simpa [Scopes.bindings_set_of_ne _ hz] using h.below id hid hz
  · rw [scopes_bind, Scopes.bindings_set_self _ h.nonempty]
    exact Entries.nodup_keys_setPath h.nodup v path
  · simpa using h.placed id

/-- Several values bound at the top, one after another. -/
theorem bind_all (writes : List (ValuePath × Value)) (h : a.Flat) :
    (writes.foldl (fun a (path, v) => a.bind 0 v path) a).Flat
      ∧ (writes.foldl (fun a (path, v) => a.bind 0 v path) a).scopes.bindings 0
        = writes.foldl (fun es (path, v) => es.setPath v path) (a.scopes.bindings 0)
      ∧ (writes.foldl (fun a (path, v) => a.bind 0 v path) a).blocks = a.blocks := by
  induction writes generalizing a with
  | nil => exact ⟨h, rfl, rfl⟩
  | cons w writes ih =>
    obtain ⟨hflat, hbindings, hblocks⟩ := ih (h.bind w.2 w.1)
    refine ⟨hflat, hbindings.trans ?_, hblocks⟩
    rw [scopes_bind, Scopes.bindings_set_self _ h.nonempty, List.foldl_cons]

end Flat

/-! ## Insertion -/

mutual

theorem Flat.insert {scope : ScopeId} (caller : Option BlockId) :
    ∀ (t : BlockTree) {a : Arena}, a.Flat → scope < a.scopes.size → t.IsQuiet →
      (insert scope caller a t).2.Flat
        ∧ (insert scope caller a t).1 < (insert scope caller a t).2.blocks.size
        ∧ ((insert scope caller a t).2.block (insert scope caller a t).1).bare = t.block
  | .node kind labels attributes children range, a, h, hscope, ht => by
    obtain ⟨hkind, hattrs, hchildren⟩ := ht
    obtain ⟨hflat, -, -⟩ := Flat.insertAll caller children h hscope hchildren
    have hext := extends_insertAll scope caller children a
    rw [Arena.insert]
    refine ⟨hflat.push (hext.scopes ▸ hscope) ⟨hkind, hattrs⟩, by simp, ?_⟩
    simp [block_push, Block.bare, BlockTree.block]

theorem Flat.insertAll {scope : ScopeId} (caller : Option BlockId) :
    ∀ (trees : List BlockTree) {a : Arena}, a.Flat → scope < a.scopes.size → BlockTree.AllQuiet trees →
      (insertAll scope caller a trees).2.Flat
        ∧ (∀ id ∈ (insertAll scope caller a trees).1, id < (insertAll scope caller a trees).2.blocks.size)
        ∧ ((insertAll scope caller a trees).1.map fun id =>
            ((insertAll scope caller a trees).2.block id).bare) = trees.map BlockTree.block
  | [], a, h, _, _ => ⟨h, by simp [Arena.insertAll], rfl⟩
  | t :: rest, a, h, hscope, ht => by
    obtain ⟨hflat, hid, hbare⟩ := Flat.insert caller t h hscope ht.1
    have hext := extends_insert scope caller t a
    obtain ⟨hrest, hids, hbares⟩ := Flat.insertAll caller rest hflat (hext.scopes ▸ hscope) ht.2
    have hkeep := extends_insertAll scope caller rest (Arena.insert scope caller a t).2
    rw [Arena.insertAll]
    refine ⟨hrest, ?_, ?_⟩
    · intro id hmem
      rcases List.mem_cons.mp hmem with rfl | hmem
      · exact Nat.lt_of_lt_of_le hid hkeep.size
      · exact hids id hmem
    · rw [List.map_cons, List.map_cons, hbares, hkeep.kept _ hid, hbare]

end

theorem Flat.insertFiles {scope : ScopeId} (caller : Option BlockId) (files : List SourceFile)
    {a : Arena} (h : a.Flat) (hscope : scope < a.scopes.size)
    (hquiet : ∀ file ∈ files, BlockTree.AllQuiet file.blocks) :
    (insertFiles scope caller a files).2.Flat
      ∧ ((insertFiles scope caller a files).1.map fun id =>
          ((insertFiles scope caller a files).2.block id).bare)
        = writtenBlocks files := by
  induction files generalizing a with
  | nil => exact ⟨h, rfl⟩
  | cons file files ih =>
    obtain ⟨hflat, hids, hbares⟩ :=
      Flat.insertAll caller file.blocks h hscope (hquiet file List.mem_cons_self)
    have hext := extends_insertAll scope caller file.blocks a
    let mid := (Arena.insertAll scope caller a file.blocks).2.addSource file.path file.text
    have hmid : mid.Flat := ⟨hflat.top, hflat.nonempty, hflat.below, hflat.nodup, hflat.placed,
      hflat.quiet, hflat.unasked⟩
    have hmidscope : scope < mid.scopes.size := hext.scopes ▸ hscope
    obtain ⟨hrest, hmore⟩ := ih hmid hmidscope fun f hf => hquiet f (List.mem_cons_of_mem _ hf)
    have hkeep := extends_insertFiles scope caller files mid
    rw [Arena.insertFiles]
    refine ⟨hrest, ?_⟩
    rw [writtenBlocks, List.map_append, List.flatMap_cons, List.map_append, hmore, ← hbares]
    congr 1
    refine List.map_congr_left fun id hid => ?_
    rw [hkeep.kept id (hids id hid)]
    rfl

/-! ## Scopes of blocks -/

/-- A flat arena with the same bindings and blocks, the latter in scopes that may be new. -/
structure Rearranged (a b : Arena) : Prop where
  flat : b.Flat
  grown : a.scopes.size ≤ b.scopes.size
  bindings : b.scopes.bindings 0 = a.scopes.bindings 0
  bare : ∀ id, (b.block id).bare = (a.block id).bare

namespace Rearranged

variable {a b c : Arena}

theorem refl (h : a.Flat) : Rearranged a a := ⟨h, Nat.le_refl _, rfl, fun _ => rfl⟩

theorem trans (h : Rearranged a b) (k : Rearranged b c) : Rearranged a c :=
  ⟨k.flat, Nat.le_trans h.grown k.grown, k.bindings.trans h.bindings,
    fun id => (k.bare id).trans (h.bare id)⟩

theorem newChild (h : a.Flat) {parent : ScopeId} (hp : parent < a.scopes.size) :
    Rearranged a (a.newChild parent).2 := by
  refine ⟨h.newChild hp, by simp, ?_, fun _ => rfl⟩
  rw [scopes_newChild, Scopes.bindings_push, if_neg (Nat.ne_of_lt h.nonempty)]

theorem place (h : a.Flat) (id : BlockId) {scope : ScopeId} (hscope : scope < a.scopes.size) :
    Rearranged a (a.modify id fun b => { b with scope }) := by
  refine ⟨h.place id hscope, Nat.le_refl _, rfl, fun j => ?_⟩
  rw [block_modify]
  split <;> rfl

/-- Steps that each rearrange blocks do so together. -/
theorem foldl {α : Type} {f : Arena → α → Arena} (xs : List α) (h : a.Flat)
    (hf : ∀ b, Rearranged a b → ∀ x ∈ xs, Rearranged b (f b x)) : Rearranged a (xs.foldl f a) :=
  List.foldlRecOn xs f (refl h) fun b hb x hx => hb.trans (hf b hb x hx)

theorem rescopeUpTo (depth : Nat) (h : a.Flat) (id : BlockId) {scope : ScopeId}
    (hscope : scope < a.scopes.size) : Rearranged a (a.rescopeUpTo depth id scope) := by
  induction depth generalizing a id scope with
  | zero => exact place h id hscope
  | succ depth ih =>
    rw [Arena.rescopeUpTo]
    have hplace := place h id hscope
    refine hplace.trans (foldl _ hplace.flat fun b hb child _ => ?_)
    have hp : scope < b.scopes.size := Nat.lt_of_lt_of_le hscope hb.grown
    have hchild := newChild hb.flat hp
    exact hchild.trans (ih hchild.flat child (by simp))

theorem rescope (h : a.Flat) (id : BlockId) {scope : ScopeId} (hscope : scope < a.scopes.size) :
    Rearranged a (a.rescope id scope) :=
  rescopeUpTo _ h id hscope

end Rearranged

end Arena

/-! ## Passes -/

/-- The value that a variable is declared to have: the one given to it, or its default. -/
def declaredValue (inputs : Entries Value) (b : Block) : Value :=
  coerce b (match inputs.get? b.typeLabel with
    | some v => v
    | none =>
      match b.attribute? "default" with
      | some attr => attr.value.valueIn []
      | none => .unknown)

def declaredVariables (inputs : Entries Value) (written : List Block) : Entries Value :=
  Entries.ofPairs ((written.filter (·.kind == .variable)).map fun b => (b.typeLabel, declaredValue inputs b))

/-- The locals of a module, in the order in which they are declared. -/
def declaredLocals (written : List Block) : List Attribute :=
  (written.filter (·.kind == .locals)).flatMap (·.attributes)

/-- Blocks that declare variables, whose defaults read nothing, and locals. -/
structure IsPlain (written : List Block) : Prop where
  kinds : ∀ b ∈ written, b.kind = .variable ∨ b.kind = .locals
  defaults : ∀ b ∈ written, b.kind = .variable → ∀ attr, b.attribute? "default" = some attr →
    attr.value.occurrences = []
  distinct : ((declaredLocals written).map Attribute.name).Nodup
  reads : ∀ a ∈ declaredLocals written, ∀ o ∈ a.value.occurrences, o.IsPlain

namespace ModuleRun

/-- A run over given blocks, all in one scope and without calls. -/
structure Plain (inputs : Entries Value) (written : List Block) (r : ModuleRun) : Prop where
  flat : r.arena.Flat
  root : r.root = 0
  given : r.inputs = inputs
  calls : r.calls = []
  blocks : (r.module.blocksIn r.arena).map Block.bare = written

variable {inputs : Entries Value} {written : List Block} {r : ModuleRun}

theorem noting_eq_self (r : ModuleRun) {reads : List (Block × List Attribute)}
    (h : ∀ p ∈ reads, ∀ attr ∈ p.2, attr.value.mentionsFiles = false) : r.noting reads = r := by
  have hnone (a : Arena) (b : Block) (attrs : List Attribute)
      (hattrs : ∀ attr ∈ attrs, attr.value.mentionsFiles = false) : a.noting b attrs = a := by
    have hasked : attrs.flatMap (a.asked b) = [] := by
      rw [List.flatMap_eq_nil_iff]
      intro attr hattr
      simp [Arena.asked, hattrs attr hattr]
    rw [Arena.noting, hasked]
    rfl
  rw [noting]
  congr 1
  refine List.foldlRecOn (motive := fun a => a = r.arena) reads _ rfl fun a ha p hp => ?_
  exact (hnone a p.1 p.2 (h p hp)).trans ha

namespace Plain

theorem mem_blocksOf (h : r.Plain inputs written) {kind : BlockKind} {b : Block}
    (hb : b ∈ r.blocksOf kind) : (∃ id, b = r.arena.block id) ∧ b.kind = kind ∧ b.bare ∈ written := by
  rw [blocksOf, List.mem_filter, beq_iff_eq] at hb
  obtain ⟨hb, hkind⟩ := hb
  refine ⟨?_, hkind, ?_⟩
  · obtain ⟨id, -, rfl⟩ := List.mem_map.mp hb
    exact ⟨id, rfl⟩
  · rw [← h.blocks]
    exact List.mem_map.mpr ⟨b, hb, rfl⟩

theorem bare_blocksOf (h : r.Plain inputs written) (kind : BlockKind) :
    (r.blocksOf kind).map Block.bare = written.filter (·.kind == kind) := by
  rw [blocksOf, ← h.blocks, List.filter_map]
  rfl

theorem blocksOf_eq_nil (h : r.Plain inputs written) (hw : IsPlain written) {kind : BlockKind}
    (hv : kind ≠ .variable) (hl : kind ≠ .locals) : r.blocksOf kind = [] := by
  rw [List.eq_nil_iff_forall_not_mem]
  intro b hb
  obtain ⟨-, hkind, hmem⟩ := h.mem_blocksOf hb
  rcases hw.kinds _ hmem with hk | hk
  · exact hv (hkind ▸ hk)
  · exact hl (hkind ▸ hk)

theorem quiet (h : r.Plain inputs written) {kind : BlockKind} {b : Block} (hb : b ∈ r.blocksOf kind)
    {attr : Attribute} (hattr : attr ∈ b.attributes) : attr.value.mentionsFiles = false := by
  obtain ⟨⟨id, rfl⟩, -⟩ := h.mem_blocksOf hb
  exact (h.flat.quiet id).2 attr hattr

theorem resolve_eq (h : r.Plain inputs written) {kind : BlockKind} {b : Block} (hb : b ∈ r.blocksOf kind)
    {attr : Attribute} (hattr : attr ∈ b.attributes) :
    r.arena.resolve b attr = attr.value.valueIn r.bindings := by
  obtain ⟨⟨id, rfl⟩, -⟩ := h.mem_blocksOf hb
  rw [bindings, h.root]
  exact h.flat.resolve_eq id hattr

theorem bind (h : r.Plain inputs written) (v : Value) (path : ValuePath) :
    (r.bind v path).Plain inputs written :=
  ⟨by rw [ModuleRun.bind, h.root]; exact h.flat.bind v path, h.root, h.given, h.calls, h.blocks⟩

theorem bindings_bind (h : r.Plain inputs written) (v : Value) (path : ValuePath) :
    (r.bind v path).bindings = r.bindings.setPath v path := by
  have hsize : r.root < r.arena.scopes.size := h.root ▸ h.flat.nonempty
  simp only [bindings, ModuleRun.bind, Arena.scopes_bind, Scopes.bindings_set_self _ hsize]

theorem missing (h : r.Plain inputs written) (missing : List String) :
    Plain inputs written { r with missing } :=
  ⟨h.flat, h.root, h.given, h.calls, h.blocks⟩

/-! ## Binding -/

theorem variableValue_eq (h : r.Plain inputs written) (hw : IsPlain written) {b : Block}
    (hb : b ∈ r.blocksOf .variable) : r.variableValue b = declaredValue inputs b.bare := by
  obtain ⟨-, hkind, hmem⟩ := h.mem_blocksOf hb
  have hdefault : ∀ attr, b.attribute? "default" = some attr →
      r.arena.resolve b attr = attr.value.valueIn [] := by
    intro attr hattr
    rw [h.resolve_eq hb (List.mem_of_find?_eq_some hattr)]
    refine Expr.valueIn_congr fun o ho => ?_
    rw [hw.defaults b.bare hmem hkind attr hattr] at ho
    exact absurd ho List.not_mem_nil
  rw [variableValue, declaredValue, h.given]
  change coerce b _ = coerce b (match inputs.get? b.typeLabel with
    | some v => v
    | none =>
      match b.attribute? "default" with
      | some attr => attr.value.valueIn []
      | none => .unknown)
  congr 1
  cases inputs.get? b.typeLabel with
  | some v => rfl
  | none =>
    cases hd : b.attribute? "default" with
    | none => rfl
    | some attr => exact hdefault attr hd

theorem variables_eq (h : r.Plain inputs written) (hw : IsPlain written) :
    Entries.ofPairs ((r.blocksOf .variable).map fun b => (b.typeLabel, r.variableValue b))
      = declaredVariables inputs written := by
  rw [declaredVariables, ← h.bare_blocksOf, List.map_map]
  congr 1
  refine List.map_congr_left fun b hb => ?_
  rw [h.variableValue_eq hw hb]
  rfl

theorem bindVariables (h : r.Plain inputs written) (hw : IsPlain written) :
    r.bindVariables.Plain inputs written
      ∧ r.bindVariables.bindings = r.bindings.setPath (.object (declaredVariables inputs written)) ["var"] := by
  have hnoting : r.noting ((r.blocksOf .variable).map fun b => (b, r.variableReads b)) = r := by
    refine noting_eq_self r fun p hp attr hattr => ?_
    obtain ⟨b, hb, rfl⟩ := List.mem_map.mp hp
    refine h.quiet hb ?_
    simp only [variableReads] at hattr
    split at hattr
    · cases hattr
    · split at hattr
      · next d hd =>
        rw [List.mem_singleton.mp hattr]
        exact List.mem_of_find?_eq_some hd
      · exact List.mem_of_find?_eq_some (Option.mem_toList.mp hattr)
  have hr (m : List String) := h.missing m
  rw [ModuleRun.bindVariables, h.variables_eq hw, hnoting]
  exact ⟨(hr _).bind _ _, (hr _).bindings_bind _ _⟩

theorem bindLocals (h : r.Plain inputs written) :
    r.bindLocals.Plain inputs written
      ∧ r.bindLocals.bindings = r.bindings.setPath (.object (Entries.ofPairs
          ((declaredLocals written).map fun a => (a.name, a.value.valueIn r.bindings)))) ["local"] := by
  have hnoting : r.noting ((r.blocksOf .locals).map fun b => (b, b.attributes)) = r := by
    refine noting_eq_self r fun p hp attr hattr => ?_
    obtain ⟨b, hb, rfl⟩ := List.mem_map.mp hp
    exact h.quiet hb hattr
  have hvalues : ((r.blocksOf .locals).flatMap fun b =>
      b.attributes.map fun attr => (attr.name, r.arena.resolve b attr))
      = (declaredLocals written).map fun a => (a.name, a.value.valueIn r.bindings) := by
    rw [declaredLocals, ← h.bare_blocksOf, List.map_flatMap, List.flatMap_map]
    refine List.flatMap_congr fun b hb => ?_
    refine List.map_congr_left fun attr hattr => ?_
    rw [h.resolve_eq hb hattr]
  rw [ModuleRun.bindLocals, hvalues, hnoting]
  exact ⟨h.bind _ _, h.bindings_bind _ _⟩

theorem bindProviders (h : r.Plain inputs written) (hw : IsPlain written) :
    r.bindProviders = r.bind (.object []) ["provider"] := by
  rw [ModuleRun.bindProviders, h.blocksOf_eq_nil hw (by simp) (by simp)]
  rfl

theorem bindOutputs (h : r.Plain inputs written) (hw : IsPlain written) :
    r.bindOutputs = r.bind (.object []) ["output"] := by
  rw [ModuleRun.bindOutputs, h.blocksOf_eq_nil hw (by simp) (by simp)]
  rfl

theorem bindInstances (h : r.Plain inputs written) (hw : IsPlain written) {kind : BlockKind}
    (hv : kind ≠ .variable) (hl : kind ≠ .locals) (above : ValuePath) :
    r.bindInstances kind above = r := by
  rw [ModuleRun.bindInstances, h.blocksOf_eq_nil hw hv hl]
  rfl

theorem bindBlocks (h : r.Plain inputs written) (hw : IsPlain written) :
    r.bindBlocks.Plain inputs written ∧ r.bindBlocks.bindings
      = Locals.passBindings (declaredVariables inputs written) (declaredLocals written) r.bindings := by
  obtain ⟨hvars, bvars⟩ := h.bindVariables hw
  obtain ⟨hlocals, blocals⟩ := hvars.bindLocals
  have hprov := hlocals.bind (.object []) ["provider"]
  rw [ModuleRun.bindBlocks, hlocals.bindProviders hw, hprov.bindInstances hw (by simp) (by simp),
    hprov.bindInstances hw (by simp) (by simp), hprov.bindOutputs hw]
  refine ⟨hprov.bind _ _, ?_⟩
  rw [hprov.bindings_bind, hlocals.bindings_bind, blocals, bvars, Locals.passBindings]

theorem evaluateCalls_eq (h : r.Plain inputs written) (s : Session) (run : Evaluate) (force : Bool) :
    r.evaluateCalls s run force = .ok r := by
  obtain ⟨arena, module, root, given, calls, visited, missing⟩ := r
  obtain rfl : calls = [] := h.calls
  rfl

theorem pass (h : r.Plain inputs written) (hw : IsPlain written) (s : Session) (run : Evaluate) :
    ∃ after, r.pass s run = .ok after ∧ after.Plain inputs written ∧ after.bindings
      = Locals.passBindings (declaredVariables inputs written) (declaredLocals written) r.bindings := by
  obtain ⟨hblocks, hbindings⟩ := h.bindBlocks hw
  exact ⟨_, hblocks.evaluateCalls_eq s run false, hblocks, hbindings⟩

/-! ## Between passes -/

theorem askedInside_eq_nil {a : Arena} (h : a.Flat) (depth : Nat) (id : BlockId) :
    a.askedInside depth (a.block id) = [] := by
  have hown (id : BlockId) : (a.block id).attributes.flatMap (a.asked (a.block id)) = [] := by
    rw [List.flatMap_eq_nil_iff]
    intro attr hattr
    simp [Arena.asked, (h.quiet id).2 attr hattr]
  induction depth generalizing id with
  | zero => exact hown id
  | succ depth ih =>
    rw [Arena.askedInside, hown, List.nil_append, List.flatMap_eq_nil_iff]
    intro child hchild
    obtain ⟨c, -, rfl⟩ := List.mem_map.mp hchild
    exact ih c

theorem readWanted_eq (h : r.Plain inputs written) (s : Session) : r.readWanted s = (false, r) := by
  have hasked : (r.module.blocksIn r.arena).flatMap (r.arena.askedInside r.arena.blocks.size) = [] := by
    rw [List.flatMap_eq_nil_iff]
    intro b hb
    obtain ⟨id, -, rfl⟩ := List.mem_map.mp hb
    exact askedInside_eq_nil h.flat _ id
  obtain ⟨⟨scopes, blocks, sources, ⟨base, contents, wanted⟩⟩, module, root, given, calls, visited, missing⟩ := r
  obtain rfl : wanted = [] := h.flat.unasked
  rw [readWanted]
  simp only [hasked]
  rfl

/-- Instances are made of no variables and no locals. -/
theorem expand_eq (h : r.Plain inputs written) (hw : IsPlain written) (keep ids : List BlockId)
    (hids : ids ⊆ r.module.blocks) :
    r.expand keep ids = (ids, { r with module := { r.module with blocks := keep ++ ids } }) := by
  have hkind : ∀ id ∈ ids, (r.arena.block id).isExpandable = false
      ∧ ((r.arena.block id).kind == .dynamic) = false := by
    intro id hid
    have hmem : (r.arena.block id).bare ∈ written := by
      rw [← h.blocks]
      exact List.mem_map.mpr ⟨_, List.mem_map.mpr ⟨id, hids hid, rfl⟩, rfl⟩
    rcases hw.kinds _ hmem with hk | hk
    all_goals
      change (r.arena.block id).kind = _ at hk
      simp [Block.isExpandable, hk]
  have hcounts : r.arena.expandCounts r.root ids = (ids, r.arena) := by
    have hone : ∀ id ∈ ids, Arena.expandCount r.root r.arena id = ([id], r.arena) := by
      intro id hid
      rw [Arena.expandCount]
      cases (r.arena.block id).attribute? "count" with
      | none => rfl
      | some attr => simp [(hkind id hid).1]
    exact Prod.ext (mapThrough_of_fixed hone).1 (mapThrough_of_fixed hone).2
  have helements : r.arena.expandForEach r.root ids = (ids, r.arena) := by
    have hone : ∀ id ∈ ids, Arena.expandElements r.root r.arena id = ([id], r.arena) := by
      intro id hid
      obtain ⟨hexpandable, hdynamic⟩ := hkind id hid
      rw [Arena.expandElements]
      cases (r.arena.block id).attribute? "for_each" with
      | none => rfl
      | some attr => simp [hexpandable, hdynamic]
    exact Prod.ext (mapThrough_of_fixed hone).1 (mapThrough_of_fixed hone).2
  rw [expand, hcounts]
  simp only [helements]

theorem expandDynamicUpTo_eq {a : Arena} (h : a.Flat) (root : ScopeId) (depth : Nat) (id : BlockId) :
    a.expandDynamicUpTo root depth id = a := by
  have hkind (id : BlockId) : ((a.block id).kind == .dynamic) = false := beq_false_of_ne (h.quiet id).1
  induction depth generalizing id with
  | zero => rfl
  | succ depth ih =>
    have hfold (ids : List BlockId) : ids.foldl (Arena.expandDynamicUpTo root depth) a = a := by
      induction ids with
      | nil => rfl
      | cons i ids ihs => rw [List.foldl_cons, ih i, ihs]
    rw [Arena.expandDynamicUpTo]
    simp only [List.partition_eq_filter_filter, hkind, List.filter_false, Function.comp_def, Bool.not_false,
      List.filter_true, hfold, List.foldl_nil]

theorem expandBlocks_eq (h : r.Plain inputs written) (hw : IsPlain written) : r.expandBlocks = r := by
  have hfold (ids : List BlockId) : ids.foldl (fun a id => a.expandDynamic r.root id) r.arena = r.arena := by
    induction ids with
    | nil => rfl
    | cons i ids ih =>
      have hone : r.arena.expandDynamic r.root i = r.arena := expandDynamicUpTo_eq h.flat _ _ i
      rw [List.foldl_cons, hone, ih]
  rw [expandBlocks, h.expand_eq hw [] r.module.blocks (List.Subset.refl _)]
  simp only [List.nil_append, hfold]

theorem loadModules_eq (h : r.Plain inputs written) (hw : IsPlain written) (s : Session) :
    r.loadModules s = .ok r := by
  have hkind : ∀ id ∈ r.module.blocks, ((r.arena.block id).kind == .module) = false := by
    intro id hid
    have hmem : (r.arena.block id).bare ∈ written := by
      rw [← h.blocks]
      exact List.mem_map.mpr ⟨_, List.mem_map.mpr ⟨id, hid, rfl⟩, rfl⟩
    rcases hw.kinds _ hmem with hk | hk
    all_goals
      change (r.arena.block id).kind = _ at hk
      simp [hk]
  have hcalls : r.module.blocks.filter (fun id => (r.arena.block id).kind == .module) = [] := by
    rw [List.filter_eq_nil_iff]
    intro id hid
    simp [hkind id hid]
  have hothers : r.module.blocks.filter (fun id => !((r.arena.block id).kind == .module))
      = r.module.blocks := by
    rw [List.filter_eq_self]
    intro id hid
    simp [hkind id hid]
  have hpart : r.module.blocks.partition (fun id => (r.arena.block id).kind == .module)
      = ([], r.module.blocks) := by
    rw [List.partition_eq_filter_filter, hcalls]
    exact congrArg _ hothers
  rw [loadModules, hpart]
  simp only [h.expand_eq hw r.module.blocks [] (List.nil_subset _), List.append_nil]
  rfl

end Plain

end ModuleRun

end InfraConfig
