import InfraConfig.Proofs.Changes
import InfraConfig.Block.Attribute

/-!
# Views of a module

What an attribute is worth depends on the scopes of its module and on the files that have been read. Two
arenas that have these in common give the same values.
-/

namespace InfraConfig

/-- Which files are wanted has no effect on values. -/
theorem Expr.inlineFiles_wanted (env : Environment) (t : FileTable) (wanted : List String) (e : Expr) :
    e.inlineFiles env { t with wanted } = e.inlineFiles env t := by
  delta Expr.inlineFiles
  rfl

theorem Expr.evalWithFiles_congr (env : Environment) {t u : FileTable} (hbase : u.base = t.base)
    (hcontents : u.contents = t.contents) (e : Expr) : e.evalWithFiles env u = e.evalWithFiles env t := by
  obtain ⟨base, contents, wanted⟩ := u
  obtain rfl : base = t.base := hbase
  obtain rfl : contents = t.contents := hcontents
  rw [evalWithFiles, evalWithFiles, e.inlineFiles_wanted env t wanted]

namespace Arena

/-- The module below `top` is the same in both arenas, and the same files have been read. -/
structure SameView (top : ScopeId) (a b : Arena) : Prop where
  parents : ∀ id, id < a.scopes.size → a.scopes.root id = top →
    b.scopes.parent? id = a.scopes.parent? id
  bindings : ∀ id, id < a.scopes.size → a.scopes.root id = top →
    b.scopes.bindings id = a.scopes.bindings id
  blocks : ∀ id, id < a.blocks.size → a.home id = top → b.block id = a.block id
  base : b.files.base = a.files.base
  contents : b.files.contents = a.files.contents

namespace SameView

variable {top : ScopeId} {a b : Arena}

theorem chain (h : SameView top a b) (ha : a.WellFormed) (hb : b.WellFormed) {id : ScopeId}
    (hid : id < a.scopes.size) (htop : a.scopes.root id = top) : b.scopes.chain id = a.scopes.chain id :=
  Scopes.chain_congr ha.ordered hb.ordered fun j hj hroot =>
    h.parents j (Nat.lt_of_le_of_lt hj hid) (hroot.trans htop)

theorem bindings_of_mem (h : SameView top a b) (ha : a.WellFormed) {id j : ScopeId}
    (hid : id < a.scopes.size) (htop : a.scopes.root id = top) (hj : j ∈ a.scopes.chain id) :
    b.scopes.bindings j = a.scopes.bindings j := by
  obtain ⟨hroot, hle⟩ := Scopes.mem_chain ha.ordered hj
  exact h.bindings j (Nat.lt_of_le_of_lt hle hid) (hroot.trans htop)

theorem merged (h : SameView top a b) (ha : a.WellFormed) (hb : b.WellFormed) {id : ScopeId}
    (hid : id < a.scopes.size) (htop : a.scopes.root id = top) :
    b.scopes.merged id = a.scopes.merged id :=
  Scopes.merged_congr (h.chain ha hb hid htop) fun _ hj => h.bindings_of_mem ha hid htop hj

theorem get? (h : SameView top a b) (ha : a.WellFormed) (hb : b.WellFormed) {id : ScopeId}
    (hid : id < a.scopes.size) (htop : a.scopes.root id = top) (path : ValuePath) :
    b.scopes.get? id path = a.scopes.get? id path :=
  Scopes.get?_congr (h.chain ha hb hid htop) (fun _ hj => h.bindings_of_mem ha hid htop hj) path

theorem evaluate (h : SameView top a b) (ha : a.WellFormed) (hb : b.WellFormed) {id : ScopeId}
    (hid : id < a.scopes.size) (htop : a.scopes.root id = top) (e : Expr) :
    b.evaluate id e = a.evaluate id e := by
  have henv : b.scopes.environment id = a.scopes.environment id := by
    rw [Scopes.environment, Scopes.environment, h.merged ha hb hid htop]
  have hunknown : b.scopes.readsUnknown id e = a.scopes.readsUnknown id e := by
    have hmeets : b.scopes.meetsUnknown id = a.scopes.meetsUnknown id := by
      funext p
      rw [Scopes.meetsUnknown, Scopes.meetsUnknown]
      simp only [h.get? ha hb hid htop]
    rw [Scopes.readsUnknown, Scopes.readsUnknown, hmeets]
  rw [Arena.evaluate, Arena.evaluate, henv, hunknown,
    e.evalWithFiles_congr (a.scopes.environment id) h.base h.contents]

variable {id : BlockId}

theorem evaluate_block (h : SameView top a b) (ha : a.WellFormed) (hb : b.WellFormed)
    (hid : id < a.blocks.size) (htop : a.home id = top) (e : Expr) :
    b.evaluate (a.block id).scope e = a.evaluate (a.block id).scope e :=
  h.evaluate ha hb (ha.placed id hid) htop e

theorem resolve (h : SameView top a b) (ha : a.WellFormed) (hb : b.WellFormed)
    (hid : id < a.blocks.size) (htop : a.home id = top) (attr : Attribute) :
    b.resolve (a.block id) attr = a.resolve (a.block id) attr := by
  rw [Arena.resolve, Arena.resolve, h.evaluate_block ha hb hid htop]

theorem value (h : SameView top a b) (ha : a.WellFormed) (hb : b.WellFormed)
    (hid : id < a.blocks.size) (htop : a.home id = top) (attr : Attribute) :
    b.value (a.block id) attr = a.value (a.block id) attr := by
  rw [Arena.value, Arena.value, h.evaluate_block ha hb hid htop]

end SameView

end Arena

end InfraConfig
