import InfraConfig.Proofs.BlockCopies
import InfraConfig.Proofs.LabelKeys

/-!
# Addresses of instances

Instances of one block under different keys have different addresses, although the escapes of a key are only undone in
part. So a traversal with an index refers to the one instance that was made under the key the index stands for.
-/

namespace InfraConfig

namespace Reference

theorem refersTo_iff {r s : Reference} : r.refersTo s = true ↔
    r.kind = s.kind ∧ r.typeLabel = s.typeLabel ∧ r.nameLabel = s.nameLabel ∧ r.key = s.key := by
  simp [refersTo, and_assoc]

/-- Names after a name label do not matter. Where the name label is a type of data they would be one themselves. -/
theorem refersTo_build_iff {type label other : String} {more : List String}
    (hmore : RefKind.ofRoot type = .data → more = []) :
    (build (type :: label :: more)).refersTo (build [type, other]) = true ↔
      if RefKind.ofRoot type = .data then label = other else splitKey label = splitKey other := by
  rw [refersTo_iff, build, build]
  simp only [List.headD_cons]
  cases hkind : RefKind.ofRoot type <;> simp [hmore, hkind, ofLabels, Prod.ext_iff]

end Reference

/-! ## Instances -/

theorem splitKey_text_inj {name : String} {k l : InstanceKey} (hname : '[' ∉ name.toList) (hk : k.InRange)
    (hl : l.InRange) : splitKey (name ++ k.text) = splitKey (name ++ l.text) ↔ k = l := by
  rw [splitKey_append_text hname hk, splitKey_append_text hname hl]
  constructor
  · intro h
    exact InstanceKey.reread_inj (Option.some.inj (Prod.mk.inj h).2)
  · intro h
    rw [h]

/-- The instances of one block are told apart by their addresses. -/
theorem refersTo_instance_iff (type : String) {name : String} {more : List String} {k l : InstanceKey}
    (hname : '[' ∉ name.toList) (hk : k.InRange) (hl : l.InRange)
    (hmore : RefKind.ofRoot type = .data → more = []) :
    (Reference.build (type :: (name ++ k.text) :: more)).refersTo (.build [type, name ++ l.text]) = true ↔ k = l := by
  rw [Reference.refersTo_build_iff hmore]
  split
  · constructor
    · intro h
      exact InstanceKey.text_inj (append_left_inj h)
    · intro h
      rw [h]
  · exact splitKey_text_inj hname hk hl

namespace Arena

theorem names_clone {a : Arena} {id : BlockId} (hid : id < a.blocks.size) {index : Value} {key : InstanceKey}
    (hkey : InstanceKey.ofValue? index = some key) :
    ((a.clone id index).2.block (a.clone id index).1).names
      = ((a.block id).kind, extendLabel (a.block id).labels key.text) := by
  obtain ⟨children, hblock⟩ := block_clone hid index
  rw [hblock, instanceKey_eq hkey]
  rfl

theorem reference_clone {a : Arena} {id : BlockId} {type name : String} (hid : id < a.blocks.size)
    (hkind : (a.block id).kind = .resource) (hlabels : (a.block id).labels = [type, name]) {index : Value}
    {key : InstanceKey} (hkey : InstanceKey.ofValue? index = some key) :
    ((a.clone id index).2.block (a.clone id index).1).reference = .build [type, name ++ key.text] := by
  have hnames := names_clone hid hkey
  obtain ⟨hmadeKind, hmadeLabels⟩ := Prod.mk.inj hnames
  rw [Block.reference, hmadeKind, hmadeLabels, hkind, hlabels]
  simp [BlockKind.name, Reference.ofBlock, extendLabel]

end Arena

/-! ## Traversals -/

/-- The value that stands for a key. -/
def InstanceKey.datum : InstanceKey → Datum
  | .index i => .int i
  | .name s => .text s

theorem InstanceKey.ofValue?_datum {key : InstanceKey} (h : key.InRange) :
    ofValue? (.ofDatum key.datum) = some key := by
  cases key with
  | index i =>
    have hi : -int64Limit ≤ i ∧ i < int64Limit := by simpa [InRange, isInt64] using h
    have hmin : min i (int64Limit - 1) = i := by omega
    rw [datum, Datum.int, Value.ofDatum, ofValue?, Number.toInt64, hmin]
  | name s => rw [datum, Value.ofDatum, ofValue?]

/-- An index that is evaluated to a key stands for it, also where it is written as a literal. -/
theorem indexKey?_of_eval {env : Environment} {e : Expr} {key : InstanceKey} (hkey : key.InRange)
    (h : e.eval env = .ok key.datum) : indexKey? env e = some key := by
  unfold indexKey?
  split
  · next n =>
    rw [Expr.eval] at h
    cases key with
    | index i =>
      obtain rfl : n = .int i := by simpa [InstanceKey.datum, Datum.int] using h
      have hi : -int64Limit ≤ i ∧ i < int64Limit := by simpa [InstanceKey.InRange, isInt64] using hkey
      rw [Number.int64?, if_pos hi.2, Option.map_some]
    | name s => simp [InstanceKey.datum] at h
  · next s =>
    rw [Expr.eval] at h
    cases key with
    | index i => simp [InstanceKey.datum, Datum.int] at h
    | name t =>
      obtain rfl : s = t := by simpa [InstanceKey.datum] using h
      rfl
  · rw [h]
    exact InstanceKey.ofValue?_datum hkey

theorem referenceParts_attributes (env : Environment) (parts names : List String) :
    referenceParts env parts (names.map Step.attribute) = parts ++ names := by
  induction names generalizing parts with
  | nil => simp [referenceParts]
  | cons name names ih => simp [referenceParts, ih]

/-- The only reference of a traversal with an index is that to the instance under the key of the index. -/
theorem allReferences_indexed {env : Environment} {e : Expr} {key : InstanceKey} (hkey : key.InRange)
    (h : e.eval env = .ok key.datum) (type name : String) (names : List String) :
    (Expr.traversal (.variable type) (.attribute name :: .index e :: names.map .attribute)).allReferences env
      = [.build (type :: (name ++ key.text) :: names)] := by
  simp [Expr.allReferences, Expr.partReferences, Expr.branchReferences, Expr.reference, Expr.references,
    Expr.scopePaths, ScopePath.reference, referenceParts, indexKey?_of_eval hkey h, extendLast,
    referenceParts_attributes, Except.toOption]

/-- Addresses of instances never collide: two keys of one block give the same address only if they are the same. So a
traversal with an index refers to the instance that was made of its block under the key of the index, and to no other
instance of the block. -/
theorem addresses_of_instances_differ {type name : String} {k l : InstanceKey} (hname : '[' ∉ name.toList)
    (hk : k.InRange) (hl : l.InRange) :
    ((Reference.build [type, name ++ k.text]).refersTo (.build [type, name ++ l.text]) = true ↔ k = l)
      ∧ ∀ (a : Arena) (id : BlockId) (index : Value), id < a.blocks.size → (a.block id).kind = .resource →
        (a.block id).labels = [type, name] → InstanceKey.ofValue? index = some l →
        ∀ (now : Arena) (b : Block) (attr : Attribute) (e : Expr) (names : List String),
          attr.value = .traversal (.variable type) (.attribute name :: .index e :: names.map .attribute) →
          e.eval (now.scopes.environment b.scope) = .ok k.datum → (RefKind.ofRoot type = .data → names = []) →
          (now.refersTo b attr ((a.clone id index).2.block (a.clone id index).1) = true ↔ k = l) := by
  refine ⟨refersTo_instance_iff type hname hk hl fun _ => rfl, ?_⟩
  intro a id index hid hkind hlabels hkey now b attr e names hvalue heval hnames
  rw [Arena.refersTo, Arena.allReferences, hvalue, allReferences_indexed hk heval,
    Arena.reference_clone hid hkind hlabels hkey, List.any_cons, List.any_nil, Bool.or_false]
  exact refersTo_instance_iff type hname hk hl hnames

/-- A resource, and a local that reads `r.n["\""].id`. -/
def quotedTraversal : List BlockTree :=
  [.node "resource" ["r", "n"] [] [] default,
    .node "locals" []
      [⟨"x", .traversal (.variable "r") [.attribute "n", .index (.text "\""), .attribute "id"], default⟩] [] default]

theorem addresses_of_instances_differ_quotedTraversal :
    let start := (Arena.empty "/").newRoot
    let a := (Arena.insertAll start.1 none start.2 quotedTraversal).2
    '[' ∉ "n".toList ∧ (InstanceKey.name "\"").InRange ∧ (InstanceKey.index 0).InRange
      ∧ (a.block 0).kind = .resource ∧ (a.block 0).labels = ["r", "n"]
      ∧ ((a.block 1).attributes.any fun attr =>
        a.refersTo (a.block 1) attr ((a.clone 0 (.text "\"")).2.block (a.clone 0 (.text "\"")).1)
          && !a.refersTo (a.block 1) attr ((a.clone 0 (.int 0)).2.block (a.clone 0 (.int 0)).1)) = true := by
  intro start a
  have hname : '[' ∉ "n".toList := by decide
  have hindex : (InstanceKey.index 0).InRange := by decide
  have hkind : (a.block 0).kind = .resource := by decide +kernel
  have hlabels : (a.block 0).labels = ["r", "n"] := by decide +kernel
  have hsize : 0 < a.blocks.size := by decide +kernel
  let key := InstanceKey.name "\""
  let attr : Attribute :=
    ⟨"x", .traversal (.variable "r") [.attribute "n", .index (.text "\""), .attribute "id"], default⟩
  have hown := (addresses_of_instances_differ (k := key) (l := key) hname trivial trivial).2
    a 0 (.text "\"") hsize hkind hlabels rfl a (a.block 1) attr (.text "\"") ["id"] rfl rfl (by decide)
  have hother := (addresses_of_instances_differ (k := key) hname trivial hindex).2
    a 0 (.int 0) hsize hkind hlabels (by decide +kernel) a (a.block 1) attr (.text "\"") ["id"] rfl rfl (by decide)
  refine ⟨hname, trivial, hindex, hkind, hlabels, List.any_eq_true.mpr ⟨attr, ?_, ?_⟩⟩
  · exact List.mem_of_getElem? (i := 0) rfl
  · rw [hown.mpr rfl, Bool.eq_false_iff.mpr fun h => absurd (hother.mp h) (by decide)]
    rfl

end InfraConfig
