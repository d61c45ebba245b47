import InfraConfig.Proofs.ExpansionChanges
import InfraConfig.Proofs.FilePlaces
import InfraConfig.Proofs.ScopeWrites

/-!
# Injected values

The values of a block that is given to another one are bound below the name of that one. Where the name, cut at its
dots, is the address of the block, they stand below its address. A value goes over what is bound there, so that a
map extends the map of an earlier injection, and what is bound apart from the address stays.
-/

namespace InfraConfig

/-! ## Dotted texts -/

theorem dotPath_append (s t : String) : dotPath (s ++ "." ++ t) = dotPath s ++ dotPath t :=
  splitText_append rfl s t

theorem dotPath_of_noDot {s : String} (h : '.' ∉ s.toList) : dotPath s = [s] :=
  splitText_of_not_mem rfl h

/-! ## Writes under paths apart -/

theorem Apart.append {p q : ValuePath} (h : Apart p q) (more : ValuePath) : Apart (p ++ more) q := by
  refine ⟨fun hp => h.1 ((List.prefix_append p more).trans hp), fun hq => ?_⟩
  rcases List.prefix_or_prefix_of_prefix hq (List.prefix_append p more) with hqp | hpq
  · exact h.2 hqp
  · exact h.1 hpq

theorem Apart.of_length_eq {p q : ValuePath} (hlength : p.length = q.length) (hne : p ≠ q) : Apart p q :=
  ⟨fun h => hne (h.eq_of_length hlength), fun h => hne (h.eq_of_length hlength.symm).symm⟩

/-- What a path leads to after a value is written over what it led to before: the entries of a map go over those of
a map, unless one of them is empty; otherwise it is the value itself. -/
structure WrittenOver (before : Option Value) (v : Value) (after : Option Value) : Prop where
  merged : ∀ old x y, before = some old → old.entries? = some x → v.entries? = some y → x ≠ [] → y ≠ [] →
    after = some (old.withEntries (x.putAll y))
  exact : (∀ old x y, before = some old → old.entries? = some x → v.entries? = some y → x = [] ∨ y = []) →
    after = some v

theorem writtenOver_mergeInto (before : Option Value) (v : Value) :
    WrittenOver before v (some ((before.map (·.mergeInto v)).getD v)) where
  merged old x y hold hx hy hxne hyne := by
    rw [hold]
    exact congrArg some (Value.mergeInto_eq_withEntries hx hy hxne hyne)
  exact hapart := by
    cases before with
    | none => rfl
    | some old => exact congrArg some (Value.mergeInto_eq_self fun x y hx hy => hapart old x y rfl hx hy)

/-- Of writes under paths apart each finds what was there before all of them. -/
theorem Entries.getPath?_write_of_mem (es : Entries Value) {ws : List (ValuePath × Value)}
    (hapart : ws.Pairwise fun w x => Apart w.1 x.1) {w : ValuePath × Value} (hw : w ∈ ws) (hne : w.1 ≠ []) :
    (es.write ws).getPath? w.1 = some (((es.getPath? w.1).map (·.mergeInto w.2)).getD w.2) := by
  obtain ⟨earlier, later, rfl⟩ := List.append_of_mem hw
  obtain ⟨-, hlater, hearlier⟩ := List.pairwise_append.mp hapart
  have hbefore : (es.write earlier).getPath? w.1 = es.getPath? w.1 :=
    es.getPath?_write_of_apart fun x hx => hearlier x hx w List.mem_cons_self
  have hafter : ((es.write (earlier ++ [w])).write later).getPath? w.1 = (es.write (earlier ++ [w])).getPath? w.1 :=
    Entries.getPath?_write_of_apart _ fun x hx => ((List.pairwise_cons.mp hlater).1 x hx).symm
  rw [List.append_cons, write_append, hafter, write_append, ← hbefore]
  exact (es.write earlier).getPath?_setPath_self w.2 hne

/-! ## Addresses -/

namespace Reference

/-- A reference to a label that is printed as it is read. -/
theorem text_ofLabels {kind : RefKind} {type label : String} (htype : type ≠ "") (hname : (splitKey label).1 ≠ "")
    (hprinted : (splitKey label).1 ++ ((splitKey label).2.map InstanceKey.text).getD "" = label) :
    (ofLabels kind type label []).text
      = (if kind = .resource then "" else kind.text ++ ".") ++ type ++ "." ++ label := by
  rw [ofLabels]
  generalize splitKey label = read at hname hprinted ⊢
  obtain ⟨name, key⟩ := read
  have hfilter : [type, name].filter (!·.isEmpty) = [type, name] := by
    simpa [List.filter_eq_self] using ⟨htype, hname⟩
  rw [← hprinted, ← String.toList_inj]
  by_cases hkind : kind = .resource <;> cases key <;> simp [text, base, hfilter, hkind, joinText, intercalateList]

end Reference

namespace Block

/-- Whether the block is not a resource whose type reads as the kind of data. -/
def HasOwnType (b : Block) : Prop :=
  b.kind = .resource → b.typeLabel ≠ "data"

/-- The addresses of two blocks are the same, or neither leads through the other. -/
theorem apart_of_address? {b c : Block} {p q : ValuePath} (hb : b.address? = some p) (hc : c.address? = some q)
    (hne : p ≠ q) (hbtype : b.HasOwnType) (hctype : c.HasOwnType) : Apart p q := by
  rw [address?] at hb hc
  split at hb <;> split at hc <;> cases hb <;> cases hc
  · exact .of_length_eq rfl hne
  · next hkind _ _ => exact .of_head_ne (hbtype hkind) _ _
  · exact .of_length_eq rfl hne
  · next hkind => exact .of_head_ne (hctype hkind).symm _ _
  · exact .of_length_eq rfl hne
  · exact .of_head_ne (by decide) _ _
  · exact .of_length_eq rfl hne
  · exact .of_head_ne (by decide) _ _
  · exact .of_length_eq rfl hne

/-- The name of a resource or of data reads as its address, if its labels have no dots, its type stands for no other
kind, and its name label is printed as it is read. -/
theorem address?_eq_dotPath {b : Block} {type label : String} (hlabels : b.labels = [type, label])
    (hkind : b.kind = .resource ∧ RefKind.ofRoot type = .resource ∨ b.kind = .data)
    (htype : type ≠ "" ∧ '.' ∉ type.toList) (hlabel : (splitKey label).1 ≠ "" ∧ '.' ∉ label.toList)
    (hprinted : (splitKey label).1 ++ ((splitKey label).2.map InstanceKey.text).getD "" = label) :
    b.address? = some (dotPath b.localName) := by
  have hpath : dotPath (type ++ "." ++ label) = [type, label] := by
    rw [dotPath_append, dotPath_of_noDot htype.2, dotPath_of_noDot hlabel.2]
    rfl
  rcases hkind with ⟨hkind, hroot⟩ | hkind
  · have href : b.reference = .ofLabels .resource type label [] := by
      simp [reference, Reference.ofBlock, Reference.build, hkind, hlabels, hroot, BlockKind.name]
    rw [localName, href, Reference.text_ofLabels htype.1 hlabel.1 hprinted, if_pos rfl, String.empty_append, hpath,
      address?, hkind, typeLabel, nameLabel, hlabels]
    rfl
  · have href : b.reference = .ofLabels .data type label [] := by
      simp [reference, Reference.ofBlock, Reference.build, hkind, hlabels, RefKind.ofRoot, BlockKind.name]
    have hdata : dotPath ("data" ++ "." ++ (type ++ "." ++ label)) = ["data", type, label] := by
      rw [dotPath_append, hpath, dotPath_of_noDot (by decide)]
      rfl
    rw [localName, href, Reference.text_ofLabels htype.1 hlabel.1 hprinted, if_neg (by decide), RefKind.text,
      address?, hkind, typeLabel, nameLabel, hlabels]
    simpa [String.append_assoc] using hdata.symm

end Block

/-! ## Injections -/

namespace Arena

variable {a : Arena} {parent child : BlockId} {kind : String} {path : ValuePath}

/-- The values of a block that are written when it is injected under an address. -/
def injectedWrites (a : Arena) (path : ValuePath) (kind : String) (b : Block) : List (ValuePath × Value) :=
  b.attributes.map fun attr => (path ++ [kind, attr.name], a.value b attr)

theorem injectedWrites_apart (a : Arena) (path : ValuePath) (kind : String) {b : Block}
    (hnames : (b.attributes.map Attribute.name).Nodup) :
    (a.injectedWrites path kind b).Pairwise fun w x => Apart w.1 x.1 := by
  rw [injectedWrites, List.pairwise_map]
  refine (List.pairwise_map.mp hnames).imp fun {attr} {other} hne => ?_
  exact .of_length_eq (by simp) (by simpa using hne)

theorem scopes_foldl_bind (root : ScopeId) (path : String → ValuePath) (values : List (String × Value)) (a : Arena) :
    (values.foldl (fun b w => b.bind root w.2 (path w.1)) a).scopes
      = values.foldl (fun s w => s.set root w.2 (path w.1)) a.scopes := by
  induction values generalizing a with
  | nil => rfl
  | cons w values ih => exact ih _

end Arena

namespace Scopes

/-- Writes to one scope are writes to its bindings. -/
theorem bindings_foldl_set (root : ScopeId) (path : String → ValuePath) (values : List (String × Value)) {s : Scopes}
    (hroot : root < s.size) :
    (values.foldl (fun s w => s.set root w.2 (path w.1)) s).bindings root
      = (s.bindings root).write (values.map fun w => (path w.1, w.2)) := by
  induction values generalizing s with
  | nil => rfl
  | cons w values ih =>
    rw [List.foldl_cons, ih (by simpa using hroot), bindings_set_self s hroot]
    rfl

theorem bindings_foldl_set_of_ne {root : ScopeId} (path : String → ValuePath) (values : List (String × Value))
    (s : Scopes) {id : ScopeId} (hid : id ≠ root) :
    (values.foldl (fun s w => s.set root w.2 (path w.1)) s).bindings id = s.bindings id := by
  induction values generalizing s with
  | nil => rfl
  | cons w values ih => exact (ih _).trans (s.bindings_set_of_ne hid w.2 (path w.1))

theorem parent?_foldl_set (root : ScopeId) (path : String → ValuePath) (values : List (String × Value)) (s : Scopes)
    (id : ScopeId) : (values.foldl (fun s w => s.set root w.2 (path w.1)) s).parent? id = s.parent? id := by
  induction values generalizing s with
  | nil => rfl
  | cons w values ih => exact (ih _).trans (parent?_set s root w.2 (path w.1) id)

end Scopes

namespace Arena

variable {a : Arena} {parent child : BlockId} {kind : String} {path : ValuePath}

theorem value_renamed (a : Arena) (child : BlockId) (kind : String) (attr : Attribute) :
    (a.renamed child kind).value ((a.renamed child kind).block child) attr = a.value (a.block child) attr := by
  have hscope : ((a.renamed child kind).block child).scope = (a.block child).scope :=
    modify_same Block.scope a child (by intro _; rfl) child
  rw [value, value, hscope]
  rfl

/-- Injecting a block binds its values one after another in the scope at the top. -/
theorem scopes_inject (a : Arena) (hne : parent ≠ child) (kind : String) :
    (a.inject parent child kind).scopes
      = ((a.block child).attributes.map fun attr => (attr.name, a.value (a.block child) attr)).foldl
        (fun s w => s.set (a.scopes.root (a.block parent).scope) w.2
          (dotPath ((a.block parent).localName ++ "." ++ kind ++ "." ++ w.1))) a.scopes := by
  have hparent : (a.renamed child kind).block parent = a.block parent := by
    rw [renamed, block_modify, if_neg fun h => hne h.1]
  have hattrs : ((a.renamed child kind).block child).attributes = (a.block child).attributes :=
    modify_same Block.attributes a child (by intro _; rfl) child
  let b := a.renamed child kind
  have hinject : (a.inject parent child kind).scopes
      = (((b.block child).attributes.map fun attr => (attr.name, b.value (b.block child) attr)).foldl
        (fun c w => c.bind (b.scopes.root (b.block parent).scope) w.2
          (dotPath ((b.block parent).localName ++ "." ++ kind ++ "." ++ w.1)))
        (b.noting (b.block child) (b.block child).attributes)).scopes := rfl
  rw [hinject, hparent, hattrs, scopes_foldl_bind _
    fun name => dotPath ((a.block parent).localName ++ "." ++ kind ++ "." ++ name)]
  simp only [value_renamed a child kind, b]
  rfl

theorem bindings_inject_of_ne {root : ScopeId} (hparent : a.Has root parent) (hne : parent ≠ child) (kind : String)
    {id : ScopeId} (hid : id ≠ root) : (a.inject parent child kind).scopes.bindings id = a.scopes.bindings id := by
  have hscope : a.scopes.root (a.block parent).scope = root := hparent.2
  rw [scopes_inject a hne, hscope]
  exact Scopes.bindings_foldl_set_of_ne
    (fun name => dotPath ((a.block parent).localName ++ "." ++ kind ++ "." ++ name)) _ _ hid

/-- The values go below the address of the parent, if the name of the parent reads as its address. -/
theorem bindings_inject {root : ScopeId} (htop : a.IsTop root) (hparent : a.Has root parent) (hne : parent ≠ child)
    (hname : dotPath (a.block parent).localName = path) (hkind : '.' ∉ kind.toList)
    (hattrs : ∀ attr ∈ (a.block child).attributes, '.' ∉ attr.name.toList) :
    (a.inject parent child kind).scopes.bindings root
      = (a.scopes.bindings root).write (a.injectedWrites path kind (a.block child)) := by
  have hscope : a.scopes.root (a.block parent).scope = root := hparent.2
  rw [scopes_inject a hne, hscope, Scopes.bindings_foldl_set _
    (fun name => dotPath ((a.block parent).localName ++ "." ++ kind ++ "." ++ name)) _ htop.1, injectedWrites,
    List.map_map]
  refine congrArg _ (List.map_congr_left fun attr hattr => ?_)
  simp [dotPath_append, dotPath_of_noDot hkind, dotPath_of_noDot (hattrs attr hattr), hname]

/-- Right after a block is injected, its values stand below the address of the parent, each written over what stood
there; what stands apart from that address, such as under the addresses of other blocks, stays. -/
theorem inject_publishes_values {root : ScopeId} (htop : a.IsTop root) (hparent : a.Has root parent)
    (hne : parent ≠ child) (haddress : (a.block parent).address? = some path)
    (hname : dotPath (a.block parent).localName = path) (hkind : '.' ∉ kind.toList)
    (hnames : ((a.block child).attributes.map Attribute.name).Nodup)
    (hattrs : ∀ attr ∈ (a.block child).attributes, '.' ∉ attr.name.toList) :
    (∀ attr ∈ (a.block child).attributes,
        WrittenOver (a.scopes.get? root (path ++ [kind, attr.name])) (a.value (a.block child) attr)
          ((a.inject parent child kind).scopes.get? root (path ++ [kind, attr.name])))
      ∧ (∀ q, Apart path q → (a.inject parent child kind).scopes.get? root q = a.scopes.get? root q)
      ∧ ∀ other q, (a.block other).address? = some q → q ≠ path → (a.block parent).HasOwnType →
        (a.block other).HasOwnType → (a.inject parent child kind).scopes.get? root q = a.scopes.get? root q := by
  have hbindings := bindings_inject htop hparent hne hname hkind hattrs
  have hafter : (a.inject parent child kind).scopes.parent? root = none := by
    rw [scopes_inject a hne, Scopes.parent?_foldl_set _
      fun name => dotPath ((a.block parent).localName ++ "." ++ kind ++ "." ++ name)]
    exact htop.2
  have hkept : ∀ q, Apart path q → (a.inject parent child kind).scopes.get? root q = a.scopes.get? root q := by
    intro q hq
    rw [Scopes.get?_root hafter, Scopes.get?_root htop.2, hbindings]
    refine Entries.getPath?_write_of_apart _ fun w hw => ?_
    obtain ⟨attr, -, rfl⟩ := List.mem_map.mp hw
    exact hq.append _
  refine ⟨fun attr hattr => ?_, hkept, fun other q hother hq hownType hotherType => ?_⟩
  · rw [Scopes.get?_root hafter, Scopes.get?_root htop.2, hbindings]
    have hmem : (path ++ [kind, attr.name], a.value (a.block child) attr)
        ∈ a.injectedWrites path kind (a.block child) := List.mem_map_of_mem hattr
    rw [Entries.getPath?_write_of_mem _ (injectedWrites_apart a path kind hnames) hmem (by simp)]
    exact writtenOver_mergeInto _ _
  · exact hkept q (Block.apart_of_address? haddress hother hq.symm hownType hotherType)

/-- An instance of a resource, and two blocks with a map each. -/
def mapBlocks : List BlockTree :=
  [.node "resource" ["r", "n[0]"] [] [] default,
    .node "content" [] [⟨"v", .object [(.name "a", .bool true)], default⟩] [] default,
    .node "content" [] [⟨"v", .object [(.name "b", .bool true)], default⟩, ⟨"w", .text "s", default⟩] [] default]

/-- The second of two maps that are injected under one name extends the first and does not replace it. -/
theorem inject_extends_injected_map :
    let start := (Arena.empty "/").newRoot
    let a := (insertAll start.1 none start.2 mapBlocks).2.inject 0 1 "d"
    (a.block 0).kind = .resource ∧ (a.block 0).address? = some ["r", "n[0]"]
      ∧ a.scopes.root (a.block 0).scope = start.1 ∧ ((a.block 2).attributes.map Attribute.name).Nodup
      ∧ ¬ ∀ attr ∈ (a.block 2).attributes,
        (a.inject 0 2 "d").scopes.get? start.1 (["r", "n[0]"] ++ ["d", attr.name]) = some (a.value (a.block 2) attr) := by
  intro start a
  refine ⟨by decide +kernel, by decide +kernel, by decide +kernel, by decide +kernel, fun h => ?_⟩
  have hv := h ⟨"v", .object [(.name "b", .bool true)], default⟩ List.mem_cons_self
  have hkeys := congrArg (fun v => (v.bind Value.entries?).map Entries.keys) hv
  exact absurd hkeys (by decide +kernel)

theorem inject_publishes_values_mapBlocks :
    let start := (Arena.empty "/").newRoot
    let a := (insertAll start.1 none start.2 mapBlocks).2.inject 0 1 "d"
    let b := a.inject 0 2 "d"
    a.IsTop start.1 ∧ a.Has start.1 0 ∧ (a.block 0).address? = some ["r", "n[0]"]
      ∧ dotPath (a.block 0).localName = ["r", "n[0]"]
      ∧ ((a.block 2).attributes.map Attribute.name).Nodup
      ∧ (∀ attr ∈ (a.block 2).attributes, '.' ∉ attr.name.toList)
      ∧ ∀ attr ∈ (a.block 2).attributes,
        WrittenOver (a.scopes.get? start.1 (["r", "n[0]"] ++ ["d", attr.name])) (a.value (a.block 2) attr)
          (b.scopes.get? start.1 (["r", "n[0]"] ++ ["d", attr.name])) := by
  intro start a b
  have htop : a.IsTop start.1 := ⟨by decide +kernel, by decide +kernel⟩
  have hparent : a.Has start.1 0 := ⟨by decide +kernel, by decide +kernel⟩
  have haddress : (a.block 0).address? = some ["r", "n[0]"] := by decide +kernel
  have hname : dotPath (a.block 0).localName = ["r", "n[0]"] := by decide +kernel
  have hnames : ((a.block 2).attributes.map Attribute.name).Nodup := by decide +kernel
  have hattrs : ∀ attr ∈ (a.block 2).attributes, '.' ∉ attr.name.toList := by decide +kernel
  exact ⟨htop, hparent, haddress, hname, hnames, hattrs,
    (inject_publishes_values htop hparent (by decide) haddress hname (by decide) hnames hattrs).1⟩

end Arena

end InfraConfig
