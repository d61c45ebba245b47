import InfraConfig.Proofs.FinishedCalls
import InfraConfig.Proofs.ScopeWrites

/-!
# What a pass binds to a variable

A pass binds the variables of a module first. What it binds after them leaves a variable as it is, unless a resource of
the type `var` has the name of the variable.
-/

namespace InfraConfig

namespace Entries

variable {α : Type}

/-- The value of a name in pairs of which a later one replaces an earlier one. -/
def assigned? (pairs : List (String × α)) (name : String) : Option α :=
  (ofPairs pairs).get? name

theorem get?_putAll_eq (es more : Entries α) (name : String) :
    (es.putAll more).get? name = (assigned? more name).or (es.get? name) := by
  induction more generalizing es with
  | nil => rfl
  | cons e more ih =>
    have hfirst : assigned? (e :: more) name = (assigned? more name).or (if name = e.1 then some e.2 else none) := by
      rw [assigned?, ofPairs, putAll_cons, ih, get?_put, get?_nil]
    rw [putAll_cons, ih, get?_put, hfirst, Option.or_assoc]
    split
    · rw [Option.some_or]
    · rw [Option.none_or]

theorem assigned?_of_nodup {es : Entries α} (h : es.keys.Nodup) (name : String) : assigned? es name = es.get? name := by
  rw [assigned?, ofPairs_eq_self h]

theorem assigned?_putAll {es : Entries α} (h : es.keys.Nodup) (more : Entries α) (name : String) :
    assigned? (es.putAll more) name = (assigned? more name).or (assigned? es name) := by
  rw [assigned?_of_nodup (nodup_keys_putAll h more), get?_putAll_eq, assigned?_of_nodup h]

theorem putAll_ne_nil {es : Entries Value} (h : es ≠ []) (more : Entries Value) : es.putAll more ≠ [] := by
  induction more generalizing es with
  | nil => exact h
  | cons e more ih => exact ih (put_ne_nil es e.1 e.2)

end Entries

/-- An object that is written over another one leaves the entries that it does not have itself. -/
theorem Value.get?_mergeInto_of_none {es : Entries Value} {key : String} {v old : Value} (hne : es ≠ [])
    (hnone : es.get? key = none) (hold : old.get? key = some v) :
    (old.mergeInto (.object es)).get? key = some v := by
  obtain ⟨entries, hentries, hget⟩ := Option.bind_eq_some_iff.mp hold
  have hsome : entries ≠ [] := by
    rintro rfl
    cases hget
  rw [mergeInto_eq_withEntries hentries rfl hsome hne, Value.get?, entries?_withEntries, Option.bind_some,
    Entries.get?_putAll_of_not_mem ((Entries.get?_eq_none_iff es key).mp hnone), hget]

/-- A write that leaves what stands under a name below another one: it goes elsewhere, or it adds entries of other
names. -/
def Spares (name key : String) (w : ValuePath × Value) : Prop :=
  Apart w.1 [name, key] ∨ w.1 = [name] ∧ ∃ more : Entries Value, w.2 = .object more ∧ more ≠ [] ∧ more.get? key = none

theorem Spares.getPath? {name key : String} {w : ValuePath × Value} (h : Spares name key w) {es : Entries Value}
    {v : Value} (hv : es.getPath? [name, key] = some v) : (es.setPath w.2 w.1).getPath? [name, key] = some v := by
  rcases h with hapart | ⟨hpath, more, hvalue, hne, hnone⟩
  · rwa [es.getPath?_setPath_of_apart w.2 hapart]
  · obtain ⟨old, hold, hinner⟩ := Option.bind_eq_some_iff.mp hv
    have hinner : old.get? key = some v := by simpa [Value.getPath?] using hinner
    rw [hpath, hvalue, Entries.setPath_single, Entries.getPath?_cons, Entries.get?_put, if_pos rfl, hold,
      Option.map_some, Option.getD_some, Option.bind_some, Value.getPath?,
      Value.get?_mergeInto_of_none hne hnone hinner, Option.bind_some, Value.getPath?]

theorem Entries.getPath?_write_of_spares {name key : String} {ws : List (ValuePath × Value)}
    (h : ∀ w ∈ ws, Spares name key w) {es : Entries Value} {v : Value} (hv : es.getPath? [name, key] = some v) :
    (es.write ws).getPath? [name, key] = some v := by
  induction ws generalizing es with
  | nil => exact hv
  | cons w ws ih =>
    obtain ⟨hfirst, hrest⟩ := List.forall_mem_cons.mp h
    exact ih hrest (hfirst.getPath? hv)

/-! ## Names in a group of instances -/

namespace Instances

variable {g : Instances} {P : String → Prop} {label name : String} {v : Value}

/-- A group that holds something, all of it under labels that satisfy `P`. -/
structure NamedBy (P : String → Prop) (g : Instances) : Prop where
  nonempty : g.named ≠ []
  named : ∀ label ∈ g.named.keys, P label
  gathered : ∀ base ∈ g.gathered, ∃ label, P label ∧ (splitKey label).1 = base

theorem NamedBy.insert (hg : g = .empty ∨ g.NamedBy P) (hlabel : P label) (v : Value) :
    (g.insert label v).NamedBy P := by
  have hnamed : ∀ label ∈ g.named.keys, P label := by
    rcases hg with rfl | hg
    · exact fun label hlabel => absurd hlabel List.not_mem_nil
    · exact hg.named
  have hgathered : ∀ base ∈ g.gathered, ∃ label, P label ∧ (splitKey label).1 = base := by
    rcases hg with rfl | hg
    · exact fun base hbase => absurd hbase List.not_mem_nil
    · exact hg.gathered
  refine ⟨?_, fun other hother => ?_, fun base hbase => ?_⟩
  · rw [named_insert]
    exact Entries.put_ne_nil _ _ _
  · rw [named_insert] at hother
    rcases Entries.mem_keys_put.mp hother with rfl | hother
    · exact hlabel
    · exact hnamed other hother
  · rcases mem_gathered_insert hbase with hbase | ⟨key, hkey⟩
    · exact hgathered base hbase
    · exact ⟨label, hlabel, congrArg Prod.fst hkey⟩

/-- The value of a group has nothing under a name that none of its labels has, with or without key. -/
theorem NamedBy.toValue (h : g.NamedBy P) (hname : ¬ P name) (hbase : ∀ label, P label → (splitKey label).1 ≠ name) :
    ∃ es : Entries Value, g.toValue = .object es ∧ es ≠ [] ∧ es.get? name = none := by
  refine ⟨_, rfl, Entries.putAll_ne_nil h.nonempty _, ?_⟩
  have hgathered : name ∉ g.gathered := by
    intro hmem
    obtain ⟨label, hlabel, heq⟩ := h.gathered name hmem
    exact hbase label hlabel heq
  have hnamed : g.named.get? name = none := (Entries.get?_eq_none_iff _ _).mpr fun hmem => hname (h.named name hmem)
  exact (get?_toValue hgathered).trans hnamed

end Instances

/-- Each group holds the values of its type. -/
theorem namedBy_groupInstances {items : List (String × String × Value)} {type : String} {g : Instances}
    (h : (groupInstances items).get? type = some g) : g.NamedBy fun label => ∃ v, (type, label, v) ∈ items := by
  have hall : ∀ (type : String) (g : Instances), (groupInstances items).get? type = some g →
      g.NamedBy fun label => ∃ v, (type, label, v) ∈ items := by
    rw [groupInstances]
    refine List.foldlRecOn (motive := fun groups : Entries Instances => ∀ (type : String) (g : Instances),
      groups.get? type = some g → g.NamedBy fun label => ∃ v, (type, label, v) ∈ items) items _
      (fun type g h => by cases h) fun groups ih item hitem type g hget => ?_
    obtain ⟨own, label, v⟩ := item
    rw [Entries.get?_put] at hget
    split at hget
    · next heq =>
      obtain rfl := Option.some.inj hget
      subst heq
      refine .insert ?_ ⟨v, hitem⟩ v
      cases hold : groups.get? type with
      | none => exact .inl rfl
      | some old => exact .inr (ih type old hold)
    · exact ih type g hget
  exact hall type g h

/-- A block whose values are bound in place of a variable or below its name: a resource of the type `var` that is named
like the variable, with or without the key of an instance. -/
def Block.Hides (name : String) (b : Block) : Prop :=
  b.kind = .resource ∧ 2 ≤ b.labels.length ∧ b.typeLabel = "var" ∧ (b.nameLabel = name ∨ b.baseName = name)

instance (name : String) (b : Block) : Decidable (b.Hides name) :=
  inferInstanceAs (Decidable (_ ∧ _))

namespace ModuleRun

variable {s : Session} {run : Evaluate} {r next : ModuleRun} {name : String} {b : Block} {v : Value}

theorem spares_instanceWrites (h : ∀ b ∈ r.blocksOf .resource, ¬ b.Hides name) :
    ∀ w ∈ r.instanceWrites .resource [], Spares "var" name w := by
  intro w hw
  obtain ⟨⟨type, g⟩, hg, rfl⟩ := List.mem_map.mp hw
  by_cases htype : type = "var"
  · subst htype
    have hnamed := namedBy_groupInstances (Entries.get?_of_mem (nodup_keys_groupInstances _) hg)
    have hhides {label : String} {v : Value} (hitem : ("var", label, v) ∈ ((r.blocksOf .resource).filter
        fun b => 2 ≤ b.labels.length).map fun b => (b.typeLabel, b.nameLabel, r.arena.values b)) :
        label ≠ name ∧ (splitKey label).1 ≠ name := by
      obtain ⟨b, hb, heq⟩ := List.mem_map.mp hitem
      obtain ⟨hb, hlabels⟩ := List.mem_filter.mp hb
      obtain ⟨htype, heq⟩ := Prod.mk.inj heq
      obtain ⟨hlabel, -⟩ := Prod.mk.inj heq
      have hkind : b.kind = .resource := by simpa using (List.mem_filter.mp hb).2
      have hnot := h b hb
      rw [Block.Hides, Block.baseName, hlabel] at hnot
      exact not_or.mp fun hor => hnot ⟨hkind, of_decide_eq_true hlabels, htype, hor⟩
    exact .inr ⟨rfl, hnamed.toValue (fun ⟨v, hv⟩ => (hhides hv).1 rfl) fun label ⟨v, hv⟩ => (hhides hv).2⟩
  · exact .inl (Apart.of_head_ne htype [] [name])

/-- After the variables a pass binds nothing else in place of them. -/
theorem Sound.variable_bindBlocks (hs : r.Sound) (h : ∀ b ∈ r.blocksOf .resource, ¬ b.Hides name)
    (hv : r.bindVariables.bindings.getPath? ["var", name] = some v) :
    r.bindBlocks.bindings.getPath? ["var", name] = some v := by
  have hvariables : Rebinds r r.bindVariables := .bindVariables r
  have hlocals : Rebinds r r.bindVariables.bindLocals := hvariables.trans (.bindLocals _)
  have hproviders : Rebinds r r.bindVariables.bindLocals.bindProviders := hlocals.trans (.bindProviders _)
  have hresources := hproviders.trans (.bindInstances .resource [] _)
  have hdata := hresources.trans (.bindInstances .data ["data"] _)
  have hslot : InSlot 0 ["var", name] := ⟨"var", [name], rfl, rfl⟩
  have helse {i : Nat} {q next : ModuleRun} (hi : i ≠ 0) (hwrites : ∃ ws, next.bindings = q.bindings.write ws
      ∧ (ws.Pairwise fun w x => Apart w.1 x.1) ∧ ∀ w ∈ ws, ∃ j ∈ [i], InSlot j w.1)
      (hq : q.bindings.getPath? ["var", name] = some v) : next.bindings.getPath? ["var", name] = some v := by
    obtain ⟨ws, hws, -, hin⟩ := hwrites
    rw [hws, Entries.getPath?_write_of_apart _ fun w hw => ?_, hq]
    obtain ⟨j, hj, hslotOfW⟩ := hin w hw
    exact hslotOfW.apart hslot (List.mem_singleton.mp hj ▸ hi)
  have h1 : r.bindVariables.bindLocals.bindings.getPath? ["var", name] = some v :=
    helse (i := 1) (by decide) (writes_of_bind rfl (hvariables.sound hs) rfl) hv
  have h2 : r.bindVariables.bindLocals.bindProviders.bindings.getPath? ["var", name] = some v :=
    helse (i := 2) (by decide) (writes_of_bind rfl (hlocals.sound hs) rfl) h1
  have h3 : (r.bindVariables.bindLocals.bindProviders.bindInstances .resource []).bindings.getPath? ["var", name]
      = some v := by
    rw [bindings_bindInstances (hproviders.sound hs).root_lt]
    refine Entries.getPath?_write_of_spares (spares_instanceWrites fun b hb => ?_) h2
    rw [hproviders.blocksOf] at hb
    exact h b hb
  have h4 := helse (i := 3) (by decide) ((binds_data _).writes (hresources.sound hs)) h3
  exact helse (i := 4) (by decide) (writes_of_bind rfl (hdata.sound hs) rfl) h4

/-! ## A whole pass -/

/-- Whether a block is the one declaration of a variable among some blocks. -/
def Declares (name : String) (blocks : List Block) (b : Block) : Prop :=
  blocks.filter (fun b => b.kind == .variable && b.typeLabel == name) = [b]

theorem Declares.split (h : Declares name (r.module.blocksIn r.arena) b) : b.typeLabel = name
    ∧ ∃ before after, r.blocksOf .variable = before ++ b :: after ∧ ∀ other ∈ after, other.typeLabel ≠ name := by
  have hfilter : (r.blocksOf .variable).filter (fun b => b.typeLabel == name) = [b] := by
    rw [ModuleRun.blocksOf, List.filter_filter]
    simpa only [Declares, Bool.and_comm] using h
  obtain ⟨before, after, hsplit, -, hb, hafter⟩ := List.filter_eq_cons_iff.mp hfilter
  refine ⟨by simpa using hb, before, after, hsplit, fun other hother => ?_⟩
  simpa using List.filter_eq_nil_iff.mp hafter other hother

theorem Sound.variable_bindVariables (hs : r.Sound) (h : Declares name (r.module.blocksIn r.arena) b) :
    r.bindVariables.bindings.getPath? ["var", name] = some (r.variableValue b) := by
  obtain ⟨rfl, before, after, hsplit, hafter⟩ := h.split
  have hget : (Entries.ofPairs ((r.blocksOf .variable).map fun b => (b.typeLabel, r.variableValue b))).get? b.typeLabel
      = some (r.variableValue b) := by
    rw [hsplit, List.map_append, List.map_cons]
    refine Entries.get?_ofPairs_last _ _ _ fun hmem => ?_
    rw [List.map_map] at hmem
    obtain ⟨other, hother, heq⟩ := List.mem_map.mp hmem
    exact hafter other hother heq
  rw [bindVariables, bindings_bind]
  · exact Entries.getPath?_setPath_object (Entries.nodup_keys_ofPairs _) hget _ _
  · rw [show ∀ (q : ModuleRun) (missing : List String), ({ q with missing } : ModuleRun).arena = q.arena from
      fun _ _ => rfl, scopes_noting]
    exact hs.root_lt

/-- A pass binds to a variable what its block makes of the state before the pass. -/
theorem Sound.variable_pass (hs : r.Sound) (hrun : Contained run) (h : r.pass s run = .ok next)
    (hdeclared : Declares name (r.module.blocksIn r.arena) b) (hvisible : ∀ b ∈ r.blocksOf .resource, ¬ b.Hides name) :
    next.bindings.getPath? ["var", name] = some (r.variableValue b) := by
  have hbound := (Rebinds.bindBlocks r).sound hs
  have hslot : InSlot 0 ["var", name] := ⟨"var", [name], rfl, rfl⟩
  rw [hbound.bindings_evaluateCalls hrun h,
    Entries.getPath?_write_of_apart _ fun w hw => (inSlot_callWrites hw).apart hslot (by decide)]
  exact hs.variable_bindBlocks hvisible (hs.variable_bindVariables hdeclared)

theorem Sound.evaluateCalls_blocksIn (hs : r.Sound) (hrun : Contained run) {force : Bool}
    (h : r.evaluateCalls s run force = .ok next) :
    next.module.blocksIn next.arena = r.module.blocksIn r.arena := by
  obtain ⟨mid, calls, -, rfl, hchanges, -, visited, hmid⟩ := evaluateCalls_spec hrun hs h
  have hsame : ∀ id ∈ r.module.blocks, mid.arena.block id = r.arena.block id := by
    intro id hid
    obtain ⟨hlt, hhome⟩ := hs.blocks id hid
    refine hchanges.block_eq hs.well hlt ?_
    rw [hhome]
    rintro (⟨other, hother, -, heq⟩ | hsize)
    · exact (hs.calls other hother).apart heq.symm
    · exact Nat.not_le.mpr hs.root_lt hsize
  have hbinds := Rebinds.bindOutputsOfCalls { mid with calls }
  have hmodule : mid.module = r.module := by rw [hmid]
  rw [ModuleInstance.blocksIn, ModuleInstance.blocksIn, hbinds.module]
  refine (congrArg (fun m : ModuleInstance => m.blocks.map _) hmodule).trans (List.map_congr_left fun id hid => ?_)
  rw [Arena.block, hbinds.blocks]
  exact hsame id hid

/-- A pass leaves the blocks of the module. -/
theorem Sound.pass_blocksIn (hs : r.Sound) (hrun : Contained run) (h : r.pass s run = .ok next) :
    next.module.blocksIn next.arena = r.module.blocksIn r.arena := by
  have hbinds := Rebinds.bindBlocks r
  rw [(hbinds.sound hs).evaluateCalls_blocksIn hrun h, ModuleInstance.blocksIn, ModuleInstance.blocksIn, hbinds.module]
  exact List.map_congr_left fun id _ => by rw [Arena.block, Arena.block, hbinds.blocks]

end ModuleRun

end InfraConfig
