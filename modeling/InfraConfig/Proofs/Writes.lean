import InfraConfig.Proofs.RunChanges

/-!
# What a pass writes

A pass writes values under paths of the module's scope. Paths that lead apart do not disturb each other, so that
a number of such writes that gives back the bindings it began with consists of writes that each change nothing.
-/

namespace InfraConfig

/-- Neither of two paths leads through the other. -/
def Apart (p q : ValuePath) : Prop :=
  ¬ p <+: q ∧ ¬ q <+: p

namespace Apart

variable {p q : ValuePath} {m n : String}

theorem symm (h : Apart p q) : Apart q p := ⟨h.2, h.1⟩

theorem of_head_ne (h : m ≠ n) (p q : ValuePath) : Apart (m :: p) (n :: q) := by
  refine ⟨fun hp => h ?_, fun hp => h ?_⟩
  · exact (List.cons_prefix_cons.mp hp).1
  · exact (List.cons_prefix_cons.mp hp).1.symm

theorem cons_iff : Apart (m :: p) (m :: q) ↔ Apart p q := by
  simp [Apart, List.cons_prefix_cons]

theorem ne_nil (h : Apart p q) : q ≠ [] := by
  rintro rfl
  exact h.2 (List.nil_prefix)

end Apart

namespace Entries

theorem getPath?_cons (es : Entries Value) (name : String) (rest : ValuePath) :
    es.getPath? (name :: rest) = (es.get? name).bind (·.getPath? rest) := rfl

/-- A path into an object leads into its entries. -/
theorem getPath?_object (es : Entries Value) {path : ValuePath} (h : path ≠ []) :
    (Value.object es).getPath? path = es.getPath? path := by
  obtain ⟨name, rest, rfl⟩ := List.exists_cons_of_ne_nil h
  rfl

theorem getPath?_map (es : Entries Value) {path : ValuePath} (h : path ≠ []) :
    (Value.map es).getPath? path = es.getPath? path := by
  obtain ⟨name, rest, rfl⟩ := List.exists_cons_of_ne_nil h
  rfl

theorem put_ne_nil (es : Entries Value) (name : String) (v : Value) : es.put name v ≠ [] := by
  cases es with
  | nil => exact List.cons_ne_nil _ _
  | cons e es =>
    rw [put]
    split <;> exact List.cons_ne_nil _ _

/-- A write below a name goes into the entries that stand there, or into new ones if there are none. -/
theorem setPath_cons (es : Entries Value) (v : Value) (name : String) {rest : ValuePath} (h : rest ≠ []) :
    ∃ inner : Entries Value, ∃ w, es.setPath v (name :: rest) = es.put name w
      ∧ (∀ path, path ≠ [] → w.getPath? path = (inner.setPath v rest).getPath? path)
      ∧ (∀ path, path ≠ [] → (es.get? name).bind (·.getPath? path) = inner.getPath? path)
      ∧ (inner.setPath v rest = inner → es.get? name = some w) := by
  obtain ⟨next, tail, rfl⟩ := List.exists_cons_of_ne_nil h
  rw [setPath]
  · split
    · next inner hget =>
      refine ⟨inner, _, rfl, fun _ hp => getPath?_map _ hp, fun _ hp => ?_, fun hsame => ?_⟩
      · rw [hget]
        exact getPath?_map _ hp
      · rw [hget, hsame]
    · next inner hget =>
      refine ⟨inner, _, rfl, fun _ hp => getPath?_object _ hp, fun _ hp => ?_, fun hsame => ?_⟩
      · rw [hget]
        exact getPath?_object _ hp
      · rw [hget, hsame]
    · next hmap hobject =>
      refine ⟨[], _, rfl, fun _ hp => getPath?_object _ hp, fun path hp => ?_, fun hsame => ?_⟩
      · obtain ⟨first, more, rfl⟩ := List.exists_cons_of_ne_nil hp
        cases hget : es.get? name with
        | none => rfl
        | some old =>
          cases old with
          | map inner => exact absurd hget (hmap inner)
          | object inner => exact absurd hget (hobject inner)
          | _ => rfl
      · cases tail with
        | nil => exact absurd (setPath_single [] v next ▸ hsame) (put_ne_nil _ _ _)
        | cons further tail =>
          rw [setPath] at hsame
          · exact absurd hsame (put_ne_nil _ _ _)
          · exact List.cons_ne_nil _ _
  · exact h

/-- A write leaves what stands under a path that leads apart. -/
theorem getPath?_setPath_of_apart (es : Entries Value) (v : Value) {p q : ValuePath} (h : Apart p q) :
    (es.setPath v p).getPath? q = es.getPath? q := by
  induction p generalizing es q with
  | nil => exact absurd rfl h.symm.ne_nil
  | cons name rest ih =>
    obtain ⟨other, more, rfl⟩ := List.exists_cons_of_ne_nil h.ne_nil
    by_cases hname : other = name
    · subst hname
      have hinner : Apart rest more := Apart.cons_iff.mp h
      obtain ⟨inner, w, hset, hw, hold, -⟩ := setPath_cons es v other hinner.symm.ne_nil
      rw [hset, getPath?_cons, getPath?_cons, get?_put, if_pos rfl, Option.bind_some,
        hw more hinner.ne_nil, hold more hinner.ne_nil, ih inner hinner]
    · rw [getPath?_cons, getPath?_cons, get?_setPath_of_ne es v rest hname]

/-- A write after which its path leads to what it led to before has changed nothing. -/
theorem setPath_eq_self {es : Entries Value} {v : Value} {path : ValuePath}
    (h : (es.setPath v path).getPath? path = es.getPath? path) : es.setPath v path = es := by
  induction path generalizing es with
  | nil => rfl
  | cons name rest ih =>
    by_cases hrest : rest = []
    · subst hrest
      rw [setPath_single]
      rw [setPath_single, getPath?_cons, getPath?_cons, get?_put, if_pos rfl] at h
      cases hget : es.get? name with
      | none => simp [hget, Value.getPath?] at h
      | some old =>
        refine put_eq_self (hget.trans ?_)
        simpa [hget, Value.getPath?] using h.symm
    · obtain ⟨inner, w, hset, hw, hold, hkept⟩ := setPath_cons es v name hrest
      rw [hset, getPath?_cons, getPath?_cons, get?_put, if_pos rfl, Option.bind_some, hw rest hrest,
        hold rest hrest] at h
      rw [hset]
      exact put_eq_self (hkept (ih h))

/-- Writes one after another. -/
def write (es : Entries Value) (ws : List (ValuePath × Value)) : Entries Value :=
  ws.foldl (fun es w => es.setPath w.2 w.1) es

theorem write_append (es : Entries Value) (ws more : List (ValuePath × Value)) :
    es.write (ws ++ more) = (es.write ws).write more := List.foldl_append

theorem getPath?_write_of_apart (es : Entries Value) {ws : List (ValuePath × Value)} {path : ValuePath}
    (h : ∀ w ∈ ws, Apart w.1 path) : (es.write ws).getPath? path = es.getPath? path := by
  induction ws generalizing es with
  | nil => rfl
  | cons w ws ih =>
    have hrest : ∀ w ∈ ws, Apart w.1 path := fun w hw => h w (List.mem_cons_of_mem _ hw)
    exact (ih _ hrest).trans (getPath?_setPath_of_apart es w.2 (h w List.mem_cons_self))

/-- Writes that each change nothing change nothing together. -/
theorem write_eq_self {es : Entries Value} {ws : List (ValuePath × Value)}
    (h : ∀ w ∈ ws, es.setPath w.2 w.1 = es) : es.write ws = es := by
  induction ws with
  | nil => rfl
  | cons w ws ih =>
    rw [write, List.foldl_cons, h w List.mem_cons_self]
    exact ih fun w hw => h w (List.mem_cons_of_mem _ hw)

/-- Writes under paths apart that give back what was there each change nothing. -/
theorem setPath_eq_self_of_write {es : Entries Value} {ws : List (ValuePath × Value)}
    (hapart : ws.Pairwise fun w x => Apart w.1 x.1) (h : es.write ws = es) :
    ∀ w ∈ ws, es.setPath w.2 w.1 = es := by
  induction ws with
  | nil => exact fun w hw => absurd hw List.not_mem_nil
  | cons w ws ih =>
    obtain ⟨hfirst, hrest⟩ := List.pairwise_cons.mp hapart
    have hpath := getPath?_write_of_apart (es.setPath w.2 w.1) fun x hx => (hfirst x hx).symm
    have hsame : es.setPath w.2 w.1 = es := setPath_eq_self (hpath.symm.trans (congrArg (·.getPath? w.1) h))
    have hmore : es.write ws = es := by
      rw [write, List.foldl_cons, hsame] at h
      exact h
    intro x hx
    rcases List.mem_cons.mp hx with rfl | hx
    · exact hsame
    · exact ih hrest hmore x hx

end Entries

/-! ## Groups of instances -/

theorem nodup_keys_groupInstances (items : List (String × String × Value)) :
    (groupInstances items).keys.Nodup := by
  rw [groupInstances]
  refine List.foldlRecOn (motive := fun groups : Entries Instances => groups.keys.Nodup) items _
    Entries.nodup_keys_nil fun groups hgroups item _ => ?_
  exact Entries.nodup_keys_put hgroups _ _

/-- A group is of the type of some block in it. -/
theorem mem_keys_groupInstances {items : List (String × String × Value)} {type : String}
    (h : type ∈ (groupInstances items).keys) : ∃ item ∈ items, item.1 = type := by
  revert h
  rw [groupInstances]
  refine List.foldlRecOn
    (motive := fun groups : Entries Instances => type ∈ groups.keys → ∃ item ∈ items, item.1 = type) items _
    (fun hnil => absurd hnil List.not_mem_nil) fun groups ih item hitem hmem => ?_
  rcases Entries.mem_keys_put.mp hmem with rfl | hold
  · exact ⟨item, hitem, rfl⟩
  · exact ih hold

namespace ModuleRun

variable {r : ModuleRun}

theorem bindings_bind (h : r.root < r.arena.scopes.size) (v : Value) (path : ValuePath) :
    (r.bind v path).bindings = r.bindings.setPath v path :=
  Scopes.bindings_set_self _ h v path

theorem scopes_noting (r : ModuleRun) (reads : List (Block × List Attribute)) :
    (r.noting reads).arena.scopes = r.arena.scopes := by
  obtain ⟨wanted, hnoted⟩ := exists_noting_eq r reads
  rw [hnoted]

theorem bindings_noting (r : ModuleRun) (reads : List (Block × List Attribute)) :
    (r.noting reads).bindings = r.bindings := by
  rw [bindings, scopes_noting]
  rfl

/-- The values of the blocks of a kind, by the paths that they are bound under. -/
def instanceWrites (kind : BlockKind) (above : ValuePath) (r : ModuleRun) : List (ValuePath × Value) :=
  let blocks := (r.blocksOf kind).filter fun b => 2 ≤ b.labels.length
  (groupInstances (blocks.map fun b => (b.typeLabel, b.nameLabel, r.arena.values b))).map
    fun (type, group) => (above ++ [type], group.toValue)

/-- Binding the blocks of a kind is a number of writes. -/
theorem bindings_bindInstances (h : r.root < r.arena.scopes.size) (kind : BlockKind) (above : ValuePath) :
    (r.bindInstances kind above).bindings = r.bindings.write (r.instanceWrites kind above) := by
  have hfold (groups : Entries Instances) {r : ModuleRun} (h : r.root < r.arena.scopes.size) :
      (groups.foldl (fun r (type, group) => r.bind group.toValue (above ++ [type])) r).bindings
        = r.bindings.write (groups.map fun (type, group) => (above ++ [type], group.toValue)) := by
    induction groups generalizing r with
    | nil => rfl
    | cons g groups ih =>
      have hnext : (r.bind g.2.toValue (above ++ [g.1])).root
          < (r.bind g.2.toValue (above ++ [g.1])).arena.scopes.size := by
        simpa [ModuleRun.bind, Arena.bind] using h
      rw [List.foldl_cons, ih hnext, bindings_bind h]
      rfl
  rw [bindInstances, hfold, bindings_noting]
  · rfl
  · rw [scopes_noting]
    exact h

/-- Each type of blocks is bound under a path of its own. -/
theorem instanceWrites_apart (kind : BlockKind) (above : ValuePath) (r : ModuleRun) :
    (r.instanceWrites kind above).Pairwise fun w x => Apart w.1 x.1 := by
  have hnodup := nodup_keys_groupInstances
    (((r.blocksOf kind).filter fun b => 2 ≤ b.labels.length).map
      fun b => (b.typeLabel, b.nameLabel, r.arena.values b))
  rw [instanceWrites, List.pairwise_map]
  refine (List.pairwise_map.mp hnodup).imp fun {g} {h} hne => ?_
  have hfront {m n : String} (hmn : above ++ [m] <+: above ++ [n]) : m = n := by
    simpa using (List.prefix_append_right_inj above).mp hmn
  exact ⟨fun h => hne (hfront h), fun h => hne (hfront h).symm⟩

theorem exists_of_mem_instanceWrites {kind : BlockKind} {above : ValuePath} {w : ValuePath × Value}
    (h : w ∈ r.instanceWrites kind above) : ∃ b ∈ r.blocksOf kind, w.1 = above ++ [b.typeLabel] := by
  obtain ⟨g, hg, rfl⟩ := List.mem_map.mp h
  obtain ⟨item, hitem, htype⟩ := mem_keys_groupInstances (List.mem_map_of_mem hg)
  obtain ⟨b, hb, rfl⟩ := List.mem_map.mp hitem
  exact ⟨b, (List.mem_filter.mp hb).1, congrArg (fun type => above ++ [type]) htype.symm⟩

/-- What finished calls write. -/
def callWrites (calls : List ModuleCall) : List (ValuePath × Value) :=
  let finished := calls.filterMap fun call => call.result.map fun result => (call.name, result.outputs)
  if finished.isEmpty then []
  else [(["module"], (finished.foldl (fun g (name, v) => g.insert name v) Instances.empty).toValue)]

theorem bindings_bindOutputsOfCalls (h : r.root < r.arena.scopes.size) :
    r.bindOutputsOfCalls.bindings = r.bindings.write (callWrites r.calls) := by
  rw [bindOutputsOfCalls, callWrites]
  dsimp only
  split
  · rfl
  · exact bindings_bind h _ _

end ModuleRun

end InfraConfig
