import InfraConfig.Proofs.DataRoundTrips
import InfraConfig.Proofs.InstanceScopes
import InfraConfig.Proofs.KnownResults
import InfraConfig.Proofs.DependencyOrder

/-!
# Innermost instances

What a block reads of the bindings of the instances around it. Of those that bind a name, the innermost one decides:
the scopes inside it do not have the name, and what they show of it is what the instance holds, laid over what is
there outside of the instance.
-/

namespace InfraConfig

/-- The expression `name.member`. -/
def Expr.member (name member : String) : Expr :=
  .traversal (.variable name) [.attribute member]

/-! ## Reading plain data -/

namespace Value

theorem get?_datumEntries_of_known {es : Entries Value} {k : String} {v : Value} {d : Datum}
    (hv : es.get? k = some v) (hd : v.toDatum? = some d) : Entries.get? (datumEntries es) k = some d := by
  induction es with
  | nil => cases hv
  | cons e es ih =>
    obtain ⟨j, w⟩ := e
    rw [Entries.get?_cons] at hv
    rw [datumEntries]
    by_cases hj : k = j
    · rw [if_pos hj] at hv
      obtain rfl := Option.some.inj hv
      rw [hd]
      dsimp only
      rw [Entries.get?_cons, if_pos hj]
    · rw [if_neg hj] at hv
      cases w.toDatum? with
      | none => exact ih hv
      | some d' =>
        dsimp only
        rw [Entries.get?_cons, if_neg hj]
        exact ih hv

theorem exists_toDatum?_laidOver (old : Option Value) {new : Value} (h : new.IsData) :
    ∃ d, (laidOver old new).toDatum? = some d := by
  cases hnew : new.entries? with
  | none =>
    obtain ⟨d, rfl⟩ := h
    rw [laidOver_of_leaf old hnew]
    exact ⟨d, toDatum?_ofDatum d⟩
  | some b =>
    have hmap : (laidOver old new).isMapLike = true := by rw [isMapLike_laidOver, isMapLike, hnew]; rfl
    obtain ⟨es, hes⟩ := Option.isSome_iff_exists.mp hmap
    exact ⟨_, toDatum?_of_entries hes⟩

end Value

theorem Scopes.eval_member {s : Scopes} {scope : ScopeId} {name member : String} {v : Value} {d : Datum}
    (hv : (s.merged scope).getPath? [name, member] = some v) (hd : v.toDatum? = some d) :
    (Expr.member name member).eval (s.environment scope) = .ok d := by
  obtain ⟨w, hw, hv⟩ := Option.bind_eq_some_iff.mp hv
  obtain ⟨u, hu, hv⟩ := Option.bind_eq_some_iff.mp hv
  obtain rfl : u = v := Option.some.inj hv
  obtain ⟨es, hes, hu⟩ := Option.bind_eq_some_iff.mp hu
  have hname : (s.environment scope).bindings.lookup name = some (.object (Value.datumEntries es)) := by
    rw [s.environment_eq_ofBindings]
    exact Value.get?_datumEntries_of_known hw (Value.toDatum?_of_entries hes)
  have hmember : attributeOf member (.object (Value.datumEntries es)) = .ok d := by
    rw [attributeOf, Value.get?_datumEntries_of_known hu hd]
  rw [Expr.member, Expr.eval, Expr.eval, hname]
  change evalSteps _ (.one (.object (Value.datumEntries es))) [.attribute member] = _
  rw [evalSteps, hmember]
  rfl

theorem Arena.evaluate_member {a : Arena} {scope : ScopeId} {name member : String} {v : Value} {d : Datum}
    (hv : (a.scopes.merged scope).getPath? [name, member] = some v) (hd : v.toDatum? = some d) :
    a.evaluate scope (.member name member) = .ok (.ofDatum d) := by
  have hfiles : (Expr.member name member).mentionsFiles = false := rfl
  refine evaluate_eq_ok_iff.mpr ⟨d, ?_, rfl⟩
  rw [Expr.evalWithFiles, hfiles, if_neg Bool.false_ne_true, Scopes.eval_member hv hd]

/-! ## Chains of scopes -/

namespace Scopes

/-- Of two scopes that a scope sees, one sees the other. -/
theorem Sees.total {s : Scopes} {c m n : ScopeId} (h : s.Sees c m) (k : s.Sees c n) :
    s.Sees m n ∨ s.Sees n m := by
  induction h with
  | self => exact .inl k
  | outer hp h ih =>
    cases k with
    | self => exact .inr (.outer hp h)
    | outer hq k => exact ih (Option.some.inj (hq.symm.trans hp) ▸ k)

theorem Sees.le {s : Scopes} (hs : s.Ordered) {c n : ScopeId} (h : s.Sees c n) : n ≤ c :=
  (mem_chain hs ((sees_iff_mem_chain hs).mp h)).2

/-- Between a scope and one that it sees there are only younger scopes, which have parents. -/
theorem Sees.exists_nearer {s : Scopes} (hs : s.Ordered) {c n : ScopeId} (h : s.Sees c n) :
    ∃ nearer, s.chain c = nearer ++ s.chain n ∧ ∀ j ∈ nearer, n < j ∧ (s.parent? j).isSome := by
  induction h with
  | self c => exact ⟨[], rfl, fun j hj => absurd hj List.not_mem_nil⟩
  | @outer c p n hp h ih =>
    obtain ⟨nearer, hchain, hnearer⟩ := ih
    refine ⟨c :: nearer, ?_, fun j hj => ?_⟩
    · rw [chain_of_parent hs hp, hchain, List.cons_append]
    · rcases List.mem_cons.mp hj with rfl | hj
      · exact ⟨Nat.lt_of_le_of_lt (le hs h) (hs j p hp), hp ▸ rfl⟩
      · exact hnearer j hj

end Scopes

namespace Arena

/-- Of the instances around a block that meet a condition, all others are around this one. -/
structure Innermost (a : Arena) (p : List String → Value → Prop) (m x : BlockId) : Prop where
  sees : a.scopes.Sees (a.block x).scope (a.block m).scope
  others : ∀ e names key value, a.IsInstance names key value e → p names key →
    a.scopes.Sees (a.block x).scope (a.block e).scope → a.scopes.Sees (a.block m).scope (a.block e).scope

variable {a : Arena} {p : List String → Value → Prop} {m x : BlockId} {name member : String} {names : List String}
  {key value u : Value}

/-- The scopes inside the innermost instance that binds something are passed on the way to it. -/
theorem Innermost.passes (h : a.Innermost p m x) (ha : a.WellFormed) (hlayered : a.Layered)
    (hfree : ∀ names key value, ¬ p names key →
      (instanceBindings names key value).getPath? [name, member] = none) :
    ∃ nearer, a.scopes.chain (a.block x).scope = nearer ++ a.scopes.chain (a.block m).scope
      ∧ ∀ j ∈ nearer, a.scopes.Passes [name, member] j := by
  obtain ⟨nearer, hchain, hnearer⟩ := h.sees.exists_nearer ha.ordered
  refine ⟨nearer, hchain, fun j hj => ?_⟩
  obtain ⟨hlt, hparent⟩ := hnearer j hj
  by_cases hempty : a.scopes.bindings j = []
  · exact ⟨hempty ▸ Entries.TwoLevels.nil.keyedAlong name member, hempty ▸ rfl,
      hempty ▸ Entries.TwoLevels.nil.not_blocks name member⟩
  · -- A younger scope that holds bindings is that of another instance, which does not meet the condition.
    obtain ⟨e, rfl, names, key, value, he⟩ := hlayered.held j ⟨hparent, hempty⟩
    have hlevels := instanceBindings.twoLevels names key value
    have hnot : ¬ p names key := by
      intro hp
      have hsees : a.scopes.Sees (a.block x).scope (a.block e).scope :=
        (Scopes.sees_iff_mem_chain ha.ordered).mpr (hchain ▸ List.mem_append_left _ hj)
      exact absurd ((h.others e names key value he hp hsees).le ha.ordered) (Nat.not_le_of_lt hlt)
    refine ⟨?_, ?_, ?_⟩
    · rw [he.bindings]
      exact hlevels.keyedAlong name member
    · rw [he.bindings]
      exact hfree names key value hnot
    · rw [he.bindings]
      exact hlevels.not_blocks name member

/-- What the innermost instance holds lies over what is there outside of it. -/
theorem Innermost.getPath?_merged (h : a.Innermost p m x) (ha : a.WellFormed) (hlayered : a.Layered)
    (hfree : ∀ names key value, ¬ p names key →
      (instanceBindings names key value).getPath? [name, member] = none)
    (hm : a.IsInstance names key value m) {outside : ScopeId}
    (houtside : a.scopes.parent? (a.block m).scope = some outside)
    (hu : (instanceBindings names key value).getPath? [name, member] = some u) :
    (a.scopes.merged (a.block x).scope).getPath? [name, member]
      = some (Value.laidOver ((a.scopes.merged outside).getPath? [name, member]) u) := by
  obtain ⟨nearer, hchain, hpasses⟩ := h.passes ha hlayered hfree
  have hkeyed : (a.scopes.bindings (a.block m).scope).KeyedAlong [name, member] := by
    rw [hm.bindings]
    exact (instanceBindings.twoLevels names key value).keyedAlong name member
  rw [← hm.bindings] at hu
  rw [Scopes.merged_eq_layers, Scopes.merged_eq_layers, hchain, Scopes.chain_of_parent ha.ordered houtside]
  exact Scopes.getPath?_layers hpasses hkeyed hu

theorem Innermost.evaluate_key (h : a.Innermost p m x) (ha : a.WellFormed) (hlayered : a.Layered)
    (hfree : ∀ names key value, ¬ p names key →
      (instanceBindings names key value).getPath? [name, member] = none)
    (hm : a.IsInstance names key value m)
    (hkey : (instanceBindings names key value).getPath? [name, member] = some key) :
    a.evaluate (a.block x).scope (.member name member) = .ok key := by
  obtain ⟨outside, houtside⟩ := Option.isSome_iff_exists.mp hm.filled.1
  have hmerged := h.getPath?_merged ha hlayered hfree hm houtside hkey
  rw [Value.laidOver_of_leaf _ (Value.entries?_of_key hm.known)] at hmerged
  rcases Value.key_cases hm.known with ⟨n, rfl⟩ | ⟨s, rfl⟩
  · exact evaluate_member hmerged rfl
  · exact evaluate_member hmerged rfl

/-- Of the instances around a block that meet a condition, one is the innermost. -/
theorem exists_innermost (ha : a.WellFormed) (hm : a.IsInstance names key value m) (hp : p names key)
    (hsees : a.scopes.Sees (a.block x).scope (a.block m).scope) :
    ∃ e names key value, a.IsInstance names key value e ∧ p names key ∧ a.Innermost p e x := by
  -- By induction on the distance: an instance that is not the innermost one has another nearer to the block.
  induction hn : (a.block x).scope - (a.block m).scope using Nat.strong_induction_on generalizing m names key value with
  | _ n ih =>
    by_cases hin : a.Innermost p m x
    · exact ⟨m, names, key, value, hm, hp, hin⟩
    · obtain ⟨e, names', key', value', he, hp', hx, hnot⟩ : ∃ e names key value, a.IsInstance names key value e
          ∧ p names key ∧ a.scopes.Sees (a.block x).scope (a.block e).scope
          ∧ ¬ a.scopes.Sees (a.block m).scope (a.block e).scope := by
        by_contra hnone
        refine hin ⟨hsees, fun e names key value he hp hx => ?_⟩
        by_contra hnot
        exact hnone ⟨e, names, key, value, he, hp, hx, hnot⟩
      have hle := ((hsees.total hx).resolve_left hnot).le ha.ordered
      have hlt : (a.block m).scope < (a.block e).scope := by
        refine Nat.lt_of_le_of_ne hle fun heq => hnot ?_
        rw [heq]
        exact .self _
      have hless : (a.block x).scope - (a.block e).scope < n :=
        hn ▸ Nat.sub_lt_sub_left (Nat.lt_of_lt_of_le hlt (hx.le ha.ordered)) hlt
      exact ih _ hless he hp' hx rfl

/-! ## Elements -/

/-- What is there under a name outside of an instance. -/
def valueOutside (a : Arena) (m : BlockId) (name : String) : Option Value :=
  (a.scopes.parent? (a.block m).scope).bind fun outside => (a.scopes.merged outside).getPath? [name, "value"]

/-- What a block reads under a name of the element of an instance: the key as it is, and the value laid over what is
there outside. So it reads the value itself, unless both are maps. Where a name is bound twice, a map among the values
must not have a key twice. -/
structure ReadsElement (a : Arena) (m x : BlockId) (name : String) (names : List String) (key value : Value) :
    Prop where
  keyRead : a.evaluate (a.block x).scope (.member name "key") = .ok key
  valueRead : names.Nodup ∨ value.HasDistinctKeys →
    ∃ d, (Value.laidOver (a.valueOutside m name) value).toDatum? = some d
      ∧ a.evaluate (a.block x).scope (.member name "value") = .ok (.ofDatum d)
  unmixed : names.Nodup ∨ value.HasDistinctKeys →
    (value.entries? = none ∨ ∀ w, a.valueOutside m name = some w → w.entries? = none) →
      a.evaluate (a.block x).scope (.member name "value") = .ok value

theorem Innermost.evaluate_value (h : a.Innermost (fun names _ => name ∈ names) m x) (ha : a.WellFormed)
    (hlayered : a.Layered) (hm : a.IsInstance names key value m) (hname : name ∈ names)
    (hdistinct : names.Nodup ∨ value.HasDistinctKeys) :
    ∃ d, (Value.laidOver (a.valueOutside m name) value).toDatum? = some d
      ∧ a.evaluate (a.block x).scope (.member name "value") = .ok (.ofDatum d) := by
  obtain ⟨outside, houtside⟩ := Option.isSome_iff_exists.mp hm.filled.1
  have hfree (names : List String) (key value : Value) (hnot : name ∉ names) :
      (instanceBindings names key value).getPath? [name, "value"] = none :=
    instanceBindings.of_not_mem hnot (by decide)
  have hmerged := h.getPath?_merged ha hlayered hfree hm houtside (instanceBindings.mem_value hdistinct hname)
  have hsame : (a.scopes.merged outside).getPath? [name, "value"] = a.valueOutside m name := by
    rw [valueOutside, houtside]
    rfl
  rw [hsame] at hmerged
  obtain ⟨d, hd⟩ := Value.exists_toDatum?_laidOver (a.valueOutside m name) hm.data
  exact ⟨d, hd, evaluate_member hmerged hd⟩

theorem Innermost.readsElement (h : a.Innermost (fun names _ => name ∈ names) m x) (ha : a.WellFormed)
    (hlayered : a.Layered) (hm : a.IsInstance names key value m) (hname : name ∈ names) :
    a.ReadsElement m x name names key value where
  keyRead := h.evaluate_key ha hlayered (fun _ _ _ hnot => instanceBindings.of_not_mem hnot (by decide)) hm
    (instanceBindings.mem_key (Value.entries?_of_key hm.known) hname)
  valueRead hdistinct := h.evaluate_value ha hlayered hm hname hdistinct
  unmixed hdistinct hleaf := by
    have hover : Value.laidOver (a.valueOutside m name) value = value := by
      rcases hleaf with hleaf | houter
      · exact Value.laidOver_of_leaf _ hleaf
      · exact Value.laidOver_of_outer value houter
    obtain ⟨d, hd, hvalue⟩ := h.evaluate_value ha hlayered hm hname hdistinct
    obtain ⟨d', rfl⟩ := hm.data
    rw [hover, Value.toDatum?_ofDatum] at hd
    rw [hvalue, Option.some.inj hd]

/-- Under a name a block reads the element of the innermost instance around it that binds the name. -/
structure ReadsInnermostElement (a : Arena) (x : BlockId) (name : String) : Prop where
  bound : ∃ e names key value, a.IsInstance names key value e ∧ name ∈ names
    ∧ a.Innermost (fun names _ => name ∈ names) e x
  read : ∀ e names key value, a.IsInstance names key value e → name ∈ names →
    a.Innermost (fun names _ => name ∈ names) e x → a.ReadsElement e x name names key value

theorem readsInnermostElement (ha : a.WellFormed) (hlayered : a.Layered) (hm : a.IsInstance names key value m)
    (hname : name ∈ names) (hsees : a.scopes.Sees (a.block x).scope (a.block m).scope) :
    a.ReadsInnermostElement x name where
  bound := exists_innermost (p := fun names _ => name ∈ names) ha hm hname hsees
  read _ _ _ _ he hname hin := hin.readsElement ha hlayered he hname

/-! ## Indexes -/

theorem Innermost.evaluate_index (h : a.Innermost (fun _ key => isNumber key) m x) (ha : a.WellFormed)
    (hlayered : a.Layered) (hm : a.IsInstance names key value m) (hnumber : isNumber key = true) :
    a.evaluate (a.block x).scope (.member "count" "index") = .ok key := by
  refine h.evaluate_key ha hlayered (fun names key value hnot => ?_) hm ?_
  · rw [instanceBindings.index, if_neg hnot]
  · rw [instanceBindings.index, if_pos hnumber]

/-- The index that a block reads is the key of the innermost instance around it that has a number as key. -/
structure ReadsInnermostIndex (a : Arena) (x : BlockId) : Prop where
  bound : ∃ e names key value, a.IsInstance names key value e ∧ isNumber key = true
    ∧ a.Innermost (fun _ key => isNumber key) e x
  read : ∀ e names key value, a.IsInstance names key value e → isNumber key = true →
    a.Innermost (fun _ key => isNumber key) e x → a.evaluate (a.block x).scope (.member "count" "index") = .ok key

theorem readsInnermostIndex (ha : a.WellFormed) (hlayered : a.Layered) (hm : a.IsInstance names key value m)
    (hnumber : isNumber key = true) (hsees : a.scopes.Sees (a.block x).scope (a.block m).scope) :
    a.ReadsInnermostIndex x where
  bound := exists_innermost (p := fun _ key => isNumber key) ha hm hnumber hsees
  read _ _ _ _ he hnumber hin := hin.evaluate_index ha hlayered he hnumber

end Arena

end InfraConfig
