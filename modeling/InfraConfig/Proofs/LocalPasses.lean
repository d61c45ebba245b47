import InfraConfig.Proofs.DependencyOrder
import InfraConfig.ModuleRun.Evaluate

/-!
# Passes over locals

A pass binds the variables, and then all locals from the bindings of the pass before. While the passes go on,
every local that is bound has its final value or is unknown: what is read of unfinished bindings is what is
read of the final ones, or nothing. Each pass finishes the locals of one more depth, and two passes agree only
when all locals are finished.
-/

namespace InfraConfig

namespace Entries

/-- The bindings have an object under a name, with the same entries as `es`. -/
def Shows (B : Entries Value) (name : String) (es : Entries Value) : Prop :=
  ∃ fs : Entries Value, B.get? name = some (.object fs) ∧ fs.keys.Nodup ∧ ∀ key, fs.get? key = es.get? key

theorem getPath?_pair (B : Entries Value) (name key : String) :
    B.getPath? [name, key] = (B.get? name).bind (·.get? key) := by
  simp [getPath?, Value.getPath?]

theorem getPath?_of_object {B es : Entries Value} {name : String} (h : B.get? name = some (.object es))
    (key : String) : B.getPath? [name, key] = es.get? key := by
  rw [getPath?_pair, h]
  rfl

theorem Shows.getPath? {B es : Entries Value} {name : String} (h : B.Shows name es) (key : String) :
    B.getPath? [name, key] = es.get? key := by
  obtain ⟨fs, hfs, -, hsame⟩ := h
  rw [getPath?_of_object hfs, hsame]

/-- An object written over one without further keys shows its own entries. -/
theorem shows_setPath {B new : Entries Value} {name : String} (hnew : new.keys.Nodup)
    (h : B.get? name = none ∨ ∃ old : Entries Value, B.get? name = some (.object old) ∧ old.keys.Nodup ∧
      old.keys ⊆ new.keys) :
    (B.setPath (.object new) [name]).Shows name new := by
  rw [setPath_single]
  rcases h with h | ⟨old, h, hold, hsub⟩
  · exact ⟨new, by simp [h], hnew, fun _ => rfl⟩
  · rw [h, Option.map_some, Option.getD_some, Value.mergeInto]
    simp only [Value.entries?, Value.withEntries]
    by_cases hempty : (old.isEmpty || new.isEmpty) = true
    · rw [if_pos hempty]
      exact ⟨new, by simp, hnew, fun _ => rfl⟩
    · rw [if_neg hempty]
      refine ⟨putAll old new, by simp, nodup_keys_putAll hold new, fun key => ?_⟩
      · rw [get?_putAll hnew]
        cases hkey : new.get? key with
        | some v => rfl
        | none =>
          have hout : key ∉ old.keys := fun hm => (get?_eq_none_iff new key).mp hkey (hsub hm)
          simp [(get?_eq_none_iff old key).mpr hout]

theorem Shows.setPath_of_ne {B es : Entries Value} {name other : String} (h : B.Shows name es)
    (hne : name ≠ other) (v : Value) (rest : ValuePath) :
    (B.setPath v (other :: rest)).Shows name es := by
  obtain ⟨fs, hfs, hrest⟩ := h
  exact ⟨fs, by rwa [get?_setPath_of_ne B v rest hne], hrest⟩

theorem getPath?_setPath_of_ne (B : Entries Value) {name other : String} (hne : name ≠ other) (v : Value)
    (rest : ValuePath) (key : String) :
    (B.setPath v (other :: rest)).getPath? [name, key] = B.getPath? [name, key] := by
  rw [getPath?_pair, getPath?_pair, get?_setPath_of_ne B v rest hne]

end Entries

namespace Value

theorem eq_unknown_of_beq_left {v : Value} (h : beq .unknown v = true) : v = .unknown := by
  cases v <;> simp [beq] at h ⊢

theorem eq_unknown_of_beq_right {v : Value} (h : beq v .unknown = true) : v = .unknown := by
  cases v <;> simp [beq] at h ⊢

/-- Objects that are equal have equal values under each key. -/
theorem get?_of_beqEntries {es fs : Entries Value} (h : beqEntries es fs = true) {key : String} {v : Value}
    (hv : es.get? key = some v) : ∃ w, fs.get? key = some w ∧ beq v w = true := by
  induction es with
  | nil => simp at hv
  | cons e es ih =>
    obtain ⟨k, u⟩ := e
    rw [beqEntries, Bool.and_eq_true] at h
    rw [Entries.get?_cons] at hv
    by_cases hk : key = k
    · subst hk
      obtain rfl : u = v := by simpa using hv
      cases hf : fs.lookup key with
      | none => simp [hf] at h
      | some w => exact ⟨w, hf, by simpa [hf] using h.1⟩
    · exact ih h.2 (by simpa [hk] using hv)

theorem beqEntries_of_beq_object {es : Entries Value} {v : Value} (h : beq (.object es) v = true) :
    ∃ fs, v = .object fs ∧ beqEntries es fs = true := by
  cases v with
  | object fs =>
    rw [beq, Bool.and_eq_true] at h
    exact ⟨fs, rfl, h.2⟩
  | _ => simp [beq] at h

end Value

namespace Locals

/-- The bindings after a pass over blocks that declare variables and locals only. -/
def passBindings (vars : Entries Value) (locals : List Attribute) (B : Entries Value) : Entries Value :=
  let B := B.setPath (.object vars) ["var"]
  let values := Entries.ofPairs (locals.map fun a => (a.name, a.value.valueIn B))
  ((B.setPath (.object values) ["local"]).setPath (.object []) ["provider"]).setPath (.object []) ["output"]

/-- Locals with values that make each the value of its own expression. -/
structure Solution (around vars final : Entries Value) (locals : List Attribute) : Prop where
  nodup : around.keys.Nodup
  given : around.get? "var" = some (.object vars)
  distinctVariables : vars.keys.Nodup
  distinct : (locals.map Attribute.name).Nodup
  plain : ∀ a ∈ locals, ∀ o ∈ a.value.occurrences, o.IsPlain
  finalNodup : final.keys.Nodup
  named : ∀ name ∈ final.keys, name ∈ locals.map Attribute.name
  consistent : ∀ a ∈ locals, final.get? a.name = some (a.value.valueIn (among around final))

/-- The state of the bindings between passes: every local that is bound is unknown or final. -/
structure Underway (around vars final B : Entries Value) : Prop where
  nodup : B.keys.Nodup
  surroundings : ∀ name, name = "terraform" ∨ name = "path" → B.get? name = around.get? name
  given : B.get? "var" = none ∨ B.Shows "var" vars
  locals : B.get? "local" = none ∨ ∃ es : Entries Value, B.get? "local" = some (.object es) ∧ es.keys.Nodup ∧
    ∀ name v, es.get? name = some v → ∃ w, final.get? name = some w ∧ (v = .unknown ∨ v = w)

/-- A local that is bound to its final value. -/
def IsFinal (final B : Entries Value) (name : String) : Prop :=
  B.getPath? ["local", name] = final.get? name

variable {around vars final B : Entries Value} {locals : List Attribute}

/-- The surroundings are the same in unfinished and in final bindings. -/
theorem Underway.read_around (h : Underway around vars final B) (hn : around.keys.Nodup) {o : Occurrence}
    (ho : o.name = "terraform" ∨ o.name = "path") :
    o.read (.ofBindings B) = o.read (.ofBindings (among around final)) := by
  refine read_ofBindings_congr h.nodup (nodup_keys_among hn final) ?_
  have hne : o.name ≠ "local" := by rcases ho with ho | ho <;> simp [ho]
  rw [h.surroundings _ ho, among, Entries.get?_put, if_neg hne]

theorem Solution.get?_among (hs : Solution around vars final locals) :
    (among around final).get? "var" = some (.object vars) := by
  simp [among, hs.given]

/-! ## What unfinished bindings show -/

/-- Every occurrence reads its final value, or nothing. -/
theorem Underway.keptIn (h : Underway around vars final B) (hs : Solution around vars final locals)
    {o : Occurrence} (ho : o.IsPlain) :
    o.KeptIn (.ofBindings B) (.ofBindings (among around final)) := by
  have hamong := nodup_keys_among hs.nodup final
  obtain ⟨root, member⟩ := o
  intro d hd
  rcases ho with hroot | hroot | ⟨hroot | hroot, hm⟩
  · rwa [← h.read_around hs.nodup (.inl hroot)]
  · rwa [← h.read_around hs.nodup (.inr hroot)]
  · obtain rfl : root = "var" := hroot
    obtain ⟨name, rfl⟩ := Option.isSome_iff_exists.mp hm
    rw [read_member hamong hs.distinctVariables hs.get?_among]
    rcases h.given with hnone | ⟨es, hes, hn, hsame⟩
    · simp [read_of_unbound h.nodup hnone] at hd
    · rwa [read_member h.nodup hn hes, hsame] at hd
  · obtain rfl : root = "local" := hroot
    obtain ⟨name, rfl⟩ := Option.isSome_iff_exists.mp hm
    rw [read_member hamong hs.finalNodup (by simp [among])]
    rcases h.locals with hnone | ⟨es, hes, hn, hvalues⟩
    · simp [read_of_unbound h.nodup hnone] at hd
    · rw [read_member h.nodup hn hes] at hd
      obtain ⟨v, hv, hd⟩ := Option.bind_eq_some_iff.mp hd
      obtain ⟨w, hw, rfl | rfl⟩ := hvalues name v hv
      · simp [Value.toDatum?] at hd
      · simp [hw, hd]

/-- Once the variables are bound, an occurrence reads its final value if the local in it is finished. -/
theorem Underway.read_eq (h : Underway around vars final B) (hs : Solution around vars final locals)
    (hvars : B.Shows "var" vars) {o : Occurrence} (ho : o.IsPlain)
    (hlocal : ∀ name, o = ⟨"local", some name⟩ → IsFinal final B name) :
    o.read (.ofBindings B) = o.read (.ofBindings (among around final)) := by
  have hamong := nodup_keys_among hs.nodup final
  obtain ⟨root, member⟩ := o
  rcases ho with hroot | hroot | ⟨hroot | hroot, hm⟩
  · exact h.read_around hs.nodup (.inl hroot)
  · exact h.read_around hs.nodup (.inr hroot)
  · obtain rfl : root = "var" := hroot
    obtain ⟨name, rfl⟩ := Option.isSome_iff_exists.mp hm
    obtain ⟨es, hes, hn, hsame⟩ := hvars
    rw [read_member h.nodup hn hes, hsame, read_member hamong hs.distinctVariables hs.get?_among]
  · obtain rfl : root = "local" := hroot
    obtain ⟨name, rfl⟩ := Option.isSome_iff_exists.mp hm
    have hfinal := hlocal name rfl
    rw [IsFinal, Entries.getPath?_pair] at hfinal
    rw [read_member hamong hs.finalNodup (by simp [among]), ← hfinal]
    rcases h.locals with hnone | ⟨es, hes, hn, -⟩
    · simp [read_of_unbound h.nodup hnone, hnone]
    · rw [read_member h.nodup hn hes, hes]
      rfl

/-- A name that no local has is bound to nothing. -/
theorem Underway.isFinal_of_not_mem (h : Underway around vars final B) {name : String}
    (hname : name ∉ final.keys) : IsFinal final B name := by
  rw [IsFinal, Entries.getPath?_pair, (Entries.get?_eq_none_iff final name).mpr hname]
  rcases h.locals with hnone | ⟨es, hes, -, hvalues⟩
  · simp [hnone]
  · rw [hes]
    change es.get? name = none
    by_contra hsome
    obtain ⟨v, hv⟩ := Option.ne_none_iff_exists'.mp hsome
    obtain ⟨w, hw, -⟩ := hvalues name v hv
    exact hname (Entries.mem_keys_of_get? hw)

/-! ## One pass -/

/-- The values that a pass gives to the locals. -/
def localValues (locals : List Attribute) (B : Entries Value) : Entries Value :=
  locals.map fun a => (a.name, a.value.valueIn B)

theorem keys_localValues (locals : List Attribute) (B : Entries Value) :
    (localValues locals B).keys = locals.map Attribute.name := by
  simp [localValues, Entries.keys]

theorem Solution.nodup_localValues (hs : Solution around vars final locals) (B : Entries Value) :
    (localValues locals B).keys.Nodup := by
  rw [keys_localValues]
  exact hs.distinct

theorem Solution.get?_localValues (hs : Solution around vars final locals) (B : Entries Value)
    {a : Attribute} (ha : a ∈ locals) : (localValues locals B).get? a.name = some (a.value.valueIn B) :=
  Entries.get?_of_mem (hs.nodup_localValues B) (List.mem_map.mpr ⟨a, ha, rfl⟩)

theorem Underway.setPath_of_other (h : Underway around vars final B) {name : String}
    (hne : name ∉ ["terraform", "path", "var", "local"]) (v : Value) (rest : ValuePath) :
    Underway around vars final (B.setPath v (name :: rest)) := by
  simp only [List.mem_cons, List.not_mem_nil, or_false, not_or] at hne
  obtain ⟨hterraform, hpath, hvar, hlocal⟩ := hne
  have hget {other : String} (ho : other ≠ name) := Entries.get?_setPath_of_ne B v rest ho
  refine ⟨Entries.nodup_keys_setPath h.nodup v _, ?_, ?_, ?_⟩
  · rintro other (rfl | rfl)
    · rw [hget (Ne.symm hterraform), h.surroundings _ (.inl rfl)]
    · rw [hget (Ne.symm hpath), h.surroundings _ (.inr rfl)]
  · rw [hget (Ne.symm hvar)]
    exact h.given.imp_right fun hshows => hshows.setPath_of_ne (Ne.symm hvar) v rest
  · rw [hget (Ne.symm hlocal)]
    exact h.locals

theorem Underway.bindVariables (h : Underway around vars final B) (hs : Solution around vars final locals) :
    Underway around vars final (B.setPath (.object vars) ["var"])
      ∧ (B.setPath (.object vars) ["var"]).Shows "var" vars := by
  have hget {other : String} (ho : other ≠ "var") := Entries.get?_setPath_of_ne B (.object vars) [] ho
  have hshows : (B.setPath (.object vars) ["var"]).Shows "var" vars := by
    refine Entries.shows_setPath hs.distinctVariables (h.given.imp_right ?_)
    rintro ⟨es, hes, hn, hsame⟩
    refine ⟨es, hes, hn, fun name hname => ?_⟩
    rwa [← Entries.get?_isSome_iff, ← hsame, Entries.get?_isSome_iff]
  refine ⟨⟨Entries.nodup_keys_setPath h.nodup _ _, ?_, .inr hshows, ?_⟩, hshows⟩
  · rintro other (rfl | rfl)
    · rw [hget (by simp), h.surroundings _ (.inl rfl)]
    · rw [hget (by simp), h.surroundings _ (.inr rfl)]
  · rw [hget (by simp)]
    exact h.locals

/-- Under unfinished bindings a local has its final value or none. -/
theorem Underway.valueIn_cases (h : Underway around vars final B) (hs : Solution around vars final locals)
    {a : Attribute} (ha : a ∈ locals) :
    ∃ w, final.get? a.name = some w ∧ (a.value.valueIn B = .unknown ∨ a.value.valueIn B = w) := by
  refine ⟨_, hs.consistent a ha, ?_⟩
  exact Expr.valueIn_of_kept fun o ho => h.keptIn hs (hs.plain a ha o ho)

theorem Underway.bindLocals (h : Underway around vars final B) (hs : Solution around vars final locals) :
    Underway around vars final (B.setPath (.object (localValues locals B)) ["local"])
      ∧ (B.setPath (.object (localValues locals B)) ["local"]).Shows "local" (localValues locals B) := by
  let values := localValues locals B
  have hget {other : String} (ho : other ≠ "local") := Entries.get?_setPath_of_ne B (.object values) [] ho
  have hshows : (B.setPath (.object values) ["local"]).Shows "local" values := by
    refine Entries.shows_setPath (hs.nodup_localValues B) (h.locals.imp_right ?_)
    rintro ⟨es, hes, hn, hvalues⟩
    refine ⟨es, hes, hn, fun name hname => ?_⟩
    obtain ⟨v, hv⟩ := Option.isSome_iff_exists.mp ((Entries.get?_isSome_iff es name).mpr hname)
    obtain ⟨w, hw, -⟩ := hvalues name v hv
    rw [keys_localValues]
    exact hs.named name (Entries.mem_keys_of_get? hw)
  refine ⟨⟨Entries.nodup_keys_setPath h.nodup _ _, ?_, ?_, .inr ?_⟩, hshows⟩
  · rintro other (rfl | rfl)
    · rw [hget (by simp), h.surroundings _ (.inl rfl)]
    · rw [hget (by simp), h.surroundings _ (.inr rfl)]
  · rw [hget (by simp)]
    exact h.given.imp_right fun hvars => hvars.setPath_of_ne (by simp) _ _
  · obtain ⟨fs, hfs, hn, hsame⟩ := hshows
    refine ⟨fs, hfs, hn, fun name v hv => ?_⟩
    rw [hsame] at hv
    have hname : name ∈ locals.map Attribute.name :=
      keys_localValues locals B ▸ Entries.mem_keys_of_get? hv
    obtain ⟨a, ha, rfl⟩ := List.mem_map.mp hname
    rw [hs.get?_localValues B ha] at hv
    obtain rfl := Option.some.inj hv
    exact h.valueIn_cases hs ha

theorem passBindings_eq (hs : Solution around vars final locals) (B : Entries Value) :
    passBindings vars locals B
      = (((B.setPath (.object vars) ["var"]).setPath
          (.object (localValues locals (B.setPath (.object vars) ["var"]))) ["local"]).setPath
          (.object []) ["provider"]).setPath (.object []) ["output"] := by
  rw [passBindings]
  simp only [← localValues.eq_def, Entries.ofPairs_eq_self (hs.nodup_localValues _)]

theorem Underway.pass (h : Underway around vars final B) (hs : Solution around vars final locals) :
    Underway around vars final (passBindings vars locals B) := by
  rw [passBindings_eq hs]
  have hlocals := ((h.bindVariables hs).1.bindLocals hs).1
  exact (hlocals.setPath_of_other (by simp) _ _).setPath_of_other (by simp) _ _

/-- After a pass each local has the value of its expression under the bindings before, with the variables. -/
theorem Underway.getPath?_pass (h : Underway around vars final B) (hs : Solution around vars final locals)
    {a : Attribute} (ha : a ∈ locals) :
    (passBindings vars locals B).getPath? ["local", a.name]
      = some (a.value.valueIn (B.setPath (.object vars) ["var"])) := by
  rw [passBindings_eq hs, Entries.getPath?_setPath_of_ne _ (by simp),
    Entries.getPath?_setPath_of_ne _ (by simp)]
  rw [((h.bindVariables hs).1.bindLocals hs).2.getPath?, hs.get?_localValues _ ha]

/-- A pass finishes a local when all that it reads are finished. -/
theorem Underway.isFinal_pass (h : Underway around vars final B) (hs : Solution around vars final locals)
    {a : Attribute} (ha : a ∈ locals) (hreads : ∀ b ∈ locals, a.Reads b → IsFinal final B b.name) :
    IsFinal final (passBindings vars locals B) a.name := by
  obtain ⟨hbound, hvars⟩ := h.bindVariables hs
  rw [IsFinal, h.getPath?_pass hs ha, hs.consistent a ha]
  congr 1
  refine Expr.valueIn_congr fun o ho => ?_
  refine hbound.read_eq hs hvars (hs.plain a ha o ho) fun name hname => ?_
  rw [IsFinal, Entries.getPath?_setPath_of_ne _ (by simp)]
  by_cases hlocal : name ∈ final.keys
  · obtain ⟨b, hb, rfl⟩ := List.mem_map.mp (hs.named name hlocal)
    exact hreads b hb (mem_readLocals.mpr (hname ▸ ho))
  · exact h.isFinal_of_not_mem hlocal

/-! ## Many passes -/

/-- Everything up to a depth is finished. -/
def FinalTo (final : Entries Value) (locals : List Attribute) (n : Nat) (B : Entries Value) : Prop :=
  ∀ a ∈ locals, DepthWithin locals n a → IsFinal final B a.name

theorem FinalTo.pass {n : Nat} (hn : FinalTo final locals n B) (h : Underway around vars final B)
    (hs : Solution around vars final locals) :
    FinalTo final locals (n + 1) (passBindings vars locals B) := by
  intro a ha hdepth
  exact h.isFinal_pass hs ha fun b hb hread => hn b hb (hdepth b hb hread)

/-- The value that two agreeing passes give to a local is one value. -/
theorem getPath?_eq_of_agree {C : Entries Value} (hB : Underway around vars final B)
    (hC : Underway around vars final C) (hagree : ModuleRun.agree B C = true) {name : String}
    (hbound : (B.getPath? ["local", name]).isSome) :
    B.getPath? ["local", name] = C.getPath? ["local", name] := by
  obtain ⟨v, hv⟩ := Option.isSome_iff_exists.mp hbound
  have hentries : Value.beqEntries B C = true := by
    have : Value.beq (.object B) (.object C) = true := hagree
    rw [Value.beq, Bool.and_eq_true] at this
    exact this.2
  rcases hB.locals with hnone | ⟨es, hes, -, hvalues⟩
  · simp [Entries.getPath?_pair, hnone] at hv
  rcases hC.locals with hnone | ⟨fs, hfs, -, hothers⟩
  · obtain ⟨w, hw, -⟩ := Value.get?_of_beqEntries hentries hes
    simp [hnone] at hw
  rw [Entries.getPath?_of_object hes] at hv ⊢
  rw [Entries.getPath?_of_object hfs]
  obtain ⟨x, hx, hbeq⟩ := Value.get?_of_beqEntries hentries hes
  obtain ⟨fs', rfl, hinner⟩ := Value.beqEntries_of_beq_object hbeq
  obtain rfl : fs = fs' := by simpa [hfs] using hx
  obtain ⟨w, hw, hvw⟩ := Value.get?_of_beqEntries hinner hv
  obtain ⟨u, hu, hvu⟩ := hvalues name v hv
  obtain ⟨u', hu', hwu⟩ := hothers name w hw
  obtain rfl : u = u' := by simpa [hu] using hu'
  rw [hv, hw]
  -- Both are unknown or the final value, and unknown equals nothing else.
  rcases hvu with rfl | rfl
  · rw [Value.eq_unknown_of_beq_left hvw]
  · rcases hwu with rfl | rfl
    · rw [Value.eq_unknown_of_beq_right hvw]
    · rfl

/-- When a pass agrees with the bindings before it, all locals are finished. -/
theorem finalTo_of_agree (h : Underway around vars final B) (hs : Solution around vars final locals)
    (hbound : ∀ a ∈ locals, (B.getPath? ["local", a.name]).isSome)
    (hagree : ModuleRun.agree B (passBindings vars locals B) = true) (n : Nat) :
    FinalTo final locals n B := by
  induction n with
  | zero => exact fun a _ hdepth => hdepth.elim
  | succ n ih =>
    intro a ha hdepth
    rw [IsFinal, getPath?_eq_of_agree h (h.pass hs) hagree (hbound a ha)]
    exact ih.pass h hs a ha hdepth

end Locals

end InfraConfig
