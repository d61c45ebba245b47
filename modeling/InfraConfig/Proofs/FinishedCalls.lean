import InfraConfig.Proofs.OpenedCalls
import InfraConfig.Proofs.Writes

/-!
# Finished calls

When an evaluation ends, each call that it has loaded has been started once: while its loops went on and all
inputs were known, or at the end, with what was known then. The outputs of a call stand under its name in the
scope of the calling module, unless those of instances are gathered under that name.
-/

namespace InfraConfig

/-! ## Outputs by name -/

namespace Instances

variable {g : Instances} {label base name : String} {v : Value}

/-- The names without key under which values of instances are gathered. -/
def gathered (g : Instances) : List String :=
  g.indexed.keys ++ g.keyed.keys

theorem named_insert (g : Instances) (label : String) (v : Value) :
    (g.insert label v).named = g.named.put label v := by
  rw [insert]
  dsimp only
  split <;> rfl

theorem mem_gathered_insert (h : base ∈ (g.insert label v).gathered) :
    base ∈ g.gathered ∨ ∃ key, splitKey label = (base, some key) := by
  rw [insert] at h
  dsimp only at h
  split at h
  · next found i hsplit =>
    rcases List.mem_append.mp h with h | h
    · rcases Entries.mem_keys_put.mp h with rfl | h
      · exact .inr ⟨_, hsplit⟩
      · exact .inl (List.mem_append_left _ h)
    · exact .inl (List.mem_append_right _ h)
  · next found key hsplit =>
    rcases List.mem_append.mp h with h | h
    · exact .inl (List.mem_append_left _ h)
    · rcases Entries.mem_keys_put.mp h with rfl | h
      · exact .inr ⟨_, hsplit⟩
      · exact .inl (List.mem_append_right _ h)
  · exact .inl h

theorem named_foldl (items : List (String × Value)) (g : Instances) :
    (items.foldl (fun g (name, v) => g.insert name v) g).named = g.named.putAll items := by
  induction items generalizing g with
  | nil => rfl
  | cons item items ih => rw [List.foldl_cons, ih, named_insert, Entries.putAll_cons]

theorem mem_gathered_foldl {items : List (String × Value)}
    (h : base ∈ (items.foldl (fun g (name, v) => g.insert name v) g).gathered) :
    base ∈ g.gathered ∨ ∃ item ∈ items, ∃ key, splitKey item.1 = (base, some key) := by
  induction items generalizing g with
  | nil => exact .inl h
  | cons item items ih =>
    rcases ih h with h | ⟨other, hother, hkey⟩
    · refine (mem_gathered_insert h).imp_right fun hkey => ⟨item, List.mem_cons_self, hkey⟩
    · exact .inr ⟨other, List.mem_cons_of_mem _ hother, hkey⟩

/-- A value stands under its name, unless values of instances are gathered there. -/
theorem get?_toValue (h : name ∉ g.gathered) : g.toValue.get? name = g.named.get? name := by
  refine Entries.get?_putAll_of_not_mem (fun hmem => h ?_) g.named
  rw [gathered]
  simpa [Entries.keys] using hmem

theorem nodup_toValue (h : g.named.keys.Nodup) : ∃ es : Entries Value, g.toValue = .object es ∧ es.keys.Nodup :=
  ⟨_, rfl, Entries.nodup_keys_putAll h _⟩

end Instances

/-- The entries of a value go over those of the value that it is merged into. -/
theorem Value.get?_mergeInto {es : Entries Value} (h : es.keys.Nodup) {name : String} {v : Value}
    (hget : es.get? name = some v) (old : Value) : (old.mergeInto (.object es)).get? name = some v := by
  rw [mergeInto]
  split
  · next a b hold hnew =>
    obtain rfl := Option.some.inj hnew
    split
    · exact hget
    · have hall : (a.putAll es).get? name = some v := by rw [Entries.get?_putAll h, hget, Option.some_or]
      cases old <;> exact hall
  · exact hget

/-- Entries that are written under a name stand below it. -/
theorem Entries.getPath?_setPath_object {more : Entries Value} (h : more.keys.Nodup) {key : String} {v : Value}
    (hget : more.get? key = some v) (es : Entries Value) (name : String) :
    (es.setPath (.object more) [name]).getPath? [name, key] = some v := by
  rw [setPath_single, getPath?_cons, get?_put, if_pos rfl, Option.bind_some, Value.getPath?]
  cases es.get? name with
  | none =>
    have hvalue : (Value.object more).get? key = some v := hget
    rw [Option.map_none, Option.getD_none, hvalue, Option.bind_some, Value.getPath?]
  | some old =>
    rw [Option.map_some, Option.getD_some, Value.get?_mergeInto h hget, Option.bind_some, Value.getPath?]

theorem Value.not_isMapLike {v : Value} (h : v.isListLike = true) : v.isMapLike = false := by
  cases v <;> first | rfl | cases h

/-- The name without key, of the call of an instance. -/
def ModuleCall.base? (call : ModuleCall) : Option String :=
  (splitKey call.name).2.map fun _ => (splitKey call.name).1

namespace ModuleRun

variable {s : Session} {run : Evaluate} {force : Bool} {d : Nat}
  {start earlier loaded expanded r mid child next : ModuleRun} {call later last : ModuleCall}
  {calls : List ModuleCall} {result : CallResult} {modules : List ModuleInstance}

/-- The outputs of the finished calls, by the names of the calls. -/
def namedOutputs (calls : List ModuleCall) : Entries Value :=
  calls.filterMap fun call => call.result.map fun result => (call.name, result.outputs)

/-- The outputs of the finished calls, with those of instances gathered. -/
def exports (calls : List ModuleCall) : Instances :=
  (namedOutputs calls).foldl (fun g (name, v) => g.insert name v) Instances.empty

/-- Whether a name is that of one call, and no outputs of instances are gathered under it. -/
structure IsAlone (calls : List ModuleCall) (name : String) : Prop where
  distinct : (calls.map ModuleCall.name).Nodup
  apart : ∀ other ∈ calls, other.base? ≠ some name

theorem mem_namedOutputs {item : String × Value} : item ∈ namedOutputs calls ↔
    ∃ call ∈ calls, ∃ result, call.result = some result ∧ (call.name, result.outputs) = item := by
  simp [namedOutputs, List.mem_filterMap, Option.map_eq_some_iff]

theorem nodup_keys_namedOutputs (h : (calls.map ModuleCall.name).Nodup) : (namedOutputs calls).keys.Nodup := by
  refine List.pairwise_map.mpr (List.pairwise_filterMap.mpr ?_)
  refine (List.pairwise_map.mp h).imp fun hne item hitem other hother => ?_
  obtain ⟨-, -, rfl⟩ := Option.map_eq_some_iff.mp hitem
  obtain ⟨-, -, rfl⟩ := Option.map_eq_some_iff.mp hother
  exact hne

theorem named_exports (calls : List ModuleCall) :
    (exports calls).named = Entries.putAll [] (namedOutputs calls) :=
  Instances.named_foldl _ _

theorem get?_exports (hcall : call ∈ calls) (hresult : call.result = some result)
    (halone : IsAlone calls call.name) : (exports calls).toValue.get? call.name = some result.outputs := by
  have hkeys := nodup_keys_namedOutputs halone.distinct
  have hmem : (call.name, result.outputs) ∈ namedOutputs calls := mem_namedOutputs.mpr ⟨call, hcall, result, hresult, rfl⟩
  rw [Instances.get?_toValue, named_exports, Entries.get?_putAll hkeys, Entries.get?_of_mem hkeys hmem, Option.some_or]
  intro hgathered
  rcases Instances.mem_gathered_foldl hgathered with hnone | ⟨item, hitem, key, hkey⟩
  · exact absurd hnone List.not_mem_nil
  · obtain ⟨other, hother, given, hgiven, rfl⟩ := mem_namedOutputs.mp hitem
    apply halone.apart other hother
    rw [ModuleCall.base?, hkey]
    rfl

theorem getPath?_write_callWrites (hcall : call ∈ calls) (hresult : call.result = some result)
    (halone : IsAlone calls call.name) (es : Entries Value) :
    (es.write (callWrites calls)).getPath? ["module", call.name] = some result.outputs := by
  have hget := get?_exports hcall hresult halone
  obtain ⟨entries, hvalue, hentries⟩ := Instances.nodup_toValue (g := exports calls)
    (named_exports calls ▸ Entries.nodup_keys_putAll Entries.nodup_keys_nil _)
  have hwrites : callWrites calls = [(["module"], (exports calls).toValue)] := by
    have hmem := mem_namedOutputs.mpr ⟨call, hcall, result, hresult, rfl⟩
    exact if_neg fun hnone => List.ne_nil_of_mem hmem (List.isEmpty_iff.mp hnone)
  rw [hvalue] at hget
  rw [hwrites, hvalue, Entries.write, List.foldl_cons, List.foldl_nil]
  exact Entries.getPath?_setPath_object hentries hget es "module"

/-- The outputs of the finished calls stand under their names. -/
def Exports (r : ModuleRun) : Prop :=
  ∀ call ∈ r.calls, ∀ result, call.result = some result → IsAlone r.calls call.name →
    r.bindings.getPath? ["module", call.name] = some result.outputs

theorem exports_of_open (h : ∀ call ∈ r.calls, call.result = none) : Exports r := by
  intro call hcall result hresult
  rw [h call hcall] at hresult
  cases hresult

/-- What evaluating the calls of a run writes into its scope. -/
theorem Sound.bindings_evaluateCalls (hs : r.Sound) (hrun : Contained run)
    (h : r.evaluateCalls s run force = .ok next) : next.bindings = r.bindings.write (callWrites next.calls) := by
  obtain ⟨mid, calls, heach, rfl, hchanges, -, visited, hmid⟩ := evaluateCalls_spec hrun hs h
  obtain ⟨hmidSound, -, hroot⟩ := hs.evaluateEach hrun (List.Subset.refl _) heach
  have hsame : mid.bindings = r.bindings := by
    rw [ModuleRun.bindings, hroot]
    refine hchanges.bindings_eq hs.well hs.root_lt ?_
    rw [hs.top.root_eq]
    rintro (⟨other, hother, -, heq⟩ | hsize)
    · exact (hs.calls other hother).apart heq.symm
    · exact Nat.not_le.mpr hs.root_lt hsize
  have hlt : ModuleRun.root { mid with calls } < mid.arena.scopes.size := hmidSound.root_lt
  rw [bindings_bindOutputsOfCalls hlt, (Rebinds.bindOutputsOfCalls { mid with calls }).calls, ← hsame]
  rfl

theorem Sound.exports_evaluateCalls (hs : r.Sound) (hrun : Contained run)
    (h : r.evaluateCalls s run force = .ok next) : Exports next := by
  intro call hcall result hresult halone
  rw [hs.bindings_evaluateCalls hrun h]
  exact getPath?_write_callWrites hcall hresult halone _

/-- A module has bound its outputs, be there any or not. -/
def BindsOutputs (r : ModuleRun) : Prop :=
  (r.bindings.get? "output").isSome

theorem bindsOutputs_bindOutputs (h : r.root < r.arena.scopes.size) : BindsOutputs r.bindOutputs := by
  have hbind {q : ModuleRun} (hq : q.root < q.arena.scopes.size) (v : Value) :
      BindsOutputs (q.bind v ["output"]) := by
    rw [BindsOutputs, bindings_bind hq, Entries.setPath_single, Entries.get?_put, if_pos rfl]
    rfl
  refine hbind ?_ _
  rw [scopes_noting]
  exact h

theorem Sound.bindsOutputs_bindBlocks (hs : r.Sound) : BindsOutputs r.bindBlocks := by
  let q := (((r.bindVariables.bindLocals).bindProviders.bindInstances .resource []).bindInstances .data ["data"])
  have hbinds : Rebinds r q :=
    ((((Rebinds.bindVariables r).trans (.bindLocals _)).trans (.bindProviders _)).trans (.bindInstances _ _ _)).trans
      (.bindInstances _ _ _)
  exact bindsOutputs_bindOutputs (hbinds.sound hs).root_lt

theorem Sound.bindsOutputs_evaluateCalls (hs : r.Sound) (hrun : Contained run)
    (h : r.evaluateCalls s run force = .ok next) (hr : BindsOutputs r) : BindsOutputs next := by
  have hslot : InSlot 4 ["output"] := ⟨"output", [], rfl, rfl⟩
  have hkept : (r.bindings.write (callWrites next.calls)).getPath? ["output"] = r.bindings.getPath? ["output"] :=
    Entries.getPath?_write_of_apart r.bindings fun w hw => (inSlot_callWrites hw).apart hslot (by decide)
  have hname (es : Entries Value) : es.getPath? ["output"] = es.get? "output" := by
    rw [Entries.getPath?_cons]
    cases es.get? "output" <;> rfl
  rw [hname, hname] at hkept
  rwa [BindsOutputs, hs.bindings_evaluateCalls hrun h, hkept]

/-- A loop that makes a pass leaves the outputs of the module and those of its finished calls bound. -/
theorem Sound.settle_last (hs : r.Sound) (hrun : Contained run) (h : r.settle s run = .ok next) :
    s.maxPasses = 0 ∧ next = r ∨ Exports next ∧ BindsOutputs next := by
  have hstep (q passed : ModuleRun) (hq : q.Sound) (hpass : q.pass s run = .ok passed) :
      (passed.readWanted s).2.Sound := by
    have hpassed := pass_advances hrun hq (.all q) hpass
    exact (readWanted_advances s hpassed.sound hpassed.covers).sound
  refine (converge_last (P := Sound) hstep hs h).imp_right ?_
  rintro ⟨q, passed, hq, hpass, rfl⟩
  have hbound := (Rebinds.bindBlocks q).sound hq
  have hexports : Exports passed := hbound.exports_evaluateCalls hrun hpass
  have houtputs : BindsOutputs passed := hbound.bindsOutputs_evaluateCalls hrun hpass hq.bindsOutputs_bindBlocks
  exact ⟨hexports, houtputs⟩

/-! ## Calls that are finished -/

theorem Later.trans (h : Later call later) (k : Later later last) : Later call last := by
  rcases h with rfl | ⟨hopen, result, rfl⟩
  · exact k
  · rcases k with rfl | ⟨hnone, -⟩
    · exact .inr ⟨hopen, result, rfl⟩
    · cases hnone

theorem Later.eq_of_finished (h : Later call later) (hfinished : call.result.isSome) : later = call := by
  rcases h with rfl | ⟨hopen, -⟩
  · rfl
  · rw [hopen] at hfinished
    cases hfinished

theorem laters_refl (calls : List ModuleCall) : List.Forall₂ Later calls calls :=
  List.forall₂_same.mpr fun _ _ => .inl rfl

theorem laters_trans {first second third : List ModuleCall} (h : List.Forall₂ Later first second)
    (k : List.Forall₂ Later second third) : List.Forall₂ Later first third := by
  induction h generalizing third with
  | nil => exact k
  | cons hone _ ih =>
    cases k with
    | cons hmore hrest => exact .cons (hone.trans hmore) (ih hrest)

theorem Sound.evaluateCalls_later (hs : r.Sound) (hrun : Contained run)
    (h : r.evaluateCalls s run force = .ok next) : List.Forall₂ Later r.calls next.calls := by
  obtain ⟨mid, calls, -, rfl, -, hlater, -⟩ := evaluateCalls_spec hrun hs h
  rwa [(Rebinds.bindOutputsOfCalls { mid with calls }).calls]

theorem Sound.settle_later (hs : r.Sound) (hrun : Contained run) (h : r.settle s run = .ok next) :
    List.Forall₂ Later r.calls next.calls := by
  refine (converge_invariant (P := fun q => q.Sound ∧ List.Forall₂ Later r.calls q.calls)
    (fun q passed hq hpass => ?_) ⟨hs, laters_refl r.calls⟩ h).2
  have hbinds := Rebinds.bindBlocks q
  have hpassed := pass_advances hrun hq.1 (.all q) hpass
  have hlater := (hbinds.sound hq.1).evaluateCalls_later hrun hpass
  rw [hbinds.calls] at hlater
  exact ⟨(readWanted_advances s hpassed.sound hpassed.covers).sound, laters_trans hq.2 hlater⟩

/-- No call is left open where the open ones are evaluated whatever is known. -/
theorem evaluateEach_finished {done : List ModuleCall} (h : r.evaluateEach s run true calls = .ok (done, next)) :
    ∀ call ∈ done, call.result.isSome := by
  induction calls generalizing r next done with
  | nil =>
    obtain ⟨rfl, -⟩ := Prod.mk.inj (Except.ok.inj h)
    simp
  | cons call calls ih =>
    obtain ⟨later, mid, others, hcall, hrest, rfl⟩ := evaluateEach_cons_eq_ok_iff.mp h
    refine List.forall_mem_cons.mpr ⟨?_, ih hrest⟩
    obtain ⟨hfinished, rfl, -⟩ | ⟨-, hunforced, -⟩ | ⟨modules, child, -, -, rfl, -⟩ := evaluateCall_cases hcall
    · exact hfinished
    · cases hunforced
    · rfl

theorem evaluateCalls_finished (h : r.evaluateCalls s run true = .ok next) :
    ∀ call ∈ next.calls, call.result.isSome := by
  obtain ⟨calls, mid, heach, rfl⟩ := evaluateCalls_eq_ok_iff.mp h
  rw [(Rebinds.bindOutputsOfCalls { mid with calls }).calls]
  exact evaluateEach_finished heach

/-! ## Where calls are started -/

/-- Every finished call was started in a step over all calls that `P` allows: of the state before the step, and
whether it was forced. -/
def StartedIn (P : ModuleRun → Bool → Prop) (s : Session) (run : Evaluate) (r : ModuleRun) : Prop :=
  ∀ call ∈ r.calls, ∀ result, call.result = some result →
    ∃ earlier force mid child, P earlier force ∧ StartedFrom s run earlier force r call mid child

variable {P : ModuleRun → Bool → Prop}

theorem StartedIn.ofOpen (h : ∀ call ∈ r.calls, call.result = none) : StartedIn P s run r := by
  intro call hcall result hresult
  rw [h call hcall] at hresult
  cases hresult

/-- Steps that leave the calls of a run leave where they were started. -/
theorem StartedIn.advances (h : StartedIn P s run r) (hs : r.Sound) (hcalls : next.calls = r.calls)
    (hnext : ∀ Q, Covers Q r → Advances Q r next) : StartedIn P s run next := by
  intro call hcall result hresult
  rw [hcalls] at hcall
  obtain ⟨earlier, force, mid, child, hP, hstarted⟩ := h call hcall result hresult
  exact ⟨earlier, force, mid, child, hP, hstarted.advances (hnext _ (hs.covers_evaluated hcall hresult)).changes⟩

theorem StartedIn.evaluateCalls (h : StartedIn P s run r) (hs : r.Sound) (hrun : Contained run)
    (hP : P r force) (hcalls : r.evaluateCalls s run force = .ok next) : StartedIn P s run next := by
  intro call hcall result hresult
  rcases hs.startedFrom_of_evaluateCalls hrun hcalls hcall hresult with hold | ⟨mid, child, hnew⟩
  · obtain ⟨earlier, force, mid, child, hP, hstarted⟩ := h call hold result hresult
    have hadvances := evaluateCalls_advances hrun hs (hs.covers_evaluated hold hresult) hcalls
    exact ⟨earlier, force, mid, child, hP, hstarted.advances hadvances.changes⟩
  · exact ⟨r, force, mid, child, hP, hnew⟩

theorem StartedIn.settle (h : StartedIn P s run r) (hs : r.Sound) (hrun : Contained run)
    (hr : Continues s run start r) (hP : ∀ q, Continues s run start q → P q false)
    (hsettle : r.settle s run = .ok next) : StartedIn P s run next := by
  refine (converge_invariant (P := fun q => Continues s run start q ∧ q.Sound ∧ StartedIn P s run q)
    (fun q passed hq hpass => ?_) ⟨hr, hs, h⟩ hsettle).2.2
  obtain ⟨hcontinues, hsound, hstarted⟩ := hq
  have hbinds := Rebinds.bindBlocks q
  have hbound := hstarted.advances hsound hbinds.calls fun Q hQ => hbinds.advances hsound hQ
  have hcalls := hbound.evaluateCalls (hbinds.sound hsound) hrun (hP _ hcontinues.bind) hpass
  have hpassed := pass_advances hrun hsound (.all q) hpass
  have hread := readWanted_advances s hpassed.sound hpassed.covers
  exact ⟨(hcontinues.pass hpass).read, hread.sound,
    hcalls.advances hpassed.sound rfl fun Q hQ => readWanted_advances s hpassed.sound hQ⟩

/-! ## Whole evaluations -/

/-- The states between the steps of an evaluation. -/
structure Phases (s : Session) (run : Evaluate) (start settled loaded resettled expanded done : ModuleRun) :
    Prop where
  settle : start.settle s run = .ok settled
  load : settled.loadModules s = .ok loaded
  resettle : loaded.settle s run = .ok resettled
  expand : resettled.expandBlocks.settle s run = .ok expanded
  force : expanded.forceCalls s run = .ok done

namespace Phases

variable {settled resettled done : ModuleRun}

theorem sound_settled (h : Phases s run start settled loaded resettled expanded done) (hrun : Contained run)
    (hs : start.Sound) : settled.Sound :=
  (settle_advances hrun hs (.all start) h.settle).sound

theorem sound_loaded (h : Phases s run start settled loaded resettled expanded done) (hrun : Contained run)
    (hs : start.Sound) : loaded.Sound :=
  (loadModules_advances (h.sound_settled hrun hs) (.all settled) h.load).sound

theorem sound_resettled (h : Phases s run start settled loaded resettled expanded done) (hrun : Contained run)
    (hs : start.Sound) : resettled.Sound :=
  (settle_advances hrun (h.sound_loaded hrun hs) (.all loaded) h.resettle).sound

theorem sound_expandBlocks (h : Phases s run start settled loaded resettled expanded done) (hrun : Contained run)
    (hs : start.Sound) : resettled.expandBlocks.Sound :=
  (expandBlocks_advances (h.sound_resettled hrun hs) (.all resettled)).sound

theorem sound_expanded (h : Phases s run start settled loaded resettled expanded done) (hrun : Contained run)
    (hs : start.Sound) : expanded.Sound :=
  (settle_advances hrun (h.sound_expandBlocks hrun hs) (.all _) h.expand).sound

/-- Where all calls have been finished early, the evaluation ends with the loop before; else with another one. -/
theorem force_cases (h : Phases s run start settled loaded resettled expanded done) :
    (∀ call ∈ expanded.calls, call.result.isSome) ∧ done = expanded
      ∨ ∃ forced, expanded.evaluateCalls s run true = .ok forced ∧ forced.settle s run = .ok done := by
  have hforce := h.force
  rw [forceCalls] at hforce
  split at hforce
  · exact .inr (bind_eq_ok_iff.mp hforce)
  · next hnone =>
    exact .inl ⟨by simpa [Option.isSome_iff_ne_none] using hnone, (Except.ok.inj hforce).symm⟩

theorem continues_expanded (h : Phases s run start settled loaded resettled expanded done) :
    Continues s run start expanded :=
  (((Continues.start.settle h.settle).load h.load).settle h.resettle).expand.settle h.expand

/-- All calls are opened when the modules are loaded. -/
theorem open_loaded (h : Phases s run start settled loaded resettled expanded done) (hrun : Contained run)
    (hs : start.Sound) (hcalls : start.calls = []) : ∀ call ∈ loaded.calls, call.result = none := by
  obtain ⟨opened, hopened, hnone⟩ := loadCalls_calls h.load
  have hbefore := hs.settle_later hrun h.settle
  rw [hcalls, List.forall₂_nil_left_iff] at hbefore
  rw [hopened, hbefore]
  exact hnone

theorem later_expanded (h : Phases s run start settled loaded resettled expanded done) (hrun : Contained run)
    (hs : start.Sound) : List.Forall₂ Later loaded.calls expanded.calls := by
  have hresettled := (h.sound_loaded hrun hs).settle_later hrun h.resettle
  exact laters_trans hresettled ((h.sound_expandBlocks hrun hs).settle_later hrun h.expand)

theorem finished (h : Phases s run start settled loaded resettled expanded done) (hrun : Contained run)
    (hs : start.Sound) :
    List.Forall₂ Later loaded.calls done.calls ∧ ∀ call ∈ done.calls, call.result.isSome := by
  have hexpanded := h.later_expanded hrun hs
  rcases h.force_cases with ⟨hfinished, rfl⟩ | ⟨forced, hforced, hsettle⟩
  · exact ⟨hexpanded, hfinished⟩
  · have hsound := h.sound_expanded hrun hs
    have hadvances := evaluateCalls_advances hrun hsound (.all expanded) hforced
    have hlater := hadvances.sound.settle_later hrun hsettle
    have hfinished := evaluateCalls_finished hforced
    refine ⟨laters_trans hexpanded (laters_trans (hsound.evaluateCalls_later hrun hforced) hlater),
      fun last hlast => ?_⟩
    obtain ⟨later, hmem, hone⟩ := exists_of_mem_later hlater hlast
    rw [hone.eq_of_finished (hfinished later hmem)]
    exact hfinished later hmem

/-- Calls are forced in the state `expanded` alone. -/
theorem started (h : Phases s run start settled loaded resettled expanded done) (hrun : Contained run)
    (hs : start.Sound) (hcalls : start.calls = []) :
    StartedIn (fun earlier force => Continues s run start earlier ∧ (force = true → earlier = expanded)) s run
      done := by
  let P (earlier : ModuleRun) (force : Bool) : Prop :=
    Continues s run start earlier ∧ (force = true → earlier = expanded)
  have hP (q : ModuleRun) (hq : Continues s run start q) : P q false := ⟨hq, fun hforce => by cases hforce⟩
  have hloaded : Continues s run start loaded := (Continues.start.settle h.settle).load h.load
  have hresettled := hloaded.settle h.resettle
  have hfirst := (StartedIn.ofOpen (P := P) (h.open_loaded hrun hs hcalls)).settle (h.sound_loaded hrun hs) hrun
    hloaded hP h.resettle
  have hsound := h.sound_resettled hrun hs
  have hblocks : StartedIn P s run resettled.expandBlocks :=
    hfirst.advances hsound rfl fun Q hQ => expandBlocks_advances hsound hQ
  have hexpanded := hblocks.settle (h.sound_expandBlocks hrun hs) hrun hresettled.expand hP h.expand
  rcases h.force_cases with ⟨-, rfl⟩ | ⟨forced, hforced, hsettle⟩
  · exact hexpanded
  · have hsound := h.sound_expanded hrun hs
    have hadvances := evaluateCalls_advances hrun hsound (.all expanded) hforced
    have hcontinues := h.continues_expanded
    exact (hexpanded.evaluateCalls hsound hrun ⟨hcontinues, fun _ => rfl⟩ hforced).settle hadvances.sound hrun
      (hcontinues.calls true hforced) hP hsettle

theorem exports (h : Phases s run start settled loaded resettled expanded done) (hrun : Contained run)
    (hs : start.Sound) (hcalls : start.calls = []) : Exports done := by
  rcases h.force_cases with ⟨hfinished, rfl⟩ | ⟨forced, hforced, hsettle⟩
  · rcases (h.sound_expandBlocks hrun hs).settle_last hrun h.expand with ⟨hnone, hsame⟩ | ⟨hexports, -⟩
    -- Without passes no call is finished before the end.
    · have hresettle := h.resettle
      rw [ModuleRun.settle, hnone] at hresettle
      obtain rfl := Except.ok.inj hresettle
      refine exports_of_open fun call hcall => ?_
      rw [hsame] at hcall
      exact h.open_loaded hrun hs hcalls call hcall
    · exact hexports
  · have hsound := h.sound_expanded hrun hs
    have hadvances := evaluateCalls_advances hrun hsound (.all expanded) hforced
    rcases hadvances.sound.settle_last hrun hsettle with ⟨-, rfl⟩ | ⟨hexports, -⟩
    · exact hsound.exports_evaluateCalls hrun hforced
    · exact hexports

theorem bindsOutputs (h : Phases s run start settled loaded resettled expanded done) (hrun : Contained run)
    (hs : start.Sound) (hpasses : 0 < s.maxPasses) : BindsOutputs done := by
  have hlast {q next : ModuleRun} (hq : q.Sound) (h : q.settle s run = .ok next) : BindsOutputs next :=
    (hq.settle_last hrun h).elim (fun hnone => absurd hnone.1 (Nat.ne_of_gt hpasses)) And.right
  rcases h.force_cases with ⟨-, rfl⟩ | ⟨forced, hforced, hsettle⟩
  · exact hlast (h.sound_expandBlocks hrun hs) h.expand
  · exact hlast (evaluateCalls_advances hrun (h.sound_expanded hrun hs) (.all expanded) hforced).sound hsettle

end Phases

theorem exists_phases (h : evaluateWith s run start = .ok (modules, next)) :
    ∃ settled loaded resettled expanded, Phases s run start settled loaded resettled expanded next
      ∧ modules = next.modules := by
  obtain ⟨settled, loaded, resettled, expanded, h1, h2, h3, h4, h5, hmodules⟩ := evaluateWith_eq_ok_iff.mp h
  exact ⟨settled, loaded, resettled, expanded, ⟨h1, h2, h3, h4, h5⟩, hmodules⟩

theorem bindsOutputs_of_evaluateUpTo (hpasses : 0 < s.maxPasses) (hs : start.Sound)
    (h : evaluateUpTo s d start = .ok (modules, next)) : BindsOutputs next := by
  cases d with
  | zero => cases h
  | succ d =>
    obtain ⟨settled, loaded, resettled, expanded, hphases, -⟩ := exists_phases h
    exact hphases.bindsOutputs (contained_evaluateUpTo s d) hs hpasses

/-- What an evaluation has done with its calls at its end. They were opened when the modules were loaded, in the
state `loaded`; `expanded` is the state in which those that are still open are evaluated. -/
structure FinishesCalls (s : Session) (run : Evaluate) (start loaded expanded : ModuleRun)
    (modules : List ModuleInstance) (done : ModuleRun) : Prop where
  phases : ∃ settled resettled, Phases s run start settled loaded resettled expanded done
  opened : ∀ call ∈ loaded.calls, call.result = none
  finished : List.Forall₂ (fun call later => ∃ result, later = { call with result := some result })
    loaded.calls done.calls
  once : ∃ order : List ModuleCall, order.Perm done.calls
    ∧ done.visited = start.visited ++ order.map (visit done.arena)
  started : ∀ call ∈ done.calls, ∃ earlier force mid child, Continues s run start earlier
    ∧ (force = true → earlier = expanded) ∧ StartedFrom s run earlier force done call mid child
  modules : modules = done.module :: done.calls.flatMap fun call => (call.result.map CallResult.modules).getD []
  exported : ∀ call ∈ done.calls, IsAlone done.calls call.name →
    done.arena.scopes.get? done.root ["module", call.name]
      = some ((done.arena.scopes.get? call.root ["output"]).getD (.object []))
  bound : 0 < s.maxPasses → ∀ call ∈ done.calls, (done.arena.scopes.get? call.root ["output"]).isSome

theorem finished_of_later {first second : List ModuleCall} (h : List.Forall₂ Later first second)
    (hopen : ∀ call ∈ first, call.result = none) (hfinished : ∀ call ∈ second, call.result.isSome) :
    List.Forall₂ (fun call later => ∃ result, later = { call with result := some result }) first second := by
  induction h with
  | nil => exact .nil
  | cons hone _ ih =>
    obtain ⟨hnone, hopen⟩ := List.forall_mem_cons.mp hopen
    obtain ⟨hsome, hfinished⟩ := List.forall_mem_cons.mp hfinished
    refine .cons ?_ (ih hopen hfinished)
    rcases hone with rfl | ⟨-, result, rfl⟩
    · rw [hnone] at hsome
      cases hsome
    · exact ⟨result, rfl⟩

/-- The outputs of a module stand at the top of its scopes. -/
theorem get?_output {a : Arena} {top : ScopeId} (h : a.IsTop top) :
    a.scopes.get? top ["output"] = (a.scopes.bindings top).get? "output" := by
  rw [Scopes.get?_root h.2, Entries.getPath?_cons]
  cases Entries.get? (a.scopes.bindings top) "output" <;> rfl

/-- Every call that an evaluation loads is started once: with all inputs known, or when nothing else is left to
do. Its modules come after that of the caller in the order of the calls, and its outputs stand under its name. -/
theorem evaluateWith_finishes_calls (h : Begins s d start)
    (heval : evaluateWith s (evaluateUpTo s d) start = .ok (modules, next)) :
    ∃ loaded expanded, FinishesCalls s (evaluateUpTo s d) start loaded expanded modules next := by
  have hrun := contained_evaluateUpTo s d
  have hs := h.reached.sound
  obtain ⟨settled, loaded, resettled, expanded, hphases, rfl⟩ := exists_phases heval
  have hopen := hphases.open_loaded hrun hs h.calls_eq
  obtain ⟨hlater, hfinished⟩ := hphases.finished hrun hs
  have hnext := h.reached.evaluateWith heval
  have hstarted := hphases.started hrun hs h.calls_eq
  have hchild {call : ModuleCall} (hcall : call ∈ next.calls) : ∃ earlier force mid child, earlier.Sound
      ∧ StartedFrom s (evaluateUpTo s d) earlier force next call mid child := by
    obtain ⟨result, hresult⟩ := Option.isSome_iff_exists.mp (hfinished call hcall)
    obtain ⟨earlier, force, mid, child, hearlier, hone⟩ := hstarted call hcall result hresult
    exact ⟨earlier, force, mid, child, hearlier.1.sound hrun hs, hone⟩
  refine ⟨loaded, expanded, ⟨settled, resettled, hphases⟩, hopen, finished_of_later hlater hopen hfinished, ?_,
    fun call hcall => ?_, rfl, fun call hcall halone => ?_, fun hpasses call hcall => ?_⟩
  · obtain ⟨order, hvisited, hperm⟩ :=
      ((Continues.ofEvaluateWith heval).tracks hrun (keepsTexts_evaluateUpTo s d) hs h.calls_eq).record
    have hall : next.calls.filter ModuleCall.isFinished = next.calls := List.filter_eq_self.mpr hfinished
    exact ⟨order, (hall ▸ hperm).symm, hvisited⟩
  · obtain ⟨result, hresult⟩ := Option.isSome_iff_exists.mp (hfinished call hcall)
    obtain ⟨earlier, force, mid, child, hearlier, hone⟩ := hstarted call hcall result hresult
    exact ⟨earlier, force, mid, child, hearlier.1, hearlier.2, hone⟩
  · obtain ⟨earlier, force, mid, child, hearlier, hone⟩ := hchild hcall
    obtain ⟨modules, -, hresult⟩ := hone.gives
    have hexported := hphases.exports hrun hs h.calls_eq call hcall _ hresult halone
    rw [get?_output (hnext.sound.calls call hcall).top, hone.bindings hrun hearlier,
      Scopes.get?_root hnext.sound.top.2]
    exact hexported
  · obtain ⟨earlier, force, mid, child, hearlier, hone⟩ := hchild hcall
    obtain ⟨modules, hgives, -⟩ := hone.gives
    rw [get?_output (hnext.sound.calls call hcall).top, hone.bindings hrun hearlier]
    have hstartedSound := hearlier.started hrun hone.starts
    exact bindsOutputs_of_evaluateUpTo hpasses hstartedSound hgives

theorem evaluateWith_finishes_calls_lateInputs :
    let s : Session := ⟨constantOutput, "/", "default", false, 6, []⟩
    let r := Project.rootRun s [] lateInputs
    ∃ modules done, Begins s 999 r ∧ evaluateWith s (evaluateUpTo s 999) r = .ok (modules, done)
      ∧ (∃ call ∈ done.calls, IsAlone done.calls call.name)
      ∧ ∃ loaded expanded, FinishesCalls s (evaluateUpTo s 999) r loaded expanded modules done := by
  intro s r
  have hcheck : (evaluateWith s (evaluateUpTo s 999) r).toOption.any (fun (_, done) =>
      decide (done.calls.map ModuleCall.name).Nodup
        && done.calls.any fun call => done.calls.all fun other => other.base? != some call.name) = true := by
    decide +kernel
  obtain ⟨⟨modules, done⟩, hdone, hall⟩ := (Option.any_eq_true _ _).mp hcheck
  obtain ⟨hnodup, hany⟩ := Bool.and_eq_true_iff.mp hall
  obtain ⟨call, hcall, hapart⟩ := List.any_eq_true.mp hany
  have halone : IsAlone done.calls call.name :=
    ⟨of_decide_eq_true hnodup, fun other hother => bne_iff_ne.mp (List.all_eq_true.mp hapart other hother)⟩
  have hbegins : Begins s 999 r := .root [] lateInputs
  have heval := eq_ok_of_toOption hdone
  exact ⟨modules, done, hbegins, heval, ⟨call, hcall, halone⟩, evaluateWith_finishes_calls hbegins heval⟩

/-- Two module blocks with one label, of which one is expanded. -/
def sameLabels : List SourceFile :=
  let source : Attribute := ⟨"source", .text "./c", default⟩
  [⟨"main.tf", "", [
    .node "module" ["m"] [source] [] default,
    .node "module" ["m"] [source, ⟨"count", .number (.int 1), default⟩] [] default]⟩]

/-- The outputs of instances are gathered under the name without key, even if that is the name of another call. -/
theorem outputs_of_instances_gathered :
    let s : Session := ⟨constantOutput, "/", "default", false, 6, []⟩
    ∃ modules done call, evaluateUpTo s 1000 (Project.rootRun s [] sameLabels) = .ok (modules, done)
      ∧ (done.calls.map ModuleCall.name).Nodup ∧ call ∈ done.calls
      ∧ done.arena.scopes.get? done.root ["module", call.name] ≠ done.arena.scopes.get? call.root ["output"] := by
  intro s
  have hcheck : (evaluateUpTo s 1000 (Project.rootRun s [] sameLabels)).toOption.any (fun (_, done) =>
      decide (done.calls.map ModuleCall.name).Nodup && done.calls.any fun call =>
        (done.arena.scopes.get? done.root ["module", call.name]).any Value.isListLike
          && (done.arena.scopes.get? call.root ["output"]).any Value.isMapLike) = true := by
    decide +kernel
  obtain ⟨⟨modules, done⟩, hdone, hall⟩ := (Option.any_eq_true _ _).mp hcheck
  obtain ⟨hnodup, hany⟩ := Bool.and_eq_true_iff.mp hall
  obtain ⟨call, hcall, hboth⟩ := List.any_eq_true.mp hany
  obtain ⟨hlist, hmap⟩ := Bool.and_eq_true_iff.mp hboth
  refine ⟨modules, done, call, eq_ok_of_toOption hdone, of_decide_eq_true hnodup, hcall, fun hsame => ?_⟩
  obtain ⟨v, hv, hlistLike⟩ := (Option.any_eq_true _ _).mp hlist
  obtain ⟨w, hw, hmapLike⟩ := (Option.any_eq_true _ _).mp hmap
  obtain rfl := Option.some.inj (hv.symm.trans (hsame.trans hw))
  rw [Value.not_isMapLike hlistLike] at hmapLike
  cases hmapLike

end ModuleRun

end InfraConfig
