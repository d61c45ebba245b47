import InfraConfig.Proofs.AlikeRuns

/-!
# Fixed points of passes

A loop of passes stops when the bindings before and after a pass are equal, as values are: by the magnitude of
numbers, and without regard to the order of keys. When they agree to the letter, a further pass gives the same
bindings once more.
-/

namespace InfraConfig

namespace ModuleRun

variable {s : Session} {run : Evaluate} {r mid next passed settled : ModuleRun}

/-! ## One more pass -/

theorem eq_of_nothing_read (h : r.readWanted s = (false, settled)) :
    ∃ wanted, settled = { r with arena.files.wanted := wanted } := by
  rw [readWanted] at h
  obtain ⟨hnone, rfl⟩ := Prod.mk.inj h
  rw [Bool.not_eq_false', List.isEmpty_iff] at hnone
  refine ⟨[], ?_⟩
  rw [hnone]
  rfl

theorem beside_withWanted (r : ModuleRun) (wanted : List String) :
    Beside r { r with arena.files.wanted := wanted } := by
  refine ⟨?_, fun _ _ _ _ => rfl, fun _ _ => rfl, rfl, rfl, rfl, rfl⟩
  exact .single (.record r.arena.sources { r.arena.files with wanted } rfl)

theorem Sound.beside_of_evaluateCalls (hs : r.Sound) (hrun : Contained run)
    (h : r.evaluateCalls s run false = .ok next) (hreads : ReadsNothing s run r r.calls) : Beside r next := by
  obtain ⟨mid, calls, heach, rfl, -⟩ := evaluateCalls_spec hrun hs h
  have hcontents := hreads _ _ _ (List.prefix_refl _) heach
  obtain ⟨hmid, halike⟩ := hs.alike_of_evaluateEach hrun (List.Subset.refl _) heach hcontents
  have hcalls : Beside r { mid with calls } :=
    ⟨hmid.changes, hmid.others, hmid.blocks, hmid.contents, hmid.module, hmid.root, hmid.given⟩
  have houtputs := Rebinds.bindOutputsOfCalls { mid with calls }
  exact hcalls.trans hs (houtputs.beside halike.right.top)

/-- A pass that gives back the bindings it began with, and reads nothing, leaves the module as it was. -/
theorem Sound.alike_of_pass (hs : r.Sound) (hrun : Contained run) (hpass : r.pass s run = .ok passed)
    (hread : passed.readWanted s = (false, settled)) (hsame : settled.bindings = r.bindings)
    (hreads : ReadsNothing s run r.bindBlocks r.bindBlocks.calls) : Alike r settled := by
  have hpassed := pass_advances hrun hs (.all r) hpass
  have hsettled := readWanted_advances s hpassed.sound hpassed.covers
  have hbind := Rebinds.bindBlocks r
  have hcalls := (hbind.sound hs).beside_of_evaluateCalls hrun hpass hreads
  obtain ⟨wanted, hwanted⟩ := eq_of_nothing_read hread
  have hbeside := ((hbind.beside hs.top).trans hs hcalls).trans hs (beside_withWanted passed wanted)
  rw [hread] at hsettled
  rw [← hwanted] at hbeside
  exact hbeside.alike hs hsettled.sound hsame

theorem Sound.evaluateCalls_again {rebound : ModuleRun} (hs : r.Sound) (hrun : Contained run)
    (h : r.evaluateCalls s run false = .ok next) (hreads : ReadsNothing s run r r.calls)
    (halike : Alike r rebound) (hcalls : rebound.calls = next.calls) :
    ∃ again, rebound.evaluateCalls s run false = .ok again ∧ again.bindings = next.bindings := by
  obtain ⟨mid, calls, heach, rfl, -, hlater, -⟩ := evaluateCalls_spec hrun hs h
  have hcontents := hreads _ _ _ (List.prefix_refl _) heach
  obtain ⟨hmid, halikeMid⟩ := hs.alike_of_evaluateEach hrun (List.Subset.refl _) heach hcontents
  rw [(Rebinds.bindOutputsOfCalls _).calls] at hcalls
  have hopen : ∀ call ∈ calls, call.result = none → (Value.object
      (moduleInputs rebound.arena (rebound.arena.block call.block))).isWhollyKnown = false := by
    intro call hcall hnone
    have hcaller : r.arena.Has r.root call.block := by
      obtain ⟨before, hbefore, hcall⟩ := exists_of_mem_later hlater hcall
      exact (hcall.callIn (hs.calls before hbefore)).caller
    rw [halike.moduleInputs hcaller]
    exact hs.unknown_of_open hrun heach hreads hcall hnone
  obtain ⟨wanted, hagain⟩ := evaluateEach_of_unknown s run hopen
  have hfinal : rebound.evaluateCalls s run false
      = .ok { rebound with arena.files.wanted := wanted, calls }.bindOutputsOfCalls := by
    rw [evaluateCalls, hcalls, hagain]
    rfl
  refine ⟨_, hfinal, ?_⟩
  rw [bindings_bindOutputsOfCalls, bindings_bindOutputsOfCalls]
  · exact congrArg (Entries.write · (callWrites calls)) (halike.bindings.trans halikeMid.bindings.symm)
  · exact halikeMid.right.root_lt
  · exact halike.right.root_lt

/-- One more pass after two that agree to the letter gives the same bindings again. -/
theorem Sound.pass_again (hs : r.Sound) (hrun : Contained run) (hpass : r.pass s run = .ok passed)
    (hread : passed.readWanted s = (false, settled)) (hsame : settled.bindings = r.bindings)
    (hreads : ReadsNothing s run r.bindBlocks r.bindBlocks.calls) :
    ∃ again, settled.pass s run = .ok again ∧ again.bindings = settled.bindings := by
  have halike := hs.alike_of_pass hrun hpass hread hsame hreads
  obtain ⟨wanted, rfl⟩ := eq_of_nothing_read hread
  have hcalls := (Rebinds.bindBlocks { passed with arena.files.wanted := wanted }).calls
  have hagain := ((Rebinds.bindBlocks r).sound hs).evaluateCalls_again hrun hpass hreads halike.bindBlocks hcalls
  exact hagain

/-! ## Each kind of block -/

/-- The names that a pass binds its results under, those of resources apart. -/
def reservedNames : List String :=
  ["var", "local", "provider", "data", "output", "module"]

/-- Evaluating the blocks of any one kind anew, or taking the outputs of the calls, changes no binding. -/
structure Renewed (r : ModuleRun) : Prop where
  variableBlocks : r.bindVariables.bindings = r.bindings
  localBlocks : r.bindLocals.bindings = r.bindings
  providerBlocks : r.bindProviders.bindings = r.bindings
  resourceBlocks : (r.bindInstances .resource []).bindings = r.bindings
  dataBlocks : (r.bindInstances .data ["data"]).bindings = r.bindings
  outputBlocks : r.bindOutputs.bindings = r.bindings
  callOutputs : r.bindOutputsOfCalls.bindings = r.bindings

/-- A path that begins with the reserved name at a position, or with a name that is not reserved. -/
def InSlot (i : Nat) (path : ValuePath) : Prop :=
  ∃ name rest, path = name :: rest ∧ reservedNames.idxOf name = i

theorem InSlot.apart {i j : Nat} {p q : ValuePath} (hp : InSlot i p) (hq : InSlot j q) (hij : i ≠ j) :
    Apart p q := by
  obtain ⟨m, p, rfl, rfl⟩ := hp
  obtain ⟨n, q, rfl, rfl⟩ := hq
  apply Apart.of_head_ne
  intro h
  exact hij (congrArg reservedNames.idxOf h)

theorem callWrites_apart (calls : List ModuleCall) :
    (callWrites calls).Pairwise fun w x => Apart w.1 x.1 := by
  rw [callWrites]
  dsimp only
  split
  · exact .nil
  · exact List.pairwise_singleton _ _

theorem inSlot_callWrites {calls : List ModuleCall} {w : ValuePath × Value} (h : w ∈ callWrites calls) :
    InSlot 5 w.1 := by
  rw [callWrites] at h
  dsimp only at h
  split at h
  · cases h
  · rw [List.mem_singleton.mp h]
    exact ⟨"module", [], rfl, rfl⟩

theorem Rebinds.blocksOf (h : Rebinds r next) (kind : BlockKind) : next.blocksOf kind = r.blocksOf kind := by
  rw [ModuleRun.blocksOf, ModuleRun.blocksOf, ModuleInstance.blocksIn, ModuleInstance.blocksIn, h.module]
  have hblock : next.arena.block = r.arena.block := by
    funext id
    rw [Arena.block, Arena.block, h.blocks]
  rw [hblock]

/-- A step that binds what is bound already leaves a run alike. -/
theorem Alike.rebound {p q : ModuleRun} (h : Alike r q) (k : Rebinds r p) (hsame : p.bindings = r.bindings) :
    Alike p q := by
  have hold (id : ScopeId) (hid : id < p.arena.scopes.size) :
      p.arena.scopes.root id = r.arena.scopes.root id :=
    (k.changes h.left.top (fun _ => True) trivial).root_eq h.left.well (k.size ▸ hid)
  have hblock (id : BlockId) : p.arena.block id = r.arena.block id := by
    rw [Arena.block, Arena.block, k.blocks]
  refine ⟨k.sound h.left, h.right, ?_, h.module.trans k.module.symm, h.root.trans k.root.symm,
    h.given.trans k.given.symm⟩
  constructor
  · intro id hid htop
    rw [hold id hid, k.root] at htop
    exact (h.view.parents id (k.size ▸ hid) htop).trans (k.parents id).symm
  · intro id hid htop
    rw [hold id hid, k.root] at htop
    have hbindings : p.arena.scopes.bindings id = r.arena.scopes.bindings id := by
      by_cases hself : id = r.root
      · rw [ModuleRun.bindings, ModuleRun.bindings, k.root] at hsame
        rw [hself, hsame]
      · exact k.others id hself
    exact (h.view.bindings id (k.size ▸ hid) htop).trans hbindings.symm
  · intro id hid hhome
    rw [k.blocks] at hid
    have hroot := hold (r.arena.block id).scope (k.size ▸ h.left.well.placed id hid)
    rw [Arena.home, hblock, hroot, k.root] at hhome
    exact (h.view.blocks id hid hhome).trans (hblock id).symm
  · exact h.view.base.trans (k.changes h.left.top (fun _ => True) trivial).base_eq.symm
  · exact h.view.contents.trans k.contents.symm

/-- A step of a pass that binds in one slot, depending on what alike runs have in common. -/
structure BindsIn (i : Nat) (f : ModuleRun → ModuleRun) (r : ModuleRun) : Prop where
  rebinds : Rebinds r (f r)
  writes : r.Sound → ∃ ws, (f r).bindings = r.bindings.write ws ∧ (ws.Pairwise fun w x => Apart w.1 x.1)
    ∧ ∀ w ∈ ws, ∃ j ∈ [i], InSlot j w.1
  alike : ∀ q, Alike r q → Alike (f r) (f q)

/-- Steps of which each binds in a slot of its own, in whatever later state it is taken. -/
def BindInSlots (r : ModuleRun) (steps : List (ModuleRun → ModuleRun)) (slots : List Nat) : Prop :=
  List.Forall₂ (fun f i => ∀ next, Rebinds r next → BindsIn i f next) steps slots

theorem BindInSlots.later {steps : List (ModuleRun → ModuleRun)} {slots : List Nat} (k : Rebinds r next)
    (h : BindInSlots r steps slots) : BindInSlots next steps slots :=
  h.imp fun _ _ h later hlater => h later (k.trans hlater)

/-- Writes in different slots are apart. -/
theorem pairwise_append_of_slots {ws xs : List (ValuePath × Value)} {slots more : List Nat}
    (hws : ws.Pairwise fun w x => Apart w.1 x.1) (hxs : xs.Pairwise fun w x => Apart w.1 x.1)
    (hslots : ∀ w ∈ ws, ∃ i ∈ slots, InSlot i w.1) (hmore : ∀ x ∈ xs, ∃ j ∈ more, InSlot j x.1)
    (hdisjoint : ∀ i ∈ slots, i ∉ more) : (ws ++ xs).Pairwise fun w x => Apart w.1 x.1 := by
  rw [List.pairwise_append]
  refine ⟨hws, hxs, ?_⟩
  intro w hw x hx
  obtain ⟨i, hi, hwi⟩ := hslots w hw
  obtain ⟨j, hj, hxj⟩ := hmore x hx
  apply hwi.apart hxj
  rintro rfl
  exact hdisjoint i hi hj

theorem inSlots_append {ws xs : List (ValuePath × Value)} {slots more : List Nat}
    (hslots : ∀ w ∈ ws, ∃ i ∈ slots, InSlot i w.1) (hmore : ∀ x ∈ xs, ∃ j ∈ more, InSlot j x.1) :
    ∀ w ∈ ws ++ xs, ∃ i ∈ slots ++ more, InSlot i w.1 := by
  intro w hw
  rcases List.mem_append.mp hw with hw | hw
  · obtain ⟨i, hi, hwi⟩ := hslots w hw
    exact ⟨i, List.mem_append_left more hi, hwi⟩
  · obtain ⟨j, hj, hwj⟩ := hmore w hw
    exact ⟨j, List.mem_append_right slots hj, hwj⟩

/-- All that a number of steps writes. -/
theorem BindInSlots.writes {steps : List (ModuleRun → ModuleRun)} {slots : List Nat} (hs : r.Sound)
    (h : BindInSlots r steps slots) (hslots : slots.Nodup) :
    ∃ ws, (steps.foldl (fun r f => f r) r).bindings = r.bindings.write ws
      ∧ (ws.Pairwise fun w x => Apart w.1 x.1) ∧ ∀ w ∈ ws, ∃ i ∈ slots, InSlot i w.1 := by
  induction steps generalizing r slots with
  | nil => exact ⟨[], rfl, .nil, fun w hw => absurd hw List.not_mem_nil⟩
  | cons f steps ih =>
    cases h with
    | @cons _ i _ slots hf hsteps =>
      obtain ⟨hi, hrest⟩ := List.nodup_cons.mp hslots
      have hfirst := hf r (.refl r)
      obtain ⟨ws, hws, hapart, hin⟩ := hfirst.writes hs
      have hlater : BindInSlots (f r) steps slots := BindInSlots.later hfirst.rebinds hsteps
      obtain ⟨xs, hxs, hmore, hslot⟩ := ih (hfirst.rebinds.sound hs) hlater hrest
      have hother : ∀ k ∈ [i], k ∉ slots := by simpa using hi
      refine ⟨ws ++ xs, ?_, pairwise_append_of_slots hapart hmore hin hslot hother, inSlots_append hin hslot⟩
      rw [List.foldl_cons, hxs, hws, Entries.write_append]

/-- Steps that give back the bindings together, with some writes after them, each give them back. -/
theorem BindInSlots.fixed {steps : List (ModuleRun → ModuleRun)} {slots : List Nat} (hs : r.Sound)
    (h : BindInSlots r steps slots) (hslots : slots.Nodup) {last : List (ValuePath × Value)} {j : Nat}
    (hlast : last.Pairwise fun w x => Apart w.1 x.1) (hin : ∀ w ∈ last, ∃ k ∈ [j], InSlot k w.1)
    (hj : j ∉ slots)
    (hsame : (steps.foldl (fun r f => f r) r).bindings.write last = r.bindings) :
    (∀ f ∈ steps, ∀ q, Alike r q → (f q).bindings = q.bindings) ∧ r.bindings.write last = r.bindings := by
  induction steps generalizing r slots with
  | nil => exact ⟨fun f hf => absurd hf List.not_mem_nil, hsame⟩
  | cons f steps ih =>
    cases h with
    | @cons _ i _ slots hf hsteps =>
      obtain ⟨hi, hrest⟩ := List.nodup_cons.mp hslots
      have hfirst := hf r (.refl r)
      have hsound := hfirst.rebinds.sound hs
      have hlater : BindInSlots (f r) steps slots := BindInSlots.later hfirst.rebinds hsteps
      obtain ⟨ws, hws, hapart, hwin⟩ := hfirst.writes hs
      obtain ⟨xs, hxs, hmore, hslot⟩ := hlater.writes hsound hrest
      have hji : j ≠ i := List.ne_of_not_mem_cons hj
      have hjslots : j ∉ slots := List.not_mem_of_not_mem_cons hj
      have hafter : (xs ++ last).Pairwise fun w x => Apart w.1 x.1 := by
        apply pairwise_append_of_slots hmore hlast hslot hin
        intro k hk hkj
        exact hjslots (List.mem_singleton.mp hkj ▸ hk)
      have hall : (ws ++ (xs ++ last)).Pairwise fun w x => Apart w.1 x.1 := by
        apply pairwise_append_of_slots hapart hafter hwin (inSlots_append hslot hin)
        intro k hk hmem
        rw [List.mem_singleton.mp hk] at hmem
        rcases List.mem_append.mp hmem with hmem | hmem
        · exact hi hmem
        · exact hji (List.mem_singleton.mp hmem).symm
      have htotal : r.bindings.write (ws ++ (xs ++ last)) = r.bindings := by
        rw [List.foldl_cons, hxs, hws] at hsame
        rw [Entries.write_append, Entries.write_append, hsame]
      have heach := Entries.setPath_eq_self_of_write hall htotal
      have hfixed : (f r).bindings = r.bindings := by
        rw [hws]
        exact Entries.write_eq_self fun w hw => heach w (List.mem_append_left _ hw)
      rw [List.foldl_cons, ← hfixed] at hsame
      obtain ⟨hothers, hfinal⟩ := ih hsound hlater hrest hjslots hsame
      refine ⟨?_, hfixed ▸ hfinal⟩
      intro g hg q hq
      rcases List.mem_cons.mp hg with rfl | hg
      · rw [(hfirst.alike q hq).bindings, hfixed, hq.bindings]
      · exact hothers g hg q (hq.rebound hfirst.rebinds hfixed)

/-- A write under a single name after some reads. -/
theorem writes_of_bind {name : String} {i : Nat} {v : Value} {reads : List (Block × List Attribute)}
    (hname : reservedNames.idxOf name = i) (hs : r.Sound)
    (hnext : next.bindings = ((r.noting reads).bind v [name]).bindings) :
    ∃ ws, next.bindings = r.bindings.write ws ∧ (ws.Pairwise fun w x => Apart w.1 x.1)
      ∧ ∀ w ∈ ws, ∃ j ∈ [i], InSlot j w.1 := by
  refine ⟨[([name], v)], ?_, List.pairwise_singleton _ _, ?_⟩
  · rw [hnext, bindings_bind ((Rebinds.noting r reads).sound hs).root_lt, bindings_noting]
    rfl
  · intro w hw
    rw [List.mem_singleton.mp hw]
    exact ⟨i, List.mem_singleton_self i, name, [], rfl, hname⟩

theorem binds_instances (r : ModuleRun) {kind : BlockKind} {above : ValuePath} {i : Nat}
    (hslot : ∀ b ∈ r.blocksOf kind, InSlot i (above ++ [b.typeLabel])) :
    BindsIn i (bindInstances kind above) r := by
  refine ⟨.bindInstances kind above r, ?_, fun q hq => hq.bindInstances kind above⟩
  intro hs
  refine ⟨_, bindings_bindInstances hs.root_lt kind above, r.instanceWrites_apart kind above, ?_⟩
  intro w hw
  obtain ⟨b, hb, heq⟩ := exists_of_mem_instanceWrites hw
  exact ⟨i, List.mem_singleton_self i, heq ▸ hslot b hb⟩

/-- Data sources are bound below a name of their own. -/
theorem binds_data (r : ModuleRun) : BindsIn 3 (bindInstances .data ["data"]) r :=
  binds_instances r fun b _ => ⟨"data", [b.typeLabel], rfl, rfl⟩

/-- The steps of a pass before its calls. -/
def bindSteps : List (ModuleRun → ModuleRun) :=
  [bindVariables, bindLocals, bindProviders, bindInstances .resource [], bindInstances .data ["data"], bindOutputs]

theorem bindSteps_inSlots (hnames : ∀ b ∈ r.blocksOf .resource, b.typeLabel ∉ reservedNames) :
    BindInSlots r bindSteps [0, 1, 2, 6, 3, 4] := by
  have hresource (next : ModuleRun) (k : Rebinds r next) :
      BindsIn 6 (bindInstances .resource []) next := by
    apply binds_instances
    intro b hb
    rw [k.blocksOf] at hb
    exact ⟨b.typeLabel, [], rfl, List.idxOf_eq_length (hnames b hb)⟩
  refine .cons ?_ (.cons ?_ (.cons ?_ (.cons hresource (.cons (fun q _ => binds_data q) (.cons ?_ .nil)))))
  · exact fun q _ => ⟨.bindVariables q, fun hs => writes_of_bind rfl hs rfl, fun _ h => h.bindVariables⟩
  · exact fun q _ => ⟨.bindLocals q, fun hs => writes_of_bind rfl hs rfl, fun _ h => h.bindLocals⟩
  · exact fun q _ => ⟨.bindProviders q, fun hs => writes_of_bind rfl hs rfl, fun _ h => h.bindProviders⟩
  · exact fun q _ => ⟨.bindOutputs q, fun hs => writes_of_bind rfl hs rfl, fun _ h => h.bindOutputs⟩

/-- When all writes of a pass together give back the bindings, each kind of block gives them back by itself. -/
theorem Sound.renewed_of_pass (hs : r.Sound) (hrun : Contained run) (hpass : r.pass s run = .ok passed)
    (hread : passed.readWanted s = (false, settled)) (hsame : settled.bindings = r.bindings)
    (hreads : ReadsNothing s run r.bindBlocks r.bindBlocks.calls)
    (hnames : ∀ b ∈ settled.blocksOf .resource, b.typeLabel ∉ reservedNames) : Renewed settled := by
  have halike := hs.alike_of_pass hrun hpass hread hsame hreads
  rw [halike.blocksOf] at hnames
  have hbound := (Rebinds.bindBlocks r).sound hs
  obtain ⟨mid, calls, heach, hnext, -⟩ := evaluateCalls_spec hrun hbound hpass
  have hcontents := hreads _ _ _ (List.prefix_refl _) heach
  obtain ⟨-, hmid⟩ := hbound.alike_of_evaluateEach hrun (List.Subset.refl _) heach hcontents
  obtain ⟨wanted, hwanted⟩ := eq_of_nothing_read hread
  have hcalls : settled.calls = calls := by
    rw [hwanted, hnext]
    exact (Rebinds.bindOutputsOfCalls { mid with calls }).calls
  have hpassed : settled.bindings = r.bindBlocks.bindings.write (callWrites calls) := by
    rw [← hmid.bindings, hwanted, hnext]
    exact bindings_bindOutputsOfCalls hmid.right.root_lt
  obtain ⟨hsteps, hlast⟩ := (bindSteps_inSlots hnames).fixed hs (by decide) (callWrites_apart calls)
    (fun w hw => ⟨5, List.mem_singleton_self 5, inSlot_callWrites hw⟩) (by decide)
    (hpassed.symm.trans hsame)
  constructor
  · exact hsteps _ (by simp [bindSteps]) _ halike
  · exact hsteps _ (by simp [bindSteps]) _ halike
  · exact hsteps _ (by simp [bindSteps]) _ halike
  · exact hsteps _ (by simp [bindSteps]) _ halike
  · exact hsteps _ (by simp [bindSteps]) _ halike
  · exact hsteps _ (by simp [bindSteps]) _ halike
  · rw [bindings_bindOutputsOfCalls halike.right.root_lt, hcalls, hsame, hlast]

end ModuleRun

end InfraConfig
