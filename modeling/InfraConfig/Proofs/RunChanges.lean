import InfraConfig.Project
import InfraConfig.Proofs.RunLaws
import InfraConfig.Proofs.Turns

/-!
# Steps of a run as changes

Every step of a run keeps its modules apart: it changes the module of the run, those of its calls, and modules
that are new. A run is sound when the scopes and blocks that it names are those of its own module and of its
calls; all steps keep a run sound. So does every state that the evaluators of a project come to: the steps of one
are taken in any order, and what holds of all these states holds of those that a run goes through.
-/

namespace InfraConfig

namespace ModuleRun

/-- A call names the top of a module of its own, the blocks in it, and a block of the calling module. -/
structure CallIn (a : Arena) (root : ScopeId) (call : ModuleCall) : Prop where
  top : a.IsTop call.root
  apart : call.root ≠ root
  blocks : ∀ id ∈ call.blocks, a.Has call.root id
  caller : a.Has root call.block

/-- What a run names is there and belongs to it. -/
structure Sound (r : ModuleRun) : Prop where
  well : r.arena.WellFormed
  top : r.arena.IsTop r.root
  blocks : ∀ id ∈ r.module.blocks, r.arena.Has r.root id
  calls : ∀ call ∈ r.calls, CallIn r.arena r.root call
  distinct : (r.calls.map ModuleCall.root).Nodup

/-- The modules that a run may change: its own, those of its open calls, and all that are not there yet. -/
structure Covers (P : ScopeId → Prop) (r : ModuleRun) : Prop where
  own : P r.root
  calls : ∀ call ∈ r.calls, call.result = none → P call.root
  new : ∀ t, r.arena.scopes.size ≤ t → P t

/-- A sound run after a step that may change the modules in `P`. -/
structure Advances (P : ScopeId → Prop) (r next : ModuleRun) : Prop where
  changes : Arena.Changes P r.arena next.arena
  sound : next.Sound
  covers : Covers P next
  root : next.root = r.root
  given : next.inputs = r.inputs

variable {P : ScopeId → Prop} {r next : ModuleRun} {a b : Arena}

theorem Covers.all (r : ModuleRun) : Covers (fun _ => True) r :=
  ⟨trivial, fun _ _ _ => trivial, fun _ _ => trivial⟩

theorem CallIn.changes {root : ScopeId} {call : ModuleCall} (h : CallIn a root call) (ha : a.WellFormed)
    (hab : Arena.Changes P a b) : CallIn b root call :=
  ⟨h.top.changes hab, h.apart, fun id hid => (h.blocks id hid).changes ha hab, h.caller.changes ha hab⟩

namespace Advances

theorem refl (h : r.Sound) (hP : Covers P r) : Advances P r r := ⟨.refl, h, hP, rfl, rfl⟩

theorem trans {q : ModuleRun} (h : Advances P r next) (k : Advances P next q) : Advances P r q :=
  ⟨h.changes.trans k.changes, k.sound, k.covers, k.root.trans h.root, k.given.trans h.given⟩

/-- Changes of the arena alone. -/
theorem ofChanges (h : r.Sound) (hP : Covers P r) (hab : Arena.Changes P r.arena b) :
    Advances P r { r with arena := b } := by
  refine ⟨hab, ⟨hab.wellFormed h.well, h.top.changes hab, fun id hid => ?_, fun call hcall => ?_,
    h.distinct⟩, ⟨hP.own, hP.calls, fun t ht => ?_⟩, rfl, rfl⟩
  · exact (h.blocks id hid).changes h.well hab
  · exact (h.calls call hcall).changes h.well hab
  · exact hP.new t (Nat.le_trans hab.size_scopes_le ht)

end Advances

theorem Sound.site (h : r.Sound) (hP : P r.root) : Arena.Site P r.arena r.root :=
  ⟨h.well, h.top, hP⟩

/-! ## Binding -/

theorem exists_noting_eq (r : ModuleRun) (reads : List (Block × List Attribute)) :
    ∃ wanted, r.noting reads = { r with arena.files.wanted := wanted } := by
  rw [ModuleRun.noting]
  refine List.foldlRecOn (motive := fun a : Arena => ∃ wanted : List String,
    ({ r with arena := a } : ModuleRun) = { r with arena.files.wanted := wanted }) reads _ ⟨_, rfl⟩ fun a ha p _ => ?_
  obtain ⟨wanted, hwanted⟩ := ha
  obtain rfl : a = { r.arena with files.wanted := wanted } := congrArg ModuleRun.arena hwanted
  exact ⟨_, rfl⟩

theorem changes_noting (r : ModuleRun) (reads : List (Block × List Attribute)) :
    Arena.Changes P r.arena (r.noting reads).arena := by
  obtain ⟨wanted, hnoted⟩ := exists_noting_eq r reads
  rw [hnoted]
  exact .single (.record _ _ rfl)

/-- A step that writes into the module's scope alone, and reads no files. -/
structure Rebinds (r next : ModuleRun) : Prop where
  blocks : next.arena.blocks = r.arena.blocks
  size : next.arena.scopes.size = r.arena.scopes.size
  parents : ∀ id, next.arena.scopes.parent? id = r.arena.scopes.parent? id
  others : ∀ id, id ≠ r.root → next.arena.scopes.bindings id = r.arena.scopes.bindings id
  contents : next.arena.files.contents = r.arena.files.contents
  module : next.module = r.module
  root : next.root = r.root
  given : next.inputs = r.inputs
  calls : next.calls = r.calls
  visited : next.visited = r.visited
  changes : r.arena.IsTop r.root → ∀ P : ScopeId → Prop, P r.root → Arena.Changes P r.arena next.arena

namespace Rebinds

theorem refl (r : ModuleRun) : Rebinds r r :=
  ⟨rfl, rfl, fun _ => rfl, fun _ _ => rfl, rfl, rfl, rfl, rfl, rfl, rfl, fun _ _ _ => .refl⟩

theorem trans {q : ModuleRun} (h : Rebinds r next) (k : Rebinds next q) : Rebinds r q := by
  refine ⟨k.blocks.trans h.blocks, k.size.trans h.size, fun id => (k.parents id).trans (h.parents id),
    fun id hid => (k.others id (h.root ▸ hid)).trans (h.others id hid), k.contents.trans h.contents,
    k.module.trans h.module, k.root.trans h.root, k.given.trans h.given, k.calls.trans h.calls,
    k.visited.trans h.visited, fun htop P hP => ?_⟩
  have hfirst := h.changes htop P hP
  refine hfirst.trans (k.changes ?_ P (h.root ▸ hP))
  rw [h.root]
  exact htop.changes hfirst

theorem noting (r : ModuleRun) (reads : List (Block × List Attribute)) : Rebinds r (r.noting reads) := by
  obtain ⟨wanted, hnoted⟩ := exists_noting_eq r reads
  rw [hnoted]
  exact ⟨rfl, rfl, fun _ => rfl, fun _ _ => rfl, rfl, rfl, rfl, rfl, rfl, rfl,
    fun _ _ _ => .single (.record _ _ rfl)⟩

theorem bind (r : ModuleRun) (v : Value) (path : ValuePath) : Rebinds r (r.bind v path) :=
  ⟨rfl, Scopes.size_set _ _ _ _, fun id => Scopes.parent?_set _ _ _ _ id,
    fun _ hid => Scopes.bindings_set_of_ne _ hid v path, rfl, rfl, rfl, rfl, rfl, rfl,
    fun htop _ hP => Arena.Changes.bindTop htop hP v path⟩

theorem missing (r : ModuleRun) (missing : List String) : Rebinds r { r with missing } :=
  ⟨rfl, rfl, fun _ => rfl, fun _ _ => rfl, rfl, rfl, rfl, rfl, rfl, rfl, fun _ _ _ => .refl⟩

theorem bindInstances (kind : BlockKind) (above : ValuePath) (r : ModuleRun) :
    Rebinds r (r.bindInstances kind above) := by
  rw [ModuleRun.bindInstances]
  exact List.foldlRecOn _ _ (noting r _) fun q hq group _ => hq.trans (bind q _ _)

theorem bindVariables (r : ModuleRun) : Rebinds r r.bindVariables :=
  ((noting r _).trans (missing _ _)).trans (bind _ _ _)

theorem bindLocals (r : ModuleRun) : Rebinds r r.bindLocals := (noting r _).trans (bind _ _ _)

theorem bindProviders (r : ModuleRun) : Rebinds r r.bindProviders := (noting r _).trans (bind _ _ _)

theorem bindOutputs (r : ModuleRun) : Rebinds r r.bindOutputs := (noting r _).trans (bind _ _ _)

theorem bindBlocks (r : ModuleRun) : Rebinds r r.bindBlocks :=
  (((((bindVariables r).trans (bindLocals _)).trans (bindProviders _)).trans
    (bindInstances _ _ _)).trans (bindInstances _ _ _)).trans (bindOutputs _)

theorem bindOutputsOfCalls (r : ModuleRun) : Rebinds r r.bindOutputsOfCalls := by
  rw [ModuleRun.bindOutputsOfCalls]
  dsimp only
  split
  · exact refl r
  · exact bind _ _ _

theorem advances (h : Rebinds r next) (hs : r.Sound) (hP : Covers P r) : Advances P r next := by
  have hc := h.changes hs.top P hP.own
  have ha := Advances.ofChanges hs hP hc
  obtain ⟨arena, module, root, given, calls, visited, missing⟩ := next
  obtain rfl : module = r.module := h.module
  obtain rfl : root = r.root := h.root
  obtain rfl : calls = r.calls := h.calls
  exact ⟨hc, ⟨ha.sound.well, ha.sound.top, ha.sound.blocks, ha.sound.calls, ha.sound.distinct⟩,
    ⟨hP.own, hP.calls, ha.covers.new⟩, rfl, h.given⟩

end Rebinds

/-! ## Beginning -/

theorem changes_rescope {top : ScopeId} {id : BlockId} (ha : a.WellFormed) (htop : a.IsTop top)
    (hid : a.Has top id) (hP : P top) :
    Arena.Changes P a ((a.newChild top).2.rescope id (a.newChild top).1) := by
  have hnew : Arena.Changes P a (a.newChild top).2 := .single (.newChild top htop.1)
  have hroot := (Arena.root_newChild ha htop.1).trans htop.root_eq
  exact hnew.trans (Arena.changes_rescopeUpTo _ (hnew.wellFormed ha) (hid.changes ha hnew) (by simp) hroot hP)

/-- The beginning of a run prepares its own module. -/
theorem start_changes (s : Session) (module : ModuleInstance) {root : ScopeId} (inputs : Entries Value)
    (visited : List VisitedModule) (ha : a.WellFormed) (htop : a.IsTop root)
    (hblocks : ∀ id ∈ module.blocks, a.Has root id) (hP : P root) :
    Arena.Changes P a (start s a module root inputs visited).arena := by
  have hbinds := Arena.Changes.foldl (P := P) (a := a)
    (f := fun b (w : ValuePath × Value) => b.bind root w.2 w.1)
    fun b hb w (_ : w ∈ surroundings s module.path) => Arena.Changes.bindTop (htop.changes hb) hP w.2 w.1
  refine hbinds.trans (Arena.Changes.foldl fun b hb id hid => ?_)
  have hab := hbinds.trans hb
  exact changes_rescope (hab.wellFormed ha) (htop.changes hab) ((hblocks id hid).changes ha hab) hP

theorem start_sound (s : Session) (module : ModuleInstance) {root : ScopeId} (inputs : Entries Value)
    (visited : List VisitedModule) (ha : a.WellFormed) (htop : a.IsTop root)
    (hblocks : ∀ id ∈ module.blocks, a.Has root id) : (start s a module root inputs visited).Sound := by
  have hc := start_changes (P := fun t => t = root) s module inputs visited ha htop hblocks rfl
  refine ⟨hc.wellFormed ha, htop.changes hc, fun id hid => (hblocks id hid).changes ha hc, ?_, List.nodup_nil⟩
  exact fun call hcall => absurd hcall List.not_mem_nil

/-! ## Calls -/

/-- An evaluation that changes the module it is started for, and new ones. -/
def Contained (run : Evaluate) : Prop :=
  ∀ r modules done, r.Sound → r.calls = [] → run r = .ok (modules, done) →
    Arena.Changes (fun t => t = r.root ∨ r.arena.scopes.size ≤ t) r.arena done.arena ∧ done.root = r.root

/-- A call that is the same, or has been evaluated in between. -/
def Later (call later : ModuleCall) : Prop :=
  later = call ∨ call.result = none ∧ ∃ result, later = { call with result := some result }

theorem Later.root {call later : ModuleCall} (h : Later call later) : later.root = call.root := by
  rcases h with rfl | ⟨-, result, rfl⟩ <;> rfl

theorem Later.result_eq_none {call later : ModuleCall} (h : Later call later) (hnone : later.result = none) :
    call.result = none := by
  rcases h with rfl | ⟨hopen, -⟩
  · exact hnone
  · exact hopen

theorem Later.callIn {root : ScopeId} {call later : ModuleCall} (h : Later call later)
    (hin : CallIn a root call) : CallIn a root later := by
  rcases h with rfl | ⟨-, result, rfl⟩
  · exact hin
  · exact ⟨hin.top, hin.apart, hin.blocks, hin.caller⟩

variable {s : Session} {run : Evaluate} {force : Bool}

/-- The modules that are changed when calls are evaluated: those of the open calls, and new ones. -/
def Reaches (r : ModuleRun) (calls : List ModuleCall) (t : ScopeId) : Prop :=
  (∃ call ∈ calls, call.result = none ∧ t = call.root) ∨ r.arena.scopes.size ≤ t

/-- Evaluating a call changes the module of the call and new ones, and nothing else of the run. -/
theorem evaluateCall_changes (hrun : Contained run) (hs : r.Sound) {call later : ModuleCall}
    (hcall : call ∈ r.calls) (h : r.evaluateCall s run force call = .ok (later, next)) :
    Arena.Changes (Reaches r [call]) r.arena next.arena
      ∧ Later call later ∧ ∃ visited, next = { r with arena := next.arena, visited } := by
  have hnoted (reads : List (Block × List Attribute)) := changes_noting (P := Reaches r [call]) r reads
  obtain ⟨-, rfl, rfl⟩ | ⟨-, -, rfl, reads, rfl⟩ | ⟨modules, child, hnone, hchild, rfl, rfl⟩ :=
    evaluateCall_cases h
  · exact ⟨.refl, .inl rfl, _, rfl⟩
  · exact ⟨hnoted reads, .inl rfl, _, rfl⟩
  · let b := r.arena.block call.block
    let reads := [(b, inputAttributes b)]
    have hown : Reaches r [call] call.root := .inl ⟨call, List.mem_singleton_self call, hnone, rfl⟩
    have hin := (hs.calls call hcall).changes hs.well (hnoted reads)
    have hwell := (hnoted reads).wellFormed hs.well
    let module : ModuleInstance := ⟨s.root, call.path, call.blocks, some call.block⟩
    have hstart := start_changes (P := Reaches r [call]) s module (moduleInputs r.arena b)
      (r.visited ++ [⟨call.name, call.path, b.localName⟩]) hwell hin.top hin.blocks hown
    obtain ⟨hmade, -⟩ := hrun _ _ _ (start_sound s _ _ _ hwell hin.top hin.blocks) rfl hchild
    refine ⟨((hnoted reads).trans hstart).trans (hmade.mono ?_), .inr ⟨hnone, _, rfl⟩, _, rfl⟩
    rintro t (rfl | ht)
    · exact hown
    · exact .inr (Nat.le_trans (Nat.le_trans (hnoted reads).size_scopes_le hstart.size_scopes_le) ht)

theorem Sound.withVisited (h : r.Sound) (visited : List VisitedModule) : Sound { r with visited } :=
  ⟨h.well, h.top, h.blocks, h.calls, h.distinct⟩

/-- Evaluating calls one after another changes their modules and new ones. -/
theorem evaluateEach_changes (hrun : Contained run) (hs : r.Sound) {calls done : List ModuleCall}
    (hcalls : calls ⊆ r.calls) (h : r.evaluateEach s run force calls = .ok (done, next)) :
    Arena.Changes (Reaches r calls) r.arena next.arena
      ∧ List.Forall₂ Later calls done ∧ ∃ visited, next = { r with arena := next.arena, visited } := by
  induction calls generalizing r done with
  | nil =>
    obtain ⟨rfl, rfl⟩ := Prod.mk.inj (Except.ok.inj h)
    exact ⟨.refl, .nil, _, rfl⟩
  | cons call calls ih =>
    obtain ⟨later, mid, others, hcall, hrest, rfl⟩ := evaluateEach_cons_eq_ok_iff.mp h
    obtain ⟨hfirst, hlater, visited, hmid⟩ := evaluateCall_changes hrun hs (hcalls List.mem_cons_self) hcall
    have hsame : mid.calls = r.calls := by rw [hmid]
    have hsound : mid.Sound := by
      have := (Advances.ofChanges hs (.all r) (hfirst.mono fun _ _ => trivial)).sound
      rw [hmid]
      exact this.withVisited visited
    obtain ⟨hmore, hothers, visited', hfinal⟩ :=
      ih hsound (hsame ▸ (List.cons_subset.mp hcalls).2) hrest
    refine ⟨(hfirst.mono ?_).trans (hmore.mono ?_), .cons hlater hothers, visited', ?_⟩
    · rintro t (⟨c, hc, hnone, rfl⟩ | ht)
      · exact .inl ⟨c, List.mem_singleton.mp hc ▸ List.mem_cons_self, hnone, rfl⟩
      · exact .inr ht
    · rintro t (⟨c, hc, hnone, rfl⟩ | ht)
      · exact .inl ⟨c, List.mem_cons_of_mem call hc, hnone, rfl⟩
      · exact .inr (Nat.le_trans hfirst.size_scopes_le ht)
    · rw [hfinal, hmid]

theorem Sound.evaluateEach (hs : r.Sound) (hrun : Contained run) {calls done : List ModuleCall}
    (hcalls : calls ⊆ r.calls) (h : r.evaluateEach s run force calls = .ok (done, next)) :
    next.Sound ∧ next.calls = r.calls ∧ next.root = r.root := by
  obtain ⟨hchanges, -, visited, hmid⟩ := evaluateEach_changes hrun hs hcalls h
  rw [hmid]
  have hall := hchanges.mono (Q := fun _ => True) fun _ _ => trivial
  exact ⟨(Advances.ofChanges hs (.all r) hall).sound.withVisited visited, rfl, rfl⟩

/-- The other calls of a run have other modules. -/
theorem Sound.roots_of_split (hs : r.Sound) {before after : List ModuleCall} {call : ModuleCall}
    (h : r.calls = before ++ call :: after) :
    (∀ other ∈ before, other.root ≠ call.root) ∧ ∀ other ∈ after, other.root ≠ call.root := by
  have hnodup := hs.distinct
  rw [h, List.map_append, List.map_cons, List.nodup_append, List.nodup_cons] at hnodup
  constructor
  · intro other hother
    exact hnodup.2.2 _ (List.mem_map.mpr ⟨other, hother, rfl⟩) _ List.mem_cons_self
  · intro other hother heq
    exact hnodup.2.1.1 (List.mem_map.mpr ⟨other, hother, heq⟩)

/-- Evaluating other calls leaves the module of a call alone. -/
theorem Sound.evaluateEach_others (hs : r.Sound) (hrun : Contained run) {calls done : List ModuleCall}
    {call : ModuleCall} (hcalls : calls ⊆ r.calls) (hcall : call ∈ r.calls)
    (hne : ∀ other ∈ calls, other.root ≠ call.root)
    (h : r.evaluateEach s run force calls = .ok (done, next)) :
    Arena.Changes (fun t => t ≠ call.root) r.arena next.arena := by
  refine (evaluateEach_changes hrun hs hcalls h).1.mono ?_
  rintro t (⟨other, hother, -, rfl⟩ | ht)
  · exact hne other hother
  · exact (Nat.ne_of_lt (Nat.lt_of_lt_of_le (hs.calls call hcall).top.1 ht)).symm

theorem roots_of_later {calls done : List ModuleCall} (h : List.Forall₂ Later calls done) :
    done.map ModuleCall.root = calls.map ModuleCall.root := by
  induction h with
  | nil => rfl
  | cons hlater _ ih => rw [List.map_cons, List.map_cons, hlater.root, ih]

theorem exists_of_mem_later {calls done : List ModuleCall} (h : List.Forall₂ Later calls done)
    {later : ModuleCall} (hmem : later ∈ done) : ∃ call ∈ calls, Later call later := by
  induction h with
  | nil => cases hmem
  | cons hlater _ ih =>
    rcases List.mem_cons.mp hmem with rfl | hmem
    · exact ⟨_, List.mem_cons_self, hlater⟩
    · obtain ⟨call, hcall, h⟩ := ih hmem
      exact ⟨call, List.mem_cons_of_mem _ hcall, h⟩

/-- A run whose calls have been evaluated as far as they could. -/
theorem evaluateCalls_spec (hrun : Contained run) (hs : r.Sound)
    (h : r.evaluateCalls s run force = .ok next) :
    ∃ mid : ModuleRun, ∃ calls, r.evaluateEach s run force r.calls = .ok (calls, mid)
      ∧ next = { mid with calls }.bindOutputsOfCalls
      ∧ Arena.Changes (Reaches r r.calls) r.arena mid.arena
      ∧ List.Forall₂ Later r.calls calls ∧ ∃ visited, mid = { r with arena := mid.arena, visited } := by
  obtain ⟨calls, mid, heach, hnext⟩ := evaluateCalls_eq_ok_iff.mp h
  obtain ⟨hchanges, hlater, hmid⟩ := evaluateEach_changes hrun hs (List.Subset.refl _) heach
  exact ⟨mid, calls, heach, hnext, hchanges, hlater, hmid⟩

theorem evaluateCalls_advances (hrun : Contained run) (hs : r.Sound) (hP : Covers P r)
    (h : r.evaluateCalls s run force = .ok next) : Advances P r next := by
  obtain ⟨mid, calls, -, rfl, hchanges, hlater, visited, hmid⟩ := evaluateCalls_spec hrun hs h
  have hc : Arena.Changes P r.arena mid.arena := by
    refine hchanges.mono ?_
    rintro t (⟨call, hcall, hnone, rfl⟩ | ht)
    · exact hP.calls call hcall hnone
    · exact hP.new t ht
  have ha := Advances.ofChanges hs hP hc
  have hnext : Advances P r { mid with calls } := by
    rw [hmid]
    refine ⟨hc, ⟨ha.sound.well, ha.sound.top, ha.sound.blocks, fun later hmem => ?_, ?_⟩,
      ⟨hP.own, fun later hmem hnone => ?_, ha.covers.new⟩, rfl, rfl⟩
    · obtain ⟨call, hcall, h⟩ := exists_of_mem_later hlater hmem
      exact h.callIn (ha.sound.calls call hcall)
    · exact roots_of_later hlater ▸ hs.distinct
    · obtain ⟨call, hcall, h⟩ := exists_of_mem_later hlater hmem
      exact h.root ▸ hP.calls call hcall (h.result_eq_none hnone)
  exact hnext.trans ((Rebinds.bindOutputsOfCalls _).advances hnext.sound hnext.covers)

/-! ## Passes -/

theorem base_readFiles (l : Loader) (a : Arena) (paths : List String) :
    (a.readFiles l paths).files.base = a.files.base := by
  have hfold (t : FileTable) :
      (paths.foldl (fun t path => t.insert path (l.load path).toOption) t).base = t.base := by
    induction paths generalizing t with
    | nil => rfl
    | cons path paths ih => exact ih _
  exact hfold a.files

theorem readWanted_advances (s : Session) (hs : r.Sound) (hP : Covers P r) :
    Advances P r (r.readWanted s).2 :=
  Advances.ofChanges hs hP (.single (.record _ _ (base_readFiles s.loader _ _)))

theorem pass_advances (hrun : Contained run) (hs : r.Sound) (hP : Covers P r)
    (h : r.pass s run = .ok next) : Advances P r next := by
  have hbind := (Rebinds.bindBlocks r).advances hs hP
  exact hbind.trans (evaluateCalls_advances hrun hbind.sound hbind.covers h)

theorem converge_advances (hrun : Contained run) {n : Nat} {previous : Option (Entries Value)}
    (hs : r.Sound) (hP : Covers P r) (h : converge s run n previous r = .ok next) : Advances P r next := by
  refine converge_invariant (fun q passed hq hpass => ?_) (.refl hs hP) h
  have hpassed := hq.trans (pass_advances hrun hq.sound hq.covers hpass)
  exact hpassed.trans (readWanted_advances s hpassed.sound hpassed.covers)

theorem settle_advances (hrun : Contained run) (hs : r.Sound) (hP : Covers P r)
    (h : r.settle s run = .ok next) : Advances P r next :=
  converge_advances hrun hs hP h

/-! ## Loading and expanding -/

theorem expand_advances (hs : r.Sound) (hP : Covers P r) {keep ids : List BlockId}
    (hkeep : keep ⊆ r.module.blocks) (hids : ids ⊆ r.module.blocks) :
    Advances P r (r.expand keep ids).2 ∧ ∀ id ∈ (r.expand keep ids).1,
      (r.expand keep ids).2.arena.Has r.root id := by
  obtain ⟨hcounts, hcounted⟩ := (hs.site hP.own).expandCounts fun id hid => hs.blocks id (hids hid)
  obtain ⟨hforEach, hmade⟩ := ((hs.site hP.own).changes hcounts).expandForEach hcounted
  have hc := hcounts.trans hforEach
  have ha := Advances.ofChanges hs hP hc
  refine ⟨⟨hc, ⟨ha.sound.well, ha.sound.top, fun id hid => ?_, ha.sound.calls, hs.distinct⟩,
    ⟨hP.own, hP.calls, ha.covers.new⟩, rfl, rfl⟩, hmade⟩
  rcases List.mem_append.mp hid with hid | hid
  · exact (hs.blocks id (hkeep hid)).changes hs.well hc
  · exact hmade id hid

theorem dynamics_changes (hs : r.Sound) (hP : Covers P r) :
    Arena.Changes P (r.expand [] r.module.blocks).2.arena r.expandBlocks.arena := by
  obtain ⟨hexpand, hmade⟩ := expand_advances hs hP (List.nil_subset _) (List.Subset.refl r.module.blocks)
  have hsite := hexpand.sound.site hexpand.covers.own
  refine Arena.Changes.foldl fun b hb id hid => ?_
  exact (hsite.changes hb).expandDynamicUpTo _ ((hmade id hid).changes hsite.well hb)

theorem expandBlocks_advances (hs : r.Sound) (hP : Covers P r) : Advances P r r.expandBlocks := by
  obtain ⟨hexpand, -⟩ := expand_advances hs hP (List.nil_subset _) (List.Subset.refl r.module.blocks)
  exact hexpand.trans (Advances.ofChanges hexpand.sound hexpand.covers (dynamics_changes hs hP))

theorem opens_advances (hs : r.Sound) (hP : Covers P r) {id : BlockId} (hid : r.arena.Has r.root id)
    {reads : List (Block × List Attribute)} {target : VisitedModule} {files : List SourceFile} :
    Advances P r ((r.noting reads).opens id target files) := by
  have hfirst := (Rebinds.noting r reads).advances hs hP
  have hidIn := hid.changes hs.well hfirst.changes
  let q := r.noting reads
  have hnew : Arena.Changes P q.arena q.arena.newRoot.2 := .single .newRoot
  have hwell := hnew.wellFormed hfirst.sound.well
  have htop : q.arena.newRoot.2.IsTop q.arena.scopes.size := by
    refine ⟨by simp, ?_⟩
    rw [Arena.scopes_newRoot, Scopes.parent?_push, if_pos rfl]
  have hown : P q.arena.scopes.size := hfirst.covers.new _ (Nat.le_refl _)
  obtain ⟨hinsert, hblocks⟩ := Arena.changes_insertFiles (P := P) (some id) files hwell htop.1
    (htop.root_eq.symm ▸ hown)
  have hc := hnew.trans hinsert
  have hnext := Advances.ofChanges hfirst.sound hfirst.covers hc
  refine hfirst.trans ⟨hc, ⟨hnext.sound.well, hnext.sound.top, hnext.sound.blocks, ?_, ?_⟩,
    ⟨hnext.covers.own, ?_, hnext.covers.new⟩, rfl, rfl⟩
  · intro call hcall
    rcases List.mem_append.mp hcall with hcall | hcall
    · exact hnext.sound.calls call hcall
    · rw [List.mem_singleton.mp hcall]
      refine ⟨htop.changes hinsert, ?_, fun j hj => ?_, ?_⟩
      · exact (Nat.ne_of_lt hfirst.sound.top.1).symm
      · have hin := hblocks j hj
        rwa [htop.root_eq] at hin
      · have hin : q.arena.Has q.root id := hfirst.root.symm ▸ hidIn
        exact hin.changes hfirst.sound.well hc
  · rw [opens, List.map_append, List.nodup_append]
    refine ⟨hfirst.sound.distinct, List.nodup_singleton _, fun t ht u hu => ?_⟩
    obtain ⟨call, hcall, rfl⟩ := List.mem_map.mp ht
    rw [List.mem_singleton.mp hu]
    exact Nat.ne_of_lt (hfirst.sound.calls call hcall).top.1
  · intro call hcall hnone
    rcases List.mem_append.mp hcall with hcall | hcall
    · exact hfirst.covers.calls call hcall hnone
    · rw [List.mem_singleton.mp hcall]
      exact hown

theorem loadCall_advances (hs : r.Sound) (hP : Covers P r) {id : BlockId} (hid : r.arena.Has r.root id)
    (h : r.loadCall s id = .ok next) : Advances P r next := by
  obtain ⟨reads, ⟨-, rfl⟩ | ⟨target, files, -, rfl⟩⟩ := loadCall_cases h
  · exact (Rebinds.noting r reads).advances hs hP
  · exact opens_advances hs hP hid

theorem loadCalls_advances (hs : r.Sound) (hP : Covers P r) {ids : List BlockId}
    (hids : ∀ id ∈ ids, r.arena.Has r.root id) (h : r.loadCalls s ids = .ok next) : Advances P r next := by
  induction ids generalizing r with
  | nil =>
    obtain rfl := Except.ok.inj h
    exact .refl hs hP
  | cons id ids ih =>
    obtain ⟨mid, hcall, hrest⟩ := loadCalls_cons_eq_ok_iff.mp h
    have hmid := loadCall_advances hs hP (hids id List.mem_cons_self) hcall
    refine hmid.trans (ih hmid.sound hmid.covers (fun j hj => ?_) hrest)
    exact hmid.root.symm ▸ (hids j (List.mem_cons_of_mem id hj)).changes hs.well hmid.changes

theorem loadModules_advances (hs : r.Sound) (hP : Covers P r) (h : r.loadModules s = .ok next) :
    Advances P r next := by
  rw [loadModules, List.partition_eq_filter_filter] at h
  have hsub (p : BlockId → Bool) : r.module.blocks.filter p ⊆ r.module.blocks :=
    fun id hid => (List.mem_filter.mp hid).1
  obtain ⟨hexpand, hmade⟩ := expand_advances hs hP
    (hsub (not ∘ fun id => (r.arena.block id).kind == .module))
    (hsub fun id => (r.arena.block id).kind == .module)
  exact hexpand.trans (loadCalls_advances hexpand.sound hexpand.covers hmade h)

theorem forceCalls_advances (hrun : Contained run) (hs : r.Sound) (hP : Covers P r)
    (h : r.forceCalls s run = .ok next) : Advances P r next := by
  rw [forceCalls] at h
  split at h
  · obtain ⟨mid, hmid, hsettle⟩ := bind_eq_ok_iff.mp h
    have hcalls := evaluateCalls_advances hrun hs hP hmid
    exact hcalls.trans (settle_advances hrun hcalls.sound hcalls.covers hsettle)
  · obtain rfl := Except.ok.inj h
    exact .refl hs hP

/-! ## Whole evaluations -/

theorem evaluateWith_advances (hrun : Contained run) (hs : r.Sound) (hP : Covers P r)
    {modules : List ModuleInstance} (h : evaluateWith s run r = .ok (modules, next)) :
    Advances P r next := by
  obtain ⟨settled, loaded, resettled, expanded, h1, h2, h3, h4, h5, -⟩ := evaluateWith_eq_ok_iff.mp h
  have a1 := settle_advances hrun hs hP h1
  have a2 := a1.trans (loadModules_advances a1.sound a1.covers h2)
  have a3 := a2.trans (settle_advances hrun a2.sound a2.covers h3)
  have a4 := a3.trans (expandBlocks_advances a3.sound a3.covers)
  have a5 := a4.trans (settle_advances hrun a4.sound a4.covers h4)
  exact a5.trans (forceCalls_advances hrun a5.sound a5.covers h5)

/-- Evaluating a module changes that module and new ones, however deeply its calls are nested. -/
theorem contained_evaluateUpTo (s : Session) (depth : Nat) : Contained (evaluateUpTo s depth) := by
  induction depth with
  | zero =>
    intro r modules done _ _ h
    cases h
  | succ depth ih =>
    intro r modules done hs hcalls h
    have hP : Covers (fun t => t = r.root ∨ r.arena.scopes.size ≤ t) r :=
      ⟨.inl rfl, fun call hcall => absurd (hcalls ▸ hcall) List.not_mem_nil, fun _ ht => .inr ht⟩
    have ha := evaluateWith_advances ih hs hP h
    exact ⟨ha.changes, ha.root⟩

/-! ## Reachable states -/

/-- An open call that is reached in the course of evaluating the calls of a run, with the state then and the
inputs that it is started with. -/
structure Starts (s : Session) (run : Evaluate) (force : Bool) (r mid : ModuleRun) (call : ModuleCall) :
    Prop where
  reached : ∃ before after done, r.calls = before ++ call :: after ∧
    r.evaluateEach s run force before = .ok (done, mid)
  isOpen : call.result = none
  due : force = true ∨ (Value.object (moduleInputs mid.arena (mid.arena.block call.block))).isWhollyKnown = true

/-- The states of an evaluator whose calls are nested to at most a depth. -/
inductive Reached (s : Session) : Nat → ModuleRun → Prop where
  | root (inputs files) : Reached s 999 (Project.rootRun s inputs files)
  | bind {d r} (h : Reached s d r) : Reached s d r.bindBlocks
  | calls {d r next} (h : Reached s d r) (force : Bool)
      (hcalls : r.evaluateCalls s (evaluateUpTo s d) force = .ok next) : Reached s d next
  | read {d r} (h : Reached s d r) : Reached s d (r.readWanted s).2
  | load {d r next} (h : Reached s d r) (hload : r.loadModules s = .ok next) : Reached s d next
  | expand {d r} (h : Reached s d r) : Reached s d r.expandBlocks
  | child {d r mid call} (h : Reached s (d + 1) r) (force : Bool)
      (hstarts : Starts s (evaluateUpTo s (d + 1)) force r mid call) : Reached s d (mid.started s call)

variable {d : Nat}

theorem Reached.pass (h : Reached s d r) (hpass : r.pass s (evaluateUpTo s d) = .ok next) :
    Reached s d next :=
  h.bind.calls false hpass

theorem wellFormed_empty (base : String) : (Arena.empty base).newRoot.2.WellFormed := by
  refine ⟨fun id p hp => ?_, fun id hid => ?_, fun id hid => ?_⟩
  · rw [Arena.scopes_newRoot, Scopes.parent?_push] at hp
    split at hp
    · cases hp
    · exact absurd (Scopes.lt_size_of_parent? hp) (Nat.not_lt_zero id)
  · exact absurd hid (Nat.not_lt_zero id)
  · exact absurd hid (Nat.not_lt_zero id)

theorem rootRun_sound (s : Session) (inputs : Entries Value) (files : List SourceFile) :
    (Project.rootRun s inputs files).Sound := by
  have hempty := wellFormed_empty s.root
  have htop : (Arena.empty s.root).newRoot.2.IsTop 0 := ⟨Nat.one_pos, rfl⟩
  obtain ⟨hinsert, hblocks⟩ := Arena.changes_insertFiles (P := fun _ => True) none files hempty htop.1 trivial
  refine start_sound s _ inputs [] (hinsert.wellFormed hempty) (htop.changes hinsert) fun id hid => ?_
  have hin := hblocks id hid
  rwa [htop.root_eq] at hin

theorem Sound.started (hrun : Contained run) (hs : r.Sound) {force : Bool} {mid : ModuleRun}
    {call : ModuleCall} (h : Starts s run force r mid call) : (mid.started s call).Sound := by
  obtain ⟨before, after, done, hcalls, heach⟩ := h.reached
  have hsub : before ⊆ r.calls := hcalls ▸ List.subset_append_left _ _
  have hmem : call ∈ r.calls := hcalls ▸ List.mem_append_right _ List.mem_cons_self
  obtain ⟨hchanges, -, -⟩ := evaluateEach_changes hrun hs hsub heach
  let b := mid.arena.block call.block
  let noted := mid.noting [(b, inputAttributes b)]
  have hnoted : Arena.Changes (fun _ => True) mid.arena noted.arena := .single (.record _ _ rfl)
  have hall := (hchanges.mono fun _ _ => trivial).trans hnoted
  have hin := (hs.calls call hmem).changes hs.well hall
  exact start_sound s _ _ _ (hall.wellFormed hs.well) hin.top hin.blocks

/-- In every state that an evaluator comes to, what it names is its own. -/
theorem Reached.sound (h : Reached s d r) : r.Sound := by
  induction h with
  | root inputs files => exact rootRun_sound s inputs files
  | bind _ ih => exact ((Rebinds.bindBlocks _).advances ih (.all _)).sound
  | calls _ force hcalls ih =>
    exact (evaluateCalls_advances (contained_evaluateUpTo s _) ih (.all _) hcalls).sound
  | read _ ih => exact (readWanted_advances s ih (.all _)).sound
  | load _ hload ih => exact (loadModules_advances ih (.all _) hload).sound
  | expand _ ih => exact (expandBlocks_advances ih (.all _)).sound
  | child _ force hstarts ih => exact ih.started (contained_evaluateUpTo s _) hstarts

end ModuleRun

end InfraConfig
