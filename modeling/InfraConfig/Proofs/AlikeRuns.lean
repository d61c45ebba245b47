import InfraConfig.Proofs.RunChanges
import InfraConfig.Proofs.Views
import InfraConfig.Proofs.Writes

/-!
# Alike runs

What a pass writes depends on the bindings it finds, on the blocks of the module and on the files that have been
read. Runs that have these in common bind the same values, and leave the same calls open.
-/

namespace InfraConfig

namespace Arena

variable {top : ScopeId} {a b : Arena}

/-- The same write in both arenas. -/
theorem SameView.bind (h : SameView top a b) (ha : top < a.scopes.size) (hb : top < b.scopes.size)
    (htop : a.scopes.root top = top) (v : Value) (path : ValuePath) :
    SameView top (a.bind top v path) (b.bind top v path) := by
  refine ⟨fun id hid hroot => ?_, fun id hid hroot => ?_, fun id hid hhome => ?_, h.base, h.contents⟩
  · rw [Arena.bind, Scopes.size_set] at hid
    rw [Arena.bind, Scopes.root_set] at hroot
    rw [Arena.bind, Arena.bind, Scopes.parent?_set, Scopes.parent?_set]
    exact h.parents id hid hroot
  · rw [Arena.bind, Scopes.size_set] at hid
    rw [Arena.bind, Scopes.root_set] at hroot
    by_cases hself : id = top
    · subst hself
      rw [Arena.bind, Arena.bind, Scopes.bindings_set_self _ ha, Scopes.bindings_set_self _ hb,
        h.bindings id ha htop]
    · rw [Arena.bind, Arena.bind, Scopes.bindings_set_of_ne _ hself, Scopes.bindings_set_of_ne _ hself]
      exact h.bindings id hid hroot
  · rw [Arena.home, Arena.bind, Scopes.root_set] at hhome
    exact h.blocks id hid hhome

end Arena

namespace ModuleRun

/-- Two runs of one module that find the same in their scopes and files. -/
structure Alike (p q : ModuleRun) : Prop where
  left : p.Sound
  right : q.Sound
  view : Arena.SameView p.root p.arena q.arena
  module : q.module = p.module
  root : q.root = p.root
  given : q.inputs = p.inputs

variable {p q : ModuleRun}

theorem Sound.root_lt {r : ModuleRun} (h : r.Sound) : r.root < r.arena.scopes.size := h.top.1

theorem Rebinds.sound {r next : ModuleRun} (h : Rebinds r next) (hs : r.Sound) : next.Sound :=
  (h.advances hs (.all r)).sound

theorem exists_of_mem_blocksOf (r : ModuleRun) {kind : BlockKind} {b : Block} (h : b ∈ r.blocksOf kind) :
    ∃ id ∈ r.module.blocks, r.arena.block id = b :=
  List.mem_map.mp (List.mem_filter.mp h).1

namespace Alike

theorem bindings (h : Alike p q) : q.bindings = p.bindings := by
  rw [ModuleRun.bindings, ModuleRun.bindings, h.root]
  exact h.view.bindings p.root h.left.root_lt h.left.top.root_eq

theorem bind (h : Alike p q) (v : Value) (path : ValuePath) : Alike (p.bind v path) (q.bind v path) := by
  refine ⟨(Rebinds.bind p v path).sound h.left, (Rebinds.bind q v path).sound h.right, ?_, h.module, h.root,
    h.given⟩
  have hq : p.root < q.arena.scopes.size := h.root ▸ h.right.root_lt
  rw [ModuleRun.bind, ModuleRun.bind, h.root]
  exact h.view.bind h.left.root_lt hq h.left.top.root_eq v path

theorem noting (h : Alike p q) (reads more : List (Block × List Attribute)) :
    Alike (p.noting reads) (q.noting more) := by
  have hleft := (Rebinds.noting p reads).sound h.left
  have hright := (Rebinds.noting q more).sound h.right
  obtain ⟨wanted, hp⟩ := exists_noting_eq p reads
  obtain ⟨wanted', hq⟩ := exists_noting_eq q more
  rw [hp] at hleft ⊢
  rw [hq] at hright ⊢
  have hview := h.view
  exact ⟨hleft, hright, ⟨hview.parents, hview.bindings, hview.blocks, hview.base, hview.contents⟩, h.module,
    h.root, h.given⟩

theorem missing (h : Alike p q) (missing missing' : List String) :
    Alike { p with missing } { q with missing := missing' } :=
  ⟨(Rebinds.missing p missing).sound h.left, (Rebinds.missing q missing').sound h.right, h.view, h.module,
    h.root, h.given⟩

theorem block (h : Alike p q) {id : BlockId} (hid : p.arena.Has p.root id) :
    q.arena.block id = p.arena.block id :=
  h.view.blocks id hid.1 hid.2

theorem blocksOf (h : Alike p q) (kind : BlockKind) : q.blocksOf kind = p.blocksOf kind := by
  have hblocks : q.module.blocksIn q.arena = p.module.blocksIn p.arena := by
    rw [h.module]
    apply List.map_congr_left
    intro id hid
    exact h.block (h.left.blocks id hid)
  rw [ModuleRun.blocksOf, ModuleRun.blocksOf, hblocks]

theorem resolve (h : Alike p q) {kind : BlockKind} {b : Block} (hb : b ∈ p.blocksOf kind) (attr : Attribute) :
    q.arena.resolve b attr = p.arena.resolve b attr := by
  obtain ⟨id, hid, rfl⟩ := p.exists_of_mem_blocksOf hb
  have hin := h.left.blocks id hid
  exact h.view.resolve h.left.well h.right.well hin.1 hin.2 attr

theorem value (h : Alike p q) {kind : BlockKind} {b : Block} (hb : b ∈ p.blocksOf kind) (attr : Attribute) :
    q.arena.value b attr = p.arena.value b attr := by
  obtain ⟨id, hid, rfl⟩ := p.exists_of_mem_blocksOf hb
  have hin := h.left.blocks id hid
  exact h.view.value h.left.well h.right.well hin.1 hin.2 attr

theorem values (h : Alike p q) {kind : BlockKind} {b : Block} (hb : b ∈ p.blocksOf kind) :
    q.arena.values b = p.arena.values b := by
  rw [Arena.values, Arena.values]
  simp only [h.resolve hb]

/-! ## Binding in two alike runs -/

theorem bindVariables (h : Alike p q) : Alike p.bindVariables q.bindVariables := by
  have hvalues : (p.blocksOf .variable).map (fun b => (b.typeLabel, q.variableValue b))
      = (p.blocksOf .variable).map fun b => (b.typeLabel, p.variableValue b) := by
    apply List.map_congr_left
    intro b hb
    rw [variableValue, variableValue, h.given]
    simp only [h.resolve hb]
  rw [ModuleRun.bindVariables, ModuleRun.bindVariables]
  rw [h.blocksOf, hvalues]
  exact ((h.noting _ _).missing _ _).bind _ _

theorem bindLocals (h : Alike p q) : Alike p.bindLocals q.bindLocals := by
  have hvalues : (p.blocksOf .locals).flatMap
        (fun b => b.attributes.map fun attr => (attr.name, q.arena.resolve b attr))
      = (p.blocksOf .locals).flatMap
        fun b => b.attributes.map fun attr => (attr.name, p.arena.resolve b attr) := by
    apply List.flatMap_congr
    intro b hb
    simp only [h.resolve hb]
  rw [ModuleRun.bindLocals, ModuleRun.bindLocals]
  rw [h.blocksOf, hvalues]
  exact (h.noting _ _).bind _ _

theorem bindProviders (h : Alike p q) : Alike p.bindProviders q.bindProviders := by
  have hfold (blocks : List Block) (hblocks : blocks ⊆ p.blocksOf .provider) (acc : Entries (Entries Value)) :
      blocks.foldl (addProvider q.arena) acc = blocks.foldl (addProvider p.arena) acc := by
    induction blocks generalizing acc with
    | nil => rfl
    | cons b blocks ih =>
      obtain ⟨hb, hrest⟩ := List.cons_subset.mp hblocks
      have hfirst : addProvider q.arena acc b = addProvider p.arena acc b := by
        rw [addProvider, addProvider]
        simp only [h.value hb, h.values hb]
      rw [List.foldl_cons, List.foldl_cons, hfirst, ih hrest]
  rw [ModuleRun.bindProviders, ModuleRun.bindProviders]
  dsimp only
  rw [h.blocksOf, hfold _ (List.Subset.refl _)]
  exact (h.noting _ _).bind _ _

theorem bindOutputs (h : Alike p q) : Alike p.bindOutputs q.bindOutputs := by
  have hvalues : (p.blocksOf .output).map (fun b => (b.typeLabel, outputValue q.arena b))
      = (p.blocksOf .output).map fun b => (b.typeLabel, outputValue p.arena b) := by
    apply List.map_congr_left
    intro b hb
    rw [outputValue, outputValue]
    simp only [h.resolve hb]
  rw [ModuleRun.bindOutputs, ModuleRun.bindOutputs]
  rw [h.blocksOf, hvalues]
  exact (h.noting _ _).bind _ _

theorem bindInstances (h : Alike p q) (kind : BlockKind) (above : ValuePath) :
    Alike (p.bindInstances kind above) (q.bindInstances kind above) := by
  have hvalues : ((p.blocksOf kind).filter fun b => 2 ≤ b.labels.length).map
        (fun b => (b.typeLabel, b.nameLabel, q.arena.values b))
      = ((p.blocksOf kind).filter fun b => 2 ≤ b.labels.length).map
        fun b => (b.typeLabel, b.nameLabel, p.arena.values b) := by
    apply List.map_congr_left
    intro b hb
    rw [h.values (List.mem_filter.mp hb).1]
  have hfold (groups : List (String × Instances)) {p q : ModuleRun} (h : Alike p q) :
      Alike (groups.foldl (fun r group => r.bind group.2.toValue (above ++ [group.1])) p)
        (groups.foldl (fun r group => r.bind group.2.toValue (above ++ [group.1])) q) := by
    induction groups generalizing p q with
    | nil => exact h
    | cons g groups ih => exact ih (h.bind _ _)
  rw [ModuleRun.bindInstances, ModuleRun.bindInstances]
  dsimp only
  rw [h.blocksOf, hvalues]
  exact hfold _ (h.noting _ _)

theorem bindBlocks (h : Alike p q) : Alike p.bindBlocks q.bindBlocks :=
  ((((h.bindVariables.bindLocals).bindProviders).bindInstances _ _).bindInstances _ _).bindOutputs

/-- The inputs of a call are the same on both sides. -/
theorem moduleInputs (h : Alike p q) {id : BlockId} (hid : p.arena.Has p.root id) :
    moduleInputs q.arena (q.arena.block id) = moduleInputs p.arena (p.arena.block id) := by
  rw [h.block hid, InfraConfig.moduleInputs, InfraConfig.moduleInputs]
  simp only [h.view.resolve h.left.well h.right.well hid.1 hid.2]

end Alike

/-! ## Open calls -/

variable {s : Session} {run : Evaluate} {force : Bool} {r mid next : ModuleRun} {call later : ModuleCall}
  {calls done : List ModuleCall}

theorem isWhollyKnown_of_open (h : r.evaluateCall s run false call = .ok (later, next))
    (hopen : later.result = none) :
    later = call ∧ (Value.object (moduleInputs r.arena (r.arena.block call.block))).isWhollyKnown = false := by
  rw [evaluateCall] at h
  split at h
  · next hdone =>
    obtain ⟨rfl, rfl⟩ := Prod.mk.inj (Except.ok.inj h)
    simp [hopen] at hdone
  · dsimp only at h
    split at h
    · split at h
      · cases h
      · obtain ⟨rfl, rfl⟩ := Prod.mk.inj (Except.ok.inj h)
        cases hopen
    · next hunknown =>
      obtain ⟨rfl, rfl⟩ := Prod.mk.inj (Except.ok.inj h)
      exact ⟨rfl, by simpa using hunknown⟩

/-- Evaluating calls in a row evaluates each of them in the state that those before it leave. -/
theorem exists_evaluateCall_of_mem (h : r.evaluateEach s run force calls = .ok (done, next))
    (hmem : later ∈ done) :
    ∃ before call after front mid final back, calls = before ++ call :: after
      ∧ r.evaluateEach s run force before = .ok (front, mid)
      ∧ mid.evaluateCall s run force call = .ok (later, final)
      ∧ final.evaluateEach s run force after = .ok (back, next) := by
  induction calls generalizing r done with
  | nil =>
    obtain ⟨rfl, rfl⟩ := Prod.mk.inj (Except.ok.inj h)
    cases hmem
  | cons first calls ih =>
    obtain ⟨evaluated, mid, others, hfirst, hrest, rfl⟩ := evaluateEach_cons_eq_ok_iff.mp h
    rcases List.mem_cons.mp hmem with rfl | hmem
    · exact ⟨[], first, calls, [], r, mid, _, rfl, rfl, hfirst, hrest⟩
    · obtain ⟨before, call, after, front, state, final, back, rfl, hbefore, hcall, hafter⟩ := ih hrest hmem
      refine ⟨first :: before, call, after, evaluated :: front, state, final, back, rfl, ?_, hcall, hafter⟩
      exact evaluateEach_cons_eq_ok_iff.mpr ⟨evaluated, mid, front, hfirst, hbefore, rfl⟩

/-- No call reads a file that has not been read before. -/
def ReadsNothing (s : Session) (run : Evaluate) (r : ModuleRun) (calls : List ModuleCall) : Prop :=
  ∀ before done mid, before <+: calls → r.evaluateEach s run false before = .ok (done, mid) →
    mid.arena.files.contents = r.arena.files.contents

/-- A later state of a run, in which all of the module but its own bindings is as before. -/
structure Beside (r next : ModuleRun) : Prop where
  changes : Arena.Changes (fun _ => True) r.arena next.arena
  others : ∀ id, id < r.arena.scopes.size → r.arena.scopes.root id = r.root → id ≠ r.root →
    next.arena.scopes.bindings id = r.arena.scopes.bindings id
  blocks : ∀ id, r.arena.Has r.root id → next.arena.block id = r.arena.block id
  contents : next.arena.files.contents = r.arena.files.contents
  module : next.module = r.module
  root : next.root = r.root
  given : next.inputs = r.inputs

theorem Beside.trans (hs : r.Sound) (h : Beside r mid) (k : Beside mid next) : Beside r next := by
  constructor
  · exact h.changes.trans k.changes
  · intro id hid htop hne
    have hlt := Nat.lt_of_lt_of_le hid h.changes.size_scopes_le
    have hroot : mid.arena.scopes.root id = mid.root := by rw [h.changes.root_eq hs.well hid, htop, h.root]
    rw [k.others id hlt hroot (h.root ▸ hne), h.others id hid htop hne]
  · intro id hid
    have hin : mid.arena.Has mid.root id := h.root ▸ hid.changes hs.well h.changes
    rw [k.blocks id hin, h.blocks id hid]
  · exact k.contents.trans h.contents
  · exact k.module.trans h.module
  · exact k.root.trans h.root
  · exact k.given.trans h.given

theorem Rebinds.beside (h : Rebinds r next) (htop : r.arena.IsTop r.root) : Beside r next := by
  constructor
  · exact h.changes htop _ trivial
  · exact fun id _ _ hne => h.others id hne
  · exact fun id _ => congrArg (fun blocks => blocks.getD id default) h.blocks
  · exact h.contents
  · exact h.module
  · exact h.root
  · exact h.given

theorem Beside.alike (h : Beside r next) (hs : r.Sound) (hnext : next.Sound)
    (hsame : next.bindings = r.bindings) : Alike r next := by
  refine ⟨hs, hnext, ?_, h.module, h.root, h.given⟩
  constructor
  · exact fun id hid _ => h.changes.parent?_eq hid
  · intro id hid htop
    by_cases hself : id = r.root
    · rw [bindings, bindings, h.root] at hsame
      rw [hself, hsame]
    · exact h.others id hid htop hself
  · exact fun id hid hhome => h.blocks id ⟨hid, hhome⟩
  · exact h.changes.base_eq
  · exact h.contents

/-- Evaluating calls leaves the calling module as it is. -/
theorem Sound.alike_of_evaluateEach (hs : r.Sound) (hrun : Contained run) (hcalls : calls ⊆ r.calls)
    (h : r.evaluateEach s run force calls = .ok (done, mid))
    (hcontents : mid.arena.files.contents = r.arena.files.contents) : Beside r mid ∧ Alike r mid := by
  obtain ⟨hchanges, -, visited, hmid⟩ := evaluateEach_changes hrun hs hcalls h
  have hapart : ¬ Reaches r calls r.root := by
    rintro (⟨call, hcall, -, heq⟩ | hsize)
    · exact (hs.calls call (hcalls hcall)).apart heq.symm
    · exact Nat.not_lt.mpr hsize hs.root_lt
  have hkept (id : ScopeId) (hid : id < r.arena.scopes.size) (htop : r.arena.scopes.root id = r.root) :
      mid.arena.scopes.bindings id = r.arena.scopes.bindings id :=
    hchanges.bindings_eq hs.well hid (htop ▸ hapart)
  have hall := hchanges.mono (Q := fun _ => True) fun _ _ => trivial
  have hsound : mid.Sound := by
    rw [hmid]
    exact (Advances.ofChanges hs (.all r) hall).sound.withVisited visited
  have hbeside : Beside r mid := by
    constructor
    · exact hall
    · exact fun id hid htop _ => hkept id hid htop
    · exact fun id hid => hchanges.block_eq hs.well hid.1 (hid.2 ▸ hapart)
    · exact hcontents
    · rw [hmid]
    · rw [hmid]
    · rw [hmid]
  refine ⟨hbeside, hbeside.alike hs hsound ?_⟩
  rw [bindings, bindings, hbeside.root]
  exact hkept r.root hs.root_lt hs.top.root_eq

/-- The calls that a pass leaves open are those whose inputs are not known before its calls are evaluated. -/
theorem Sound.unknown_of_open (hs : r.Sound) (hrun : Contained run)
    (h : r.evaluateEach s run false r.calls = .ok (done, mid)) (hreads : ReadsNothing s run r r.calls)
    (hmem : later ∈ done) (hopen : later.result = none) :
    (Value.object (moduleInputs r.arena (r.arena.block later.block))).isWhollyKnown = false := by
  obtain ⟨before, call, after, front, state, final, -, hcalls, hbefore, hcall, -⟩ :=
    exists_evaluateCall_of_mem h hmem
  obtain ⟨rfl, hunknown⟩ := isWhollyKnown_of_open hcall hopen
  have hfront : before <+: r.calls := ⟨_, hcalls.symm⟩
  obtain ⟨-, halike⟩ := hs.alike_of_evaluateEach hrun hfront.subset hbefore (hreads _ _ _ hfront hbefore)
  have hin : later ∈ r.calls := hcalls ▸ List.mem_append_right _ List.mem_cons_self
  rwa [halike.moduleInputs (hs.calls later hin).caller] at hunknown

theorem evaluate_wanted (a : Arena) (wanted : List String) (scope : ScopeId) (e : Expr) :
    { a with files.wanted := wanted }.evaluate scope e = a.evaluate scope e := by
  have hfiles := e.evalWithFiles_congr (a.scopes.environment scope) (t := a.files)
    (u := { a.files with wanted }) rfl rfl
  rw [Arena.evaluate, Arena.evaluate, hfiles]

theorem moduleInputs_wanted (a : Arena) (wanted : List String) (b : Block) :
    moduleInputs { a with files.wanted := wanted } b = moduleInputs a b := by
  simp only [moduleInputs, Arena.resolve, evaluate_wanted]

/-- Calls that are evaluated already, or cannot be, stay as they are. -/
theorem evaluateEach_of_unknown (s : Session) (run : Evaluate) (hopen : ∀ call ∈ calls, call.result = none →
      (Value.object (moduleInputs r.arena (r.arena.block call.block))).isWhollyKnown = false) :
    ∃ wanted, r.evaluateEach s run false calls = .ok (calls, { r with arena.files.wanted := wanted }) := by
  induction calls generalizing r with
  | nil => exact ⟨r.arena.files.wanted, rfl⟩
  | cons call calls ih =>
    have hfirst : ∃ wanted, r.evaluateCall s run false call
        = .ok (call, { r with arena.files.wanted := wanted }) := by
      rw [evaluateCall]
      split
      · exact ⟨r.arena.files.wanted, rfl⟩
      · next hnone =>
        have hunknown := hopen call List.mem_cons_self (by simpa using hnone)
        obtain ⟨wanted, hnoted⟩ := exists_noting_eq r
          [(r.arena.block call.block, inputAttributes (r.arena.block call.block))]
        refine ⟨wanted, ?_⟩
        dsimp only
        rw [hunknown, hnoted]
        rfl
    obtain ⟨wanted, hfirst⟩ := hfirst
    have hrest : ∀ c ∈ calls, c.result = none → (Value.object (moduleInputs
        { r.arena with files.wanted := wanted } (r.arena.block c.block))).isWhollyKnown = false := by
      intro c hc hnone
      rw [moduleInputs_wanted]
      exact hopen c (List.mem_cons_of_mem call hc) hnone
    obtain ⟨wanted', hmore⟩ := ih (r := { r with arena.files.wanted := wanted }) hrest
    refine ⟨wanted', ?_⟩
    rw [evaluateEach, hfirst]
    dsimp only
    rw [hmore]
    rfl

end ModuleRun

end InfraConfig
