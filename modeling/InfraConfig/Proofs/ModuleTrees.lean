import InfraConfig.Proofs.Evaluations
import InfraConfig.Proofs.Fates

/-!
# Trees of modules

Until its dynamic blocks are rendered, the blocks of a module are separate trees: those that it is loaded with,
and the instances that stand for some of them. What happens in other modules leaves them as they are.
-/

namespace InfraConfig

namespace Arena

variable {P : ScopeId → Prop} {a b : Arena} {top : ScopeId} {ids : List BlockId}

/-- Changes in other modules. -/
theorem Changes.keeps (h : Changes P a b) (ha : a.WellFormed) (hp : ¬ P top) : Keeps (a.Has top) a b := by
  have hsame (x : Nat) (hx : a.Has top x) : b.block x = a.block x :=
    h.block_eq ha hx.1 (hx.2.symm ▸ hp)
  exact ⟨h.size_blocks_le, fun x _ hx => congrArg Block.children (hsame x hx),
    fun x _ hx => congrArg Block.kind (hsame x hx)⟩

/-- Trees of a module stay as they are when its blocks are left alone. -/
theorem Separate.keepsModule (h : Separate a ids) (ha : a.WellFormed) (hids : ∀ id ∈ ids, a.Has top id)
    (hab : Keeps (a.Has top) a b) : Separate b ids := by
  obtain ⟨low, htrees, hlt⟩ := h
  refine ⟨low, htrees.keeps hlt hab fun id hid x hlo hx => ?_, fun id hid => Nat.lt_of_lt_of_le (hlt id hid) hab.size⟩
  have hin := hids id hid
  rcases Nat.lt_or_eq_of_le hx with hx | rfl
  · exact (htrees.row id hid).has ha (fun c hc => hin.child ha hc) x hlo hx
  · exact hin

theorem keeps_mapThrough {f : Arena → BlockId → List BlockId × Arena}
    (hf : ∀ b id, Replaces b (f b id).2 id (f b id).1) (a : Arena) (ids : List BlockId) :
    Keeps (fun _ => True) a (mapThrough f a ids).2 := by
  rw [mapThrough_snd]
  exact .foldl fun b id _ => (hf b id).keeps

theorem keeps_expandCounts (a : Arena) (root : ScopeId) (ids : List BlockId) :
    Keeps (fun _ => True) a (a.expandCounts root ids).2 :=
  keeps_mapThrough (replaces_expand .count root) a ids

theorem keeps_expandForEach (a : Arena) (root : ScopeId) (ids : List BlockId) :
    Keeps (fun _ => True) a (a.expandForEach root ids).2 :=
  keeps_mapThrough (replaces_expand .forEach root) a ids

theorem keeps_rescopeUpTo (depth : Nat) (a : Arena) (id : BlockId) (scope : ScopeId) :
    Keeps (fun _ => True) a (rescopeUpTo depth a id scope) :=
  rescopeUpTo_induction
    (fun _ id _ hb => hb.trans (.modify _ id (by intro _; rfl) (by intro _; rfl)) fun _ _ _ => trivial)
    (fun _ _ hb => hb.trans (.ofBlocks rfl) fun _ _ _ => trivial) .refl depth id scope

end Arena

namespace ModuleRun

variable {s : Session} {run : Evaluate} {force : Bool} {d : Nat} {r next : ModuleRun} {call : ModuleCall}

/-- The blocks of a run keep what is inside them. -/
def KeepsOwn (r next : ModuleRun) : Prop :=
  Arena.Keeps (r.arena.Has r.root) r.arena next.arena

theorem KeepsOwn.ofAll (h : Arena.Keeps (fun _ => True) r.arena next.arena) : KeepsOwn r next :=
  h.mono fun _ _ _ => trivial

theorem KeepsOwn.trans {mid : ModuleRun} (hs : r.Sound)
    (hfirst : KeepsOwn r mid) (hrest : KeepsOwn mid next) (h : Advances (fun _ => True) r mid) :
    KeepsOwn r next := by
  refine Arena.Keeps.trans hfirst hrest fun x _ hx => ?_
  rw [h.root]
  exact hx.changes hs.well h.changes

theorem Rebinds.keepsAll (h : Rebinds r next) : Arena.Keeps (fun _ => True) r.arena next.arena :=
  .ofBlocks h.blocks

/-! ## Steps of a run -/

theorem evaluateCalls_keepsOwn (hrun : Contained run) (hs : r.Sound)
    (h : r.evaluateCalls s run force = .ok next) : KeepsOwn r next := by
  obtain ⟨mid, calls, -, rfl, hchanges, -, visited, hmid⟩ := evaluateCalls_spec hrun hs h
  have hbinds := (Rebinds.bindOutputsOfCalls { mid with calls }).keepsAll
  refine (hchanges.keeps hs.well ?_).trans hbinds fun _ _ _ => trivial
  rintro (⟨other, hother, -, heq⟩ | hsize)
  · exact (hs.calls other hother).apart heq.symm
  · exact Nat.not_le.mpr hs.root_lt hsize

theorem pass_keepsOwn (hrun : Contained run) (hs : r.Sound) (h : r.pass s run = .ok next) :
    KeepsOwn r next := by
  have hbinds := Rebinds.bindBlocks r
  have hbound := hbinds.advances hs (.all r)
  exact (KeepsOwn.ofAll hbinds.keepsAll).trans hs (evaluateCalls_keepsOwn hrun hbound.sound h) hbound

theorem settle_keepsOwn (hrun : Contained run) (hs : r.Sound) (h : r.settle s run = .ok next) :
    KeepsOwn r next := by
  refine (converge_invariant (P := fun q => Advances (fun _ => True) r q ∧ KeepsOwn r q)
    (fun q passed hq hpass => ?_) ⟨.refl hs (.all r), .refl⟩ h).2
  obtain ⟨hadvances, hkept⟩ := hq
  have hpassed := hadvances.trans (pass_advances hrun hadvances.sound (.all q) hpass)
  have hfiles : Arena.Keeps (fun _ => True) passed.arena (passed.readWanted s).2.arena := .ofBlocks rfl
  have hkeptPass := hkept.trans hs (pass_keepsOwn hrun hadvances.sound hpass) hadvances
  exact ⟨hpassed.trans (readWanted_advances s hpassed.sound hpassed.covers),
    hkeptPass.trans hs (.ofAll hfiles) hpassed⟩

theorem forceCalls_keepsOwn (hrun : Contained run) (hs : r.Sound) (h : r.forceCalls s run = .ok next) :
    KeepsOwn r next := by
  rw [forceCalls] at h
  split at h
  · obtain ⟨mid, hmid, hsettle⟩ := bind_eq_ok_iff.mp h
    have hcalls := evaluateCalls_advances hrun hs (.all r) hmid
    exact (evaluateCalls_keepsOwn hrun hs hmid).trans hs (settle_keepsOwn hrun hcalls.sound hsettle) hcalls
  · exact Except.ok.inj h ▸ .refl

/-- Loading a call adds the trees of its blocks. -/
theorem loadCall_keeps {id : BlockId} (h : r.loadCall s id = .ok next) :
    Arena.Keeps (fun _ => True) r.arena next.arena
      ∧ ∀ call ∈ next.calls, call ∈ r.calls ∨ next.arena.Separate call.blocks := by
  obtain ⟨reads, ⟨-, rfl⟩ | ⟨target, files, -, rfl⟩⟩ := loadCall_cases h
  · exact ⟨(Rebinds.noting r reads).keepsAll, fun call hcall => .inl hcall⟩
  · let noted := (r.noting reads).arena
    have hnoted : Arena.Keeps (fun _ => True) r.arena noted := (Rebinds.noting r reads).keepsAll
    have hroot : Arena.Keeps (fun _ => True) noted noted.newRoot.2 := .ofBlocks rfl
    have hadds := Arena.adds_insertFiles noted.newRoot.1 (some id) files noted.newRoot.2
    refine ⟨(hnoted.trans hroot fun _ _ _ => trivial).trans hadds.keeps fun _ _ _ => trivial, fun call hcall => ?_⟩
    rcases List.mem_append.mp hcall with hcall | hcall
    · exact .inl hcall
    · rw [List.mem_singleton.mp hcall]
      exact .inr (.ofRow hadds.row)

theorem loadCalls_keeps {ids : List BlockId} (h : r.loadCalls s ids = .ok next) :
    Arena.Keeps (fun _ => True) r.arena next.arena
      ∧ ∀ call ∈ next.calls, call ∈ r.calls ∨ next.arena.Separate call.blocks := by
  induction ids generalizing r with
  | nil => exact Except.ok.inj h ▸ ⟨.refl, fun call hcall => .inl hcall⟩
  | cons id ids ih =>
    obtain ⟨mid, hmid, hothers⟩ := loadCalls_cons_eq_ok_iff.mp h
    obtain ⟨hfirst, hfirstCalls⟩ := loadCall_keeps hmid
    obtain ⟨hrest, hcalls⟩ := ih hothers
    refine ⟨hfirst.trans hrest fun _ _ _ => trivial, fun call hcall => ?_⟩
    rcases hcalls call hcall with hcall | hnew
    · exact (hfirstCalls call hcall).imp (fun hold => hold) fun hnew => hnew.keeps hrest
    · exact .inr hnew

theorem expand_keeps (r : ModuleRun) (keep ids : List BlockId) :
    Arena.Keeps (fun _ => True) r.arena (r.expand keep ids).2.arena :=
  (Arena.keeps_expandCounts r.arena r.root ids).trans (Arena.keeps_expandForEach _ _ _) fun _ _ _ => trivial

theorem expand_separate {keep ids : List BlockId} (h : r.arena.Separate (keep ++ ids)) :
    (r.expand keep ids).2.arena.Separate (r.expand keep ids).2.module.blocks := by
  have hcounts := h.mapThrough (Arena.replaces_expand .count r.root)
  exact hcounts.mapThrough (Arena.replaces_expand .forEach r.root)

theorem loadModules_keeps (h : r.loadModules s = .ok next) :
    Arena.Keeps (fun _ => True) r.arena next.arena
      ∧ (∀ call ∈ next.calls, call ∈ r.calls ∨ next.arena.Separate call.blocks)
      ∧ (r.arena.Separate r.module.blocks → next.arena.Separate next.module.blocks) := by
  rw [loadModules, List.partition_eq_filter_filter] at h
  let isCall (id : BlockId) : Bool := (r.arena.block id).kind == .module
  let calls := r.module.blocks.filter isCall
  let others := r.module.blocks.filter (not ∘ isCall)
  have hload : (r.expand others calls).2.loadCalls s (r.expand others calls).1 = .ok next := h
  have hexpand := expand_keeps r others calls
  obtain ⟨hloaded, hcalls⟩ := loadCalls_keeps hload
  refine ⟨hexpand.trans hloaded fun _ _ _ => trivial, hcalls, fun hblocks => ?_⟩
  have hperm : r.module.blocks.Perm (others ++ calls) := perm_filter_append isCall r.module.blocks
  rw [loadCalls_module hload]
  exact (expand_separate (hblocks.perm hperm)).keeps hloaded

/-! ## Blocks of open calls -/

/-- Expanding and rendering the blocks of a module leaves those of its calls alone. -/
theorem Sound.expandBlocks_keeps (hs : r.Sound) (hcall : call ∈ r.calls) :
    Arena.Keeps (r.arena.Has call.root) r.arena r.expandBlocks.arena := by
  have hin := hs.calls call hcall
  -- The calls have no part in this, so that it is the same in a run without them.
  let alone : ModuleRun := { r with calls := [] }
  have hsound : alone.Sound :=
    ⟨hs.well, hs.top, hs.blocks, fun _ h => absurd h List.not_mem_nil, List.nodup_nil⟩
  have hcovers : Covers (fun t => t ≠ call.root) alone :=
    ⟨hin.apart.symm, fun _ h => absurd h List.not_mem_nil,
      fun t ht => (Nat.ne_of_lt (Nat.lt_of_lt_of_le hin.top.1 ht)).symm⟩
  have hexpanded := (expand_advances hsound hcovers (List.nil_subset _) (List.Subset.refl _)).1
  have hdynamics := dynamics_changes hsound hcovers
  exact ((expand_keeps alone [] r.module.blocks).mono fun _ _ _ => trivial).trans
    (hdynamics.keeps hexpanded.sound.well fun h => h rfl) fun _ _ hx => hx.changes hs.well hexpanded.changes

/-- In every state that an evaluator comes to, the blocks of a call that is still open are separate trees. -/
theorem Reached.separate_open (h : Reached s d r) (hcall : call ∈ r.calls) (hopen : call.result = none) :
    r.arena.Separate call.blocks := by
  induction h with
  | root => cases hcall
  | @bind d r h ih =>
    have hbinds := Rebinds.bindBlocks r
    exact (ih (hbinds.calls ▸ hcall)).keeps hbinds.keepsAll
  | calls h force hcalls ih =>
    obtain ⟨hin, hothers⟩ := h.sound.evaluateCalls_open (contained_evaluateUpTo s _) hcalls hcall hopen
    have hkept := hothers.keeps h.sound.well fun hne => hne rfl
    exact (ih hin).keepsModule h.sound.well (h.sound.calls call hin).blocks hkept
  | read h ih => exact (ih hcall).keeps (.ofBlocks rfl)
  | load h hload ih =>
    obtain ⟨hkept, hcalls, -⟩ := loadModules_keeps hload
    rcases hcalls call hcall with hin | hnew
    · exact (ih hin).keeps hkept
    · exact hnew
  | expand h ih =>
    exact (ih hcall).keepsModule h.sound.well (h.sound.calls call hcall).blocks (h.sound.expandBlocks_keeps hcall)
  | child => cases hcall

/-! ## Beginnings -/

/-- The beginning of an evaluator whose calls are nested to at most a depth. -/
inductive Begins (s : Session) : Nat → ModuleRun → Prop where
  | root (inputs files) : Begins s 999 (Project.rootRun s inputs files)
  | child {d r mid call} (h : Reached s (d + 1) r) (force : Bool)
      (hstarts : Starts s (evaluateUpTo s (d + 1)) force r mid call) : Begins s d (mid.started s call)

theorem Begins.reached (h : Begins s d r) : Reached s d r := by
  cases h with
  | root inputs files => exact .root inputs files
  | child h force hstarts => exact .child h force hstarts

theorem start_keeps (s : Session) (a : Arena) (module : ModuleInstance) (root : ScopeId) (inputs : Entries Value)
    (visited : List VisitedModule) :
    Arena.Keeps (fun _ => True) a (start s a module root inputs visited).arena := by
  have hbinds : Arena.Keeps (fun _ => True) a ((surroundings s module.path).foldl
      (fun b (w : ValuePath × Value) => b.bind root w.2 w.1) a) := .foldl fun b w _ => .ofBlocks rfl
  refine hbinds.trans (.foldl fun b id _ => ?_) fun _ _ _ => trivial
  have hnew : Arena.Keeps (fun _ => True) b (b.newChild root).2 := .ofBlocks rfl
  exact hnew.trans (Arena.keeps_rescopeUpTo _ _ _ _) fun _ _ _ => trivial

theorem started_keeps (s : Session) (mid : ModuleRun) (call : ModuleCall) :
    Arena.Keeps (fun _ => True) mid.arena (mid.started s call).arena := by
  have hstart (noted : ModuleRun) (inputs : Entries Value) :
      Arena.Keeps (fun _ => True) noted.arena (noted.startCall s call inputs).arena :=
    start_keeps s _ _ _ _ _
  let b := mid.arena.block call.block
  have hnoted := (Rebinds.noting mid [(b, inputAttributes b)]).keepsAll
  exact hnoted.trans (hstart _ (moduleInputs mid.arena b)) fun _ _ _ => trivial

/-- An evaluator begins with separate trees. -/
theorem Begins.separate (h : Begins s d r) : r.arena.Separate r.module.blocks := by
  cases h with
  | root inputs files =>
    let inserted := (Arena.empty s.root).newRoot.2.insertFiles 0 none files
    have hadds : Arena.Adds (Arena.empty s.root).newRoot.2 inserted.2 inserted.1 :=
      Arena.adds_insertFiles 0 none files _
    have hkept := start_keeps s inserted.2 ⟨s.root, s.root, inserted.1, none⟩ 0 inputs []
    have hblocks : (Project.rootRun s inputs files).module.blocks = inserted.1 := rfl
    rw [hblocks]
    exact (Arena.Separate.ofRow hadds.row).keeps hkept
  | @child d r mid call h force hstarts =>
    obtain ⟨before, after, done, hcalls, heach⟩ := hstarts.reached
    have hmem : call ∈ r.calls := hcalls ▸ List.mem_append_right _ List.mem_cons_self
    have hsub : before ⊆ r.calls := hcalls ▸ List.subset_append_left _ _
    have hothers := h.sound.evaluateEach_others (contained_evaluateUpTo s _) hsub hmem
      (h.sound.roots_of_split hcalls).1 heach
    have hkept := hothers.keeps h.sound.well fun hne => hne rfl
    have hopen := (h.separate_open hmem hstarts.isOpen).keepsModule h.sound.well (h.sound.calls call hmem).blocks hkept
    exact hopen.keeps (started_keeps s mid call)

end ModuleRun

end InfraConfig
