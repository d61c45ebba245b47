import InfraConfig.Proofs.Convergence

/-!
# Evaluated calls

A call is evaluated once, with the inputs that its block gives at that moment. From then on its module stays as
the evaluation has left it, whatever becomes of the calling module.
-/

namespace InfraConfig

namespace Entries

variable {α : Type}

theorem get?_putAll_of_not_mem {more : Entries α} {k : String} (h : k ∉ more.keys) (es : Entries α) :
    (es.putAll more).get? k = es.get? k := by
  induction more generalizing es with
  | nil => rfl
  | cons e more ih =>
    have hne : k ≠ e.1 := List.ne_of_not_mem_cons h
    have hrest : k ∉ keys more := List.not_mem_of_not_mem_cons h
    rw [putAll_cons, ih hrest, get?_put, if_neg hne]

/-- The last of several pairs with one key counts. -/
theorem get?_ofPairs_last (before : List (String × α)) (k : String) (v : α) {after : List (String × α)}
    (h : k ∉ after.map (·.1)) : (ofPairs (before ++ (k, v) :: after)).get? k = some v := by
  have happend (es : Entries α) : es.putAll (before ++ (k, v) :: after)
      = ((es.putAll before).put k v).putAll after := by
    rw [putAll, List.foldl_append]
    rfl
  rw [ofPairs, happend, get?_putAll_of_not_mem h, get?_put, if_pos rfl]

end Entries

/-- The attribute that gives an input: the last one of its name. -/
def IsInput (b : Block) (attr : Attribute) : Prop :=
  ∃ before after, inputAttributes b = before ++ attr :: after ∧ ∀ other ∈ after, other.name ≠ attr.name

theorem get?_moduleInputs (a : Arena) {b : Block} {attr : Attribute} (h : IsInput b attr) :
    (moduleInputs a b).get? attr.name = some (a.resolve b attr) := by
  obtain ⟨before, after, hsplit, hlast⟩ := h
  rw [moduleInputs, hsplit, List.map_append, List.map_cons]
  apply Entries.get?_ofPairs_last
  rw [List.map_map]
  intro hmem
  obtain ⟨other, hother, hname⟩ := List.mem_map.mp hmem
  exact hlast other hother hname

namespace ModuleRun

variable {s : Session} {run : Evaluate} {force : Bool} {d : Nat} {r mid child next : ModuleRun}
  {call later : ModuleCall} {result : CallResult}

/-- How an evaluated call came to its result. It was started in the state `mid` of its run and evaluated to
`child`, and its module has been left alone since. -/
structure Evaluation (s : Session) (d : Nat) (r : ModuleRun) (call : ModuleCall) (mid child : ModuleRun) :
    Prop where
  starts : ∃ earlier force, Reached s d earlier ∧
    Starts s (evaluateUpTo s d) force earlier mid { call with result := none }
  gives : ∃ modules, evaluateUpTo s d (mid.started s call) = .ok (modules, child) ∧
    call.result = some ⟨modules, child.outputs⟩
  frozen : Arena.Changes (fun t => t ≠ call.root) child.arena r.arena
  since : Arena.Changes (fun _ => True) mid.arena r.arena

/-- An evaluated call that was started in the step over all calls from the state `earlier`, and whose module has
been left alone since. -/
structure StartedFrom (s : Session) (run : Evaluate) (earlier : ModuleRun) (force : Bool) (r : ModuleRun)
    (call : ModuleCall) (mid child : ModuleRun) : Prop where
  starts : Starts s run force earlier mid { call with result := none }
  gives : ∃ modules, run (mid.started s call) = .ok (modules, child) ∧
    call.result = some ⟨modules, child.outputs⟩
  frozen : Arena.Changes (fun t => t ≠ call.root) child.arena r.arena
  since : Arena.Changes (fun _ => True) mid.arena r.arena

theorem StartedFrom.advances {earlier : ModuleRun} (h : StartedFrom s run earlier force r call mid child)
    (hnext : Arena.Changes (fun t => t ≠ call.root) r.arena next.arena) :
    StartedFrom s run earlier force next call mid child :=
  ⟨h.starts, h.gives, h.frozen.trans hnext, h.since.trans (hnext.mono fun _ _ => trivial)⟩

theorem Evaluation.advances (h : Evaluation s d r call mid child)
    (hnext : Arena.Changes (fun t => t ≠ call.root) r.arena next.arena) :
    Evaluation s d next call mid child :=
  ⟨h.starts, h.gives, h.frozen.trans hnext, h.since.trans (hnext.mono fun _ _ => trivial)⟩

/-- Two calls of one run never share a module. -/
theorem Sound.root_ne (hs : r.Sound) (hcall : call ∈ r.calls) (hlater : later ∈ r.calls)
    (hne : call.result ≠ later.result) : call.root ≠ later.root := by
  intro hroot
  obtain rfl := List.inj_on_of_nodup_map hs.distinct hcall hlater hroot
  exact hne rfl

/-- Whatever a run does, it leaves the modules of its evaluated calls alone. -/
theorem Sound.covers_evaluated (hs : r.Sound) (hcall : call ∈ r.calls) (hresult : call.result = some result) :
    Covers (fun t => t ≠ call.root) r := by
  have hin := hs.calls call hcall
  refine ⟨hin.apart.symm, fun other hother hnone => ?_, fun t ht => ?_⟩
  · apply hs.root_ne hother hcall
    simp [hnone, hresult]
  · exact (Nat.ne_of_lt (Nat.lt_of_lt_of_le hin.top.1 ht)).symm

/-- A call that has just got its result was started in this state. -/
theorem evaluated_of_open (h : r.evaluateCall s run force call = .ok (later, next))
    (hopen : call.result = none) (hresult : later.result = some result) :
    (force = true ∨ (Value.object (moduleInputs r.arena (r.arena.block call.block))).isWhollyKnown = true)
      ∧ ∃ modules child, run (r.started s call) = .ok (modules, child) ∧ next.arena = child.arena
        ∧ later = { call with result := some ⟨modules, child.outputs⟩ } := by
  rw [evaluateCall, hopen] at h
  dsimp only at h
  rw [if_neg (by simp)] at h
  split at h
  · next hdue =>
    split at h
    · cases h
    · next modules done hdone =>
      obtain ⟨rfl, rfl⟩ := Prod.mk.inj (Except.ok.inj h)
      exact ⟨by simpa using hdue, modules, done, hdone, rfl, rfl⟩
  · obtain ⟨rfl, -⟩ := Prod.mk.inj (Except.ok.inj h)
    simp [hopen] at hresult

/-- A call that stays open is not started. -/
theorem noting_of_open (h : r.evaluateCall s run force call = .ok (call, next)) (hopen : call.result = none) :
    ∃ reads, next = r.noting reads := by
  rw [evaluateCall, hopen] at h
  dsimp only at h
  rw [if_neg (by simp)] at h
  split at h
  · split at h
    · cases h
    · have hsame := (Prod.mk.inj (Except.ok.inj h)).1
      rw [← hsame] at hopen
      cases hopen
  · exact ⟨_, (Prod.mk.inj (Except.ok.inj h)).2.symm⟩

/-- A step over all calls comes to each of them, in a state that the calls before it leave, and goes on with the
calls after it. The module of the call is left alone before and after. -/
structure Visits (s : Session) (run : Evaluate) (force : Bool) (r next mid final : ModuleRun)
    (call later : ModuleCall) : Prop where
  reached : ∃ before after done, r.calls = before ++ call :: after ∧
    r.evaluateEach s run force before = .ok (done, mid)
  mem : call ∈ r.calls
  sound : mid.Sound
  evaluates : mid.evaluateCall s run force call = .ok (later, final)
  one : Later call later
  changes : Arena.Changes (fun _ => True) mid.arena final.arena
  before : Arena.Changes (fun t => t ≠ call.root) r.arena mid.arena
  after : Arena.Changes (fun t => t ≠ call.root) final.arena next.arena

theorem Sound.visits (hs : r.Sound) (hrun : Contained run)
    (h : r.evaluateCalls s run force = .ok next) (hlater : later ∈ next.calls) :
    ∃ call mid final, Visits s run force r next mid final call later := by
  obtain ⟨last, calls, heach, rfl, -, -, -⟩ := evaluateCalls_spec hrun hs h
  obtain ⟨hlastSound, -, hlastRoot⟩ := hs.evaluateEach hrun (List.Subset.refl _) heach
  have hbinds := Rebinds.bindOutputsOfCalls { last with calls }
  rw [hbinds.calls] at hlater
  obtain ⟨before, call, after, front, mid, final, back, hcalls, hbefore, hcall, hafter⟩ :=
    exists_evaluateCall_of_mem heach hlater
  have hmem : call ∈ r.calls := hcalls ▸ List.mem_append_right _ List.mem_cons_self
  have hfront : before ⊆ r.calls := hcalls ▸ List.subset_append_left _ _
  have hback : after ⊆ r.calls := by
    rw [hcalls]
    exact List.subset_append_of_subset_right _ (List.subset_cons_self _ _)
  obtain ⟨hapartBefore, hapartAfter⟩ := hs.roots_of_split hcalls
  obtain ⟨hmid, hmidCalls, -⟩ := hs.evaluateEach hrun hfront hbefore
  obtain ⟨hchanges, hone, visited, hfinal⟩ := evaluateCall_changes hrun hmid (hmidCalls ▸ hmem) hcall
  have hall := hchanges.mono (Q := fun _ => True) fun _ _ => trivial
  have hfinalSound : final.Sound := by
    rw [hfinal]
    exact (Advances.ofChanges hmid (.all mid) hall).sound.withVisited visited
  have hfinalCalls : final.calls = r.calls := by rw [hfinal, ← hmidCalls]
  have hothers := hfinalSound.evaluateEach_others hrun (hfinalCalls ▸ hback) (hfinalCalls ▸ hmem) hapartAfter hafter
  -- The outputs are bound in the calling module.
  have hcaller : last.root ≠ call.root := by
    rw [hlastRoot]
    exact (hs.calls call hmem).apart.symm
  have hbound := hbinds.changes hlastSound.top (fun t => t ≠ call.root) hcaller
  exact ⟨call, mid, final, ⟨before, after, front, hcalls, hbefore⟩, hmem, hmid, hcall, hone, hall,
    hs.evaluateEach_others hrun hfront hmem hapartBefore hbefore, hothers.trans hbound⟩

/-- Of the calls that have a result after a step over all calls, each had it before, or was started by this
step. -/
theorem Sound.startedFrom_of_evaluateCalls (hs : r.Sound) (hrun : Contained run)
    (h : r.evaluateCalls s run force = .ok next) (hlater : later ∈ next.calls)
    (hresult : later.result = some result) :
    later ∈ r.calls ∨ ∃ mid child, StartedFrom s run r force next later mid child := by
  obtain ⟨call, mid, final, hvisit⟩ := hs.visits hrun h hlater
  rcases hvisit.one with rfl | ⟨hopen, -⟩
  · exact .inl hvisit.mem
  obtain ⟨hdue, modules, child, hchild, harena, rfl⟩ := evaluated_of_open hvisit.evaluates hopen hresult
  obtain ⟨before, after, done, hcalls, hbefore⟩ := hvisit.reached
  have hafter := hvisit.after.mono (Q := fun _ => True) fun _ _ => trivial
  refine .inr ⟨mid, child, ⟨⟨before, after, done, ?_, hbefore⟩, rfl, hdue⟩, ⟨modules, hchild, rfl⟩,
    harena ▸ hvisit.after, hvisit.changes.trans hafter⟩
  rw [hcalls, ← hopen]

theorem evaluation_of_evaluateCalls (hr : Reached s d r)
    (h : r.evaluateCalls s (evaluateUpTo s d) force = .ok next) (hlater : later ∈ next.calls)
    (hresult : later.result = some result) :
    later ∈ r.calls ∨ ∃ mid child, Evaluation s d next later mid child := by
  refine (hr.sound.startedFrom_of_evaluateCalls (contained_evaluateUpTo s d) h hlater hresult).imp_right ?_
  rintro ⟨mid, child, hstarted⟩
  exact ⟨mid, child, ⟨r, force, hr, hstarted.starts⟩, hstarted.gives, hstarted.frozen, hstarted.since⟩

/-- The module of a call that is left open is left alone. -/
theorem Sound.evaluateCalls_open (hs : r.Sound) (hrun : Contained run)
    (h : r.evaluateCalls s run force = .ok next) (hcall : call ∈ next.calls) (hopen : call.result = none) :
    call ∈ r.calls ∧ Arena.Changes (fun t => t ≠ call.root) r.arena next.arena := by
  obtain ⟨earlier, mid, final, hvisit⟩ := hs.visits hrun h hcall
  rcases hvisit.one with rfl | ⟨-, result, rfl⟩
  · obtain ⟨reads, rfl⟩ := noting_of_open hvisit.evaluates hopen
    have hnoted : Arena.Changes (fun t => t ≠ call.root) mid.arena (mid.noting reads).arena := by
      obtain ⟨wanted, hnoted⟩ := exists_noting_eq mid reads
      rw [hnoted]
      exact .single (.record _ _ rfl)
    exact ⟨hvisit.mem, (hvisit.before.trans hnoted).trans hvisit.after⟩
  · cases hopen

/-! ## Loading opens calls -/

theorem loadCall_calls {id : BlockId} (h : r.loadCall s id = .ok next) :
    ∃ opened, next.calls = r.calls ++ opened ∧ ∀ call ∈ opened, call.result = none := by
  obtain ⟨reads, ⟨-, rfl⟩ | ⟨target, files, -, rfl⟩⟩ := loadCall_cases h
  · exact ⟨[], (List.append_nil _).symm, by simp⟩
  · exact ⟨[_], rfl, by simp⟩

theorem loadCalls_calls {ids : List BlockId} (h : r.loadCalls s ids = .ok next) :
    ∃ opened, next.calls = r.calls ++ opened ∧ ∀ call ∈ opened, call.result = none := by
  induction ids generalizing r with
  | nil => exact ⟨[], by rw [← Except.ok.inj h, List.append_nil], by simp⟩
  | cons id ids ih =>
    obtain ⟨mid, hmid, hothers⟩ := loadCalls_cons_eq_ok_iff.mp h
    obtain ⟨first, hfirst, hopen⟩ := loadCall_calls hmid
    obtain ⟨rest, hrest, hmore⟩ := ih hothers
    refine ⟨first ++ rest, by rw [hrest, hfirst, List.append_assoc], fun call hcall => ?_⟩
    exact (List.mem_append.mp hcall).elim (hopen call) (hmore call)

/-- Calls that are evaluated when modules have been loaded were evaluated before. -/
theorem mem_calls_of_loadModules (h : r.loadModules s = .ok next) (hcall : call ∈ next.calls)
    (hresult : call.result = some result) : call ∈ r.calls := by
  rw [loadModules] at h
  obtain ⟨opened, hcalls, hopen⟩ := loadCalls_calls h
  rw [hcalls] at hcall
  rcases List.mem_append.mp hcall with hcall | hcall
  · exact hcall
  · rw [hopen call hcall] at hresult
    cases hresult

/-! ## Runs -/

/-- Every evaluated call of a state that an evaluator comes to was started once, and its module has been left
alone since. -/
theorem Reached.evaluation (h : Reached s d r) (hcall : call ∈ r.calls) (hresult : call.result = some result) :
    ∃ mid child, Evaluation s d r call mid child := by
  have hkept {d : Nat} {r next : ModuleRun} (hs : r.Sound) (hin : call ∈ r.calls)
      (hadvances : Covers (fun t => t ≠ call.root) r → Advances (fun t => t ≠ call.root) r next)
      (hbefore : ∃ mid child, Evaluation s d r call mid child) :
      ∃ mid child, Evaluation s d next call mid child := by
    obtain ⟨mid, child, heval⟩ := hbefore
    exact ⟨mid, child, heval.advances (hadvances (hs.covers_evaluated hin hresult)).changes⟩
  induction h with
  | root => cases hcall
  | @bind d r h ih =>
    have hbinds := Rebinds.bindBlocks r
    have hin : call ∈ r.calls := hbinds.calls ▸ hcall
    exact hkept h.sound hin (fun hP => hbinds.advances h.sound hP) (ih hin)
  | calls h force hcalls ih =>
    rcases evaluation_of_evaluateCalls h hcalls hcall hresult with hin | hnew
    · exact hkept h.sound hin (fun hP => evaluateCalls_advances (contained_evaluateUpTo s _) h.sound hP hcalls)
        (ih hin)
    · exact hnew
  | read h ih => exact hkept h.sound hcall (fun hP => readWanted_advances s h.sound hP) (ih hcall)
  | load h hload ih =>
    have hin := mem_calls_of_loadModules hload hcall hresult
    exact hkept h.sound hin (fun hP => loadModules_advances h.sound hP hload) (ih hin)
  | expand h ih => exact hkept h.sound hcall (fun hP => expandBlocks_advances h.sound hP) (ih hcall)
  | child => cases hcall

theorem Reached.converge (h : Reached s d r) {n : Nat} {previous : Option (Entries Value)}
    (hloop : converge s (evaluateUpTo s d) n previous r = .ok next) : Reached s d next :=
  converge_invariant (fun _ _ hq hpass => (hq.pass hpass).read) h hloop

/-- The end of an evaluation is a state that its evaluator comes to. -/
theorem Reached.evaluateWith (h : Reached s d r) {modules : List ModuleInstance}
    (heval : evaluateWith s (evaluateUpTo s d) r = .ok (modules, next)) : Reached s d next := by
  obtain ⟨settled, loaded, resettled, expanded, h1, h2, h3, h4, h5, -⟩ := evaluateWith_eq_ok_iff.mp heval
  have hexpanded := (((h.converge h1).load h2).converge h3).expand.converge h4
  rw [forceCalls] at h5
  split at h5
  · obtain ⟨mid, hmid, hsettle⟩ := bind_eq_ok_iff.mp h5
    exact (hexpanded.calls true hmid).converge hsettle
  · exact Except.ok.inj h5 ▸ hexpanded

theorem Evaluation.sound (h : Evaluation s d r call mid child) : (mid.started s call).Sound := by
  obtain ⟨earlier, force, hearlier, hstarts⟩ := h.starts
  have hsound := hearlier.sound.started (contained_evaluateUpTo s d) hstarts
  exact hsound

theorem Evaluation.inputs (h : Evaluation s d r call mid child) :
    child.inputs = moduleInputs mid.arena (mid.arena.block call.block) := by
  obtain ⟨modules, hchild, -⟩ := h.gives
  have hsound := h.sound
  cases d with
  | zero => cases hchild
  | succ d => exact (evaluateWith_advances (contained_evaluateUpTo s d) hsound (.all _) hchild).given

theorem Evaluation.inputAttributes_eq (h : Evaluation s d r call mid child) :
    inputAttributes (mid.arena.block call.block) = inputAttributes (r.arena.block call.block) := by
  obtain ⟨earlier, force, hearlier, hstarts⟩ := h.starts
  obtain ⟨before, after, done, hcalls, heach⟩ := hstarts.reached
  have hrun := contained_evaluateUpTo s d
  have hfront : before ⊆ earlier.calls := hcalls ▸ List.subset_append_left _ _
  obtain ⟨hmid, hmidCalls, -⟩ := hearlier.sound.evaluateEach hrun hfront heach
  have hmem : { call with result := none } ∈ mid.calls := by
    rw [hmidCalls, hcalls]
    exact List.mem_append_right _ List.mem_cons_self
  have hcaller := (hmid.calls _ hmem).caller
  rw [inputAttributes, inputAttributes, h.since.attributes_eq hcaller.1]

/-- The bindings of the module of an evaluated call are those that its evaluation ended with. -/
theorem StartedFrom.bindings {earlier : ModuleRun} (h : StartedFrom s run earlier force r call mid child)
    (hrun : Contained run) (hs : earlier.Sound) : r.arena.scopes.bindings call.root = child.bindings := by
  obtain ⟨modules, hchild, -⟩ := h.gives
  have hstarted := hs.started hrun h.starts
  have hsound : (mid.started s call).Sound := hstarted
  obtain ⟨hchanges, hroot⟩ := hrun _ _ _ hsound rfl hchild
  have htop : child.arena.IsTop call.root := hsound.top.changes hchanges
  rw [ModuleRun.bindings, hroot]
  apply h.frozen.bindings_eq (hchanges.wellFormed hsound.well) htop.1
  rw [htop.root_eq]
  exact fun hne => hne rfl

theorem Evaluation.bindings (h : Evaluation s d r call mid child) :
    r.arena.scopes.bindings call.root = child.bindings := by
  obtain ⟨earlier, force, hearlier, hstarts⟩ := h.starts
  have hstarted : StartedFrom s (evaluateUpTo s d) earlier force r call mid child :=
    ⟨hstarts, h.gives, h.frozen, h.since⟩
  exact hstarted.bindings (contained_evaluateUpTo s d) hearlier.sound

/-- At the end of an evaluation, the module of every evaluated call has been evaluated with the inputs that its
block gave in one earlier state of the run, when all of them were known or nothing was left to wait for, and
is still as that evaluation left it. An input is what its attribute is worth at the end exactly if the
attribute was worth the same then. -/
theorem inputs_of_evaluated (h : Reached s d r) {modules : List ModuleInstance} {done : ModuleRun}
    (heval : evaluateWith s (evaluateUpTo s d) r = .ok (modules, done)) (hcall : call ∈ done.calls)
    (hresult : call.result = some result) :
    ∃ mid child, Evaluation s d done call mid child
      ∧ child.inputs = moduleInputs mid.arena (mid.arena.block call.block)
      ∧ done.arena.scopes.bindings call.root = child.bindings
      ∧ ∀ attr, IsInput (done.arena.block call.block) attr →
        (child.inputs.get? attr.name = some (done.arena.resolve (done.arena.block call.block) attr) ↔
          mid.arena.resolve (mid.arena.block call.block) attr
            = done.arena.resolve (done.arena.block call.block) attr) := by
  obtain ⟨mid, child, hev⟩ := (h.evaluateWith heval).evaluation hcall hresult
  refine ⟨mid, child, hev, hev.inputs, hev.bindings, fun attr hattr => ?_⟩
  have hinput : IsInput (mid.arena.block call.block) attr := by
    rw [IsInput, hev.inputAttributes_eq]
    exact hattr
  rw [hev.inputs, get?_moduleInputs _ hinput, Option.some.injEq]

/-! ## A run in which inputs change -/

/-- A directory with a variable without type or default, and an output that is always the same. -/
def constantOutput : Loader where
  load _ := .ok "\x7b\"variable\": \x7b\"x\": \x7b\x7d\x7d, \"output\": \x7b\"k\": \x7b\"value\": \"v\"\x7d\x7d\x7d"
  list dir := .ok [dir ++ "/main.tf.json"]

/-- Calls whose inputs wait for outputs: `early` reads a resource that does so in one of its attributes, and `own`
reads its own output. -/
def lateInputs : List SourceFile :=
  let source : Attribute := ⟨"source", .text "./c", default⟩
  let read (root : String) (path : List String) : Expr := .traversal (.variable root) (path.map .attribute)
  [⟨"main.tf", "", [
    .node "resource" ["r", "n"]
      [⟨"a", .text "v", default⟩, ⟨"b", read "module" ["late", "k"], default⟩] [] default,
    .node "module" ["early"] [source, ⟨"x", read "r" ["n"], default⟩] [] default,
    .node "module" ["late"] [source] [] default,
    .node "module" ["own"] [source, ⟨"x", read "module" ["own", "k"], default⟩] [] default]⟩]

theorem inputs_of_evaluated_lateInputs :
    let s : Session := ⟨constantOutput, "/", "default", false, 6, []⟩
    let r := Project.rootRun s [] lateInputs
    ∃ modules done call result, Reached s 999 r
      ∧ evaluateWith s (evaluateUpTo s 999) r = .ok (modules, done)
      ∧ call ∈ done.calls ∧ call.result = some result
      ∧ ∃ mid child, Evaluation s 999 done call mid child
        ∧ child.inputs = moduleInputs mid.arena (mid.arena.block call.block)
        ∧ done.arena.scopes.bindings call.root = child.bindings
        ∧ ∀ attr, IsInput (done.arena.block call.block) attr →
          (child.inputs.get? attr.name = some (done.arena.resolve (done.arena.block call.block) attr) ↔
            mid.arena.resolve (mid.arena.block call.block) attr
              = done.arena.resolve (done.arena.block call.block) attr) := by
  intro s r
  have hcheck : (evaluateWith s (evaluateUpTo s 999) r).toOption.any (fun (_, done) =>
      done.calls.any (·.result.isSome)) = true := by
    decide +kernel
  obtain ⟨⟨modules, done⟩, hdone, hany⟩ := (Option.any_eq_true _ _).mp hcheck
  obtain ⟨call, hcall, hresult⟩ := List.any_eq_true.mp hany
  obtain ⟨result, hresult⟩ := Option.isSome_iff_exists.mp hresult
  have hreached : Reached s 999 r := .root [] lateInputs
  have heval := eq_ok_of_toOption hdone
  exact ⟨modules, done, call, result, hreached, heval, hcall, hresult,
    inputs_of_evaluated hreached heval hcall hresult⟩

/-- A call whose variable is not what the attribute of its name is worth in the calling module. -/
def OutOfStep (done : ModuleRun) (call : ModuleCall) : Prop :=
  ∃ attr id v, IsInput (done.arena.block call.block) attr
    ∧ id ∈ call.blocks ∧ (done.arena.block id).kind = .variable
    ∧ (done.arena.block id).typeLabel = attr.name ∧ (done.arena.block id).attributes = []
    ∧ done.arena.scopes.get? call.root ["var", attr.name] = some v
    ∧ v ≠ done.arena.resolve (done.arena.block call.block) attr

def outOfStep (done : ModuleRun) (call : ModuleCall) (before after : Value) : Bool :=
  match inputAttributes (done.arena.block call.block) with
  | [attr] =>
    call.blocks.any (fun id => (done.arena.block id).kind == .variable
      && (done.arena.block id).typeLabel == attr.name && (done.arena.block id).attributes.isEmpty)
    && (done.arena.scopes.get? call.root ["var", attr.name]).any before.identical
    && after.identical (done.arena.resolve (done.arena.block call.block) attr)
  | _ => false

theorem OutOfStep.of_outOfStep {done : ModuleRun} {before after : Value} (hne : before ≠ after)
    (h : outOfStep done call before after = true) : OutOfStep done call := by
  rw [outOfStep] at h
  split at h
  · next attr hattr =>
    simp only [Bool.and_eq_true] at h
    obtain ⟨⟨hvariable, hbefore⟩, hafter⟩ := h
    obtain ⟨id, hid, hblock⟩ := List.any_eq_true.mp hvariable
    simp only [Bool.and_eq_true, beq_iff_eq, List.isEmpty_iff] at hblock
    obtain ⟨v, hv, hsame⟩ := (Option.any_eq_true _ _).mp hbefore
    obtain rfl := Value.eq_of_identical hsame
    refine ⟨attr, id, before, ⟨[], [], hattr, by simp⟩, hid, hblock.1.1, hblock.1.2, hblock.2, hv, ?_⟩
    rw [← Value.eq_of_identical hafter]
    exact hne
  · cases h

/-- Even if all loops stop by agreement, inputs do not follow what their attributes are worth at the end: neither
those of a call that was evaluated because they were known, nor those of one that was left to the end. -/
theorem inputs_out_of_step :
    let s : Session := ⟨constantOutput, "/", "default", false, 6, []⟩
    ∃ modules done early own, agreeingUpTo s 1000 (Project.rootRun s [] lateInputs) = .ok (modules, done)
      ∧ early ∈ done.calls ∧ early.name = "early" ∧ early.result.isSome = true ∧ OutOfStep done early
      ∧ own ∈ done.calls ∧ own.name = "own" ∧ own.result.isSome = true ∧ OutOfStep done own := by
  intro s
  have hcheck : (agreeingUpTo s 1000 (Project.rootRun s [] lateInputs)).toOption.any (fun (_, done) =>
      done.calls.any (fun call => call.name == "early" && call.result.isSome
        && outOfStep done call (.object [("a", .text "v")]) (.object [("a", .text "v"), ("b", .text "v")]))
      && done.calls.any (fun call => call.name == "own" && call.result.isSome
        && outOfStep done call .unknown (.text "v"))) = true := by
    decide +kernel
  obtain ⟨⟨modules, done⟩, hdone, hboth⟩ := (Option.any_eq_true _ _).mp hcheck
  obtain ⟨hearly, hown⟩ := Bool.and_eq_true_iff.mp hboth
  obtain ⟨early, hearly, hone⟩ := List.any_eq_true.mp hearly
  obtain ⟨own, hown, hother⟩ := List.any_eq_true.mp hown
  simp only [Bool.and_eq_true, beq_iff_eq] at hone hother
  exact ⟨modules, done, early, own, eq_ok_of_toOption hdone, hearly, hone.1.1, hone.1.2,
    .of_outOfStep (by simp) hone.2, hown, hother.1.1, hother.1.2, .of_outOfStep (by simp) hother.2⟩

end ModuleRun

end InfraConfig
