import InfraConfig.Proofs.CalledBlocks
import Mathlib.Logic.Relation

/-!
# Enclosing calls

The evaluators of a project are nested: each has been started by a call of the one around it. What an evaluator
has been told of at its beginning are the calls around it, and those that the evaluators around it had finished
by then. Of its own calls it leaves out those, and no others.
-/

namespace InfraConfig

namespace ModuleRun

variable {s : Session} {run : Evaluate} {force : Bool} {d : Nat} {start r mid next done : ModuleRun}
  {call later : ModuleCall} {modules : List ModuleInstance} {inputs : Entries Value} {sources : List SourceFile}

/-! ## Nested evaluators -/

/-- An evaluator at the moment in which it starts one of its calls. -/
structure Frame where
  state : ModuleRun
  call : ModuleCall
  others : List ModuleCall

namespace Frame

/-- The calls that are finished at this moment. -/
def earlier (frame : Frame) : List ModuleCall :=
  frame.others.filter ModuleCall.isFinished

/-- What an evaluator is told by the one around it. -/
def visits (frame : Frame) : List VisitedModule :=
  (frame.earlier ++ [frame.call]).map (visit frame.state.arena)

end Frame

/-- The beginnings of the evaluators of a project, each with those around it from the inside out. -/
inductive Nested (s : Session) (inputs : Entries Value) (sources : List SourceFile) :
    Nat → ModuleRun → List Frame → Prop where
  | root : Nested s inputs sources 999 (Project.rootRun s inputs sources) []
  | child {d start r mid frames before call after done} (h : Nested s inputs sources (d + 1) start frames)
      (hr : Continues s (evaluateUpTo s (d + 1)) start r) (force : Bool)
      (hcalls : r.calls = before ++ call :: after)
      (hbefore : r.evaluateEach s (evaluateUpTo s (d + 1)) force before = .ok (done, mid))
      (isOpen : call.result = none)
      (due : force = true ∨
        (Value.object (moduleInputs mid.arena (mid.arena.block call.block))).isWhollyKnown = true) :
      Nested s inputs sources d (mid.started s call) (⟨mid, call, done ++ after⟩ :: frames)

variable {frames : List Frame}

theorem Nested.begins (h : Nested s inputs sources d start frames) : Begins s d start := by
  induction h with
  | root => exact .root inputs sources
  | child _ hr force hcalls hbefore isOpen due ih =>
    exact .child (hr.reached ih.reached) force ⟨⟨_, _, _, hcalls, hbefore⟩, isOpen, due⟩

/-- Every state of a project is one of a nested evaluator. -/
theorem Reached.exists_nested (h : Reached s d r) : ∃ inputs sources start frames,
    Nested s inputs sources d start frames ∧ Continues s (evaluateUpTo s d) start r := by
  induction h with
  | root inputs sources => exact ⟨inputs, sources, _, _, .root, .start⟩
  | bind _ ih =>
    obtain ⟨_, _, _, _, hnested, hr⟩ := ih
    exact ⟨_, _, _, _, hnested, hr.bind⟩
  | calls _ force hcalls ih =>
    obtain ⟨_, _, _, _, hnested, hr⟩ := ih
    exact ⟨_, _, _, _, hnested, hr.calls force hcalls⟩
  | read _ ih =>
    obtain ⟨_, _, _, _, hnested, hr⟩ := ih
    exact ⟨_, _, _, _, hnested, hr.read⟩
  | load _ hload ih =>
    obtain ⟨_, _, _, _, hnested, hr⟩ := ih
    exact ⟨_, _, _, _, hnested, hr.load hload⟩
  | expand _ ih =>
    obtain ⟨_, _, _, _, hnested, hr⟩ := ih
    exact ⟨_, _, _, _, hnested, hr.expand⟩
  | child _ force hstarts ih =>
    obtain ⟨_, _, _, _, hnested, hr⟩ := ih
    obtain ⟨before, after, finished, hcalls, hbefore⟩ := hstarts.reached
    exact ⟨_, _, _, _, hnested.child hr force hcalls hbefore hstarts.isOpen hstarts.due, .start⟩

/-! ## What an evaluator is told -/

theorem visited_started (s : Session) (mid : ModuleRun) (call : ModuleCall) :
    (mid.started s call).visited = mid.visited ++ [visit mid.arena call] := rfl

/-- An evaluator has been told what the evaluator around it had been told, and what that one has evaluated itself. -/
theorem Tracks.visited_perm (h : Tracks start r) (hrun : KeepsTexts run) {before after done : List ModuleCall}
    (hcalls : r.calls = before ++ call :: after) (hbefore : r.evaluateEach s run force before = .ok (done, mid))
    (isOpen : call.result = none) :
    (mid.started s call).visited.Perm (start.visited ++ Frame.visits ⟨mid, call, done ++ after⟩) := by
  obtain ⟨finished, hlog, hperm⟩ := h.record
  obtain ⟨⟨more, hrecords⟩, -, -⟩ := evaluateEach_records hrun
    (fun c hc => h.calling c (hcalls ▸ List.mem_append_left _ hc)) hbefore
  have hkept := evaluateEach_keepsText hrun hbefore
  have hcalling : ∀ c ∈ finished, Calling r.arena c :=
    fun c hc => h.calling c (List.mem_filter.mp (hperm.symm.subset hc)).1
  have hnot : ¬ call.isFinished = true := by simp [ModuleCall.isFinished, isOpen]
  have hall : (finished ++ more).Perm ((done ++ after).filter ModuleCall.isFinished) := by
    have hafter : r.calls.filter ModuleCall.isFinished
        = before.filter ModuleCall.isFinished ++ after.filter ModuleCall.isFinished := by
      rw [hcalls, List.filter_append, List.filter_cons_of_neg hnot]
    rw [List.filter_append]
    have hfirst := (hperm.symm.append_right more).trans (.of_eq (congrArg (· ++ more) hafter))
    refine hfirst.trans (.trans ?_ (hrecords.perm.symm.append_right _))
    rw [List.append_assoc, List.append_assoc]
    exact .append_left _ List.perm_append_comm
  have hvisited : mid.visited = start.visited ++ (finished ++ more).map (visit mid.arena) := by
    rw [hrecords.visited, hlog, List.map_append, visits_eq hcalling hkept, List.append_assoc]
  have hvisits : Frame.visits ⟨mid, call, done ++ after⟩
      = ((done ++ after).filter ModuleCall.isFinished).map (visit mid.arena) ++ [visit mid.arena call] :=
    List.map_append
  rw [visited_started, hvisited, List.append_assoc, hvisits]
  exact .append_left _ ((hall.map _).append_right _)

/-- What an evaluator has been told at its beginning: the calls around it, and what had been evaluated before each
of them. -/
theorem Nested.visited_perm (h : Nested s inputs sources d start frames) :
    start.visited.Perm (frames.flatMap Frame.visits) := by
  induction h with
  | root => exact .refl _
  | @child d start r mid frames before call after done hstart hr force hcalls hbefore isOpen due ih =>
    have hrun := contained_evaluateUpTo s (d + 1)
    have htexts := keepsTexts_evaluateUpTo s (d + 1)
    have htracks := hr.tracks hrun htexts hstart.begins.reached.sound hstart.begins.calls_eq
    rw [List.flatMap_cons]
    refine (htracks.visited_perm htexts hcalls hbefore isOpen).trans ?_
    exact (ih.append_right _).trans List.perm_append_comm

/-! ## Which directories call which -/

/-- An evaluator stays in its directory. -/
theorem Continues.path (hrun : Contained run) (hs : start.Sound) (h : Continues s run start r) :
    r.module.path = start.module.path := by
  induction h with
  | start => rfl
  | @bind r _ ih => rw [(Rebinds.bindBlocks r).module, ih]
  | calls h force hcalls ih => rw [evaluateCalls_module hrun (h.sound hrun hs) hcalls, ih]
  | read _ ih => exact ih
  | load _ hload ih =>
    rw [loadModules_eq] at hload
    rw [loadCalls_module hload]
    exact ih
  | expand _ ih => exact ih

/-- A call was opened for one of the blocks that stood for the module blocks of an earlier state. -/
structure OpenedEarlier (s : Session) (run : Evaluate) (start earlier r : ModuleRun) (id : BlockId)
    (call : ModuleCall) : Prop where
  continues : Continues s run start earlier
  mem : id ∈ earlier.expandCalls.1
  kept : earlier.expandCalls.2.arena.KeepsText r.arena
  opened : ∃ opened, OpenedFor s earlier.expandCalls.2 r id opened ∧ Later opened call

theorem OpenedEarlier.keeps {earlier : ModuleRun} {id : BlockId} (h : OpenedEarlier s run start earlier r id call)
    (hkept : r.arena.KeepsText next.arena) (hlater : Later call later) :
    OpenedEarlier s run start earlier next id later := by
  obtain ⟨opened, hopened, hone⟩ := h.opened
  exact ⟨h.continues, h.mem, h.kept.trans hkept, opened, hopened.later hkept, hone.trans hlater⟩

theorem Continues.exists_openedEarlier (hrun : Contained run) (htexts : KeepsTexts run) (hs : start.Sound)
    (hcalls : start.calls = []) (h : Continues s run start r) (hcall : call ∈ r.calls) :
    ∃ earlier id, OpenedEarlier s run start earlier r id call := by
  induction h generalizing call with
  | start => simp [hcalls] at hcall
  | @bind r _ ih =>
    have hbinds := Rebinds.bindBlocks r
    obtain ⟨earlier, id, hopened⟩ := ih (hbinds.calls ▸ hcall)
    exact ⟨earlier, id, hopened.keeps (.ofBlocks hbinds.blocks) (.inl rfl)⟩
  | calls h force hnext ih =>
    obtain ⟨before, hbefore, hone⟩ := exists_of_mem_later ((h.sound hrun hs).evaluateCalls_later hrun hnext) hcall
    obtain ⟨earlier, id, hopened⟩ := ih hbefore
    exact ⟨earlier, id, hopened.keeps (evaluateCalls_keepsText htexts hnext) hone⟩
  | read _ ih =>
    obtain ⟨earlier, id, hopened⟩ := ih hcall
    exact ⟨earlier, id, hopened.keeps (.ofBlocks rfl) (.inl rfl)⟩
  | load h hload ih =>
    obtain ⟨-, opened, hnext, hmatch, -⟩ := loadModules_opened (h.sound hrun hs) hload
    rcases List.mem_append.mp (hnext ▸ hcall) with hold | hnew
    · obtain ⟨earlier, id, hopened⟩ := ih hold
      exact ⟨earlier, id, hopened.keeps (loadModules_keepsText hload) (.inl rfl)⟩
    · obtain ⟨i, hi, rfl⟩ := List.getElem_of_mem hnew
      have hone := hmatch.get (hmatch.length_eq ▸ hi) hi
      have hmem := (List.mem_filter.mp (List.get_mem _ ⟨i, hmatch.length_eq ▸ hi⟩)).1
      rw [loadModules_eq] at hload
      exact ⟨_, _, h, hmem, loadCalls_keepsText hload, _, hone, .inl rfl⟩
  | expand _ ih =>
    obtain ⟨earlier, id, hopened⟩ := ih hcall
    exact ⟨earlier, id, hopened.keeps (expandBlocks_keepsText _) (.inl rfl)⟩

/-- In a project, a module block that is met in one directory leads to another. -/
def CallsDirectory (s : Session) (inputs : Entries Value) (sources : List SourceFile) (p q : String) : Prop :=
  ∃ d start frames r id target, Nested s inputs sources d start frames
    ∧ Continues s (evaluateUpTo s d) start r ∧ id ∈ r.expandCalls.1
    ∧ LeadsTo s r.expandCalls.2 (r.expandCalls.2.arena.block id) target
    ∧ start.module.path = p ∧ target.path = q

theorem OpenedEarlier.block {earlier : ModuleRun} {id : BlockId} (h : OpenedEarlier s run start earlier r id call) :
    call.block = id := by
  obtain ⟨opened, hopened, hone⟩ := h.opened
  rw [← hopened.block]
  rcases hone with rfl | ⟨-, result, rfl⟩ <;> rfl

theorem OpenedEarlier.leadsTo {earlier : ModuleRun} {id : BlockId}
    (h : OpenedEarlier s run start earlier r id call) : ∃ target,
      LeadsTo s earlier.expandCalls.2 (earlier.expandCalls.2.arena.block id) target ∧ target.path = call.path := by
  obtain ⟨opened, hopened, hone⟩ := h.opened
  obtain ⟨target, files, hopening, -, hpath, -⟩ := hopened.opening
  refine ⟨target, (opening?_eq_some_iff.mp hopening).1, hpath.symm.trans ?_⟩
  rcases hone with rfl | ⟨-, result, rfl⟩ <;> rfl

/-- The directory of each evaluator calls that of the evaluator that it has started. -/
theorem Nested.callsDirectory (h : Nested s inputs sources d start frames)
    (hr : Continues s (evaluateUpTo s d) start r) (hcall : call ∈ r.calls) :
    CallsDirectory s inputs sources start.module.path call.path := by
  have hs := h.begins.reached.sound
  obtain ⟨earlier, id, hopened⟩ := hr.exists_openedEarlier (contained_evaluateUpTo s d)
    (keepsTexts_evaluateUpTo s d) hs h.begins.calls_eq hcall
  obtain ⟨target, hleads, hpath⟩ := hopened.leadsTo
  exact ⟨d, start, frames, earlier, id, target, h, hopened.continues, hopened.mem, hleads, rfl, hpath⟩

theorem path_started (s : Session) (mid : ModuleRun) (call : ModuleCall) :
    (mid.started s call).module.path = call.path := rfl

/-- Each directory around an evaluator calls the next one, and that leads to its own. -/
theorem Nested.leads (h : Nested s inputs sources d start frames) : ∀ frame ∈ frames,
    CallsDirectory s inputs sources frame.state.module.path frame.call.path
      ∧ Relation.ReflTransGen (CallsDirectory s inputs sources) frame.call.path start.module.path := by
  induction h with
  | root => simp
  | @child d start r mid frames before call after done hstart hr force hcalls hbefore isOpen due ih =>
    have hs := hstart.begins.reached.sound
    have hrun := contained_evaluateUpTo s (d + 1)
    have hmem : call ∈ r.calls := hcalls ▸ List.mem_append_right _ List.mem_cons_self
    have hcalled := hstart.callsDirectory hr hmem
    refine List.forall_mem_cons.mpr ⟨⟨?_, .refl⟩, fun frame hframe => ?_⟩
    · obtain ⟨-, -, visited, hmid⟩ := evaluateEach_changes hrun (hr.sound hrun hs)
        (hcalls ▸ List.subset_append_left _ _) hbefore
      have hpath : mid.module.path = start.module.path := by rw [hmid, ← hr.path hrun hs]
      rw [hpath]
      exact hcalled
    · exact (ih frame hframe).imp_right fun hleads => hleads.tail hcalled

/-! ## Whole evaluations -/

namespace Phases

variable {settled loaded resettled expanded : ModuleRun} {id : BlockId}

theorem advances_loaded (h : Phases s run start settled loaded resettled expanded done) (hrun : Contained run)
    (hs : start.Sound) : Advances (fun _ => True) loaded done := by
  have hresettled := settle_advances hrun (h.sound_loaded hrun hs) (.all loaded) h.resettle
  have hblocks := expandBlocks_advances hresettled.sound hresettled.covers
  exact (hresettled.trans hblocks).trans (h.advances_done hrun hs)

/-- Until the modules are loaded, an evaluator knows of no other calls than it has been told of. -/
theorem visited_settled (h : Phases s run start settled loaded resettled expanded done) (hrun : Contained run)
    (htexts : KeepsTexts run) (hs : start.Sound) (hcalls : start.calls = []) :
    settled.expandCalls.2.visited = start.visited := by
  obtain ⟨finished, hlog, hperm⟩ := ((Continues.start.settle h.settle).tracks hrun htexts hs hcalls).record
  have hnone := hs.settle_later hrun h.settle
  rw [hcalls, List.forall₂_nil_left_iff] at hnone
  rw [hnone, List.filter_nil, List.nil_perm] at hperm
  have hsame : settled.expandCalls.2.visited = settled.visited := rfl
  rw [hsame, hlog, hperm, List.map_nil, List.append_nil]

end Phases

/-- Which of the blocks that lead to a directory are called: all those whose call is none of the calls around the
evaluator, and none that had been evaluated before one of those. Where no directory calls itself, even through
others, only the latter are left out, and the evaluator that had evaluated them is one of another directory. -/
structure MakesCalls (s : Session) (inputs : Entries Value) (sources : List SourceFile) (start : ModuleRun)
    (frames : List Frame) (settled : ModuleRun) (modules : List ModuleInstance) : Prop where
  called : ∀ id ∈ settled.expandCalls.1, ∀ target files,
    LeadsTo s settled.expandCalls.2 (settled.expandCalls.2.arena.block id) target →
    s.loader.loadDirectory target.path s.stopOnError = .ok files →
    modules.countP (fun m => m.caller == some id) = if target ∈ frames.flatMap Frame.visits then 0 else 1
  repeated : (∀ p, ¬ Relation.TransGen (CallsDirectory s inputs sources) p p) →
    ∀ id ∈ settled.expandCalls.1, ∀ target,
      LeadsTo s settled.expandCalls.2 (settled.expandCalls.2.arena.block id) target →
      target ∈ frames.flatMap Frame.visits →
      ∃ frame ∈ frames, target ∈ frame.earlier.map (visit frame.state.arena)
        ∧ frame.state.module.path ≠ start.module.path

/-- A block that leads to a directory is called, unless its call is one of those that the evaluator has been told
of. -/
theorem evaluateWith_makes_calls (h : Nested s inputs sources d start frames)
    (heval : evaluateWith s (evaluateUpTo s d) start = .ok (modules, done)) :
    ∃ settled loaded resettled expanded,
      Phases s (evaluateUpTo s d) start settled loaded resettled expanded done
      ∧ MakesCalls s inputs sources start frames settled modules := by
  have hrun := contained_evaluateUpTo s d
  have hbegins := h.begins
  have hs := hbegins.reached.sound
  have hcalls := hbegins.calls_eq
  obtain ⟨settled, loaded, resettled, expanded, hphases, rfl⟩ := exists_phases heval
  refine ⟨settled, loaded, resettled, expanded, hphases, fun id hid target files hleads hfiles => ?_,
    fun hacyclic id hid target hleads hvisited => ?_⟩
  · have hlisted : id ∈ loaded.module.blocks := hphases.listed_loaded ▸ List.mem_append_right _ hid
    have hloaded := hphases.sound_loaded hrun hs
    have hadvances := hphases.advances_loaded hrun hs
    have hhas : done.arena.Has done.root id :=
      hadvances.root.symm ▸ (hloaded.blocks id hlisted).changes hloaded.well hadvances.changes
    have hcalled : id ∈ done.calls.map ModuleCall.block ↔ target ∉ frames.flatMap Frame.visits := by
      rw [blocks_of_later (hphases.finished hrun hs).1, blocks_of_opened (hphases.opened_loaded hrun hs hcalls).1,
        List.mem_filter, and_iff_right hid, ← h.visited_perm.mem_iff,
        ← hphases.visited_settled hrun (keepsTexts_evaluateUpTo s d) hs hcalls]
      constructor
      · intro hopening
        obtain ⟨⟨other, texts⟩, hopening⟩ := Option.isSome_iff_exists.mp hopening
        obtain ⟨hother, hnot, -⟩ := opening?_eq_some_iff.mp hopening
        rwa [← hother.unique hleads]
      · intro hnot
        rw [opening?_eq_some_iff.mpr ⟨hleads, hnot, hfiles⟩]
        rfl
    rw [hbegins.countP_callers hphases hhas]
    split
    · next hvisited => exact List.count_eq_zero.mpr fun hmem => hcalled.mp hmem hvisited
    · next hnot => exact List.count_eq_one_of_mem (hbegins.nodup_called hphases) (hcalled.mpr hnot)
  · obtain ⟨frame, hframe, hmem⟩ := List.mem_flatMap.mp hvisited
    obtain ⟨hcalls, htail⟩ := h.leads frame hframe
    rw [Frame.visits, List.map_append, List.mem_append] at hmem
    rcases hmem with hearlier | hcall
    · refine ⟨frame, hframe, hearlier, fun hsame => hacyclic start.module.path ?_⟩
      exact .head' (hsame ▸ hcalls) htail
    -- The call would lead back to a directory around the evaluator.
    · obtain rfl := List.mem_singleton.mp hcall
      have hback : CallsDirectory s inputs sources start.module.path frame.call.path :=
        ⟨d, start, frames, settled, id, _, h, Continues.start.settle hphases.settle, hid, hleads, rfl, rfl⟩
      exact absurd (.head' hback htail) (hacyclic _)

/-- Directories of which one calls another. -/
def callsBelow : Loader where
  load path := .ok (if path == "/b/main.tf.json" then "\x7b\"module\": \x7b\"c\": \x7b\"source\": \"../c\"\x7d\x7d\x7d"
    else "\x7b\x7d")
  list dir := .ok [dir ++ "/main.tf.json"]

/-- A call of a directory, and after it one of another directory that calls the first by the same name. -/
def calledBefore : List SourceFile :=
  let call (name : String) : BlockTree := .node "module" [name] [⟨"source", .text ("./" ++ name), default⟩] [] default
  [⟨"main.tf", "", [call "c", call "b"]⟩]

/-- The evaluator that the root module starts for a call when it comes to its calls for the first time. -/
def firstStarted (s : Session) (sources : List SourceFile) (n : Nat) : Option (ModuleRun × Frame) := do
  let settled ← ((Project.rootRun s [] sources).settle s (evaluateUpTo s 999)).toOption
  let loaded ← (settled.loadModules s).toOption
  let r := loaded.bindBlocks
  let (done, mid) ← (r.evaluateEach s (evaluateUpTo s 999) false (r.calls.take n)).toOption
  match r.calls.drop n with
  | call :: after =>
    if call.result.isNone
        && (Value.object (moduleInputs mid.arena (mid.arena.block call.block))).isWhollyKnown then
      some (mid.started s call, ⟨mid, call, done ++ after⟩)
    else none
  | [] => none

theorem nested_firstStarted {n : Nat} {frame : Frame} (h : firstStarted s sources n = some (start, frame)) :
    Nested s [] sources 998 start [frame] := by
  rw [firstStarted] at h
  simp only [Option.bind_eq_bind, Option.bind_eq_some_iff] at h
  obtain ⟨settled, hsettled, loaded, hloaded, ⟨done, mid⟩, hbefore, h⟩ := h
  have hr : Continues s (evaluateUpTo s 999) (Project.rootRun s [] sources) loaded.bindBlocks :=
    ((Continues.start.settle (eq_ok_of_toOption hsettled)).load (eq_ok_of_toOption hloaded)).bind
  split at h
  · next call after hafter =>
    split at h
    · next hdue =>
      obtain ⟨hnone, hknown⟩ := Bool.and_eq_true_iff.mp hdue
      obtain ⟨rfl, rfl⟩ := Prod.mk.inj (Option.some.inj h)
      have hcalls := (List.take_append_drop n loaded.bindBlocks.calls).symm
      exact .child .root hr false (hafter ▸ hcalls) (eq_ok_of_toOption hbefore)
        (Option.isNone_iff_eq_none.mp hnone) (.inr hknown)
    · cases h
  · cases h

/-- Here a call is left out that is none of those around it: one of the same name, directory and definition had been
evaluated before. -/
theorem call_left_out_unenclosed :
    let s : Session := ⟨callsBelow, "/", "default", false, 6, []⟩
    ∃ d start frames modules done settled, Nested s [] calledBefore d start frames
      ∧ evaluateWith s (evaluateUpTo s d) start = .ok (modules, done)
      ∧ start.settle s (evaluateUpTo s d) = .ok settled
      ∧ ∃ id ∈ settled.expandCalls.1, ∃ target files,
        LeadsTo s settled.expandCalls.2 (settled.expandCalls.2.arena.block id) target
        ∧ s.loader.loadDirectory target.path s.stopOnError = .ok files
        ∧ (∀ m ∈ modules, m.caller ≠ some id)
        ∧ ∀ frame ∈ frames, visit frame.state.arena frame.call ≠ target := by
  intro s
  have hcheck : (firstStarted s calledBefore 1).any (fun (start, frame) =>
      (evaluateWith s (evaluateUpTo s 998) start).toOption.any fun evaluated =>
        (start.settle s (evaluateUpTo s 998)).toOption.any fun settled =>
          settled.expandCalls.1.any fun id =>
            (opening? s { settled.expandCalls.2 with visited := [] } id).any fun opening =>
              evaluated.1.all (fun m => m.caller != some id)
                && visit frame.state.arena frame.call != opening.1) = true := by
    decide +kernel
  obtain ⟨⟨start, frame⟩, hstart, hcheck⟩ := (Option.any_eq_true _ _).mp hcheck
  obtain ⟨⟨modules, done⟩, hdone, hcheck⟩ := (Option.any_eq_true _ _).mp hcheck
  obtain ⟨settled, hsettled, hcheck⟩ := (Option.any_eq_true _ _).mp hcheck
  obtain ⟨id, hid, hcheck⟩ := List.any_eq_true.mp hcheck
  obtain ⟨⟨target, files⟩, hopening, hcheck⟩ := (Option.any_eq_true _ _).mp hcheck
  obtain ⟨hnone, hother⟩ := Bool.and_eq_true_iff.mp hcheck
  obtain ⟨hleads, -, hfiles⟩ := opening?_eq_some_iff.mp hopening
  refine ⟨998, start, [frame], modules, done, settled, nested_firstStarted hstart, eq_ok_of_toOption hdone,
    eq_ok_of_toOption hsettled, id, hid, target, files, ⟨hleads.named, hleads.name, hleads.definition, hleads.source⟩,
    hfiles, fun m hm => bne_iff_ne.mp (List.all_eq_true.mp hnone m hm), fun other hmem => ?_⟩
  obtain rfl := List.mem_singleton.mp hmem
  exact bne_iff_ne.mp hother

theorem evaluateWith_makes_calls_calledBefore :
    let s : Session := ⟨callsBelow, "/", "default", false, 6, []⟩
    ∃ start frame modules done, Nested s [] calledBefore 998 start [frame]
      ∧ evaluateWith s (evaluateUpTo s 998) start = .ok (modules, done)
      ∧ ∃ settled loaded resettled expanded,
        Phases s (evaluateUpTo s 998) start settled loaded resettled expanded done
        ∧ MakesCalls s [] calledBefore start [frame] settled modules := by
  intro s
  have hcheck : (firstStarted s calledBefore 1).any (fun started =>
      (evaluateWith s (evaluateUpTo s 998) started.1).toOption.isSome) = true := by
    decide +kernel
  obtain ⟨⟨start, frame⟩, hstart, hcheck⟩ := (Option.any_eq_true _ _).mp hcheck
  obtain ⟨⟨modules, done⟩, hdone⟩ := Option.isSome_iff_exists.mp hcheck
  have hnested := nested_firstStarted hstart
  have heval := eq_ok_of_toOption hdone
  exact ⟨start, frame, modules, done, hnested, heval, evaluateWith_makes_calls hnested heval⟩

end ModuleRun

end InfraConfig
