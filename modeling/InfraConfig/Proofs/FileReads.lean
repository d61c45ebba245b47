import InfraConfig.Proofs.FreshFiles
import InfraConfig.Proofs.NestedEvaluations

/-!
# What is read

The paths that an evaluation gives to the loader for file functions, in their order. They are told step by step along
the evaluation, also where it fails: what has been read before a failure has been read.
-/

namespace InfraConfig

open FilePath (IsPlace)

/-- What is read in the rest of a computation, if it gets there. -/
def readsAfter {α : Type} (x : Except LoadProblem α) (reads : α → List String) : List String :=
  match x with
  | .ok v => reads v
  | .error _ => []

namespace ModuleRun

/-! ## Reads of each step -/

/-- Whether a call is evaluated when it has its turn. -/
def isDue (force : Bool) (r : ModuleRun) (call : ModuleCall) : Bool :=
  call.result.isNone
    && (force || (Value.object (moduleInputs r.arena (r.arena.block call.block))).isWhollyKnown)

/-- What a call reads when it has its turn. -/
def callReads (s : Session) (reads : ModuleRun → List String) (force : Bool) (r : ModuleRun) (call : ModuleCall) :
    List String :=
  if isDue force r call then reads (r.started s call) else []

def eachReads (s : Session) (run : Evaluate) (reads : ModuleRun → List String) (force : Bool) (r : ModuleRun) :
    List ModuleCall → List String
  | [] => []
  | call :: rest => r.callReads s reads force call
      ++ readsAfter (r.evaluateCall s run force call) fun v => v.2.eachReads s run reads force rest

/-- What the passes of a loop read: first in the calls, then for the module itself. -/
def convergeReads (s : Session) (run : Evaluate) (reads : ModuleRun → List String) :
    Nat → Option (Entries Value) → ModuleRun → List String
  | 0, _, _ => []
  | n + 1, previous, r => r.bindBlocks.eachReads s run reads false r.bindBlocks.calls
      ++ readsAfter (r.pass s run) fun passed =>
        let (read, next) := passed.readWanted s
        passed.requests ++
          if !read && previous.any fun previous => agree previous next.bindings then []
          else convergeReads s run reads n (some next.bindings) next

def settleReads (s : Session) (run : Evaluate) (reads : ModuleRun → List String) (r : ModuleRun) : List String :=
  convergeReads s run reads s.maxPasses none r

def forceReads (s : Session) (run : Evaluate) (reads : ModuleRun → List String) (r : ModuleRun) : List String :=
  if r.calls.any (·.result.isNone) then
    r.eachReads s run reads true r.calls ++ readsAfter (r.evaluateCalls s run true) (settleReads s run reads)
  else []

/-- What the evaluation of a module reads, whose calls are evaluated by `run` and read what `reads` tells. -/
def readsWith (s : Session) (run : Evaluate) (reads : ModuleRun → List String) (r : ModuleRun) : List String :=
  r.settleReads s run reads ++ readsAfter (r.settle s run) fun r =>
    readsAfter (r.loadModules s) fun r =>
      r.settleReads s run reads ++ readsAfter (r.settle s run) fun r =>
        r.expandBlocks.settleReads s run reads ++ readsAfter (r.expandBlocks.settle s run) fun r =>
          r.forceReads s run reads

/-- What the evaluation of a module reads. -/
def readsUpTo (s : Session) : Nat → ModuleRun → List String
  | 0, _ => []
  | depth + 1, r => readsWith s (evaluateUpTo s depth) (readsUpTo s depth) r

variable {s : Session} {run : Evaluate} {reads : ModuleRun → List String} {force : Bool} {d n : Nat}
  {start r mid next last settled : ModuleRun} {call later : ModuleCall} {calls done : List ModuleCall}
  {frames : List Frame} {inputs : Entries Value} {sources : List SourceFile} {modules : List ModuleInstance}
  {id : BlockId} {previous : Option (Entries Value)}

/-! ## Steps -/

theorem evaluateCall_of_isDue (h : isDue force r call = true) :
    r.evaluateCall s run force call = (run (r.started s call)).map fun (modules, done) =>
      ({ call with result := some ⟨modules, done.outputs⟩ },
        { r with arena := done.arena, visited := r.visited ++ [visit r.arena call] }) := by
  obtain ⟨hopen, hdue⟩ := Bool.and_eq_true_iff.mp h
  exact evaluateCall_of_due (Option.isNone_iff_eq_none.mp hopen) (by simpa using hdue)

/-- A call that is not due is left as it is. -/
theorem evaluateCall_of_waits (h : isDue force r call = false) :
    ∃ next, r.arena.Demands next.arena ∧ ∀ s run, r.evaluateCall s run force call = .ok (call, next) := by
  by_cases hopen : call.result.isSome
  · exact ⟨r, .refl _, fun s run => by rw [evaluateCall, if_pos hopen]⟩
  · have hwaits := (Bool.and_eq_false_iff.mp h).resolve_left (by simpa using hopen)
    refine ⟨r.noting [(r.arena.block call.block, inputAttributes (r.arena.block call.block))],
      demands_notingInputs r call.block, fun s run => ?_⟩
    rw [evaluateCall, if_neg hopen]
    dsimp only
    rw [if_neg (by simpa using hwaits)]

theorem Starts.of_isDue {before after : List ModuleCall} (hcalls : r.calls = before ++ call :: after)
    (hbefore : r.evaluateEach s run force before = .ok (done, mid)) (hdue : isDue force mid call = true) :
    Starts s run force r mid call := by
  obtain ⟨hopen, hready⟩ := Bool.and_eq_true_iff.mp hdue
  exact ⟨⟨before, after, done, hcalls, hbefore⟩, Option.isNone_iff_eq_none.mp hopen, by simpa using hready⟩

theorem evaluateEach_cons (s : Session) (run : Evaluate) (force : Bool) (r : ModuleRun) (call : ModuleCall)
    (calls : List ModuleCall) : r.evaluateEach s run force (call :: calls)
      = r.evaluateCall s run force call >>= fun v =>
        (v.2.evaluateEach s run force calls).map fun w => (v.1 :: w.1, w.2) := by
  rw [evaluateEach]
  cases r.evaluateCall s run force call <;> rfl

theorem converge_succ (s : Session) (run : Evaluate) (n : Nat) (previous : Option (Entries Value)) (r : ModuleRun) :
    converge s run (n + 1) previous r = r.pass s run >>= fun passed =>
      let (read, next) := passed.readWanted s
      if !read && previous.any fun previous => agree previous next.bindings then .ok next
      else converge s run n (some next.bindings) next := by
  rw [converge]
  cases r.pass s run <;> rfl

theorem loadCall_wants (h : r.loadCall s id = .ok next) : r.arena.files.Wants next.arena.files := by
  have hnoted := (demands_notingSource r id).wants
  rw [loadCall] at h
  dsimp only at h
  split at h
  · exact Except.ok.inj h ▸ hnoted
  · split at h
    · split at h
      · cases h
      · exact Except.ok.inj h ▸ hnoted
    · next files _ =>
      have hfiles := Arena.files_loadAll
        (if (r.arena.block id).label.isEmpty then r
          else r.noting [(r.arena.block id, ((r.arena.block id).attribute? "source").toList)]).arena (some id) files
      rw [← hfiles] at hnoted
      exact Except.ok.inj h ▸ hnoted

theorem loadCalls_wants {ids : List BlockId} (h : r.loadCalls s ids = .ok next) :
    r.arena.files.Wants next.arena.files := by
  induction ids generalizing r with
  | nil => exact Except.ok.inj h ▸ .refl _
  | cons id ids ih =>
    obtain ⟨mid, hmid, hrest⟩ := loadCalls_cons_eq_ok_iff.mp h
    exact (loadCall_wants hmid).trans (ih hrest)

theorem loadModules_wants (h : r.loadModules s = .ok next) : r.arena.files.Wants next.arena.files := by
  rw [loadModules_eq] at h
  have hexpanded : r.arena.Demands r.expandCalls.2.arena := demands_expand r _ _
  exact hexpanded.wants.trans (loadCalls_wants h)

/-! ## Reading once -/

/-- A computation that begins with a table of fresh files reads each file once, and none that is known already. Where
it ends, it knows what it has read besides. -/
structure ReadsOnce {α : Type} (s : Session) (arena : α → Arena) (t : FileTable) (x : Except LoadProblem α)
    (log : List String) : Prop where
  nodup : log.Nodup
  unread : ∀ p ∈ log, p ∉ t.contents.keys
  ends : ∀ v, x = .ok v → (arena v).files.Fresh s.root
    ∧ (arena v).files.contents = t.contents ++ s.loader.reading log

namespace ReadsOnce

variable {α β : Type} {arena : α → Arena} {arena' : β → Arena} {t u : FileTable} {x : Except LoadProblem α}
  {log : List String}

/-- A step that reads nothing. -/
theorem ok {v : α} (h : (arena v).files.Fresh s.root) (hcontents : (arena v).files.contents = t.contents) :
    ReadsOnce s arena t (.ok v) [] := by
  refine ⟨.nil, by simp, fun w hw => ?_⟩
  obtain rfl := Except.ok.inj hw
  exact ⟨h, by rw [hcontents]; exact (List.append_nil _).symm⟩

theorem bind {f : α → Except LoadProblem β} {more : α → List String} (h : ReadsOnce s arena t x log)
    (hf : ∀ v, x = .ok v → (arena v).files.Fresh s.root → ReadsOnce s arena' (arena v).files (f v) (more v)) :
    ReadsOnce s arena' t (x >>= f) (log ++ readsAfter x more) := by
  cases x with
  | error problem =>
    exact ⟨by simpa [readsAfter] using h.nodup, by simpa [readsAfter] using h.unread, fun w hw => by cases hw⟩
  | ok v =>
    obtain ⟨hfresh, hcontents⟩ := h.ends v rfl
    have hnext := hf v rfl hfresh
    have hkeys : (arena v).files.contents.keys = t.contents.keys ++ log := by
      rw [hcontents, Entries.keys, List.map_append]
      exact congrArg _ (s.loader.keys_reading log)
    -- What is read later is unknown where the first part ends, so neither was it known before nor read in between.
    have hafter (p : String) (hp : p ∈ more v) : p ∉ t.contents.keys ∧ p ∉ log := by
      have hunread := hnext.unread p hp
      rw [hkeys, List.mem_append, not_or] at hunread
      exact hunread
    refine ⟨?_, fun p hp => ?_, fun w hw => ?_⟩
    · refine List.nodup_append.mpr ⟨h.nodup, hnext.nodup, ?_⟩
      rintro p hp q hq rfl
      exact (hafter p hq).2 hp
    · exact (List.mem_append.mp hp).elim (h.unread p) fun hq => (hafter p hq).1
    · obtain ⟨hlast, hall⟩ := hnext.ends w hw
      refine ⟨hlast, ?_⟩
      rw [hall, hcontents, List.append_assoc, ← Loader.reading_append]
      rfl

theorem map {f : α → β} (h : ReadsOnce s arena t x log)
    (hf : ∀ v, (arena v).files.Fresh s.root → (arena' (f v)).files.Fresh s.root
      ∧ (arena' (f v)).files.contents = (arena v).files.contents) : ReadsOnce s arena' t (x.map f) log := by
  refine ⟨h.nodup, h.unread, fun w hw => ?_⟩
  cases x with
  | error problem => cases hw
  | ok v =>
    obtain rfl := Except.ok.inj hw
    obtain ⟨hfresh, hcontents⟩ := h.ends v rfl
    obtain ⟨hnext, hsame⟩ := hf v hfresh
    exact ⟨hnext, hsame.trans hcontents⟩

theorem congr (h : ReadsOnce s arena t x log) (hcontents : t.contents = u.contents) : ReadsOnce s arena u x log := by
  obtain ⟨hnodup, hunread, hends⟩ := h
  rw [hcontents] at hunread hends
  exact ⟨hnodup, hunread, hends⟩

end ReadsOnce

/-- An evaluation that reads what it is told to read, once. -/
def Logged (s : Session) (run : Evaluate) (reads : ModuleRun → List String) : Prop :=
  ∀ r, r.arena.files.Fresh s.root → ReadsOnce s (fun v => v.2.arena) r.arena.files (run r) (reads r)

section

variable (hroot : IsPlace s.root) (hrun : Logged s run reads)

include hroot hrun

theorem evaluateCall_readsOnce (h : r.arena.files.Fresh s.root) : ReadsOnce s (fun v => v.2.arena) r.arena.files
    (r.evaluateCall s run force call) (r.callReads s reads force call) := by
  rw [callReads]
  cases hdue : isDue force r call with
  | true =>
    rw [if_pos rfl, evaluateCall_of_isDue hdue]
    have hstarted := (demands_started s r call).wants
    have hchild := (hrun _ (h.wants hroot hstarted)).congr hstarted.contents
    refine hchild.map fun v hv => ?_
    exact ⟨hv, rfl⟩
  | false =>
    rw [if_neg Bool.false_ne_true]
    obtain ⟨next, hnext, heq⟩ := evaluateCall_of_waits hdue
    rw [heq]
    exact .ok (h.wants hroot hnext.wants) hnext.wants.contents

theorem evaluateEach_readsOnce (h : r.arena.files.Fresh s.root) (calls : List ModuleCall) :
    ReadsOnce s (fun v => v.2.arena) r.arena.files (r.evaluateEach s run force calls)
      (r.eachReads s run reads force calls) := by
  induction calls generalizing r with
  | nil => exact .ok h rfl
  | cons call calls ih =>
    rw [evaluateEach_cons, eachReads]
    exact (evaluateCall_readsOnce hroot hrun h).bind fun v _ hv => (ih hv).map fun w hw => ⟨hw, rfl⟩

theorem evaluateCalls_readsOnce (h : r.arena.files.Fresh s.root) : ReadsOnce s ModuleRun.arena r.arena.files
    (r.evaluateCalls s run force) (r.eachReads s run reads force r.calls) := by
  refine (evaluateEach_readsOnce hroot hrun h r.calls).map fun v hv => ?_
  have hbound := (demands_bindOutputsOfCalls { v.2 with calls := v.1 }).wants
  exact ⟨hv.wants hroot hbound, hbound.contents⟩

theorem pass_readsOnce (h : r.arena.files.Fresh s.root) : ReadsOnce s ModuleRun.arena r.arena.files (r.pass s run)
    (r.bindBlocks.eachReads s run reads false r.bindBlocks.calls) := by
  have hbound := (demands_bindBlocks r).wants
  exact (evaluateCalls_readsOnce hroot hrun (h.wants hroot hbound)).congr hbound.contents

omit hrun in
theorem readWanted_readsOnce (h : r.arena.files.Fresh s.root) : ReadsOnce s ModuleRun.arena r.arena.files
    (.ok (r.readWanted s).2) r.requests := by
  have hasked := (demands_askAll r).wants
  have hfresh := h.wants hroot hasked
  refine ⟨hfresh.nodup, fun p hp => ?_, fun v hv => ?_⟩
  · rw [← hasked.contents]
    exact hfresh.unread p hp
  · obtain rfl := Except.ok.inj hv
    refine ⟨Arena.fresh_readAll hfresh s.loader, ?_⟩
    rw [← hasked.contents]
    exact congrArg FileTable.contents (Arena.files_readAll hfresh s.loader)

theorem converge_readsOnce (h : r.arena.files.Fresh s.root) (n : Nat) (previous : Option (Entries Value)) :
    ReadsOnce s ModuleRun.arena r.arena.files (converge s run n previous r)
      (convergeReads s run reads n previous r) := by
  induction n generalizing previous r with
  | zero => exact .ok h rfl
  | succ n ih =>
    rw [converge_succ, convergeReads]
    refine (pass_readsOnce hroot hrun h).bind fun passed _ hpassed => ?_
    have hread := readWanted_readsOnce hroot hpassed
    have hstep (next : ModuleRun) (hnext : next.arena.files.Fresh s.root) :
        ReadsOnce s ModuleRun.arena next.arena.files
          (if !(passed.readWanted s).1 && previous.any fun previous => agree previous next.bindings then .ok next
          else converge s run n (some next.bindings) next)
          (if !(passed.readWanted s).1 && previous.any fun previous => agree previous next.bindings then []
          else convergeReads s run reads n (some next.bindings) next) := by
      split
      · exact .ok hnext rfl
      · exact ih hnext _
    have hloop := hread.bind fun next _ hnext => hstep next hnext
    exact hloop

theorem settle_readsOnce (h : r.arena.files.Fresh s.root) :
    ReadsOnce s ModuleRun.arena r.arena.files (r.settle s run) (r.settleReads s run reads) :=
  converge_readsOnce hroot hrun h _ _

theorem forceCalls_readsOnce (h : r.arena.files.Fresh s.root) :
    ReadsOnce s ModuleRun.arena r.arena.files (r.forceCalls s run) (r.forceReads s run reads) := by
  rw [forceCalls, forceReads]
  split
  · exact (evaluateCalls_readsOnce hroot hrun h).bind fun mid _ hmid => settle_readsOnce hroot hrun hmid
  · exact .ok h rfl

theorem evaluateWith_readsOnce : Logged s (evaluateWith s run) (readsWith s run reads) := by
  intro r h
  -- Directories are loaded without a look at the table.
  have hload {settled : ModuleRun} (h : settled.arena.files.Fresh s.root) :
      ReadsOnce s ModuleRun.arena settled.arena.files (settled.loadModules s) [] := by
    refine ⟨.nil, by simp, fun loaded hloaded => ?_⟩
    have hwants := loadModules_wants hloaded
    exact ⟨h.wants hroot hwants, by rw [hwants.contents]; exact (List.append_nil _).symm⟩
  refine (settle_readsOnce hroot hrun h).bind fun settled _ hsettled => ?_
  refine (hload hsettled).bind fun loaded _ hloaded => ?_
  refine (settle_readsOnce hroot hrun hloaded).bind fun resettled _ hresettled => ?_
  have hexpanded := (demands_expandBlocks resettled).wants
  have hfresh := hresettled.wants hroot hexpanded
  refine ((settle_readsOnce hroot hrun hfresh).congr hexpanded.contents).bind fun expanded _ h => ?_
  have hforced := forceCalls_readsOnce hroot hrun h
  have hgathered : (expanded.forceCalls s run >>= fun done => .ok (done.modules, done))
      = (expanded.forceCalls s run).map fun done => (done.modules, done) := by
    cases expanded.forceCalls s run <;> rfl
  rw [hgathered]
  exact hforced.map fun done hdone => ⟨hdone, rfl⟩

end

theorem logged_evaluateUpTo (hroot : IsPlace s.root) (depth : Nat) : Logged s (evaluateUpTo s depth) (readsUpTo s depth) := by
  induction depth with
  | zero => exact fun r h => ⟨.nil, by simp [readsUpTo], fun v hv => by cases hv⟩
  | succ depth ih => exact evaluateWith_readsOnce hroot ih

/-! ## What is read was asked for -/

/-- What an evaluator of a project asks for in some state. -/
def Requested (s : Session) (inputs : Entries Value) (sources : List SourceFile) (p : String) : Prop :=
  ∃ d start frames r, Nested s inputs sources d start frames ∧ Continues s (evaluateUpTo s d) start r ∧ p ∈ r.requests

theorem mem_readsAfter {α : Type} {x : Except LoadProblem α} {reads : α → List String} {p : String} :
    p ∈ readsAfter x reads ↔ ∃ v, x = .ok v ∧ p ∈ reads v := by
  cases x <;> simp [readsAfter]

section

variable {Q : String → Prop} (hown : ∀ r, Continues s run start r → ∀ p ∈ r.requests, Q p)
  (hchildren : ∀ child, Child s run start child → ∀ p ∈ reads child, Q p)

include hchildren

theorem forall_mem_eachReads (hr : Continues s run start r) {before calls done : List ModuleCall}
    (hcalls : r.calls = before ++ calls) (hbefore : r.evaluateEach s run force before = .ok (done, mid)) :
    ∀ p ∈ mid.eachReads s run reads force calls, Q p := by
  -- The calls that have had their turn go from one list to the other, as a child starts after those before it.
  induction calls generalizing before done mid with
  | nil => simp [eachReads]
  | cons call calls ih =>
    intro p hp
    rcases List.mem_append.mp hp with hp | hp
    · rw [callReads] at hp
      split at hp
      · next hdue =>
        exact hchildren _ (.intro hr (.of_isDue hcalls hbefore hdue)) p hp
      · cases hp
    · obtain ⟨v, hv, hp⟩ := mem_readsAfter.mp hp
      have hnext := hcalls.trans (List.append_cons before call calls)
      exact ih hnext (evaluateEach_concat hbefore hv) p hp

theorem forall_mem_callsReads (hr : Continues s run start r) (force : Bool) :
    ∀ p ∈ r.eachReads s run reads force r.calls, Q p :=
  forall_mem_eachReads hchildren hr (List.nil_append _).symm rfl

include hown

theorem forall_mem_convergeReads (hr : Continues s run start r) (n : Nat) (previous : Option (Entries Value)) :
    ∀ p ∈ convergeReads s run reads n previous r, Q p := by
  induction n generalizing previous r with
  | zero => simp [convergeReads]
  | succ n ih =>
    intro p hp
    rcases List.mem_append.mp hp with hp | hp
    · exact forall_mem_callsReads hchildren hr.bind false p hp
    · obtain ⟨passed, hpassed, hp⟩ := mem_readsAfter.mp hp
      have hpass := hr.pass hpassed
      rcases List.mem_append.mp hp with hp | hp
      · exact hown passed hpass p hp
      · split at hp
        · cases hp
        · exact ih hpass.read _ p hp

theorem forall_mem_settleReads (hr : Continues s run start r) : ∀ p ∈ r.settleReads s run reads, Q p :=
  forall_mem_convergeReads hown hchildren hr _ _

theorem forall_mem_forceReads (hr : Continues s run start r) : ∀ p ∈ r.forceReads s run reads, Q p := by
  intro p hp
  rw [forceReads] at hp
  split at hp
  · rcases List.mem_append.mp hp with hp | hp
    · exact forall_mem_callsReads hchildren hr true p hp
    · obtain ⟨forced, hforced, hp⟩ := mem_readsAfter.mp hp
      exact forall_mem_settleReads hown hchildren (hr.calls true hforced) p hp
  · cases hp

/-- What an evaluation reads is asked for by itself or read in one of the evaluations that its calls start. -/
theorem forall_mem_readsWith : ∀ p ∈ start.readsWith s run reads, Q p := by
  intro p hp
  rcases List.mem_append.mp hp with hp | hp
  · exact forall_mem_settleReads hown hchildren .start p hp
  obtain ⟨settled, hsettled, hp⟩ := mem_readsAfter.mp hp
  obtain ⟨loaded, hloaded, hp⟩ := mem_readsAfter.mp hp
  have hload := (Continues.start.settle hsettled).load hloaded
  rcases List.mem_append.mp hp with hp | hp
  · exact forall_mem_settleReads hown hchildren hload p hp
  obtain ⟨resettled, hresettled, hp⟩ := mem_readsAfter.mp hp
  have hexpand := (hload.settle hresettled).expand
  rcases List.mem_append.mp hp with hp | hp
  · exact forall_mem_settleReads hown hchildren hexpand p hp
  obtain ⟨expanded, hexpanded, hp⟩ := mem_readsAfter.mp hp
  exact forall_mem_forceReads hown hchildren (hexpand.settle hexpanded) p hp

end

theorem Nested.requested_of_mem (h : Nested s inputs sources d start frames) :
    ∀ p ∈ start.readsUpTo s (d + 1), Requested s inputs sources p := by
  have hown (r : ModuleRun) (hr : Continues s (evaluateUpTo s d) start r) :
      ∀ p ∈ r.requests, Requested s inputs sources p := fun p hp => ⟨d, start, frames, r, h, hr, hp⟩
  refine forall_mem_readsWith hown ?_
  induction d generalizing start frames with
  | zero => exact fun child _ p hp => by cases hp
  | succ d ih =>
    rintro child ⟨hr, hstarts⟩
    obtain ⟨before, after, done, hcalls, hbefore⟩ := hstarts.reached
    have hchild := h.child hr _ hcalls hbefore hstarts.isOpen hstarts.due
    have hinside (r : ModuleRun) (hr : Continues s (evaluateUpTo s d) _ r) :
        ∀ p ∈ r.requests, Requested s inputs sources p := fun p hp => ⟨d, _, _, r, hchild, hr, hp⟩
    exact forall_mem_readsWith hinside (ih hchild hinside)

end ModuleRun

end InfraConfig
