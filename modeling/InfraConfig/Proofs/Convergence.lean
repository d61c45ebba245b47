import InfraConfig.Proofs.FixedPoint

/-!
# Loops of passes

A loop of passes stops by agreement, or when it has made as many passes as it may. Where it stops by agreement
the last pass began with the bindings that it was compared with.

An evaluation in which every loop of passes stops by agreement, that of the module itself and those of all
modules below, is an evaluation as any other.
-/

namespace InfraConfig

/-! ## Agreement to the letter -/

mutual

/-- Whether values are the same, with their entries in the same order. Fractions are left out. -/
def Value.identical : Value → Value → Bool
  | .null, .null => true
  | .unknown, .unknown => true
  | .bool a, .bool b => a == b
  | .number (.int a), .number (.int b) => a == b
  | .text a, .text b => a == b
  | .list a, .list b => identicalItems a b
  | .set a, .set b => identicalItems a b
  | .map a, .map b => identicalEntries a b
  | .object a, .object b => identicalEntries a b
  | _, _ => false

def identicalItems : List Value → List Value → Bool
  | [], [] => true
  | v :: vs, w :: ws => v.identical w && identicalItems vs ws
  | _, _ => false

def identicalEntries : List (String × Value) → List (String × Value) → Bool
  | [], [] => true
  | (k, v) :: vs, (l, w) :: ws => k == l && v.identical w && identicalEntries vs ws
  | _, _ => false

end

mutual

theorem Value.eq_of_identical {v w : Value} (h : v.identical w = true) : v = w := by
  match v, w with
  | .list a, .list b =>
    rw [Value.identical] at h
    rw [eq_of_identicalItems h]
  | .set a, .set b =>
    rw [Value.identical] at h
    rw [eq_of_identicalItems h]
  | .map a, .map b =>
    rw [Value.identical] at h
    rw [eq_of_identicalEntries h]
  | .object a, .object b =>
    rw [Value.identical] at h
    rw [eq_of_identicalEntries h]
  | .number (.int a), .number (.int b) => simpa [Value.identical] using h
  | .bool a, .bool b => simpa [Value.identical] using h
  | .text a, .text b => simpa [Value.identical] using h
  | .null, .null => rfl
  | .unknown, .unknown => rfl

theorem eq_of_identicalItems {a b : List Value} (h : identicalItems a b = true) : a = b := by
  match a, b with
  | [], [] => rfl
  | v :: vs, w :: ws =>
    simp only [identicalItems, Bool.and_eq_true] at h
    rw [Value.eq_of_identical h.1, eq_of_identicalItems h.2]

theorem eq_of_identicalEntries {a b : List (String × Value)} (h : identicalEntries a b = true) : a = b := by
  match a, b with
  | [], [] => rfl
  | (k, v) :: vs, (l, w) :: ws =>
    simp only [identicalEntries, Bool.and_eq_true, beq_iff_eq] at h
    rw [h.1.1, Value.eq_of_identical h.1.2, eq_of_identicalEntries h.2]

end

namespace ModuleRun

/-! ## Loops that stop -/

/-- The passes of a loop that stops by agreement. The last of them begins at `last`; with its files read, it
gives `settled`. -/
inductive StopsByAgreement (s : Session) (run : Evaluate) :
    Nat → Option (Entries Value) → ModuleRun → ModuleRun → ModuleRun → Prop where
  | agreed {n previous r passed settled} (hpass : r.pass s run = .ok passed)
      (hread : passed.readWanted s = (false, settled)) (hagree : agree previous settled.bindings = true) :
      StopsByAgreement s run (n + 1) (some previous) r r settled
  | again {n previous r passed read next last settled} (hpass : r.pass s run = .ok passed)
      (hread : passed.readWanted s = (read, next))
      (hgo : (!read && previous.any fun previous => agree previous next.bindings) = false)
      (h : StopsByAgreement s run n (some next.bindings) next last settled) :
      StopsByAgreement s run (n + 1) previous r last settled

namespace StopsByAgreement

variable {s : Session} {run : Evaluate} {n : Nat} {previous : Option (Entries Value)}
  {r last settled : ModuleRun}

theorem converge_eq (h : StopsByAgreement s run n previous r last settled) :
    converge s run n previous r = .ok settled := by
  induction h with
  | agreed hpass hread hagree =>
    rw [converge, hpass]
    dsimp only
    rw [hread]
    simp [hagree]
  | again hpass hread hgo _ ih =>
    rw [converge, hpass]
    dsimp only
    rw [hread]
    dsimp only
    rw [hgo]
    exact ih

/-- The last pass is compared with the bindings that it began with. -/
theorem agree_last (h : StopsByAgreement s run n previous r last settled)
    (hprevious : ∀ p, previous = some p → p = r.bindings) : agree last.bindings settled.bindings = true := by
  induction h with
  | agreed _ _ hagree => exact hprevious _ rfl ▸ hagree
  | again _ _ _ _ ih =>
    apply ih
    intro p hp
    exact (Option.some.inj hp).symm

/-- The last pass of a loop. -/
theorem last_pass (h : StopsByAgreement s run n previous r last settled) :
    ∃ passed, last.pass s run = .ok passed ∧ passed.readWanted s = (false, settled) := by
  induction h with
  | agreed hpass hread _ => exact ⟨_, hpass, hread⟩
  | again _ _ _ _ ih => exact ih

theorem reached {d : Nat} (h : StopsByAgreement s (evaluateUpTo s d) n previous r last settled)
    (hr : Reached s d r) : Reached s d last := by
  induction h with
  | agreed => exact hr
  | again hpass hread _ _ ih =>
    apply ih
    have hnext := (hr.pass hpass).read
    rw [hread] at hnext
    exact hnext

end StopsByAgreement

/-- The states before and after the last pass of a loop, if the loop stops by agreement. -/
def stop? (s : Session) (run : Evaluate) :
    Nat → Option (Entries Value) → ModuleRun → Option (ModuleRun × ModuleRun)
  | 0, _, _ => none
  | n + 1, previous, r =>
    match r.pass s run with
    | .error _ => none
    | .ok passed =>
      let (read, next) := passed.readWanted s
      if !read && previous.any fun previous => agree previous next.bindings then some (r, next)
      else stop? s run n (some next.bindings) next

theorem StopsByAgreement.of_stop? {s : Session} {run : Evaluate} {n : Nat} {previous : Option (Entries Value)}
    {r last settled : ModuleRun} (h : stop? s run n previous r = some (last, settled)) :
    StopsByAgreement s run n previous r last settled := by
  induction n generalizing previous r with
  | zero => cases h
  | succ n ih =>
    rw [stop?] at h
    split at h
    · cases h
    · next passed hpass =>
      obtain ⟨⟨read, next⟩, hread⟩ : ∃ p, passed.readWanted s = p := ⟨_, rfl⟩
      rw [hread] at h
      dsimp only at h
      split at h
      · next hstop =>
        obtain ⟨rfl, rfl⟩ := Prod.mk.inj (Option.some.inj h)
        rw [Bool.and_eq_true] at hstop
        obtain ⟨hnone, hany⟩ := hstop
        cases previous with
        | none => cases hany
        | some p =>
          obtain rfl : read = false := by simpa using hnone
          exact .agreed hpass hread hany
      · next hgo => exact .again hpass hread (by simpa using hgo) (ih h)

/-- A loop that stops with bindings that agree to the letter, in whose last pass no call reads a file, stops at a
fixed point: one more pass gives the same bindings. Unless the type of a resource is a reserved name, so does
each kind of block by itself. -/
theorem pass_after_agreement {s : Session} {d n : Nat} {r last settled : ModuleRun} (h : Reached s d r)
    (hstops : StopsByAgreement s (evaluateUpTo s d) n none r last settled)
    (hsame : settled.bindings = last.bindings)
    (hreads : ReadsNothing s (evaluateUpTo s d) last.bindBlocks last.bindBlocks.calls) :
    (∃ again, settled.pass s (evaluateUpTo s d) = .ok again ∧ again.bindings = settled.bindings) ∧
      ((∀ b ∈ settled.blocksOf .resource, b.typeLabel ∉ reservedNames) → Renewed settled) := by
  have hsound := (hstops.reached h).sound
  have hrun := contained_evaluateUpTo s d
  obtain ⟨passed, hpass, hread⟩ := hstops.last_pass
  exact ⟨hsound.pass_again hrun hpass hread hsame hreads,
    hsound.renewed_of_pass hrun hpass hread hsame hreads⟩

/-- A local that reads a variable. -/
def readVariable : List SourceFile :=
  [⟨"main.tf", "", [
    .node "variable" ["start"] [⟨"default", .text "a", default⟩] [] default,
    .node "locals" [] [⟨"first", .traversal (.variable "var") [.attribute "start"], default⟩] [] default]⟩]

theorem pass_after_agreement_readVariable :
    let s : Session := ⟨⟨fun _ => .error "", fun _ => .error ""⟩, "/", "default", false, 5, []⟩
    let r := Project.rootRun s [] readVariable
    ∃ last settled, StopsByAgreement s (evaluateUpTo s 999) 5 none r last settled
      ∧ settled.bindings = last.bindings
      ∧ ReadsNothing s (evaluateUpTo s 999) last.bindBlocks last.bindBlocks.calls
      ∧ (∃ again, settled.pass s (evaluateUpTo s 999) = .ok again ∧ again.bindings = settled.bindings)
      ∧ Renewed settled := by
  intro s r
  have hcheck : (stop? s (evaluateUpTo s 999) 5 none r).any (fun (last, settled) =>
      identicalEntries settled.bindings last.bindings && last.bindBlocks.calls.isEmpty
        && (settled.blocksOf .resource).isEmpty) = true := by
    decide +kernel
  obtain ⟨⟨last, settled⟩, hstop, hall⟩ := (Option.any_eq_true _ _).mp hcheck
  simp only [Bool.and_eq_true, List.isEmpty_iff] at hall
  obtain ⟨⟨hsame, hcalls⟩, hresources⟩ := hall
  have hreads : ReadsNothing s (evaluateUpTo s 999) last.bindBlocks last.bindBlocks.calls := by
    intro before done mid hbefore heach
    rw [hcalls] at hbefore
    obtain rfl := List.prefix_nil.mp hbefore
    obtain ⟨-, rfl⟩ := Prod.mk.inj (Except.ok.inj heach)
    rfl
  have hstops := StopsByAgreement.of_stop? hstop
  have hsame := eq_of_identicalEntries hsame
  obtain ⟨hagain, hrenewed⟩ := pass_after_agreement (.root [] readVariable) hstops hsame hreads
  refine ⟨last, settled, hstops, hsame, hreads, hagain, hrenewed ?_⟩
  simp [hresources]

end ModuleRun

/-! ## Runs whose loops agree -/

namespace ModuleRun

/-- Makes passes until two of them agree. -/
def settleAgreeing (s : Session) (run : Evaluate) (r : ModuleRun) : Except LoadProblem ModuleRun :=
  match stop? s run s.maxPasses none r with
  | some (_, settled) => .ok settled
  | none => .error .tooDeep

def forceAgreeing (s : Session) (run : Evaluate) (r : ModuleRun) : Except LoadProblem ModuleRun :=
  if r.calls.any (·.result.isNone) then do
    let r ← r.evaluateCalls s run true
    r.settleAgreeing s run
  else .ok r

/-- The evaluation of a module if each of its loops stops by agreement. -/
def agreeingWith (s : Session) (run : Evaluate) : Evaluate := fun r => do
  let r ← r.settleAgreeing s run
  let r ← r.loadModules s
  let r ← r.settleAgreeing s run
  let r ← r.expandBlocks.settleAgreeing s run
  let r ← r.forceAgreeing s run
  .ok (r.modules, r)

/-- The evaluation of a module if each loop in it stops by agreement, those of nested calls too. -/
def agreeingUpTo (s : Session) : Nat → Evaluate
  | 0 => fun _ => .error .tooDeep
  | depth + 1 => agreeingWith s (agreeingUpTo s depth)

/-- One evaluation gives what another gives, as far as it gives anything. -/
def Refines (f g : Evaluate) : Prop :=
  ∀ r x, f r = .ok x → g r = .ok x

variable {s : Session} {f g : Evaluate} {force : Bool} {r next : ModuleRun}

namespace Refines

theorem evaluateCall (h : Refines f g) {call later : ModuleCall}
    (hcall : r.evaluateCall s f force call = .ok (later, next)) :
    r.evaluateCall s g force call = .ok (later, next) := by
  rw [ModuleRun.evaluateCall] at hcall ⊢
  split at hcall
  · next hdone => rw [if_pos hdone, hcall]
  · next hopen =>
    rw [if_neg hopen]
    dsimp only at hcall ⊢
    split at hcall
    · next hdue =>
      rw [if_pos hdue]
      split at hcall
      · cases hcall
      · next modules done hdone =>
        rw [h _ _ hdone]
        exact hcall
    · next hwait => rw [if_neg hwait, hcall]

theorem evaluateEach (h : Refines f g) {calls done : List ModuleCall}
    (heach : r.evaluateEach s f force calls = .ok (done, next)) :
    r.evaluateEach s g force calls = .ok (done, next) := by
  induction calls generalizing r done with
  | nil => exact heach
  | cons call calls ih =>
    obtain ⟨later, mid, others, hcall, hrest, rfl⟩ := evaluateEach_cons_eq_ok_iff.mp heach
    exact evaluateEach_cons_eq_ok_iff.mpr ⟨later, mid, others, h.evaluateCall hcall, ih hrest, rfl⟩

theorem evaluateCalls (h : Refines f g) (hcalls : r.evaluateCalls s f force = .ok next) :
    r.evaluateCalls s g force = .ok next := by
  obtain ⟨calls, mid, heach, rfl⟩ := evaluateCalls_eq_ok_iff.mp hcalls
  exact evaluateCalls_eq_ok_iff.mpr ⟨calls, mid, h.evaluateEach heach, rfl⟩

theorem stops (h : Refines f g) {n : Nat} {previous : Option (Entries Value)} {last settled : ModuleRun}
    (hstops : StopsByAgreement s f n previous r last settled) :
    StopsByAgreement s g n previous r last settled := by
  induction hstops with
  | agreed hpass hread hagree => exact .agreed (h.evaluateCalls hpass) hread hagree
  | again hpass hread hgo _ ih => exact .again (h.evaluateCalls hpass) hread hgo ih

theorem settle (h : Refines f g) (hsettle : r.settleAgreeing s f = .ok next) : r.settle s g = .ok next := by
  rw [settleAgreeing] at hsettle
  split at hsettle
  · next last settled hstop =>
    obtain rfl := Except.ok.inj hsettle
    exact (h.stops (.of_stop? hstop)).converge_eq
  · cases hsettle

theorem evaluateWith (h : Refines f g) : Refines (agreeingWith s f) (evaluateWith s g) := by
  rintro r ⟨modules, done⟩ heval
  rw [agreeingWith] at heval
  obtain ⟨settled, h1, heval⟩ := bind_eq_ok_iff.mp heval
  obtain ⟨loaded, h2, heval⟩ := bind_eq_ok_iff.mp heval
  obtain ⟨resettled, h3, heval⟩ := bind_eq_ok_iff.mp heval
  obtain ⟨expanded, h4, heval⟩ := bind_eq_ok_iff.mp heval
  obtain ⟨final, h5, heval⟩ := bind_eq_ok_iff.mp heval
  obtain ⟨rfl, rfl⟩ := Prod.mk.inj (Except.ok.inj heval)
  refine evaluateWith_eq_ok_iff.mpr ⟨settled, loaded, resettled, expanded, h.settle h1, h2, h.settle h3,
    h.settle h4, ?_, rfl⟩
  rw [forceAgreeing] at h5
  rw [forceCalls]
  split at h5
  · next hopen =>
    obtain ⟨mid, hmid, hsettle⟩ := bind_eq_ok_iff.mp h5
    rw [if_pos hopen]
    exact bind_eq_ok_iff.mpr ⟨mid, h.evaluateCalls hmid, h.settle hsettle⟩
  · next hdone => rw [if_neg hdone, h5]

end Refines

/-- An evaluation all of whose loops stop by agreement is the evaluation. -/
theorem agreeingUpTo_refines (s : Session) (depth : Nat) : Refines (agreeingUpTo s depth) (evaluateUpTo s depth) := by
  induction depth with
  | zero =>
    intro r x h
    cases h
  | succ depth ih => exact ih.evaluateWith

end ModuleRun

end InfraConfig
