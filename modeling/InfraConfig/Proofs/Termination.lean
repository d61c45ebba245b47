import InfraConfig.Proofs.WrittenCalls
import Mathlib.Data.Set.Card
import Mathlib.Data.Set.Finite.Lattice
import Mathlib.Data.Set.Finite.List

/-!
# Termination

A call that comes back to the directory of one around it is left out if it has the name of one that has been made
before. The names of calls are written in the directories, and so are finitely many, except where a `for_each`
makes names of the keys of a value. So calls are nested to a finite depth in every project in which no call that is
repeated by a `for_each` leads back to the directory it is written in.
-/

namespace InfraConfig

namespace ModuleRun

variable {s : Session} {run : Evaluate} {start child : ModuleRun} {p q : String} {files : List SourceFile}

/-! ## Finitely many names -/

/-- The directories in which something is written. -/
def directories (s : Session) : Set String :=
  {p | ∃ w, IsWritten s p w}

/-- What can be remembered of calls that are not repeated by a `for_each`. -/
def knownVisits (s : Session) : Set VisitedModule :=
  {v | v.path ∈ directories s ∧ ∃ p w names, IsWritten s p w ∧ Block.IsCalled w names ∧ v = visitOf v.path names}

theorem finite_isWritten (s : Session) (p : String) : {w | IsWritten s p w}.Finite := by
  cases hload : s.loader.loadDirectory p s.stopOnError with
  | error problem =>
    refine Set.finite_empty.subset ?_
    rintro w ⟨files, hfiles, -⟩
    rw [hload] at hfiles
    cases hfiles
  | ok files =>
    refine (writtenBlocks files).finite_toSet.subset ?_
    rintro w ⟨others, hothers, hw⟩
    obtain rfl := Except.ok.inj (hload.symm.trans hothers)
    exact hw

theorem finite_isCalled (w : Block) : {names | w.IsCalled names}.Finite := by
  let indexed (i : Nat) : BlockKind × List String :=
    (w.kind, Arena.extendLabel w.labels (InstanceKey.index i).text)
  refine ((Set.finite_singleton w.names).union ((Set.finite_lt_nat int32Limit).image indexed)).subset ?_
  rintro names (rfl | ⟨i, hi, rfl⟩)
  · exact .inl rfl
  · exact .inr ⟨i, hi, rfl⟩

theorem finite_knownVisits (h : (directories s).Finite) : (knownVisits s).Finite := by
  have hall : (⋃ p ∈ directories s, ⋃ w ∈ {w | IsWritten s p w}, ⋃ names ∈ {names | Block.IsCalled w names},
      (fun q => visitOf q names) '' directories s).Finite :=
    h.biUnion fun p _ => (finite_isWritten s p).biUnion fun w _ => (finite_isCalled w).biUnion fun names _ =>
      h.image _
  refine hall.subset ?_
  rintro v ⟨hpath, p, w, names, hw, hnames, hv⟩
  simp only [Set.mem_iUnion]
  exact ⟨p, ⟨w, hw⟩, w, hw, names, hnames, v.path, hpath, hv.symm⟩

/-! ## How many directories can be called -/

/-- The directories that may be called from one, also through others. -/
def reached (s : Session) (p : String) : Set String :=
  {q ∈ directories s | Relation.ReflTransGen (MayCall s) p q}

theorem finite_reached (h : (directories s).Finite) (p : String) : (reached s p).Finite :=
  h.subset fun _ hq => hq.1

theorem reached_subset (h : MayCall s p q) : reached s q ⊆ reached s p :=
  fun _ hx => ⟨hx.1, .head h hx.2⟩

theorem ncard_reached_lt (hfinite : (directories s).Finite) (hp : p ∈ directories s) (h : MayCall s p q)
    (hback : ¬ Relation.ReflTransGen (MayCall s) q p) : (reached s q).ncard < (reached s p).ncard := by
  refine Set.ncard_lt_ncard ⟨reached_subset h, fun hsub => ?_⟩ (finite_reached hfinite p)
  have hself : p ∈ reached s p := ⟨hp, .refl⟩
  exact hback (hsub hself).2

/-- A directory in which nothing is written calls no other. -/
theorem not_reflTransGen_of_not_mem (hp : p ∈ directories s) (hq : q ∉ directories s) :
    ¬ Relation.ReflTransGen (MayCall s) q p := by
  intro hback
  rcases hback.cases_head with rfl | ⟨_, ⟨w, hw, -⟩, -⟩
  · exact hq hp
  · exact hq ⟨w, hw⟩

/-! ## How deeply calls are nested -/

/-- A bound of how deeply the calls of an evaluator are nested: each of them leads to a directory from which fewer
others can be reached, or is remembered as one more of those that can be. -/
noncomputable def nesting (s : Session) (start : ModuleRun) : Nat :=
  (reached s start.module.path).ncard * ((knownVisits s).ncard + 1)
    + (knownVisits s \ {v | v ∈ start.visited}).ncard

theorem Told.nesting_lt (h : Told s start child) (hfinite : (directories s).Finite)
    (hrepeat : ∀ p q, MayRepeat s p q → ¬ Relation.ReflTransGen (MayCall s) q p) :
    nesting s child < nesting s start := by
  obtain ⟨w, hw, hlead, hnamed⟩ := h.called
  have hknown := finite_knownVisits hfinite
  have hp : start.module.path ∈ directories s := ⟨w, hw⟩
  have hcall : MayCall s start.module.path child.module.path := ⟨w, hw, hlead⟩
  have hdescends (hback : ¬ Relation.ReflTransGen (MayCall s) child.module.path start.module.path) :
      nesting s child < nesting s start := by
    have hlt := ncard_reached_lt hfinite hp hcall hback
    have hle : (knownVisits s \ {v | v ∈ child.visited}).ncard ≤ (knownVisits s).ncard :=
      Set.ncard_le_ncard Set.sdiff_subset hknown
    have hmul := Nat.mul_le_mul_right ((knownVisits s).ncard + 1) hlt
    rw [Nat.succ_mul] at hmul
    rw [nesting, nesting]
    omega
  rcases hnamed with heach | ⟨names, hcalled, hfresh, htold⟩
  · exact hdescends (hrepeat _ _ ⟨w, hw, hlead, heach⟩)
  · by_cases hq : child.module.path ∈ directories s
    · have hmem : visitOf child.module.path names ∈ knownVisits s := ⟨hq, _, w, names, hw, hcalled, rfl⟩
      have hless : (knownVisits s \ {v | v ∈ child.visited}).ncard
          < (knownVisits s \ {v | v ∈ start.visited}).ncard := by
        refine Set.ncard_lt_ncard ⟨fun v hv => ⟨hv.1, fun hold => hv.2 (h.visited hold)⟩, fun hsub => ?_⟩
          (hknown.subset Set.sdiff_subset)
        exact (hsub ⟨hmem, hfresh⟩).2 htold
      have hle := Set.ncard_le_ncard (reached_subset hcall) (finite_reached hfinite _)
      have hmul := Nat.mul_le_mul_right ((knownVisits s).ncard + 1) hle
      rw [nesting, nesting]
      omega
    · exact hdescends (not_reflTransGen_of_not_mem hp hq)

/-- An evaluation that may nest more deeply than its calls do comes to the same, however much more deeply. -/
theorem evaluateUpTo_agrees (hfinite : (directories s).Finite)
    (hrepeat : ∀ p q, MayRepeat s p q → ¬ Relation.ReflTransGen (MayCall s) q p) {depth n : Nat}
    (hs : start.Sound) (hcalls : start.calls = []) (hwritten : Written s start) (hdepth : nesting s start < depth)
    (hn : depth ≤ n) : Agrees (evaluateUpTo s depth start) (evaluateUpTo s n start) := by
  induction depth generalizing start n with
  | zero => exact absurd hdepth (Nat.not_lt_zero _)
  | succ depth ih =>
    obtain ⟨n, rfl⟩ := Nat.exists_eq_succ_of_ne_zero (Nat.ne_of_gt (Nat.lt_of_lt_of_le depth.succ_pos hn))
    refine evaluateWith_agrees fun child hchild => ?_
    have htold := hchild.told (contained_evaluateUpTo s depth) (keepsTexts_evaluateUpTo s depth) hs hcalls hwritten
    have hless := htold.nesting_lt hfinite hrepeat
    exact ih htold.sound htold.calls htold.written (by omega) (Nat.le_of_succ_le_succ hn)

/-- The calls of a project are nested to a finite depth, unless one that is repeated by a `for_each` leads back to
the directory that it is written in. -/
theorem evaluateUpTo_terminates (hfinite : (directories s).Finite)
    (hrepeat : ∀ p q, MayRepeat s p q → ¬ Relation.ReflTransGen (MayCall s) q p) (inputs : Entries Value)
    (hload : s.loader.loadDirectory s.root s.stopOnError = .ok files) :
    ∃ depth, ∀ n, depth ≤ n →
      evaluateUpTo s n (Project.rootRun s inputs files) = evaluateUpTo s depth (Project.rootRun s inputs files)
      ∧ evaluateUpTo s n (Project.rootRun s inputs files) ≠ .error .tooDeep := by
  have hbegins : Begins s 999 (Project.rootRun s inputs files) := .root inputs files
  refine ⟨nesting s (Project.rootRun s inputs files) + 1, fun n hn => ?_⟩
  obtain ⟨hsame, hnot⟩ := evaluateUpTo_agrees hfinite hrepeat hbegins.reached.sound hbegins.calls_eq
    (written_rootRun inputs hload) (Nat.lt_succ_self _) hn
  exact ⟨hsame.symm, hsame ▸ hnot⟩

/-- One directory, which calls itself. -/
def selfCalling : Loader where
  load _ := .ok "\x7b\"module\": \x7b\"self\": \x7b\"source\": \"./\"\x7d\x7d\x7d"
  list dir := if dir == "/" then .ok ["/main.tf.json"] else .error "missing directory"

theorem evaluateUpTo_terminates_selfCalling :
    let s : Session := ⟨selfCalling, "/", "default", false, 6, []⟩
    ∃ files, s.loader.loadDirectory s.root s.stopOnError = .ok files ∧ MayCall s "/" "/"
      ∧ (directories s).Finite ∧ (∀ p q, MayRepeat s p q → ¬ Relation.ReflTransGen (MayCall s) q p)
      ∧ ∃ depth, ∀ n, depth ≤ n →
        evaluateUpTo s n (Project.rootRun s [] files) = evaluateUpTo s depth (Project.rootRun s [] files)
        ∧ evaluateUpTo s n (Project.rootRun s [] files) ≠ .error .tooDeep := by
  intro s
  have hcheck : (s.loader.loadDirectory s.root s.stopOnError).toOption.any (fun files =>
      (writtenBlocks files).all (fun w => (w.attribute? "for_each").isNone)
        && (writtenBlocks files).any fun w => w.kind == .module
          && (w.attribute? "source").any fun attr => attr.value.MayGive "./") = true := by
    decide +kernel
  obtain ⟨files, hfiles, hcheck⟩ := (Option.any_eq_true _ _).mp hcheck
  have hload := eq_ok_of_toOption hfiles
  obtain ⟨hplain, hcalls⟩ := Bool.and_eq_true_iff.mp hcheck
  have hroot {p : String} {w : Block} (hw : IsWritten s p w) : p = "/" ∧ w ∈ writtenBlocks files := by
    obtain ⟨others, hothers, hmem⟩ := hw
    have hp : p = "/" := by
      by_contra hne
      have hnone : s.loader.list p = .error "missing directory" := if_neg (by simpa using hne)
      rw [Loader.loadDirectory, hnone] at hothers
      cases hothers
    obtain rfl := hp
    obtain rfl := Except.ok.inj (hothers.symm.trans hload)
    exact ⟨rfl, hmem⟩
  have hfinite : (directories s).Finite := by
    refine (Set.finite_singleton "/").subset ?_
    rintro p ⟨w, hw⟩
    exact (hroot hw).1
  have hrepeat : ∀ p q, MayRepeat s p q → ¬ Relation.ReflTransGen (MayCall s) q p := by
    rintro p q ⟨w, hw, -, heach⟩
    have hnone := List.all_eq_true.mp hplain w (hroot hw).2
    rw [Option.isNone_iff_eq_none.mp hnone] at heach
    cases heach
  refine ⟨files, hload, ?_, hfinite, hrepeat, evaluateUpTo_terminates hfinite hrepeat [] hload⟩
  obtain ⟨w, hw, hcall⟩ := List.any_eq_true.mp hcalls
  obtain ⟨hkind, hsource⟩ := Bool.and_eq_true_iff.mp hcall
  obtain ⟨attr, hattr, hgives⟩ := (Option.any_eq_true _ _).mp hsource
  have hdirectory : moduleDirectory? s.installed s.root "/" "./" = some "/" := by
    decide +kernel
  exact ⟨w, ⟨files, hload, hw⟩, eq_of_beq hkind, attr, "./", hattr, of_decide_eq_true hgives, hdirectory⟩

end ModuleRun

end InfraConfig
