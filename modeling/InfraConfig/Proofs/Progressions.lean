import InfraConfig.Proofs.NumericFunctions

/-!
# Progressions of integers

A progression goes from its start by equal steps as long as its terms are before a limit, in the direction of the steps.
There are as many terms as steps in the distance, rounded up. The terms are added up in binary64 numbers, but these hold
every integer on the way from a start to a limit of fewer than 53 binary digits, and the one after it. So the terms are
the exact ones.
-/

namespace InfraConfig

variable {start limit step : Int}

/-- Whether a term is before the limit, in the direction of the step. -/
def IsBefore (limit step term : Int) : Prop :=
  0 < step ∧ term < limit ∨ step < 0 ∧ limit < term

instance (limit step term : Int) : Decidable (IsBefore limit step term) :=
  inferInstanceAs (Decidable (_ ∨ _))

/-- How many terms are before the limit: the distance in steps, rounded up. -/
def termCount (start limit step : Int) : Nat :=
  (-(start - limit).fdiv step).toNat

/-- So many terms in a row. -/
def firstTerms (start step : Int) (count : Nat) : List Int :=
  (List.range count).map fun i : Nat => start + i * step

/-- The terms before the limit, if the step leads anywhere and there are no more than 1024 of them. -/
def boundedProgression (start limit step : Int) : Except FunctionError Datum :=
  if step = 0 then .error .zeroStep
  else if 1024 < termCount start limit step then .error .rangeLength
  else .ok (.list ((firstTerms start step (termCount start limit step)).map .int))

/-! ## Counting terms -/

theorem add_succ_mul (start step : Int) (i : Nat) : start + (i + 1 : Nat) * step = start + step + i * step := by
  rw [Int.natCast_succ, Int.add_mul, Int.one_mul]
  omega

theorem firstTerms_succ (start step : Int) (count : Nat) :
    firstTerms start step (count + 1) = start :: firstTerms (start + step) step count := by
  rw [firstTerms, List.range_succ_eq_map, List.map_cons, List.map_map]
  congr 1
  · simp
  · exact List.map_congr_left fun i _ => add_succ_mul start step i

theorem lt_neg_ediv_iff {unit : Int} (hunit : 0 < unit) (distance i : Int) :
    i < -(distance / unit) ↔ distance + i * unit < 0 := by
  have hquotient : i < -(distance / unit) ↔ distance / unit < -i := by omega
  rw [hquotient, Int.ediv_lt_iff_lt_mul hunit, Int.neg_mul]
  omega

/-- The terms that are counted, and no others, are before the limit. -/
theorem lt_termCount_iff (start limit step : Int) (i : Nat) :
    i < termCount start limit step ↔ IsBefore limit step (start + i * step) := by
  rw [termCount, Int.lt_toNat, IsBefore]
  rcases Int.lt_trichotomy step 0 with hneg | rfl | hpos
  · rw [← Int.neg_fdiv_neg, Int.fdiv_eq_ediv_of_nonneg _ (by omega), lt_neg_ediv_iff (by omega), Int.mul_neg]
    omega
  · simp
  · rw [Int.fdiv_eq_ediv_of_nonneg _ (Int.le_of_lt hpos), lt_neg_ediv_iff hpos]
    omega

theorem termCount_of_not_isBefore (h : ¬ IsBefore limit step start) : termCount start limit step = 0 := by
  have hfirst := (lt_termCount_iff start limit step 0).not.mpr (by simpa using h)
  omega

/-- After a term that is before the limit, the others are counted from the next one on. -/
theorem termCount_of_isBefore (h : IsBefore limit step start) :
    termCount start limit step = termCount (start + step) limit step + 1 := by
  refine eq_of_forall_lt_iff fun i => ?_
  rw [lt_termCount_iff]
  cases i with
  | zero => simpa using h
  | succ i => rw [Nat.succ_lt_succ_iff, lt_termCount_iff, add_succ_mul]

/-! ## Building terms -/

/-- An integer of no more than 53 binary digits is held exactly. -/
theorem Number.ofExact_of_le {n : Int} (h : n.natAbs ≤ twoPow 53) : ofExact n = .int n := by
  have hsize : n.natAbs ≤ 9007199254740992 := h
  have hrange : inRange n = true := by
    rw [inRange, Bool.and_eq_true, decide_eq_true_iff, decide_eq_true_iff, int64Limit, nat64Limit]
    omega
  exact (ofExact_eq_int_iff hrange).mpr (Binary64.isExact_of_le h)

/-- The sum of a term that is before the limit and the step has no more than 53 binary digits. -/
theorem IsBefore.natAbs_add_le {term : Int} (h : IsBefore limit step term) (hlimit : limit.natAbs < twoPow 52)
    (hstep : step.natAbs < twoPow 52) (hterm : term.natAbs ≤ twoPow 53) : (term + step).natAbs ≤ twoPow 53 := by
  have hdouble : twoPow 53 = 2 * twoPow 52 := rfl
  rcases h with ⟨hpos, hless⟩ | ⟨hneg, hgreater⟩ <;> omega

namespace Functions

theorem before_int (limit step term : Int) :
    ((0 < (Number.int step).sign && (Number.int term).less (.int limit)) ||
      ((Number.int step).sign < 0 && (Number.int limit).less (.int term))) = decide (IsBefore limit step term) := by
  rw [Bool.eq_iff_iff, decide_eq_true_iff, IsBefore]
  simp [Number.sign, Number.less, Int.sign_pos_iff, Int.sign_neg_iff]

/-- The terms from any of them on, if fewer than `n` are left. -/
theorem terms_int (hlimit : limit.natAbs < twoPow 52) (hstep : step.natAbs < twoPow 52) (n : Nat) {term : Int}
    (hterm : term.natAbs ≤ twoPow 53) :
    terms (.int limit) (.int step) n (.int term) = if termCount term limit step < n then
      some ((firstTerms term step (termCount term limit step)).map .int) else none := by
  induction n generalizing term with
  | zero => rfl
  | succ n ih =>
    rw [terms, before_int]
    by_cases hbefore : IsBefore limit step term
    · have hnext := hbefore.natAbs_add_le hlimit hstep hterm
      have hsum : (Number.int term).addRounded (.int step) = .int (term + step) := Number.ofExact_of_le hnext
      rw [decide_eq_true hbefore, if_pos rfl, hsum, ih hnext, termCount_of_isBefore hbefore, firstTerms_succ]
      simp only [Nat.succ_lt_succ_iff]
      split_ifs <;> rfl
    · rw [decide_eq_false hbefore, if_neg Bool.false_ne_true, termCount_of_not_isBefore hbefore,
        if_pos (Nat.succ_pos n)]
      rfl

theorem progression_int (hstart : start.natAbs < twoPow 52) (hlimit : limit.natAbs < twoPow 52)
    (hstep : step.natAbs < twoPow 52) :
    (do return .list ((← progression (.int start) (.int limit) (.int step)).map .number)) =
      boundedProgression start limit step := by
  have hterm : start.natAbs ≤ twoPow 53 := Nat.le_trans (Nat.le_of_lt hstart) (by decide)
  rw [progression, Number.isZero, boundedProgression]
  by_cases hzero : step = 0
  · rw [if_pos hzero, if_pos (beq_iff_eq.mpr hzero)]
    rfl
  · rw [if_neg hzero, if_neg (by simpa using hzero), terms_int hlimit hstep _ hterm]
    by_cases hcount : 1024 < termCount start limit step
    · rw [if_pos hcount, if_neg (by omega)]
      rfl
    · rw [if_neg hcount, if_pos (by omega)]
      exact congrArg (fun terms => Except.ok (Datum.list terms)) (List.map_map ..)

theorem numberAt_int {args : List Datum} {i : Nat} {n : Int} (harg : args[i]? = some (.int n))
    (h : n.natAbs < twoPow 52) : numberAt args i = .ok (.int n) := by
  have hexact : Number.ofExact n = .int n := Number.ofExact_of_le (Nat.le_trans (Nat.le_of_lt h) (by decide))
  rw [numberAt, harg, ← hexact]
  rfl

/-- A call for a progression answers the terms, given the arguments that it is told by. -/
theorem answers_range (args : List Int) (hne : args ≠ []) (hstart : start.natAbs < twoPow 52)
    (hlimit : limit.natAbs < twoPow 52) (hstep : step.natAbs < twoPow 52)
    (hrange : range (args.map .int) = progression (.int start) (.int limit) (.int step)) :
    Answers "range" (args.map .int) (boundedProgression start limit step) := by
  obtain ⟨n, ns, rfl⟩ := List.exists_cons_of_ne_nil hne
  have hfind : find? "range" = some ⟨[.number], some .number, fun args => do
      return .list ((← range args).map .number)⟩ := rfl
  have hanswer := answers_ints hfind n ns
  rw [hrange, progression_int hstart hlimit hstep] at hanswer
  exact hanswer

theorem range_single (hlimit : limit.natAbs < twoPow 52) :
    range [.int limit] = progression (.int 0) (.int limit) (.int 1) := by
  rw [range, numberAt_int rfl hlimit]
  rfl

theorem range_pair (hstart : start.natAbs < twoPow 52) (hlimit : limit.natAbs < twoPow 52) :
    range [.int start, .int limit] = progression (.int start) (.int limit) (.int (if start ≤ limit then 1 else -1)) := by
  have hdirection : (if (Number.int limit).less (.int start) then -1 else 1 : Int) = if start ≤ limit then 1 else -1 := by
    simp only [Number.less, decide_eq_true_iff]
    split_ifs <;> omega
  rw [range, numberAt_int rfl hstart, numberAt_int rfl hlimit, ← hdirection]
  rfl

theorem range_triple (hstart : start.natAbs < twoPow 52) (hlimit : limit.natAbs < twoPow 52)
    (hstep : step.natAbs < twoPow 52) :
    range [.int start, .int limit, .int step] = progression (.int start) (.int limit) (.int step) := by
  rw [range, numberAt_int rfl hstart, numberAt_int rfl hlimit, numberAt_int rfl hstep]
  rfl

end Functions

open Functions (Answers answers_range range_single range_pair range_triple)

/-- A call for a progression of integers of fewer than 53 binary digits answers its terms in a row, which are those
before the limit, or that the step is zero or the terms are more than 1024. Without a step, it goes by one towards the
limit, and without a start from zero. -/
theorem range_answers_boundedProgression (hstart : start.natAbs < twoPow 52) (hlimit : limit.natAbs < twoPow 52)
    (hstep : step.natAbs < twoPow 52) :
    (∀ i : Nat, i < termCount start limit step ↔ IsBefore limit step (start + i * step)) ∧
    Answers "range" [.int start, .int limit, .int step] (boundedProgression start limit step) ∧
    Answers "range" [.int start, .int limit] (boundedProgression start limit (if start ≤ limit then 1 else -1)) ∧
    Answers "range" [.int limit] (boundedProgression 0 limit 1) := by
  have hone : (1 : Int).natAbs < twoPow 52 := by decide
  have hdirection : (if start ≤ limit then 1 else -1 : Int).natAbs < twoPow 52 := by
    split_ifs <;> exact hone
  refine ⟨lt_termCount_iff start limit step, ?_, ?_, ?_⟩
  · have hrange := range_triple hstart hlimit hstep
    exact answers_range [start, limit, step] (List.cons_ne_nil _ _) hstart hlimit hstep hrange
  · have hrange := range_pair hstart hlimit
    exact answers_range [start, limit] (List.cons_ne_nil _ _) hstart hlimit hdirection hrange
  · have hrange := range_single hlimit
    exact answers_range [limit] (List.cons_ne_nil _ _) (by decide) hlimit hone hrange

/-- From 5 down to -4 by steps of three there are three terms, without -4 itself. From zero to 1024 there are as many terms
as there may be, and to 1025 one too many. -/
theorem range_answers_boundedProgression_longest :
    (5 : Int).natAbs < twoPow 52 ∧ (-4 : Int).natAbs < twoPow 52 ∧ (-3 : Int).natAbs < twoPow 52 ∧
    Answers "range" [.int 5, .int (-4), .int (-3)] (.ok (.list [.int 5, .int 2, .int (-1)])) ∧
    Answers "range" [.int 5, .int 3] (.ok (.list [.int 5, .int 4])) ∧
    Answers "range" [.int 1024] (.ok (.list ((firstTerms 0 1 1024).map .int))) ∧
    Answers "range" [.int 1025] (.error .rangeLength) := by
  have hfive : (5 : Int).natAbs < twoPow 52 := by decide
  have hfour : (-4 : Int).natAbs < twoPow 52 := by decide
  have hthree : (-3 : Int).natAbs < twoPow 52 := by decide
  have hnear : (3 : Int).natAbs < twoPow 52 := by decide
  have hlongest : (1024 : Int).natAbs < twoPow 52 := by decide
  have hbeyond : (1025 : Int).natAbs < twoPow 52 := by decide
  obtain ⟨-, hdown, -⟩ := range_answers_boundedProgression hfive hfour hthree
  obtain ⟨-, -, htwo, -⟩ := range_answers_boundedProgression hfive hnear hthree
  obtain ⟨-, -, -, hmost⟩ := range_answers_boundedProgression hfive hlongest hthree
  obtain ⟨-, -, -, htooMany⟩ := range_answers_boundedProgression hfive hbeyond hthree
  exact ⟨hfive, hfour, hthree, hdown, htwo, hmost, htooMany⟩

end InfraConfig
