import InfraConfig.Proofs.Binary64Order
import InfraConfig.Proofs.ComparedNumbers
import InfraConfig.Proofs.FormattedTexts
import InfraConfig.Proofs.LabelKeys

/-!
# Functions of integers

The functions of numbers work on binary64 numbers. An integer of 64 bits is rounded to one on its way in, and as
rounding keeps the order, the answer is the exact answer rounded: the integer itself if it has no more than 53 binary
digits before its zeros.
-/

namespace InfraConfig

open Binary64 (roundInt integer? IsExact)

/-! ## Rounded integers as numbers -/

namespace Number

variable {m n : Int}

theorem natAbs_le_of_inRange (hn : inRange n = true) : n.natAbs ≤ nat64Limit :=
  Binary64.natAbs_le_nat64Limit (IsHeld.bounds hn).1 (IsHeld.bounds hn).2

/-- An integer is rounded into the range, or to the end of it. -/
theorem roundInt_range (hn : inRange n = true) : -int64Limit ≤ roundInt n ∧ roundInt n ≤ nat64Limit := by
  obtain ⟨hlow, hhigh⟩ := IsHeld.bounds hn
  have hbottom : roundInt (-int64Limit) = -int64Limit := by decide
  have htop : roundInt nat64Limit = nat64Limit := by decide
  rw [← hbottom, ← htop]
  exact ⟨Binary64.roundInt_mono hlow, Binary64.roundInt_mono (Int.le_of_lt hhigh)⟩

/-- An integer that is rounded out of the range is rounded to the end of it. -/
theorem roundInt_of_not_inRange (hn : inRange n = true) (hfits : ¬ inRange (roundInt n) = true) :
    roundInt n = nat64Limit := by
  have hrange := roundInt_range hn
  rw [inRange, Bool.and_eq_true, decide_eq_true_iff, decide_eq_true_iff] at hfits
  omega

theorem ofExact_of_inRange (hfits : inRange (roundInt n) = true) : ofExact n = .int (roundInt n) := by
  rw [ofExact, if_pos hfits]

theorem ofExact_of_not_inRange (hfits : ¬ inRange (roundInt n) = true) : ofExact n = .float (Binary64.ofInt n) := by
  rw [ofExact, if_neg hfits]

theorem integer?_ofInt (hn : inRange n = true) : integer? (Binary64.ofInt n) = some (roundInt n) :=
  Binary64.integer?_ofInt (natAbs_le_of_inRange hn)

theorem integer?_toFloat_ofExact (hn : inRange n = true) : integer? (ofExact n).toFloat = some (roundInt n) := by
  by_cases hfits : inRange (roundInt n) = true
  · rw [ofExact_of_inRange hfits]
    exact (integer?_ofInt hfits).trans (congrArg some (Binary64.roundInt_roundInt n))
  · rw [ofExact_of_not_inRange hfits]
    exact integer?_ofInt hn

/-- Integers that are rounded to the same are the same number. -/
theorem ofExact_congr (hm : inRange m = true) (hn : inRange n = true) (h : roundInt m = roundInt n) :
    ofExact m = ofExact n := by
  by_cases hfits : inRange (roundInt n) = true
  · rw [ofExact_of_inRange hfits, ofExact_of_inRange (h ▸ hfits), h]
  · rw [ofExact_of_not_inRange hfits, ofExact_of_not_inRange (h ▸ hfits), float.injEq]
    have hround := roundInt_of_not_inRange hn hfits
    exact Binary64.eq_of_integer? (integer?_ofInt hm) (h ▸ integer?_ofInt hn) (by rw [h, hround]; decide)

theorem isNaN_ofExact (hn : inRange n = true) : (ofExact n).isNaN = false := by
  by_cases hfits : inRange (roundInt n) = true
  · rw [ofExact_of_inRange hfits, isNaN]
  · obtain ⟨p, hp, -⟩ := Option.bind_eq_some_iff.mp (integer?_ofInt hn)
    rw [ofExact_of_not_inRange hfits, isNaN, Float.isNaN_eq_decide_eq_nan]
    exact decide_eq_false (Binary64.ne_nan_of_parts? hp)

/-- Rounded integers are ordered as they are rounded. -/
theorem less_ofExact_iff (hm : inRange m = true) (hn : inRange n = true) :
    (ofExact m).less (ofExact n) = true ↔ roundInt m < roundInt n := by
  have hfloat := Binary64.lt_iff_of_integer? (integer?_toFloat_ofExact hm) (integer?_toFloat_ofExact hn)
  by_cases hfit : inRange (roundInt m) = true
  · rw [ofExact_of_inRange hfit] at hfloat ⊢
    by_cases hfit' : inRange (roundInt n) = true
    · rw [ofExact_of_inRange hfit', less, decide_eq_true_iff]
    · rw [ofExact_of_not_inRange hfit'] at hfloat ⊢
      rw [less, decide_eq_true_iff, hfloat]
      nofun
  · rw [ofExact_of_not_inRange hfit] at hfloat ⊢
    rw [less, decide_eq_true_iff, hfloat]
    nofun

theorem ofExact_congr_of_le (hm : inRange m = true) (hn : inRange n = true) (hle : m ≤ n)
    (h : ¬ roundInt m < roundInt n) : ofExact m = ofExact n := by
  have hround := Binary64.roundInt_mono hle
  exact ofExact_congr hm hn (by omega)

theorem least_ofExact (hm : inRange m = true) (hn : inRange n = true) :
    Functions.least (ofExact m) (ofExact n) = ofExact (min m n) := by
  rw [Functions.least, isNaN_ofExact hm, Bool.false_or]
  simp only [less_ofExact_iff hn hm]
  by_cases hless : roundInt n < roundInt m
  · rw [if_pos hless, Int.min_eq_right (Int.le_of_lt (Binary64.lt_of_roundInt_lt hless))]
  · rw [if_neg hless]
    rcases Int.le_total m n with hle | hle
    · rw [Int.min_eq_left hle]
    · rw [Int.min_eq_right hle, ofExact_congr_of_le hn hm hle hless]

theorem greatest_ofExact (hm : inRange m = true) (hn : inRange n = true) :
    Functions.greatest (ofExact m) (ofExact n) = ofExact (max m n) := by
  rw [Functions.greatest, isNaN_ofExact hm, Bool.false_or]
  simp only [less_ofExact_iff hm hn]
  by_cases hless : roundInt m < roundInt n
  · rw [if_pos hless, Int.max_eq_right (Int.le_of_lt (Binary64.lt_of_roundInt_lt hless))]
  · rw [if_neg hless]
    rcases Int.le_total m n with hle | hle
    · rw [Int.max_eq_right hle, ofExact_congr_of_le hm hn hle hless]
    · rw [Int.max_eq_left hle]

theorem ofFloat_ofInt (hn : inRange n = true) (hfits : ¬ inRange (roundInt n) = true) :
    ofFloat (Binary64.ofInt n) = .float (Binary64.ofInt n) := by
  rw [ofFloat, integer?_ofInt hn]
  dsimp only
  rw [if_neg hfits]

theorem wholeBeside_eq_self {x : Float} (hx : integer? x = some n) (further : Bool → Bool) :
    Binary64.wholeBeside further x = x := by
  rw [Binary64.wholeBeside]
  cases hp : Binary64.parts? x with
  | none => rfl
  | some p =>
    rw [integer?, hp, Option.bind_some] at hx
    dsimp only at hx ⊢
    split_ifs at hx ⊢ with hwhole
    rfl

theorem ofFloat_wholeBeside_ofInt (hn : inRange n = true) (hfits : ¬ inRange (roundInt n) = true)
    (further : Bool → Bool) :
    ofFloat (Binary64.wholeBeside further (Binary64.ofInt n)) = .float (Binary64.ofInt n) := by
  rw [wholeBeside_eq_self (integer?_ofInt hn), ofFloat_ofInt hn hfits]

theorem floor_ofExact (hn : inRange n = true) : (ofExact n).floor = ofExact n := by
  by_cases hfits : inRange (roundInt n) = true
  · rw [ofExact_of_inRange hfits, floor]
  · rw [ofExact_of_not_inRange hfits]
    exact ofFloat_wholeBeside_ofInt hn hfits id

theorem ceil_ofExact (hn : inRange n = true) : (ofExact n).ceil = ofExact n := by
  by_cases hfits : inRange (roundInt n) = true
  · rw [ofExact_of_inRange hfits, ceil]
  · rw [ofExact_of_not_inRange hfits]
    exact ofFloat_wholeBeside_ofInt hn hfits not

theorem inRange_natAbs (hn : inRange n = true) : inRange n.natAbs = true := by
  obtain ⟨hlow, hhigh⟩ := IsHeld.bounds hn
  rw [int64Limit] at hlow
  rw [nat64Limit] at hhigh
  rw [inRange, Bool.and_eq_true, decide_eq_true_iff, decide_eq_true_iff, int64Limit, nat64Limit]
  omega

theorem abs_ofExact (hn : inRange n = true) : (ofExact n).abs = ofExact n.natAbs := by
  by_cases hfits : inRange (roundInt n) = true
  · have hround : roundInt (roundInt n).natAbs = roundInt n.natAbs := by
      rw [Binary64.natAbs_roundInt, ← Binary64.roundInt_natCast, Binary64.roundInt_roundInt]
    rw [ofExact_of_inRange hfits, abs]
    exact ofExact_congr (inRange_natAbs hfits) (inRange_natAbs hn) hround
  · have hround := roundInt_of_not_inRange hn hfits
    have hpos : 0 ≤ n := by
      by_contra hneg
      have hle : roundInt n ≤ roundInt 0 := Binary64.roundInt_mono (by omega)
      rw [hround] at hle
      exact absurd hle (by decide)
    have htop : Binary64.ofInt n = Binary64.ofInt nat64Limit := by
      have hend : integer? (Binary64.ofInt nat64Limit) = some nat64Limit :=
        (Binary64.integer?_ofInt (Nat.le_refl _)).trans (by decide)
      exact Binary64.eq_of_integer? ((integer?_ofInt hn).trans (congrArg some hround)) hend (by decide)
    have habs : (Binary64.ofInt nat64Limit).abs = Binary64.ofInt nat64Limit := by decide
    have hsame : (n.natAbs : Int) = n := Int.natAbs_of_nonneg hpos
    rw [hsame, ofExact_of_not_inRange hfits, abs, htop, habs, ← htop, ofFloat_ofInt hn hfits]

theorem truncate?_of_integer? {x : Float} (hx : integer? x = some n) : Binary64.truncate? x = some n := by
  rw [integer?, Option.bind_eq_some_iff] at hx
  obtain ⟨p, hp, hvalue⟩ := hx
  rw [Binary64.truncate?, hp, Option.map_some]
  dsimp only at hvalue ⊢
  split_ifs at hvalue with hwhole
  exact hvalue

/-- A rounded integer is cut to 64 bits with a sign. -/
theorem toInt64_ofExact (hn : inRange n = true) : (ofExact n).toInt64 = min (roundInt n) (int64Limit - 1) := by
  by_cases hfits : inRange (roundInt n) = true
  · rw [ofExact_of_inRange hfits, toInt64]
  · rw [ofExact_of_not_inRange hfits, toInt64, Binary64.toInt64, truncate?_of_integer? (integer?_ofInt hn),
      roundInt_of_not_inRange hn hfits]
    rfl

end Number

namespace Functions

/-! ## Calls with integers -/

/-- Combining numbers one after another is combining the integers that they are rounded from. -/
theorem foldl_ofExact {f : Number → Number → Number} {g : Int → Int → Int}
    (hg : ∀ m n, g m n = m ∨ g m n = n)
    (hf : ∀ m n, Number.inRange m = true → Number.inRange n = true → f (.ofExact m) (.ofExact n) = .ofExact (g m n))
    {n : Int} {ns : List Int} (hn : Number.inRange n = true) (hns : ∀ m ∈ ns, Number.inRange m = true) :
    (ns.map Number.ofExact).foldl f (.ofExact n) = .ofExact (ns.foldl g n) := by
  induction ns generalizing n with
  | nil => rfl
  | cons m ns ih =>
    have hm := hns m List.mem_cons_self
    have hfirst : Number.inRange (g n m) = true := by
      rcases hg n m with h | h <;> rw [h] <;> assumption
    rw [List.map_cons, List.foldl_cons, List.foldl_cons, hf n m hn hm]
    exact ih hfirst fun k hk => hns k (List.mem_cons_of_mem _ hk)

theorem foldl_mem {g : Int → Int → Int} (hg : ∀ m n, g m n = m ∨ g m n = n) (n : Int) (ns : List Int) :
    ns.foldl g n ∈ n :: ns := by
  induction ns generalizing n with
  | nil => exact List.mem_singleton.mpr rfl
  | cons m ns ih =>
    rcases List.mem_cons.mp (ih (g n m)) with h | h
    · rw [List.foldl_cons, h]
      rcases hg n m with h | h <;> rw [h] <;> simp
    · exact List.mem_cons_of_mem _ (List.mem_cons_of_mem _ h)

theorem numbersFrom_ints (position : Nat) (ns : List Int) :
    numbersFrom position (ns.map .int) = .ok (ns.map Number.ofExact) := by
  induction ns generalizing position with
  | nil => rfl
  | cons n ns ih =>
    rw [List.map_cons, Datum.int, numbersFrom, ih]
    rfl

theorem ofNumber_ofExact {n : Int} (hn : Number.inRange n = true) :
    Datum.ofNumber (.ofExact n) = .number (.ofExact n) := by
  by_cases hfits : Number.inRange (roundInt n) = true
  · rw [Number.ofExact_of_inRange hfits, Datum.ofNumber]
  · obtain ⟨p, hp, -⟩ := Option.bind_eq_some_iff.mp (Number.integer?_ofInt hn)
    rw [Number.ofExact_of_not_inRange hfits, Datum.ofNumber, Datum.ofFloat, Number.ofFloat?,
      if_pos (Binary64.isFinite_of_parts? hp), Number.ofFloat_ofInt hn hfits]

/-- The body of a function of numbers gets one or more integers. -/
theorem answers_ints {name : String} {body : List Datum → Except FunctionError Datum}
    (hfind : find? name = some ⟨[.number], some .number, body⟩) (n : Int) (ns : List Int) :
    Answers name ((n :: ns).map .int) (body ((n :: ns).map .int)) := by
  refine .ofFirst hfind rfl fun arg harg => ?_
  obtain ⟨m, -, rfl⟩ := List.mem_map.mp harg
  rfl

/-- The numbers that a function of any number of numbers, and at least one, combines. -/
theorem answers_folded {name : String} {f : Number → Number → Number} {g : Int → Int → Int}
    (hfind : find? name = some ⟨[.number], some .number, fun args => do return foldNumbers f (← numbersFrom 0 args)⟩)
    (hg : ∀ m n, g m n = m ∨ g m n = n)
    (hf : ∀ m n, Number.inRange m = true → Number.inRange n = true → f (.ofExact m) (.ofExact n) = .ofExact (g m n))
    {n : Int} {ns : List Int} (hns : ∀ m ∈ n :: ns, Number.inRange m = true) :
    Answers name ((n :: ns).map .int) (.ok (.number (.ofExact (ns.foldl g n)))) := by
  have hn := hns n List.mem_cons_self
  have hrest : ∀ m ∈ ns, Number.inRange m = true := fun m hm => hns m (List.mem_cons_of_mem _ hm)
  have hbody : foldNumbers f ((n :: ns).map Number.ofExact) = .number (.ofExact (ns.foldl g n)) := by
    rw [List.map_cons, foldNumbers, foldl_ofExact hg hf hn hrest]
    exact ofNumber_ofExact (hns _ (foldl_mem hg n ns))
  have hanswer := answers_ints hfind n ns
  rw [numbersFrom_ints] at hanswer
  rw [← hbody]
  exact hanswer

theorem answers_ofNumber {name : String} {f : Number → Datum} (hfind : find? name = some (ofNumber f)) (n : Int) :
    Answers name [.int n] (.ok (f (.ofExact n))) :=
  ⟨_, hfind, Function.call_own (.cons rfl .nil)⟩

theorem answers_format_int (n : Int) :
    Answers "format" [.text "%d", .int n] (.ok (.text (toString (Number.ofExact n).toInt64))) := by
  have hformats : Formats "%d".toList [.int n] ((toString (Number.ofExact n).toInt64).toList ++ []) :=
    .verb rfl rfl .nil
  have hformat := hformats.format []
  rw [List.append_nil, List.append_nil, String.ofList_toList] at hformat
  rw [answers_format_iff, hformat]
  rfl

end Functions

open Functions (Answers answers_folded answers_ofNumber answers_format_int ofNumber_ofExact)

/-- An integer is what it is rounded to exactly if it has few enough digits. -/
theorem Number.ofExact_eq_int_iff {n : Int} (hn : inRange n = true) : ofExact n = .int n ↔ IsExact n := by
  rw [← Binary64.roundInt_eq_self_iff]
  constructor
  · intro h
    by_cases hfits : inRange (roundInt n) = true
    · rw [ofExact_of_inRange hfits] at h
      exact Number.int.inj h
    · rw [ofExact_of_not_inRange hfits] at h
      cases h
  · intro h
    rw [ofExact_of_inRange (h.symm ▸ hn), h]

theorem min_roundInt_eq_self_iff {n : Int} : min (roundInt n) (int64Limit - 1) = n ↔
    (IsExact n ∧ n < int64Limit) ∨ n = int64Limit - 1 := by
  have hlast : roundInt (int64Limit - 1) = int64Limit := by decide
  rw [← Binary64.roundInt_eq_self_iff]
  constructor
  · intro h
    omega
  · rintro (⟨hexact, hless⟩ | rfl)
    · omega
    · rw [hlast]
      omega

/-- The functions of numbers answer integers of 64 bits by the exact answer, rounded to a binary64 number: the least and
the greatest of some integers, the integer itself as the whole number below and above it, and its size. It is printed as
the rounded integer too, cut to 64 bits with a sign. So the answer is exact for an integer with no more than 53 binary
digits before its zeros, and only then, but for the greatest integer that is not cut. -/
theorem integer_functions {ns : List Int} (hne : ns ≠ []) (hns : ∀ n ∈ ns, Number.inRange n = true) :
    (∃ m ∈ ns, (∀ n ∈ ns, m ≤ n) ∧ Answers "min" (ns.map .int) (.ok (.number (.ofExact m)))) ∧
    (∃ m ∈ ns, (∀ n ∈ ns, n ≤ m) ∧ Answers "max" (ns.map .int) (.ok (.number (.ofExact m)))) ∧
    ∀ n ∈ ns, Answers "floor" [.int n] (.ok (.number (.ofExact n))) ∧
      Answers "ceil" [.int n] (.ok (.number (.ofExact n))) ∧
      Answers "abs" [.int n] (.ok (.number (.ofExact n.natAbs))) ∧
      Answers "format" [.text "%d", .int n] (.ok (.text (toString (min (roundInt n) (int64Limit - 1))))) ∧
      (Number.ofExact n = .int n ↔ IsExact n) ∧ (n.natAbs ≤ twoPow 53 → IsExact n) ∧
      (min (roundInt n) (int64Limit - 1) = n ↔ (IsExact n ∧ n < int64Limit) ∨ n = int64Limit - 1) := by
  refine ⟨?_, ?_, fun n hmem => ?_⟩
  · cases ns with
    | nil => exact absurd rfl hne
    | cons n ns =>
      have hfirst : (n :: ns).min? = some (ns.foldl min n) := List.min?_cons'
      obtain ⟨hmin, hleast⟩ := List.min?_eq_some_iff.mp hfirst
      exact ⟨_, hmin, hleast, answers_folded rfl (fun m n => by omega) (fun m n => Number.least_ofExact) hns⟩
  · cases ns with
    | nil => exact absurd rfl hne
    | cons n ns =>
      have hlast : (n :: ns).max? = some (ns.foldl max n) := List.max?_cons'
      obtain ⟨hmax, hgreatest⟩ := List.max?_eq_some_iff.mp hlast
      exact ⟨_, hmax, hgreatest, answers_folded rfl (fun m n => by omega) (fun m n => Number.greatest_ofExact) hns⟩
  · have hn := hns n hmem
    have hfloor : Answers "floor" [.int n] (.ok (.ofNumber (Number.ofExact n).floor)) :=
      answers_ofNumber (f := fun n => .ofNumber n.floor) rfl n
    have hceil : Answers "ceil" [.int n] (.ok (.ofNumber (Number.ofExact n).ceil)) :=
      answers_ofNumber (f := fun n => .ofNumber n.ceil) rfl n
    have habs : Answers "abs" [.int n] (.ok (.ofNumber (Number.ofExact n).abs)) :=
      answers_ofNumber (f := fun n => .ofNumber n.abs) rfl n
    rw [Number.floor_ofExact hn, ofNumber_ofExact hn] at hfloor
    rw [Number.ceil_ofExact hn, ofNumber_ofExact hn] at hceil
    rw [Number.abs_ofExact hn, ofNumber_ofExact (Number.inRange_natAbs hn)] at habs
    have hformat := answers_format_int n
    rw [Number.toInt64_ofExact hn] at hformat
    exact ⟨hfloor, hceil, habs, hformat, Number.ofExact_eq_int_iff hn, Binary64.isExact_of_le, min_roundInt_eq_self_iff⟩

/-- The greatest of `2 ^ 53 + 1`, `-2 ^ 63` and `2 ^ 64 - 1` is none of them, and the last is printed as the greatest
integer with a sign, while the least of them and its size are exact. -/
theorem integer_functions_unevenInteger :
    let ns := [9007199254740993, -9223372036854775808, 18446744073709551615]
    (∀ n ∈ ns, Number.inRange n = true) ∧
    Answers "max" (ns.map .int) (.ok (.number (.float (Binary64.ofInt 18446744073709551615)))) ∧
    Answers "min" (ns.map .int) (.ok (.int (-9223372036854775808))) ∧
    Answers "floor" [.int 9007199254740993] (.ok (.int 9007199254740992)) ∧
    Answers "abs" [.int (-9223372036854775808)] (.ok (.int 9223372036854775808)) ∧
    Answers "format" [.text "%d", .int 18446744073709551615] (.ok (.text "9223372036854775807")) := by
  intro ns
  have hrange : ∀ n ∈ ns, Number.inRange n = true := by decide
  obtain ⟨⟨m, hm, hleast, hmin⟩, ⟨k, hk, hgreatest, hmax⟩, hsingle⟩ := integer_functions (List.cons_ne_nil _ _) hrange
  obtain ⟨hfloor, -⟩ := hsingle 9007199254740993 (by decide)
  obtain ⟨-, -, habs, -⟩ := hsingle (-9223372036854775808) (by decide)
  obtain ⟨-, -, -, hformat, -⟩ := hsingle 18446744073709551615 (by decide)
  have hm' : m = -9223372036854775808 := by
    have hle := hleast (-9223372036854775808) (by decide)
    simp at hm
    omega
  have hk' : k = 18446744073709551615 := by
    have hle := hgreatest 18446744073709551615 (by decide)
    simp at hk
    omega
  rw [hm'] at hmin
  rw [hk'] at hmax
  exact ⟨hrange, hmax, hmin, hfloor, habs, hformat⟩

end InfraConfig
