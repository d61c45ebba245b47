import InfraConfig.Proofs.Binary64Sums
import InfraConfig.Proofs.FunctionCalls
import InfraConfig.Proofs.NumberConversions
import InfraConfig.Proofs.Timestamps

/-!
# Functions on timestamps

A layout can show a timestamp as one is written: date, time and the zone. The letter of the zone stands for itself, so
what is shown is the same local time in UTC. It is a timestamp again, later than the one shown by as much as local time
is ahead of UTC: it is the same instant only for timestamps in UTC.

A duration of whole amounts is read as the sum of its amounts, each amount, product and sum rounded to binary64, cut to
64 bits with a sign. That sum is added to a timestamp exactly. It is the sum of the amounts for durations of up to
`2 ^ 53` nanoseconds, about a hundred days; longer ones may be rounded or cut, and then another instant is returned.
-/

namespace InfraConfig

open Binary64 (roundNat roundNat_eq_self roundNat_of_twoPow_dvd signed twoPow_add twoPow_pos)

/-! ## Layouts -/

variable {t : Timestamp} {text : String}

/-- The layout of date, time and zone. -/
def fullLayout : String := "YYYY-MM-DD'T'hh:mm:ssZ"

/-- The timestamp with the same local time in UTC. -/
def Timestamp.asUtc (t : Timestamp) : Timestamp :=
  { t with offset := 0 }

theorem Timestamp.IsProper.asUtc (h : t.IsProper) : t.asUtc.IsProper where
  date := h.date
  hour := h.hour
  minute := h.minute
  second := h.second

theorem layoutItems_fullLayout : layoutItems fullLayout = .ok
    [.field .year, .literal ['-'], .field (.month true), .literal ['-'], .field (.day true), .literal ['T'],
      .field (.hour true), .literal [':'], .field (.minute true), .literal [':'], .field (.second true),
      .field .zulu] :=
  rfl

/-- A timestamp with whole seconds is shown as the text of its local time in UTC. -/
theorem showLayout_fullLayout (hyear : t.InFourDigits) (hwhole : t.nanos = 0) {items : List LayoutItem}
    (hitems : layoutItems fullLayout = .ok items) : showLayout items t = t.asUtc.textUtc := by
  have hyears : yearText t.asUtc.date.year = padNat 4 t.date.year.toNat := if_pos hyear
  have hfraction : fractionText (t.asUtc.nanos % billion) = "" := by
    rw [Timestamp.asUtc, hwhole]
    rfl
  obtain rfl := Except.ok.inj (layoutItems_fullLayout.symm.trans hitems)
  apply String.toList_injective
  rw [Timestamp.textUtc, hyears, hfraction]
  simp [showLayout, LayoutItem.textOf, DateField.textOf, DateField.number, Timestamp.asUtc, Timestamp.shownSecond]

/-- Local time is compared with the instant by the offset. -/
theorem sign_compare_asUtc (t : Timestamp) :
    Functions.sign (t.asUtc.instant.compare t.instant) = t.offset.sign := by
  have hseconds : t.asUtc.instant.seconds = t.instant.seconds + t.offset := by
    simp only [Timestamp.asUtc, Timestamp.instant]
    omega
  have hnanos : t.asUtc.instant.nanos = t.instant.nanos := rfl
  rw [Instant.compare, hseconds, hnanos, Std.compare_self, Ordering.then_eq]
  rcases Int.lt_trichotomy t.offset 0 with hneg | hzero | hpos
  · rw [Int.compare_eq_lt.mpr (by omega), Int.sign_eq_neg_one_of_neg hneg]
    rfl
  · rw [hzero, Int.add_zero, Std.compare_self]
    rfl
  · rw [Int.compare_eq_gt.mpr (by omega), Int.sign_eq_one_of_pos hpos]
    rfl

namespace Functions

theorem answers_formatdate {layout : String} {items : List LayoutItem} (hlayout : layoutItems layout = .ok items)
    (h : Timestamp.read text = .ok t) :
    Answers "formatdate" [.text layout, .text text] (.ok (.text (showLayout items t))) := by
  refine ⟨_, rfl, (Function.call_own ?_).trans ?_⟩
  · exact .cons rfl (.cons rfl .nil)
  dsimp only
  simp only [textAt, timestampAt, List.getElem?_cons_zero, List.getElem?_cons_succ, hlayout, h, bind, Except.bind]
  rfl

theorem answers_timecmp {other : String} {u : Timestamp} (h : Timestamp.read text = .ok t)
    (h' : Timestamp.read other = .ok u) :
    Answers "timecmp" [.text text, .text other] (.ok (.int (sign (t.instant.compare u.instant)))) := by
  refine ⟨_, rfl, (Function.call_own ?_).trans ?_⟩
  · exact .cons rfl (.cons rfl .nil)
  dsimp only
  simp only [textAt, timestampAt, List.getElem?_cons_zero, List.getElem?_cons_succ, h, h', bind, Except.bind]
  rfl

end Functions

open Functions (Answers)

/-- A timestamp with whole seconds is shown in the full layout as a timestamp: the one with its local time in UTC. It is
compared with the timestamp shown by the offset of that one, so they are the same instant exactly if the offset is
zero. -/
theorem layout_shows_local_time (h : Timestamp.read text = .ok t) (hwhole : t.nanos = 0) :
    ∃ shown, Answers "formatdate" [.text fullLayout, .text text] (.ok (.text shown)) ∧
      Timestamp.read shown = .ok t.asUtc ∧
      Answers "timecmp" [.text shown, .text text] (.ok (.int t.offset.sign)) ∧
      (Answers "timecmp" [.text shown, .text text] (.ok (.int 0)) ↔ t.offset = 0) := by
  obtain ⟨hproper, hyear⟩ := Timestamp.isProper_of_read h
  have hread : Timestamp.read t.asUtc.textUtc = .ok t.asUtc :=
    Timestamp.read_textUtc hproper.asUtc rfl (by rw [Timestamp.asUtc, hwhole]; decide) hyear
  have hshown := Functions.answers_formatdate layoutItems_fullLayout h
  rw [showLayout_fullLayout hyear hwhole layoutItems_fullLayout] at hshown
  have hcompared := Functions.answers_timecmp hread h
  rw [sign_compare_asUtc] at hcompared
  refine ⟨t.asUtc.textUtc, hshown, hread, hcompared, fun hzero => ?_, fun hzero => ?_⟩
  · have hsame := hcompared.unique hzero
    rw [Except.ok.injEq, Datum.int, Datum.int, Datum.number.injEq, Number.int.injEq] at hsame
    exact Int.sign_eq_zero_iff_zero.mp hsame
  · rw [hzero] at hcompared
    exact hcompared

/-- Half past nine at half an hour behind UTC is shown as half past nine in UTC, which is earlier; ten o'clock in UTC is
shown as what it is. -/
theorem layout_shows_local_time_behind :
    (∃ shown, Answers "formatdate" [.text fullLayout, .text "2020-02-29T09:30:00-00:30"] (.ok (.text shown)) ∧
      Timestamp.read shown = .ok ⟨⟨2020, 2, 29⟩, 9, 30, 0, 0, 0⟩ ∧
      Answers "timecmp" [.text shown, .text "2020-02-29T09:30:00-00:30"] (.ok (.int (-1)))) ∧
    ∃ shown, Answers "formatdate" [.text fullLayout, .text "2020-02-29T10:00:00Z"] (.ok (.text shown)) ∧
      Answers "timecmp" [.text shown, .text "2020-02-29T10:00:00Z"] (.ok (.int 0)) := by
  have hbehind : Timestamp.read "2020-02-29T09:30:00-00:30" = .ok ⟨⟨2020, 2, 29⟩, 9, 30, 0, 0, -1800⟩ := by
    decide +kernel
  have hutc : Timestamp.read "2020-02-29T10:00:00Z" = .ok ⟨⟨2020, 2, 29⟩, 10, 0, 0, 0, 0⟩ := by decide +kernel
  obtain ⟨shown, hshown, hread, hcompared, -⟩ := layout_shows_local_time hbehind rfl
  obtain ⟨shown', hshown', -, -, hzero⟩ := layout_shows_local_time hutc rfl
  exact ⟨⟨shown, hshown, hread, hcompared⟩, shown', hshown', hzero.mpr rfl⟩

/-! ## Durations -/

namespace Duration

inductive TimeUnit where
  | hour
  | minute
  | second
  | milli
  | micro
  | nano

namespace TimeUnit

def nanos : TimeUnit → Nat
  | hour => 3600000000000
  | minute => 60000000000
  | second => 1000000000
  | milli => 1000000
  | micro => 1000
  | nano => 1

theorem nanos_pos (unit : TimeUnit) : 0 < unit.nanos := by
  cases unit <;> decide

/-- The texts of the units. Microseconds are written with a `u` or with a micro sign. -/
inductive Writes : List Char → TimeUnit → Prop
  | hour : Writes ['h'] .hour
  | minute : Writes ['m'] .minute
  | second : Writes ['s'] .second
  | milli : Writes ['m', 's'] .milli
  | micro : Writes ['u', 's'] .micro
  | microSign : Writes ['µ', 's'] .micro
  | nano : Writes ['n', 's'] .nano

end TimeUnit

/-- A whole amount of a unit. -/
structure Component where
  amount : Nat
  unit : TimeUnit

namespace Component

def nanos (c : Component) : Nat :=
  c.amount * c.unit.nanos

/-- The nanoseconds of a component in binary64. -/
def roundedNanos (c : Component) : Nat :=
  roundNat (roundNat c.amount * c.unit.nanos)

end Component

def sum (components : List Component) : Nat :=
  (components.map Component.nanos).sum

/-- The sum of components in binary64, on top of `total`. -/
def roundedSum (total : Nat) (components : List Component) : Nat :=
  components.foldl (fun total c => roundNat (total + c.roundedNanos)) total

/-- Whole amounts with their units, one after the other. -/
inductive WritesComponents : List Char → List Component → Prop
  | nil : WritesComponents [] []
  | cons {digits unitText rest : List Char} {unit : TimeUnit} {components : List Component} (hdigits : IsNumeral digits)
      (hunit : unit.Writes unitText) (hrest : WritesComponents rest components) :
      WritesComponents (digits ++ (unitText ++ rest)) (⟨decimalNat digits, unit⟩ :: components)

/-- At least one component, and possibly a sign in front. -/
inductive WritesDuration : List Char → Bool → List Component → Prop
  | plain {body : List Char} {components : List Component} (h : WritesComponents body components) (hne : body ≠ []) :
      WritesDuration body false components
  | plus {body : List Char} {components : List Component} (h : WritesComponents body components) (hne : body ≠ []) :
      WritesDuration ('+' :: body) false components
  | minus {body : List Char} {components : List Component} (h : WritesComponents body components) (hne : body ≠ []) :
      WritesDuration ('-' :: body) true components

variable {body unitText : List Char} {unit : TimeUnit} {components : List Component} {negative : Bool} {total : Nat}
  {num : Number}

/-! ### Sums that are not rounded -/

theorem Component.roundedNanos_eq {k : Nat} {c : Component} (hdvd : twoPow k ∣ c.unit.nanos)
    (h : c.nanos ≤ twoPow (53 + k)) : c.roundedNanos = c.nanos := by
  have hunit : twoPow k ≤ c.unit.nanos := Nat.le_of_dvd c.unit.nanos_pos hdvd
  have hamount : c.amount ≤ twoPow 53 := by
    rw [twoPow_add] at h
    exact Nat.le_of_mul_le_mul_right (Nat.le_trans (Nat.mul_le_mul_left _ hunit) h) (twoPow_pos k)
  rw [roundedNanos, roundNat_eq_self hamount]
  exact roundNat_of_twoPow_dvd (Nat.dvd_mul_left_of_dvd hdvd c.amount) h

/-- Whole amounts of units that are multiples of a power of two are added exactly, up to 53 digits above that. -/
theorem roundedSum_eq {k : Nat} (hdvd : ∀ c ∈ components, twoPow k ∣ c.unit.nanos) (htotal : twoPow k ∣ total)
    (h : total + sum components ≤ twoPow (53 + k)) : roundedSum total components = total + sum components := by
  induction components generalizing total with
  | nil => rfl
  | cons c components ih =>
    have hsum : sum (c :: components) = c.nanos + sum components := List.sum_cons
    have hunit := hdvd c List.mem_cons_self
    have hnext : twoPow k ∣ total + c.nanos := Nat.dvd_add htotal (Nat.dvd_mul_left_of_dvd hunit c.amount)
    rw [hsum] at h ⊢
    have hstep : roundNat (total + c.roundedNanos) = total + c.nanos := by
      rw [Component.roundedNanos_eq hunit (by omega)]
      exact roundNat_of_twoPow_dvd hnext (by omega)
    rw [roundedSum, List.foldl_cons, hstep, ← Nat.add_assoc]
    exact ih (fun c hc => hdvd c (List.mem_cons_of_mem _ hc)) hnext (by omega)

theorem clampInt64_signed {n : Nat} (h : n < twoPow 63) (negative : Bool) :
    clampInt64 (signed negative n) = signed negative n := by
  have hlimit : int64Limit = twoPow 63 := rfl
  rw [clampInt64, signed]
  cases negative <;> simp only [if_true, if_false, Bool.false_eq_true] <;> omega

/-! ### Reading durations -/

theorem TimeUnit.Writes.unitNanos? (h : unit.Writes unitText) : unitNanos? unitText = some (unit.nanos : Int) := by
  cases h <;> rfl

theorem TimeUnit.Writes.not_amount (h : unit.Writes unitText) : ∀ c ∈ unitText, isAmountChar c = false := by
  cases h <;> simp [isAmountChar]

theorem isAmountChar_of_isDigit {c : Char} (h : c.isDigit = true) : isAmountChar c = true := by
  rw [isAmountChar, h, Bool.true_or]

theorem WritesComponents.head_isAmountChar (h : WritesComponents body components) :
    ∀ c ∈ body.head?, isAmountChar c = true := by
  cases h with
  | nil => nofun
  | @cons digits _ _ _ _ hdigits _ _ =>
    cases digits with
    | nil => exact absurd rfl hdigits.nonempty
    | cons d digits =>
      rintro c ⟨⟩
      exact isAmountChar_of_isDigit (hdigits.isDigit d List.mem_cons_self)

/-- Components are added in binary64. -/
theorem WritesComponents.readParts (h : WritesComponents body components) {fuel : Nat} (hfuel : body.length < fuel)
    (htotal : num.Holds total) :
    ∃ later : Number, readParts fuel num body = some later ∧ later.Holds (roundedSum total components) := by
  induction h generalizing fuel num total with
  | nil =>
    obtain ⟨fuel, rfl⟩ := Nat.exists_eq_succ_of_ne_zero (Nat.ne_zero_of_lt hfuel)
    exact ⟨num, rfl, htotal⟩
  | @cons digits unitText rest unit components hdigits hunit hrest ih =>
    obtain ⟨fuel, rfl⟩ := Nat.exists_eq_succ_of_ne_zero (Nat.ne_zero_of_lt hfuel)
    -- the digits end where the unit begins, and the unit where the next digits do
    have hamount : ∀ c ∈ (unitText ++ rest).head?, isAmountChar c = false := by
      cases hunit <;> rintro c ⟨⟩ <;> decide
    have hdigitsTaken : (digits ++ (unitText ++ rest)).takeWhile isAmountChar = digits :=
      takeWhile_append_of_ends (fun c hc => isAmountChar_of_isDigit (hdigits.isDigit c hc)) hamount
    have hunitTaken : (unitText ++ rest).takeWhile (!isAmountChar ·) = unitText :=
      takeWhile_append_of_ends (fun c hc => by rw [hunit.not_amount c hc]; rfl)
        (fun c hc => by rw [hrest.head_isAmountChar c hc]; rfl)
    have hne : (digits ++ (unitText ++ rest)).isEmpty = false := by
      cases digits with
      | nil => exact absurd rfl hdigits.nonempty
      | cons d digits => rfl
    have hread : readAmount? digits = some (.ofExact (decimalNat digits : Nat)) := by
      rw [readAmount?, hdigits.readNat?]
      rfl
    have hcomponent := (Number.holds_ofExact (decimalNat digits)).mulRounded (Nat.ne_of_gt unit.nanos_pos)
    have hlength : rest.length < fuel := by
      have hdigit := List.length_pos_of_ne_nil hdigits.nonempty
      simp only [List.length_append] at hfuel
      omega
    obtain ⟨later, hlater, hholds⟩ := ih hlength (htotal.addRounded hcomponent)
    refine ⟨later, ?_, hholds⟩
    rw [Duration.readParts, hne, if_neg Bool.false_ne_true]
    dsimp only
    rw [hdigitsTaken, List.drop_left, hunitTaken, List.drop_left, hread, hunit.unitNanos?]
    exact hlater

/-- What stands for a sum is cut as the sum is. -/
theorem signedNanos_eq {n : Nat} (h : num.Holds n) (negative : Bool) :
    signedNanos negative num = clampInt64 (signed negative n) := by
  cases h with
  | int h => rfl
  | @float x n h hx =>
    have hnegative : signedNanos negative (.float x) = if negative then -int64Limit else int64Limit - 1 := by
      cases negative with
      | false => exact Binary64.toInt64_of_isAtLeast false hx
      | true => exact Binary64.toInt64_of_isAtLeast true (Binary64.isAtLeast_neg hx (by decide))
    rw [hnegative, clampInt64, signed]
    rw [nat64Limit] at h
    cases negative <;> simp [int64Limit] <;> omega

theorem WritesComponents.takeSign (h : WritesComponents body components) : takeSign body = (false, body) := by
  have hhead := h.head_isAmountChar
  rw [takeSign.eq_def]
  split
  · exact absurd (hhead '-' rfl) (by decide)
  · exact absurd (hhead '+' rfl) (by decide)
  · rfl

theorem WritesDuration.takeSign (h : WritesDuration body negative components) :
    ∃ rest, takeSign body = (negative, rest) ∧ rest ≠ [] ∧ WritesComponents rest components := by
  cases h with
  | plain h hne => exact ⟨_, h.takeSign, hne, h⟩
  | plus h hne => exact ⟨_, rfl, hne, h⟩
  | minus h hne => exact ⟨_, rfl, hne, h⟩

/-- A duration is read as the sum of its components in binary64, cut to 64 bits. -/
theorem WritesDuration.read? {text : String} (h : WritesDuration text.toList negative components) :
    read? text = some (clampInt64 (signed negative (roundedSum 0 components))) := by
  have hzero : (Number.int 0).Holds 0 := .int (by decide)
  obtain ⟨rest, hsign, hne, hwrites⟩ := h.takeSign
  obtain ⟨sum, hsum, hholds⟩ := hwrites.readParts (Nat.lt_succ_self rest.length) hzero
  rw [Duration.read?, hsign]
  dsimp only
  rw [if_neg (mt List.isEmpty_iff.mp hne), hsum, Option.map_some, signedNanos_eq hholds]

end Duration

/-! ### Adding durations -/

namespace Functions

theorem answers_timeadd {start duration : String} {nanos : Int} (hstart : Timestamp.read start = .ok t)
    (hduration : Duration.read? duration = some nanos) :
    Answers "timeadd" [.text start, .text duration]
      (.ok (.text (Timestamp.ofInstant (t.instant.add nanos)).textUtc)) := by
  refine ⟨_, rfl, (Function.call_own ?_).trans ?_⟩
  · exact .cons rfl (.cons rfl .nil)
  dsimp only
  simp only [textAt, timestampAt, durationAt, List.getElem?_cons_zero, List.getElem?_cons_succ, hstart, hduration, bind,
    Except.bind]
  rfl

end Functions

open Duration (WritesDuration Component sum roundedSum)

/-- A duration of whole amounts is added to a timestamp as its sum in binary64, cut to 64 bits with a sign. What is
returned is a timestamp in UTC, unless its year has more than four digits. The sum is exact if it has 63 bits and, above
the last digits that are zeros for all of its units, 53 digits: seconds, for example, are multiples of `2 ^ 9`. -/
theorem timeadd_adds_roundedSum {start duration : String} {negative : Bool} {components : List Component}
    (hstart : Timestamp.read start = .ok t) (hleap : t.nanos < billion)
    (hduration : WritesDuration duration.toList negative components) :
    ∃ later : Timestamp, Answers "timeadd" [.text start, .text duration] (.ok (.text later.textUtc)) ∧
      (later.InFourDigits → Timestamp.read later.textUtc = .ok later) ∧
      later.instant.total = t.instant.total + clampInt64 (signed negative (roundedSum 0 components)) ∧
      ∀ k, (∀ c ∈ components, twoPow k ∣ c.unit.nanos) → sum components ≤ twoPow (53 + k) →
        sum components < twoPow 63 → later.instant.total = t.instant.total + signed negative (sum components) := by
  obtain ⟨nanos, hnanos⟩ : ∃ n, n = clampInt64 (signed negative (roundedSum 0 components)) := ⟨_, rfl⟩
  have hread := hduration.read?
  have hsum := Instant.add_of_lt (i := t.instant) hleap nanos
  rw [← hnanos] at hread ⊢
  have hlater : (Timestamp.ofInstant (t.instant.add nanos)).instant.total = t.instant.total + nanos := by
    rw [Timestamp.instant_ofInstant, hsum.1]
  refine ⟨.ofInstant (t.instant.add nanos), Functions.answers_timeadd hstart hread, fun hyear => ?_, hlater, ?_⟩
  · exact Timestamp.read_textUtc (Timestamp.isProper_ofInstant _) rfl hsum.2 hyear
  · intro k hunits hsmall hbits
    rw [hlater, hnanos, Duration.roundedSum_eq hunits (Nat.dvd_zero _) (by omega), Nat.zero_add,
      Duration.clampInt64_signed hbits]

/-- Ninety minutes are taken off exactly. A duration of `2 ^ 53 + 1` nanoseconds is added without the last one. -/
theorem timeadd_adds_roundedSum_long :
    (∃ later : Timestamp, Answers "timeadd" [.text "2020-01-01T00:00:00Z", .text "-1h30m"] (.ok (.text later.textUtc)) ∧
      later.instant.total = (⟨⟨2020, 1, 1⟩, 0, 0, 0, 0, 0⟩ : Timestamp).instant.total - 5400000000000) ∧
    ∃ later : Timestamp,
      Answers "timeadd" [.text "2020-01-01T00:00:00Z", .text "9007199254740993ns"] (.ok (.text later.textUtc)) ∧
      later.instant.total = (⟨⟨2020, 1, 1⟩, 0, 0, 0, 0, 0⟩ : Timestamp).instant.total + 9007199254740992 := by
  have hstart : Timestamp.read "2020-01-01T00:00:00Z" = .ok ⟨⟨2020, 1, 1⟩, 0, 0, 0, 0, 0⟩ := by decide +kernel
  have hleap : 0 < billion := by decide
  have hdigits (digits : List Char) (hne : digits ≠ []) (hall : digits.all Char.isDigit = true) : IsNumeral digits :=
    ⟨hne, List.all_eq_true.mp hall⟩
  have hminutes : Duration.WritesComponents "30m".toList [⟨30, .minute⟩] :=
    .cons (hdigits ['3', '0'] (by decide) (by decide)) .minute .nil
  have hshort : WritesDuration "-1h30m".toList true [⟨1, .hour⟩, ⟨30, .minute⟩] :=
    .minus (.cons (hdigits ['1'] (by decide) (by decide)) .hour hminutes) (by decide)
  have hnanos : Duration.WritesComponents "9007199254740993ns".toList [⟨9007199254740993, .nano⟩] :=
    .cons (hdigits "9007199254740993".toList (by decide) (by decide)) .nano .nil
  have hlong : WritesDuration "9007199254740993ns".toList false [⟨9007199254740993, .nano⟩] := .plain hnanos (by decide)
  obtain ⟨earlier, hearlier, -, -, hexact⟩ := timeadd_adds_roundedSum hstart hleap hshort
  obtain ⟨later, hlater, -, htotal, -⟩ := timeadd_adds_roundedSum hstart hleap hlong
  refine ⟨⟨earlier, hearlier, ?_⟩, later, hlater, htotal⟩
  exact hexact 0 (fun c _ => Nat.one_dvd _) (by decide) (by decide)

end InfraConfig
