import Mathlib.Data.List.Induction
import Mathlib.Tactic.IntervalCases
import InfraConfig.Calendar.Timestamp
import InfraConfig.Proofs.LabelKeys
import InfraConfig.Proofs.RunLaws

/-!
# Timestamps, their instants and their texts

A day has one date, and the date of a day is one that there is: years are counted from March in groups of 400, and the
guess at the leap days among them is right. So an instant is the instant of its own timestamp, and adding a duration to
an instant outside of leap seconds is exact.

A timestamp in UTC with a year of four digits is read from its own text: every number from its digits, a fraction of a
second from the three, six or nine digits that show it. Whatever is read as a timestamp is one that a clock can show.
-/

namespace InfraConfig

/-! ## Days -/

namespace Date

/-- The years that are over on a day of 400 years, counted from March. -/
def yearsOver (days : Int) : Int :=
  (days - days / 1460 + days / 36524 - days / 146096) / 365

/-- The days of the first years of 400, counted from March. -/
def daysOver (years : Int) : Int :=
  365 * years + years / 4 - years / 100

theorem isLeap_add (era year : Int) : isLeap (400 * era + year) = isLeap year := by
  have hfourth : (400 * era + year) % 4 = year % 4 := by omega
  have hhundredth : (400 * era + year) % 100 = year % 100 := by omega
  have hera : (400 * era + year) % 400 = year % 400 := by omega
  rw [isLeap, hfourth, hhundredth, hera]
  rfl

theorem isLeap_iff {year : Int} : isLeap year = true ↔ year % 4 = 0 ∧ (year % 100 ≠ 0 ∨ year % 400 = 0) := by
  simp [isLeap]

/-- A day falls in the year after those that are over, and it is the 366th of it only if the year ends with a leap
day. -/
theorem daysOver_yearsOver {days : Int} (hlow : 0 ≤ days) (hhigh : days < 146097) :
    0 ≤ yearsOver days ∧ yearsOver days < 400 ∧ daysOver (yearsOver days) ≤ days ∧
      days ≤ daysOver (yearsOver days) + 365 ∧
      (days = daysOver (yearsOver days) + 365 → isLeap (yearsOver days + 1) = true) := by
  by_cases hlast : days = 146096
  · subst hlast
    decide
  have hera : days / 146096 = 0 := by omega
  obtain ⟨centuries, hcenturies⟩ : ∃ n, n = days / 36524 := ⟨_, rfl⟩
  obtain ⟨quarters, hquarters⟩ : ∃ n, n = days / 1460 := ⟨_, rfl⟩
  rw [yearsOver, hera, ← hcenturies, ← hquarters, Int.sub_zero]
  obtain ⟨years, hyears⟩ : ∃ n, n = (days - quarters + centuries) / 365 := ⟨_, rfl⟩
  rw [← hyears, daysOver]
  -- the leap years are guessed right, or one too many in the year before the next one
  have hfloor : years / 4 ≤ quarters := by omega
  have hceil : quarters ≤ (years + 1) / 4 := by omega
  have hcentury : centuries = years / 100 := by omega
  refine ⟨by omega, by omega, by omega, by omega, fun hleap => isLeap_iff.mpr ?_⟩
  have hfourth : years / 4 + 1 ≤ (years + 1) / 4 := by omega
  have hwhole : (years + 1) % 100 ≠ 0 := by omega
  exact ⟨by omega, .inl hwhole⟩

theorem daysOver_add (era : Int) {years : Int} (hlow : 0 ≤ years) (hhigh : years < 400) :
    365 * (400 * era + years) + (400 * era + years) / 4 - (400 * era + years) / 100 + (400 * era + years) / 400
      = 146097 * era + daysOver years := by
  have hfourth : (400 * era + years) / 4 = 100 * era + years / 4 := by omega
  have hhundredth : (400 * era + years) / 100 = 4 * era + years / 100 := by omega
  have hera : (400 * era + years) / 400 = era := by omega
  rw [hfourth, hhundredth, hera, daysOver]
  omega

/-- The days of the months before one, counted from March. -/
def daysBefore (month : Nat) : Nat :=
  (153 * month + 2) / 5

/-- The parts of the date of a day: the year in 400 years, and in it the month and the day, all counted from March. -/
theorem exists_ofDays (days : Int) : ∃ (era years : Int) (month day : Nat),
    days = 146097 * era + daysOver years + daysBefore month + day - 1 ∧ 0 ≤ years ∧ years < 400 ∧ month ≤ 11 ∧
      1 ≤ day ∧ daysBefore month + day ≤ daysBefore (month + 1) ∧ daysBefore month + day ≤ 366 ∧
      (daysBefore month + day = 366 → isLeap (400 * era + years + 1) = true) ∧
      ofDays days = if month < 10 then ⟨400 * era + years, month + 3, day⟩
        else ⟨400 * era + years + 1, month - 9, day⟩ := by
  have hrange : 0 ≤ days % 146097 ∧ days % 146097 < 146097 := by omega
  obtain ⟨hlow, hhigh, hover, hnext, hleap⟩ := daysOver_yearsOver hrange.1 hrange.2
  obtain ⟨years, hyears⟩ : ∃ n, n = yearsOver (days % 146097) := ⟨_, rfl⟩
  rw [← hyears] at hlow hhigh hover hnext hleap
  obtain ⟨rest, hrest⟩ : ∃ rest : Nat, days % 146097 - daysOver years = rest :=
    Int.eq_ofNat_of_zero_le (by omega)
  obtain ⟨month, hmonth⟩ : ∃ n, n = (5 * rest + 2) / 153 := ⟨_, rfl⟩
  obtain ⟨day, hday⟩ : ∃ n, n = rest - (153 * month + 2) / 5 + 1 := ⟨_, rfl⟩
  have hdate : ofDays days = if (5 * (rest : Int) + 2) / 153 < 10 then
      ⟨400 * (days / 146097) + years, ((5 * (rest : Int) + 2) / 153 + 3).toNat,
        (rest - (153 * ((5 * (rest : Int) + 2) / 153) + 2) / 5 + 1).toNat⟩
      else ⟨400 * (days / 146097) + years + 1, ((5 * (rest : Int) + 2) / 153 - 9).toNat,
        (rest - (153 * ((5 * (rest : Int) + 2) / 153) + 2) / 5 + 1).toNat⟩ := by
    rw [← hrest, hyears]
    rfl
  have hmonth' : (5 * (rest : Int) + 2) / 153 = month := by omega
  have hday' : (rest : Int) - (153 * month + 2) / 5 + 1 = day := by omega
  rw [hmonth', hday'] at hdate
  simp only [daysBefore]
  refine ⟨days / 146097, years, month, day, by omega, hlow, hhigh, by omega, by omega, by omega, by omega, ?_, ?_⟩
  · intro hlast
    rw [Int.add_assoc, isLeap_add]
    exact hleap (by omega)
  · have hmarch : ((month : Int) - 9).toNat = month - 9 := by omega
    rw [hdate, hmarch]
    simp only [Nat.cast_lt_ofNat, Int.toNat_natCast]
    rfl

/-- A day is the day of its date. -/
theorem toDays_ofDays (days : Int) : (ofDays days).toDays = days := by
  obtain ⟨era, years, month, day, hdays, hlow, hhigh, hmonths, hday, -, -, -, hdate⟩ := exists_ofDays days
  have hyears := daysOver_add era hlow hhigh
  rw [hdate, hdays]
  split_ifs with hmonth
  · have hmarch : ¬ month + 3 ≤ 2 := by omega
    simp only [toDays, if_neg hmarch, daysBefore, Nat.add_sub_cancel]
    omega
  · have hmarch : month - 9 ≤ 2 := by omega
    have hsame : month - 9 + 9 = month := by omega
    simp only [toDays, if_pos hmarch, daysBefore, hsame, Int.add_sub_cancel]
    omega

theorem isValid_ofDays (days : Int) : (ofDays days).isValid = true := by
  obtain ⟨era, years, month, day, -, -, -, hmonth, hday, hlength, hlast, hleap, hdate⟩ := exists_ofDays days
  rw [hdate]
  simp only [daysBefore] at hlength hlast hleap
  interval_cases month
  case «11» =>
    have hfebruary : day ≤ if isLeap (400 * era + years + 1) = true then 29 else 28 := by
      split_ifs with h
      · omega
      · have hshort : ¬ 337 + day = 366 := mt hleap h
        omega
    simpa [isValid, daysInMonth, hday] using hfebruary
  all_goals
    simp [isValid, daysInMonth]
    omega

end Date

/-! ## Instants -/

namespace Timestamp

/-- A timestamp that a clock can show, leap seconds apart. -/
structure IsProper (t : Timestamp) : Prop where
  date : t.date.isValid = true
  hour : t.hour < 24
  minute : t.minute < 60
  second : t.second < 60

theorem isProper_ofInstant (i : Instant) : (ofInstant i).IsProper where
  date := Date.isValid_ofDays _
  hour := by
    simp only [ofInstant]
    omega
  minute := Nat.mod_lt _ (by decide)
  second := Nat.mod_lt _ (by decide)

theorem instant_ofInstant (i : Instant) : (ofInstant i).instant = i := by
  have hdays := Date.toDays_ofDays (i.seconds / 86400)
  have hseconds : (ofInstant i).instant.seconds = i.seconds := by
    simp only [ofInstant, instant, hdays]
    omega
  rw [Instant.mk.injEq]
  exact ⟨hseconds, rfl⟩

end Timestamp

namespace Instant

/-- Nanoseconds since 1 March of year 0. -/
def total (i : Instant) : Int :=
  i.seconds * billion + i.nanos

theorem add_of_lt {i : Instant} (h : i.nanos < billion) (nanos : Int) :
    (i.add nanos).total = i.total + nanos ∧ (i.add nanos).nanos < billion := by
  have hsplit := Int.mul_tdiv_add_tmod nanos billion
  rw [add, if_pos h]
  simp only [total, billion] at *
  omega

end Instant

/-! ## Digits -/

theorem tenPow_pos (n : Nat) : 0 < tenPow n := Nat.pow_pos (by decide)

theorem toList_padNat (width n : Nat) : (padNat width n).toList =
    List.replicate (width - (Nat.toDigits 10 n).length) '0' ++ Nat.toDigits 10 n := by
  rw [padNat, String.toList_ofList]

theorem isDigit_padNat {width n : Nat} {c : Char} (h : c ∈ (padNat width n).toList) : c.isDigit = true := by
  rw [toList_padNat, List.mem_append] at h
  rcases h with hzero | hdigit
  · rw [List.eq_of_mem_replicate hzero]
    decide
  · exact isDigit_toDigits hdigit

theorem decimalNat_padNat (width n : Nat) : decimalNat (padNat width n).toList = n := by
  rw [toList_padNat]
  change Nat.ofDigitChars 10 _ 0 = n
  rw [Nat.ofDigitChars_append, Nat.ofDigitChars_replicate_zero, Nat.mul_zero, Nat.ofDigitChars_ten_toDigits]

/-- A number that is not too great is written with exactly as many digits as it is padded to. -/
theorem length_padNat {width n : Nat} (hwidth : 0 < width) (h : n < tenPow width) :
    (padNat width n).toList.length = width := by
  have hlength : (Nat.toDigits 10 n).length ≤ width := (Nat.length_toDigits_le_iff (by decide) hwidth).mpr h
  rw [toList_padNat, List.length_append, List.length_replicate]
  omega

theorem decimalNat_lt {ds : List Char} (h : ∀ c ∈ ds, c.isDigit = true) : decimalNat ds < tenPow ds.length := by
  induction ds using List.reverseRecOn with
  | nil => exact tenPow_pos 0
  | append_singleton ds c ih =>
    have hrest := ih fun d hd => h d (List.mem_append_left _ hd)
    have hdigit := (Char.isDigit_iff_toNat.mp (h c (by simp))).2
    have hpow : tenPow (ds ++ [c]).length = tenPow ds.length * 10 := by
      rw [List.length_append, List.length_singleton]
      rfl
    have hvalue : decimalNat (ds ++ [c]) = 10 * decimalNat ds + (c.toNat - 48) := by
      rw [decimalNat, List.foldl_append]
      rfl
    have hnine : '9'.toNat = 57 := rfl
    omega

namespace Timestamp

variable {n lo hi : Nat}

/-- A list of characters has no fewer bytes. -/
theorem length_le_bytes (cs : List Char) (count : Nat) :
    count + cs.length ≤ cs.foldl (fun count c => count + c.utf8Size) count := by
  induction cs generalizing count with
  | nil => exact Nat.le_refl _
  | cons c cs ih =>
    have hsize := c.utf8Size_pos
    have hrest := ih (count + c.utf8Size)
    rw [List.foldl_cons, List.length_cons]
    omega

/-! ## Reading what is written -/

section Written

variable {v : Nat} (hn : 0 < n) (h : v < tenPow n) (rest : List Char)
include hn h

theorem readDigits_padNat : readDigits n ((padNat n v).toList ++ rest) = .ok (v, rest) := by
  have hlength := length_padNat hn h
  have hbytes : n ≤ ((padNat n v).toList ++ rest).foldl (fun count c => count + c.utf8Size) 0 := by
    have hle := length_le_bytes ((padNat n v).toList ++ rest) 0
    rw [List.length_append] at hle
    omega
  have htake : ((padNat n v).toList ++ rest).take n = (padNat n v).toList := List.take_left' hlength
  have hdrop : ((padNat n v).toList ++ rest).drop n = rest := List.drop_left' hlength
  have hdigits : (padNat n v).toList.all Char.isDigit = true := List.all_eq_true.mpr fun _ => isDigit_padNat
  rw [readDigits, if_neg (Nat.not_lt.mpr hbytes), htake, hdrop, if_pos hdigits, decimalNat_padNat]

theorem readBetween_padNat (hlo : lo ≤ v) (hhi : v ≤ hi) :
    readBetween n lo hi ((padNat n v).toList ++ rest) = .ok (v, rest) := by
  rw [readBetween, readDigits_padNat hn h]
  exact if_pos ⟨hlo, hhi⟩

theorem readFraction_padNat (hnine : n ≤ 9) (hrest : ∀ c ∈ rest.head?, c.isDigit = false) :
    readFraction ('.' :: ((padNat n v).toList ++ rest)) = .ok (v * tenPow (9 - n), rest) := by
  have hlength := length_padNat hn h
  have htake : ((padNat n v).toList ++ rest).takeWhile Char.isDigit = (padNat n v).toList :=
    takeWhile_append_of_ends (fun _ => isDigit_padNat) hrest
  have hnonempty : (padNat n v).toList.isEmpty = false := by
    rw [List.isEmpty_eq_false_iff_exists_mem]
    exact List.exists_mem_of_length_pos (by omega)
  have hwhole : (padNat n v).toList.take 9 = (padNat n v).toList := List.take_of_length_le (by omega)
  rw [readFraction, htake, hwhole, hnonempty, if_neg Bool.false_ne_true, hlength, List.drop_left' hlength]
  dsimp only
  rw [decimalNat_padNat, hlength]

end Written

theorem readFraction_of_none {rest : List Char} (h : ∀ c ∈ rest.head?, c ≠ '.') :
    readFraction rest = .ok (0, rest) := by
  rw [readFraction]
  rintro cs rfl
  exact h '.' rfl rfl

/-- A fraction is read from as few digits as show it. -/
theorem readFraction_fractionText {nanos : Nat} (h : nanos < billion) {rest : List Char}
    (hdigit : ∀ c ∈ rest.head?, c.isDigit = false) (hpoint : ∀ c ∈ rest.head?, c ≠ '.') :
    readFraction ((fractionText nanos).toList ++ rest) = .ok (nanos, rest) := by
  have hread {n v : Nat} (hn : 0 < n) (hnine : n ≤ 9) (hv : v < tenPow n) :
      readFraction (("." ++ padNat n v).toList ++ rest) = .ok (v * tenPow (9 - n), rest) := by
    rw [String.toList_append, List.append_assoc]
    exact readFraction_padNat hn hv rest hnine hdigit
  rw [billion] at h
  rw [fractionText]
  split_ifs with hzero hmillis hmicros
  · rw [hzero]
    exact readFraction_of_none hpoint
  · have hv : nanos / 1000000 < tenPow 3 := (Nat.div_lt_iff_lt_mul (by decide)).mpr h
    have hvalue : nanos / 1000000 * tenPow (9 - 3) = nanos := Nat.div_mul_cancel (Nat.dvd_of_mod_eq_zero hmillis)
    rw [hread (by decide) (by decide) hv, hvalue]
  · have hv : nanos / 1000 < tenPow 6 := (Nat.div_lt_iff_lt_mul (by decide)).mpr h
    have hvalue : nanos / 1000 * tenPow (9 - 6) = nanos := Nat.div_mul_cancel (Nat.dvd_of_mod_eq_zero hmicros)
    rw [hread (by decide) (by decide) hv, hvalue]
  · rw [hread (by decide) (by decide) h]
    exact congrArg Except.ok (Prod.ext (Nat.mul_one nanos) rfl)

/-- Whether the year of a timestamp has four digits. -/
def InFourDigits (t : Timestamp) : Prop :=
  0 ≤ t.date.year ∧ t.date.year ≤ 9999

variable {t : Timestamp}

/-- A timestamp in UTC is read from its text. -/
theorem read_textUtc (h : t.IsProper) (hzone : t.offset = 0) (hleap : t.nanos < billion) (hyear : t.InFourDigits) :
    read t.textUtc = .ok t := by
  obtain ⟨hlow, hhigh⟩ := hyear
  obtain ⟨⟨⟨hmonth, hmonth'⟩, hday⟩, hday'⟩ : ((1 ≤ t.date.month ∧ t.date.month ≤ 12) ∧ 1 ≤ t.date.day) ∧
      t.date.day ≤ Date.daysInMonth t.date.year t.date.month := by
    simpa [Date.isValid] using h.date
  have hlength : Date.daysInMonth t.date.year t.date.month ≤ 31 := by
    rw [Date.daysInMonth]
    split_ifs <;> decide
  have hsecond : t.shownSecond = t.second := by
    rw [shownSecond, Nat.div_eq_of_lt hleap, Nat.add_zero]
  have hnanos : t.nanos % billion = t.nanos := Nat.mod_eq_of_lt hleap
  have hyear : (t.date.year.toNat : Int) = t.date.year := Int.toNat_of_nonneg hlow
  have htext : t.textUtc.toList = (padNat 4 t.date.year.toNat).toList ++ '-' ::
      ((padNat 2 t.date.month).toList ++ '-' :: ((padNat 2 t.date.day).toList ++ 'T' ::
        ((padNat 2 t.hour).toList ++ ':' :: ((padNat 2 t.minute).toList ++ ':' ::
          ((padNat 2 t.second).toList ++ ((fractionText t.nanos).toList ++ ['Z'])))))) := by
    rw [textUtc, yearText, if_pos ⟨hlow, hhigh⟩, hsecond, hnanos]
    simp
  have hfraction : readFraction ((fractionText t.nanos).toList ++ ['Z']) = .ok (t.nanos, ['Z']) :=
    readFraction_fractionText hleap (by rintro c ⟨⟩; rfl) (by rintro c ⟨⟩; decide)
  have hyears (cs : List Char) :
      readDigits 4 ((padNat 4 t.date.year.toNat).toList ++ cs) = .ok (t.date.year.toNat, cs) :=
    readDigits_padNat (by decide) (show _ < 10000 by omega) cs
  have hread {v lo hi : Nat} (hv : v < 100) (hlo : lo ≤ v) (hhi : v ≤ hi) (cs : List Char) :
      readBetween 2 lo hi ((padNat 2 v).toList ++ cs) = .ok (v, cs) :=
    readBetween_padNat (by decide) hv cs hlo hhi
  have hmonths := hread (Nat.lt_of_le_of_lt hmonth' (by decide)) hmonth hmonth'
  have hdays := hread (Nat.lt_of_le_of_lt (Nat.le_trans hday' hlength) (by decide)) hday (Nat.le_trans hday' hlength)
  have hhours := hread (Nat.lt_trans h.hour (by decide)) (Nat.zero_le _) (Nat.le_of_lt_succ h.hour)
  have hminutes := hread (Nat.lt_trans h.minute (by decide)) (Nat.zero_le _) (Nat.le_of_lt_succ h.minute)
  have hseconds := hread (Nat.lt_trans h.second (by decide)) (Nat.zero_le _) (Nat.le_of_lt h.second)
  have hmark (mark : Char) (cs : List Char) : readMark mark (mark :: cs) = .ok cs := if_pos (beq_self_eq_true mark)
  have hseparator (cs : List Char) : readSeparator ('T' :: cs) = .ok cs := rfl
  have hend : readOffset ['Z'] = .ok (0, []) := rfl
  have hsixty : ¬ t.second = 60 := Nat.ne_of_lt h.second
  rw [read, htext]
  simp only [hyears, hmark, hmonths, hdays, hseparator, hhours, hminutes, hseconds, hfraction, hend, bind, Except.bind]
  rw [hyear, if_neg (by decide), if_neg (by simp), if_neg (by simp [h.date]), if_neg hsixty, ← hzone]

/-! ## Whatever is read -/

theorem readDigits_lt {cs rest : List Char} {v : Nat} (h : readDigits n cs = .ok (v, rest)) : v < tenPow n := by
  rw [readDigits] at h
  split_ifs at h with hshort hdigits
  cases h
  have hvalue := decimalNat_lt (List.all_eq_true.mp hdigits)
  exact Nat.lt_of_lt_of_le hvalue (Nat.pow_le_pow_right (by decide) (List.length_take_le n cs))

theorem readBetween_bounds {cs rest : List Char} {v : Nat} (h : readBetween n lo hi cs = .ok (v, rest)) :
    lo ≤ v ∧ v ≤ hi := by
  obtain ⟨⟨v', rest'⟩, -, hbounds⟩ := bind_eq_ok_iff.mp h
  dsimp only at hbounds
  split_ifs at hbounds with hin
  cases hbounds
  exact hin

/-- What is read as a timestamp can be shown by a clock, and its year has four digits. -/
theorem isProper_of_read {text : String} (h : read text = .ok t) : t.IsProper ∧ t.InFourDigits := by
  simp only [read, bind_eq_ok_iff, Prod.exists] at h
  obtain ⟨year, cs, hyear, cs, -, month, cs, -, cs, -, day, cs, -, cs, -, hour, cs, hhour, cs, -, minute, cs, hminute,
    cs, -, second, cs, hsecond, nanos, cs, -, offset, cs, -, h⟩ := h
  have hyear := readDigits_lt hyear
  have hhour := readBetween_bounds hhour
  have hminute := readBetween_bounds hminute
  have hsecond := readBetween_bounds hsecond
  have hfour : tenPow 4 = 10000 := rfl
  split_ifs at h with hoffset hlong hdate hsixty
  all_goals
    obtain rfl := Except.ok.inj h
    refine ⟨⟨by simpa using hdate, by dsimp only; omega, by dsimp only; omega, by dsimp only; omega⟩, ?_⟩
    simp only [InFourDigits]
    omega

end Timestamp

end InfraConfig
