import InfraConfig.Calendar.Date
import InfraConfig.Decimal.Reader
import InfraConfig.Text.Quoted

/-!
# Timestamps

Dates with time of day and offset from UTC, as RFC 3339 writes them, and the instants they stand for. The
second 60 is a leap second: it is kept as the second 59 with a billion nanoseconds more.
-/

namespace InfraConfig

/-- Why a text is no timestamp. -/
inductive TimestampProblem where
  | tooShort
  | tooLong
  | invalid
  | outOfRange
  deriving DecidableEq

def TimestampProblem.message : TimestampProblem → String
  | tooShort => "premature end of input"
  | tooLong => "trailing input"
  | invalid => "input contains invalid characters"
  | outOfRange => "input is out of range"

structure Timestamp where
  date : Date
  hour : Nat
  minute : Nat
  second : Nat
  nanos : Nat
  /-- Seconds by which local time is ahead of UTC. -/
  offset : Int
  deriving DecidableEq

/-- Seconds since 1 March of year 0, UTC, and nanoseconds. A billion nanoseconds and more are inside a leap
second. -/
structure Instant where
  seconds : Int
  nanos : Nat
  deriving DecidableEq

def billion : Nat := 1000000000

namespace Timestamp

def instant (t : Timestamp) : Instant :=
  ⟨86400 * t.date.toDays + 3600 * t.hour + 60 * t.minute + t.second - t.offset, t.nanos⟩

/-- The timestamp of an instant in UTC. -/
def ofInstant (i : Instant) : Timestamp :=
  let inDay := (i.seconds % 86400).toNat
  ⟨.ofDays (i.seconds / 86400), inDay / 3600, inDay / 60 % 60, inDay % 60, i.nanos, 0⟩

/-- Seconds as they are shown, 60 in a leap second. -/
def shownSecond (t : Timestamp) : Nat :=
  t.second + t.nanos / billion

/-- A number of exactly `n` digits. -/
def readDigits (n : Nat) (cs : List Char) : Except TimestampProblem (Nat × List Char) :=
  let bytes := cs.foldl (fun count c => count + c.utf8Size) 0
  let digits := cs.take n
  if bytes < n then .error .tooShort
  else if digits.all Char.isDigit then .ok (decimalNat digits, cs.drop n)
  else .error .invalid

/-- A number of exactly `n` digits between `lo` and `hi`. -/
def readBetween (n lo hi : Nat) (cs : List Char) : Except TimestampProblem (Nat × List Char) := do
  let (value, rest) ← readDigits n cs
  if lo ≤ value ∧ value ≤ hi then .ok (value, rest) else .error .outOfRange

def readMark (mark : Char) (cs : List Char) : Except TimestampProblem (List Char) :=
  match cs with
  | c :: rest => if c == mark then .ok rest else .error .invalid
  | [] => .error .tooShort

/-- The mark between date and time. -/
def readSeparator (cs : List Char) : Except TimestampProblem (List Char) :=
  match cs with
  | c :: rest => if c == 'T' || c == 't' || c == ' ' then .ok rest else .error .invalid
  | [] => .error .tooShort

/-- A fraction of a second in nanoseconds, if one follows; digits after the ninth do not count. -/
def readFraction (cs : List Char) : Except TimestampProblem (Nat × List Char) :=
  match cs with
  | '.' :: rest =>
    let digits := rest.takeWhile Char.isDigit
    if digits.isEmpty then .error (if rest.isEmpty then .tooShort else .invalid)
    else
      let nine := digits.take 9
      .ok (decimalNat nine * tenPow (9 - nine.length), rest.drop digits.length)
  | _ => .ok (0, cs)

/-- An offset from UTC in seconds: `Z`, or a sign with hours and minutes. -/
def readOffset (cs : List Char) : Except TimestampProblem (Int × List Char) := do
  match cs with
  | [] => .error .tooShort
  | c :: rest =>
    if c == 'Z' || c == 'z' then .ok (0, rest)
    else if c == '+' || c == '-' || c.toNat == 0x2212 then
      let (hours, rest) ← readDigits 2 rest
      let rest ← readMark ':' rest
      let (minutes, rest) ← readBetween 2 0 59 rest
      let seconds := 3600 * hours + 60 * minutes
      .ok (Binary64.signed (c != '+') seconds, rest)
    else .error .invalid

/-- Reads a timestamp. -/
def read (text : String) : Except TimestampProblem Timestamp := do
  let (year, cs) ← readDigits 4 text.toList
  let cs ← readMark '-' cs
  let (month, cs) ← readBetween 2 1 12 cs
  let cs ← readMark '-' cs
  let (day, cs) ← readBetween 2 1 31 cs
  let cs ← readSeparator cs
  let (hour, cs) ← readBetween 2 0 23 cs
  let cs ← readMark ':' cs
  let (minute, cs) ← readBetween 2 0 59 cs
  let cs ← readMark ':' cs
  let (second, cs) ← readBetween 2 0 60 cs
  let (nanos, cs) ← readFraction cs
  let (offset, cs) ← readOffset cs
  let date : Date := ⟨year, month, day⟩
  if 86400 ≤ offset.natAbs then .error .outOfRange
  else if !cs.isEmpty then .error .tooLong
  else if !date.isValid then .error .outOfRange
  else if second = 60 then .ok ⟨date, hour, minute, 59, nanos + billion, offset⟩
  else .ok ⟨date, hour, minute, second, nanos, offset⟩

end Timestamp

namespace Instant

/-- Order of instants. -/
def compare (a b : Instant) : Ordering :=
  (Ord.compare a.seconds b.seconds).then (Ord.compare a.nanos b.nanos)

/-- The instant a number of nanoseconds later. A leap second is left in one second more when going
forward, and in none when going back. -/
def add (i : Instant) (nanos : Int) : Instant :=
  let seconds := nanos.tdiv billion
  let fraction := nanos.tmod billion
  let carry (s n : Int) : Instant := ⟨s + n / billion, (n % billion).toNat⟩
  if i.nanos < billion then carry (i.seconds + seconds) (i.nanos + fraction)
  else if 0 < seconds ∨ (0 < fraction ∧ 2 * (billion : Int) - fraction ≤ i.nanos) then
    carry (i.seconds + seconds) (i.nanos - billion + fraction)
  else if seconds < 0 then carry (i.seconds + 1 + seconds) (i.nanos - billion + fraction)
  else ⟨i.seconds, (i.nanos + fraction).toNat⟩

end Instant

/-- Decimal digits with zeros in front up to a width. -/
def padNat (width n : Nat) : String :=
  let digits := Nat.toDigits 10 n
  .ofList (List.replicate (width - digits.length) '0' ++ digits)

/-- A year in four digits; outside of four digits with its sign. -/
def yearText (year : Int) : String :=
  if 0 ≤ year ∧ year ≤ 9999 then padNat 4 year.toNat
  else (if year < 0 then "-" else "+") ++ padNat 4 year.natAbs

/-- A fraction of a second in three, six or nine digits, whichever suffices. -/
def fractionText (nanos : Nat) : String :=
  if nanos = 0 then ""
  else if nanos % 1000000 = 0 then "." ++ padNat 3 (nanos / 1000000)
  else if nanos % 1000 = 0 then "." ++ padNat 6 (nanos / 1000)
  else "." ++ padNat 9 nanos

/-- The text of a timestamp in UTC. -/
def Timestamp.textUtc (t : Timestamp) : String :=
  yearText t.date.year ++ "-" ++ padNat 2 t.date.month ++ "-" ++ padNat 2 t.date.day ++ "T"
    ++ padNat 2 t.hour ++ ":" ++ padNat 2 t.minute ++ ":" ++ padNat 2 t.shownSecond
    ++ fractionText (t.nanos % billion) ++ "Z"

end InfraConfig
