import InfraConfig.Calendar.Timestamp
import InfraConfig.Text.Search

/-!
# Date layouts

A layout shows what a timestamp should look like: letters stand for parts of the timestamp, quoted text and
everything else for itself.
-/

namespace InfraConfig

inductive DateField where
  | year
  | shortYear
  | monthName
  | shortMonthName
  | month (padded : Bool)
  | day (padded : Bool)
  | weekdayName
  | shortWeekdayName
  | hour (padded : Bool)
  | halfDayHour (padded : Bool)
  | halfDay (upper : Bool)
  | minute (padded : Bool)
  | second (padded : Bool)
  | offset (colon : Bool)
  | zone
  | zulu
  deriving DecidableEq

inductive LayoutProblem where
  | openQuote
  | token (rest : String)
  deriving DecidableEq

def LayoutProblem.message : LayoutProblem → String
  | openQuote => "unterminated literal in date format"
  | token rest => "unsupported date format token starting at " ++ quoted rest

namespace DateField

/-- Fields by their letters; longer groups of letters come before shorter ones. -/
def tokens : List (String × DateField) :=
  [("YYYY", year), ("YY", shortYear), ("MMMM", monthName), ("MMM", shortMonthName), ("MM", month true),
    ("M", month false), ("DD", day true), ("D", day false), ("EEEE", weekdayName),
    ("EEE", shortWeekdayName), ("hh", hour true), ("h", hour false), ("HH", halfDayHour true),
    ("H", halfDayHour false), ("AA", halfDay true), ("aa", halfDay false), ("mm", minute true),
    ("m", minute false), ("ss", second true), ("s", second false), ("ZZZZZ", offset true),
    ("ZZZZ", offset false), ("ZZZ", zone), ("Z", zulu)]

def monthNames : List String :=
  ["January", "February", "March", "April", "May", "June", "July", "August", "September", "October",
    "November", "December"]

def weekdayNames : List String :=
  ["Sunday", "Monday", "Tuesday", "Wednesday", "Thursday", "Friday", "Saturday"]

def number (padded : Bool) (n : Nat) : String :=
  padNat (if padded then 2 else 1) n

/-- Sign, hours and minutes of an offset. -/
def offsetText (colon : Bool) (offset : Int) : String :=
  let minutes := offset.natAbs / 60
  (if offset < 0 then "-" else "+") ++ padNat 2 (minutes / 60) ++ (if colon then ":" else "")
    ++ padNat 2 (minutes % 60)

def short (name : String) : String :=
  .ofList (name.toList.take 3)

/-- The text of a field of a timestamp. -/
def textOf (t : Timestamp) : DateField → String
  | year => padNat 4 t.date.year.toNat
  | shortYear => padNat 2 (t.date.year % 100).toNat
  | monthName => monthNames.getD (t.date.month - 1) ""
  | shortMonthName => short (monthNames.getD (t.date.month - 1) "")
  | month padded => number padded t.date.month
  | day padded => number padded t.date.day
  | weekdayName => weekdayNames.getD t.date.weekday ""
  | shortWeekdayName => short (weekdayNames.getD t.date.weekday "")
  | hour padded => number padded t.hour
  | halfDayHour padded => number padded ((t.hour + 11) % 12 + 1)
  | halfDay upper =>
    if t.hour < 12 then if upper then "AM" else "am" else if upper then "PM" else "pm"
  | minute padded => number padded t.minute
  | second padded => number padded t.shownSecond
  | offset colon => offsetText colon t.offset
  | zone => if t.offset = 0 then "UTC" else offsetText true t.offset
  | zulu => "Z"

end DateField

inductive LayoutItem where
  | literal (text : List Char)
  | field (f : DateField)

def isAsciiLetter (c : Char) : Bool :=
  c.isAlpha

/-- The items of a layout. Two quotes stand for one. -/
def readLayout : Nat → List Char → Except LayoutProblem (List LayoutItem)
  | 0, _ => .ok []
  | fuel + 1, cs =>
    match cs with
    | [] => .ok []
    | '\'' :: rest =>
      match splitFirst? ['\''] rest with
      | some (text, rest) => do
        let items ← readLayout fuel rest
        .ok (.literal (if text.isEmpty then ['\''] else text) :: items)
      | none => .error .openQuote
    | c :: rest =>
      if isAsciiLetter c then
        match DateField.tokens.find? fun (letters, _) => letters.toList.isPrefixOf cs with
        | some (letters, field) => do
          let items ← readLayout fuel (cs.drop letters.length)
          .ok (.field field :: items)
        | none => .error (.token (.ofList cs))
      else do
        let items ← readLayout fuel rest
        .ok (.literal [c] :: items)

def LayoutItem.textOf (t : Timestamp) : LayoutItem → List Char
  | literal text => text
  | field f => (f.textOf t).toList

/-- The items of a whole layout. -/
def layoutItems (layout : String) : Except LayoutProblem (List LayoutItem) :=
  readLayout (layout.toList.length + 1) layout.toList

def showLayout (items : List LayoutItem) (t : Timestamp) : String :=
  .ofList (items.flatMap (·.textOf t))

end InfraConfig
