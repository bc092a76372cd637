import InfraAudit.Text.Word
import InfraAudit.Yaml.Cursor

/-!
# InfraAudit.Yaml.Moment — dates and times of day

* `Stamp`: the numbers of a written date, perhaps with a time of day and its distance from universal time.
* `Stamp.moment`: the date or the moment that they denote, if it exists.
* `Moment.same`: equality of moments; those with a distance are equal if they are the same instant.
-/

namespace InfraAudit.Yaml

open InfraAudit.Text

/-- A time of day with the millionths of its second, and its distance from universal time in minutes. -/
structure Clock where
  hour : Nat
  minute : Nat
  second : Nat
  micros : Nat
  offset : Option Int
  deriving DecidableEq

/-- A day of the calendar, perhaps with a time of day. -/
structure Moment where
  year : Nat
  month : Nat
  day : Nat
  clock : Option Clock
  deriving DecidableEq

/-! ### Written dates -/

/-- The numbers of a written date; `full` says whether month and day have two digits. -/
structure Stamp where
  date : Moment
  full : Bool

namespace Stamp

/-- A number of `least` up to two digits, and the rest. -/
def number? (least : Nat) (s : List Char) : Option (Nat × List Char) :=
  let ds := (s.take 2).takeWhile isDigit
  if ds.length < least then none else some (decimalValue ds, s.drop ds.length)

/-- The rest of a text behind a character. -/
def behind? (c : Char) : List Char → Option (List Char)
  | [] => none
  | d :: r => if d = c then some r else none

/-- A distance from universal time, behind its sign; nothing may follow. -/
def distance? (s : List Char) : Option Nat := do
  let (hours, r) ← number? 1 s
  if r.isEmpty then return hours * 60
  let (minutes, r) ← number? 2 (← behind? ':' r)
  if r.isEmpty then return hours * 60 + minutes else none

/-- The distance from universal time at the end of a date, if one is written; nothing may follow. -/
def offset? (s : List Char) : Option (Option Int) :=
  match s.dropWhile isSpaceOrTab with
  | [] => if s.isEmpty then some none else none
  | ['Z'] => some (some 0)
  | '+' :: r => (distance? r).map fun n => some (n : Int)
  | '-' :: r => (distance? r).map fun n => some (-(n : Int))
  | _ => none

/-- The millionths of a second that digits behind a point denote. -/
def micros (ds : List Char) : Nat :=
  decimalValue ((ds ++ List.replicate 6 '0').take 6)

/-- A time of day, up to the end of the text. -/
def clock? (s : List Char) : Option Clock := do
  let (hour, r) ← number? 1 s
  let (minute, r) ← number? 2 (← behind? ':' r)
  let (second, r) ← number? 2 (← behind? ':' r)
  let (fraction, r) := match r with
    | '.' :: r => (r.takeWhile isDigit, r.dropWhile isDigit)
    | r => ([], r)
  return ⟨hour, minute, second, micros fraction, ← offset? r⟩

/-- The text of a time of day behind a date: behind the letter T or spaces. -/
def clockText? : List Char → Option (List Char)
  | [] => none
  | c :: r =>
    if c = 'T' ∨ c = 't' then some r
    else if isSpaceOrTab c then some (r.dropWhile isSpaceOrTab)
    else none

/-- The numbers of a date that is written in the form of dates. -/
def ofText? (s : List Char) : Option Stamp := do
  let year := s.take 4
  if year.length < 4 ∨ !year.all isDigit then none
  let monthText ← behind? '-' (s.drop 4)
  let (month, r) ← number? 1 monthText
  let dayText ← behind? '-' r
  let (day, r) ← number? 1 dayText
  let full := monthText.length == r.length + 5
  if r.isEmpty then return ⟨⟨decimalValue year, month, day, none⟩, full⟩
  return ⟨⟨decimalValue year, month, day, some (← clock? (← clockText? r))⟩, full⟩

/-- Whether a text without quotes and tag is a date: a date alone has two digits for month and day. -/
def isPlain (s : List Char) : Bool :=
  (ofText? s).any fun x => x.full || x.date.clock.isSome

end Stamp

/-! ### Existing dates -/

/-- Whether a year has a day more. -/
def isLeap (year : Nat) : Bool :=
  year % 4 == 0 && (year % 100 != 0 || year % 400 == 0)

/-- The number of days of a month. -/
def daysIn (year month : Nat) : Nat :=
  if month = 2 then (if isLeap year then 29 else 28) else if [4, 6, 9, 11].contains month then 30 else 31

namespace Moment

/-- The first reason why a date does not exist: its distance from universal time, then its parts from the greatest on. -/
def cause? (m : Moment) : Option CalendarCause :=
  let offset := m.clock.bind (·.offset)
  if let some n := offset.filter (1440 ≤ ·.natAbs) then some (.offset n)
  else if m.year = 0 then some (.year 0)
  else if m.month = 0 ∨ 12 < m.month then some .month
  else if m.day = 0 ∨ daysIn m.year m.month < m.day then some .day
  else m.clock.bind fun c =>
    if 23 < c.hour then some .hour else if 59 < c.minute then some .minute
    else if 59 < c.second then some .second else none

/-- The number of days before a date. -/
def daysBefore (m : Moment) : Nat :=
  let y := m.year - 1
  let months := (List.range (m.month - 1)).foldl (fun n i => n + daysIn m.year (i + 1)) 0
  y * 365 + y / 4 - y / 100 + y / 400 + months + m.day

/-- The minutes before a moment in universal time. -/
def instant (m : Moment) (c : Clock) (offset : Int) : Int :=
  (m.daysBefore * 1440 + c.hour * 60 + c.minute : Nat) - offset

/-- Equality of moments. -/
def same (a b : Moment) : Bool :=
  match a.clock.bind fun c => c.offset.map (c, ·), b.clock.bind fun c => c.offset.map (c, ·) with
  | some (c, m), some (d, n) => a.instant c m == b.instant d n && c.second == d.second && c.micros == d.micros
  | _, _ => a == b

/-- A number with zeros in front. -/
def padded (width n : Nat) : String :=
  String.ofList (List.replicate (width - (toString n).length) '0') ++ toString n

/-- A distance from universal time. -/
def offsetText (minutes : Int) : String :=
  (if minutes < 0 then "-" else "+") ++ padded 2 (minutes.natAbs / 60) ++ ":" ++ padded 2 (minutes.natAbs % 60)

/-- The text of a time of day. -/
def clockText (c : Clock) : String :=
  padded 2 c.hour ++ ":" ++ padded 2 c.minute ++ ":" ++ padded 2 c.second ++
    (if c.micros = 0 then "" else "." ++ padded 6 c.micros) ++ ((c.offset.map offsetText).getD "")

/-- The text of a moment. -/
def text (m : Moment) : String :=
  padded 4 m.year ++ "-" ++ padded 2 m.month ++ "-" ++ padded 2 m.day ++
    ((m.clock.map fun c => " " ++ clockText c).getD "")

/-- The date that a text denotes. -/
def ofText (s : String) : Except Fault Moment :=
  let cs := if s.toList.getLast? = some '\n' then s.toList.dropLast else s.toList
  match Stamp.ofText? cs with
  | none => .error .badMoment
  | some x => match x.date.cause? with
    | some cause => .error (.calendar cause)
    | none => .ok x.date

end Moment

end InfraAudit.Yaml
