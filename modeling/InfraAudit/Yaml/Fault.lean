import InfraAudit.Decimal.Numeral
import InfraAudit.Text.Utf8

/-!
# InfraAudit.Yaml.Fault — why a text has no value

A text is malformed, its bytes are no UTF-8, or a scalar in it is written in the form of its kind and yet denotes no
value of that kind.
-/

namespace InfraAudit.Yaml

open InfraAudit.Decimal InfraAudit.Text

/-- Why a date or a time of day does not exist. -/
inductive CalendarCause
  | year (n : Nat)
  | month
  | day
  | hour
  | minute
  | second
  | offset (minutes : Int)
  deriving DecidableEq

/-- A span of time in messages, given in minutes. -/
def spanText (minutes : Int) : String :=
  let days := Int.fdiv minutes 1440
  let seconds := Int.fmod minutes 1440 * 60
  s!"datetime.timedelta(days={days}" ++ (if seconds = 0 then ")" else s!", seconds={seconds})")

/-- What is said about a date or a time of day that does not exist. -/
def CalendarCause.message : CalendarCause → String
  | .year n => s!"year {n} is out of range"
  | .month => "month must be in 1..12"
  | .day => "day is out of range for month"
  | .hour => "hour must be in 0..23"
  | .minute => "minute must be in 0..59"
  | .second => "second must be in 0..59"
  | .offset minutes => "offset must be a timedelta strictly between -timedelta(hours=24) and timedelta(hours=24), not " ++
      spanText minutes ++ "."

/-- Why a text has no value. -/
inductive Fault
  | malformed
  | undecodable (e : Utf8Fault)
  | codePoint
  | codePointOverflow
  | noDigits
  | badInteger (base : Nat) (text : String)
  | oversized (e : OversizedInteger)
  | unwritable
  | badReal (text : String)
  | realOverflow
  | badBool (text : String)
  | badMoment
  | momentOfMapping
  | calendar (cause : CalendarCause)
  deriving DecidableEq

/-- The greatest length of a text shown in the message on a bad integer. -/
def shownLength : Nat := 200

/-- What is said about a fault. -/
def Fault.message : Fault → String
  | .malformed => "not well formed"
  | .undecodable e => e.message
  | .codePoint => "chr() arg not in range(0x110000)"
  | .codePointOverflow => "Python int too large to convert to C int"
  | .noDigits => "string index out of range"
  | .badInteger base text =>
    s!"invalid literal for int() with base {base}: " ++ String.ofList ((quoted text).toList.take shownLength)
  | .oversized e => e.message
  | .unwritable =>
    s!"Exceeds the limit ({digitLimit} digits) for integer string conversion; " ++
      "use sys.set_int_max_str_digits() to increase the limit"
  | .badReal text => "could not convert string to float: " ++ quoted text
  | .realOverflow => "int too large to convert to float"
  | .badBool text => quoted text
  | .badMoment => "'NoneType' object has no attribute 'groupdict'"
  | .momentOfMapping => "expected string or bytes-like object, got 'list'"
  | .calendar cause => cause.message

end InfraAudit.Yaml
