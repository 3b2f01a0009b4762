import XboxTls.Model.X509
import XboxTls.Programs.Calendar

/-!
# The times of a certificate

The text of a UTCTime or a GeneralizedTime in a certificate, and when it is read as the moment
that it names.
-/

set_option autoImplicit false

namespace XboxTls.Interface

open XboxTls.Model Programs.Calendar

/-- A number below 100 in two decimal digits. -/
def twoDigits (n : ℕ) : Bytes := [UInt8.ofNat (48 + n / 10), UInt8.ofNat (48 + n % 10)]

/-- The month, the day and the time of the day, and a `Z`. -/
def clockText (m : Moment) : Bytes :=
  twoDigits m.month ++ twoDigits m.day ++ twoDigits m.hour ++ twoDigits m.minute ++
    twoDigits m.second ++ [90]

/-- The fields behind the year have two digits. -/
structure ShortFields (m : Moment) : Prop where
  month : m.month < 100
  day : m.day < 100
  hour : m.hour < 100
  minute : m.minute < 100
  second : m.second < 100

/-- The element is the text of the moment.  The two digits of a year in a UTCTime stand for one
from 1950 to 2049. -/
inductive Denotes (t : DerTlv) (m : Moment) : Prop where
  | utcTime (tag : t.tag = 0x17) (low : 1950 ≤ m.year) (high : m.year ≤ 2049)
      (short : ShortFields m) (text : t.value = twoDigits (m.year % 100) ++ clockText m)
  | generalizedTime (tag : t.tag = 0x18) (high : m.year ≤ 9999) (short : ShortFields m)
      (text : t.value = twoDigits (m.year / 100) ++ twoDigits (m.year % 100) ++ clockText m)

/-- Each field on its own is in its range, whatever the month has. -/
structure FieldsInRange (m : Moment) : Prop where
  year : 1970 ≤ m.year
  month_pos : 1 ≤ m.month
  month_le : m.month ≤ 12
  day_pos : 1 ≤ m.day
  day_le : m.day ≤ 31
  hour_le : m.hour ≤ 23
  minute_le : m.minute ≤ 59
  second_le : m.second ≤ 60

/-- What is accepted is a date of the calendar, and the result is its Unix time. -/
def ReadAsRealTime (t : DerTlv) : Prop :=
  ∀ out, parseAsn1Time t = some out → ∃ m, Denotes t m ∧ m.RealDate ∧ out = m.seconds 1970

/-- A text with the fields in their ranges and a day that its month does not have. -/
def NoSuchDay (t : DerTlv) : Prop :=
  ∃ m, Denotes t m ∧ FieldsInRange m ∧ daysInMonth m.year m.month < m.day

end XboxTls.Interface
