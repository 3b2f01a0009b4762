import Mathlib.Algebra.BigOperators.Intervals
import Mathlib.Algebra.Order.BigOperators.Group.Finset
import Mathlib.Tactic.Common

/-!
# The Gregorian calendar

Dates and times of the day, the days and seconds since the start of a year, and their order.
Days are counted by adding up the years and the months before.
-/

set_option autoImplicit false

namespace Programs.Calendar

open Finset

/-! ## Months and years -/

/-- A leap year. -/
def IsLeap (y : ℕ) : Prop := (y % 4 = 0 ∧ y % 100 ≠ 0) ∨ y % 400 = 0

instance (y : ℕ) : Decidable (IsLeap y) := inferInstanceAs (Decidable (_ ∨ _))

/-- The days of a month, by its number. -/
def daysInMonth (y m : ℕ) : ℕ :=
  if m = 2 then if IsLeap y then 29 else 28
  else if m = 4 ∨ m = 6 ∨ m = 9 ∨ m = 11 then 30 else 31

/-- The days of the months of a year before one. -/
def daysBefore (y m : ℕ) : ℕ := ∑ j ∈ Ico 1 m, daysInMonth y j

/-- The days of a year. -/
def daysInYear (y : ℕ) : ℕ := daysBefore y 13

/-- The days of the years from `epoch` on before one. -/
def daysFrom (epoch y : ℕ) : ℕ := ∑ k ∈ Ico epoch y, daysInYear k

/-- The days before the next month are those of this month more. -/
theorem daysBefore_succ (y : ℕ) {m : ℕ} (hm : 1 ≤ m) :
    daysBefore y (m + 1) = daysBefore y m + daysInMonth y m :=
  sum_Ico_succ_top hm _

/-- Later months have more days before them. -/
theorem daysBefore_mono (y : ℕ) {m n : ℕ} (h : m ≤ n) : daysBefore y m ≤ daysBefore y n :=
  sum_le_sum_of_subset_of_nonneg (Ico_subset_Ico_right h) fun _ _ _ => Nat.zero_le _

/-- The days before the next year are those of this year more. -/
theorem daysFrom_succ {epoch y : ℕ} (hy : epoch ≤ y) :
    daysFrom epoch (y + 1) = daysFrom epoch y + daysInYear y :=
  sum_Ico_succ_top hy _

/-- Later years have more days before them. -/
theorem daysFrom_mono (epoch : ℕ) {y z : ℕ} (h : y ≤ z) : daysFrom epoch y ≤ daysFrom epoch z :=
  sum_le_sum_of_subset_of_nonneg (Ico_subset_Ico_right h) fun _ _ _ => Nat.zero_le _

/-- A year has 366 days if it is a leap year, and 365 otherwise. -/
theorem daysInYear_eq (y : ℕ) : daysInYear y = if IsLeap y then 366 else 365 := by
  unfold daysInYear daysBefore
  simp only [sum_Ico_eq_sum_range, sum_range_succ, sum_range_zero, daysInMonth]
  by_cases h : IsLeap y <;> simp [h]

/-! ## Moments -/

/-- A date and a time of the day. -/
@[ext]
structure Moment where
  year : ℕ
  month : ℕ
  day : ℕ
  hour : ℕ
  minute : ℕ
  second : ℕ
  deriving DecidableEq, Repr

namespace Moment

variable {a b : Moment}

/-- The date is in the calendar. -/
structure RealDate (a : Moment) : Prop where
  month_pos : 1 ≤ a.month
  month_le : a.month ≤ 12
  day_pos : 1 ≤ a.day
  day_le : a.day ≤ daysInMonth a.year a.month

/-- A time of the day without a leap second. -/
structure RealTime (a : Moment) : Prop where
  hour_le : a.hour ≤ 23
  minute_le : a.minute ≤ 59
  second_le : a.second ≤ 59

/-- The days from the start of the year `epoch`. -/
def days (epoch : ℕ) (a : Moment) : ℕ :=
  daysFrom epoch a.year + daysBefore a.year a.month + (a.day - 1)

/-- The seconds from the start of the year `epoch`, at 86400 for each day. -/
def seconds (epoch : ℕ) (a : Moment) : ℕ :=
  a.days epoch * 86400 + a.hour * 3600 + a.minute * 60 + a.second

/-- The earlier date. -/
def DateBefore (a b : Moment) : Prop :=
  a.year < b.year ∨ a.year = b.year ∧ (a.month < b.month ∨ a.month = b.month ∧ a.day < b.day)

/-- The earlier time of the day. -/
def TimeBefore (a b : Moment) : Prop :=
  a.hour < b.hour ∨ a.hour = b.hour ∧
    (a.minute < b.minute ∨ a.minute = b.minute ∧ a.second < b.second)

/-- The same date. -/
def SameDate (a b : Moment) : Prop := a.year = b.year ∧ a.month = b.month ∧ a.day = b.day

/-- The order of year, month, day, hour, minute and second. -/
def Before (a b : Moment) : Prop := a.DateBefore b ∨ a.SameDate b ∧ a.TimeBefore b

/-! ## Order -/

/-- The date lies in its year. -/
theorem RealDate.days_lt (h : a.RealDate) {epoch : ℕ} (hy : epoch ≤ a.year) :
    a.days epoch < daysFrom epoch (a.year + 1) := by
  have hmonth := daysBefore_succ a.year h.month_pos
  have hyear : daysBefore a.year (a.month + 1) ≤ daysBefore a.year 13 :=
    daysBefore_mono a.year (Nat.succ_le_succ h.month_le)
  have hpos := h.day_pos
  have hday := h.day_le
  rw [daysFrom_succ hy]
  unfold days daysInYear
  omega

/-- An earlier date has fewer days before it. -/
theorem days_lt_of_dateBefore (ha : a.RealDate) {epoch : ℕ} (hy : epoch ≤ a.year)
    (h : a.DateBefore b) : a.days epoch < b.days epoch := by
  obtain hyear | ⟨hyear, hmonth | ⟨hmonth, hday⟩⟩ := h
  · have hin := ha.days_lt hy
    have hmono := daysFrom_mono epoch (Nat.succ_le_of_lt hyear)
    have hstart : daysFrom epoch b.year ≤ b.days epoch := by
      unfold days
      omega
    exact Nat.lt_of_lt_of_le hin (Nat.le_trans hmono hstart)
  · have hnext := daysBefore_succ a.year ha.month_pos
    have hmono : daysBefore b.year (a.month + 1) ≤ daysBefore b.year b.month :=
      daysBefore_mono b.year hmonth
    have hpos := ha.day_pos
    have hle := ha.day_le
    unfold days
    rw [hyear] at hnext hle ⊢
    omega
  · have hpos := ha.day_pos
    unfold days
    rw [hyear, hmonth]
    omega

/-- An earlier time of the day has fewer seconds before it. -/
theorem timeBefore_lt (ha : a.RealTime) (h : a.TimeBefore b) :
    a.hour * 3600 + a.minute * 60 + a.second < b.hour * 3600 + b.minute * 60 + b.second := by
  have hminute := ha.minute_le
  have hsecond := ha.second_le
  obtain hhour | ⟨hhour, hm | ⟨hm, hs⟩⟩ := h <;> omega

/-- The clock of the earlier moment shows less. -/
theorem seconds_lt_of_before (ha : a.RealDate) (hta : a.RealTime) {epoch : ℕ}
    (hy : epoch ≤ a.year) (h : a.Before b) : a.seconds epoch < b.seconds epoch := by
  have hhour := hta.hour_le
  have hminute := hta.minute_le
  have hsecond := hta.second_le
  unfold seconds
  obtain hdate | ⟨⟨hyear, hmonth, hday⟩, htime⟩ := h
  · have hdays := days_lt_of_dateBefore ha hy hdate
    omega
  · have hclock := timeBefore_lt hta htime
    have hdays : a.days epoch = b.days epoch := by
      unfold days
      rw [hyear, hmonth, hday]
    rw [hdays, Nat.add_assoc, Nat.add_assoc, Nat.add_assoc, Nat.add_assoc]
    rw [Nat.add_assoc, Nat.add_assoc] at hclock
    exact Nat.add_lt_add_left hclock _

/-- Of two dates one is earlier, or they are the same. -/
theorem dateBefore_trichotomy (a b : Moment) :
    a.DateBefore b ∨ a.SameDate b ∨ b.DateBefore a := by
  unfold DateBefore SameDate
  omega

/-- Of two times of the day one is earlier, or they are the same. -/
theorem timeBefore_trichotomy (a b : Moment) : a.TimeBefore b ∨
    (a.hour = b.hour ∧ a.minute = b.minute ∧ a.second = b.second) ∨ b.TimeBefore a := by
  unfold TimeBefore
  omega

/-- Of two moments one is before the other, or they are the same. -/
theorem before_trichotomy (a b : Moment) : a.Before b ∨ a = b ∨ b.Before a := by
  obtain hdate | ⟨hyear, hmonth, hday⟩ | hdate := dateBefore_trichotomy a b
  · exact .inl (.inl hdate)
  · obtain htime | ⟨hhour, hminute, hsecond⟩ | htime := timeBefore_trichotomy a b
    · exact .inl (.inr ⟨⟨hyear, hmonth, hday⟩, htime⟩)
    · exact .inr (.inl (Moment.ext hyear hmonth hday hhour hminute hsecond))
    · exact .inr (.inr (.inr ⟨⟨hyear.symm, hmonth.symm, hday.symm⟩, htime⟩))
  · exact .inr (.inr (.inl hdate))

/-- **The clock is in step with the calendar.** -/
theorem seconds_lt_iff (ha : a.RealDate) (hb : b.RealDate) (hta : a.RealTime) (htb : b.RealTime)
    {epoch : ℕ} (hya : epoch ≤ a.year) (hyb : epoch ≤ b.year) :
    a.seconds epoch < b.seconds epoch ↔ a.Before b := by
  constructor
  · intro h
    obtain hbefore | rfl | hafter := before_trichotomy a b
    · exact hbefore
    · omega
    · have hless := seconds_lt_of_before hb htb hyb hafter
      omega
  · exact seconds_lt_of_before ha hta hya

end Moment

end Programs.Calendar
