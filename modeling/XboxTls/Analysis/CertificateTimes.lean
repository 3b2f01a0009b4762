import XboxTls.Analysis.ByteStrings
import XboxTls.Interface.CertificateTimes
import Mathlib.Tactic.IntervalCases

/-!
# Reading the times of a certificate

`days_before_year` and `days_before_month` count the days of the calendar
(`daysBeforeYear_eq`, `daysBeforeMonth_eq`), so the number that `parse_asn1_time` computes from
the fields is right (`parseAsn1Time_iff`).  It accepts every day up to the 31st in every month.
-/

set_option autoImplicit false

namespace XboxTls.Analysis

open XboxTls.Model XboxTls.Interface Programs.Calendar

/-! ## Counting days -/

/-- A quotient grows by one at the multiples of the divisor. -/
theorem succ_div_eq (x d : ℕ) :
    (x + 1) / d = x / d + if (x + 1) % d = 0 then 1 else 0 := by
  rw [Nat.succ_div]
  simp only [Nat.dvd_iff_mod_eq_zero]

/-- The days before the next year are those of this year more. -/
theorem daysBeforeYear_succ {y : ℕ} (hy : 1 ≤ y) :
    daysBeforeYear (y + 1) = daysBeforeYear y + daysInYear y := by
  obtain ⟨x, rfl⟩ := Nat.exists_eq_add_of_le' hy
  have hcentury : x / 100 ≤ x / 4 := Nat.div_le_div_left (by omega) (by omega)
  have hfour : (x + 1) % 100 = 0 → (x + 1) % 4 = 0 := by omega
  have hhundred : (x + 1) % 400 = 0 → (x + 1) % 100 = 0 := by omega
  rw [daysInYear_eq]
  unfold daysBeforeYear IsLeap
  simp only [Nat.add_sub_cancel, succ_div_eq x 4, succ_div_eq x 100, succ_div_eq x 400]
  generalize x / 4 = a at hcentury ⊢
  generalize x / 100 = b at hcentury ⊢
  generalize x / 400 = c
  by_cases h400 : (x + 1) % 400 = 0
  · simp [h400, hfour (hhundred h400), hhundred h400]
    omega
  by_cases h100 : (x + 1) % 100 = 0
  · simp [h400, h100, hfour h100]
    omega
  by_cases h4 : (x + 1) % 4 = 0
  · simp [h400, h100, h4]
    omega
  · simp [h400, h100, h4]
    omega

/-- The days before a year, counted from 1970. -/
theorem daysBeforeYear_eq {y : ℕ} (hy : 1970 ≤ y) :
    daysBeforeYear y = daysBeforeYear 1970 + daysFrom 1970 y := by
  induction y, hy using Nat.le_induction with
  | base => rw [daysFrom, Finset.Ico_self, Finset.sum_empty, Nat.add_zero]
  | succ y hy ih => rw [daysBeforeYear_succ (by omega), ih, daysFrom_succ hy, Nat.add_assoc]

/-- The code's table of months is the calendar's. -/
theorem daysBeforeMonth_eq (y : ℕ) {m : ℕ} (hpos : 1 ≤ m) (hle : m ≤ 12) :
    daysBeforeMonth y m = daysBefore y m := by
  unfold daysBeforeMonth daysBefore
  simp only [Finset.sum_Ico_eq_sum_range]
  by_cases h : IsLeap y
  · have hleap : (y % 4 = 0 ∧ y % 100 ≠ 0) ∨ y % 400 = 0 := h
    interval_cases m <;> simp [Finset.sum_range_succ, daysInMonth, h, hleap]
  · have hcommon : ¬ ((y % 4 = 0 ∧ y % 100 ≠ 0) ∨ y % 400 = 0) := h
    interval_cases m <;> simp [Finset.sum_range_succ, daysInMonth, h, hcommon]

/-! ## Digits -/

/-- Two digits are read exactly where they are digits. -/
theorem dec2_iff (b : Bytes) (i v : ℕ) :
    dec2 b i = some v ↔ i + 2 ≤ b.length ∧ v < 100 ∧ slice b i 2 = twoDigits v := by
  unfold dec2 twoDigits
  dsimp only
  constructor
  · intro h
    split at h
    · cases h
    next hdigits =>
    have hlong : i + 2 ≤ b.length := by
      by_contra hshort
      have hzero : byteAt b (i + 1) = 0 := by
        unfold byteAt
        rw [List.getD_eq_getElem?_getD, List.getElem?_eq_none (by omega)]
        rfl
      rw [hzero] at hdigits
      exact hdigits (.inr (.inr (.inl (by decide))))
    obtain ⟨a, ha⟩ : ∃ a, (byteAt b i).toNat = 48 + a := ⟨(byteAt b i).toNat - 48, by omega⟩
    obtain ⟨d, hd⟩ : ∃ d, (byteAt b (i + 1)).toNat = 48 + d :=
      ⟨(byteAt b (i + 1)).toNat - 48, by omega⟩
    rw [ha, hd, Nat.add_sub_cancel_left, Nat.add_sub_cancel_left] at h
    obtain rfl : a * 10 + d = v := Option.some.inj h
    have hpair : slice b i 2 = [byteAt b i, byteAt b (i + 1)] := by
      rw [slice_succ (by omega), slice_succ (by omega)]
      rfl
    have htens : UInt8.ofNat (48 + (a * 10 + d) / 10) = byteAt b i := by
      rw [show 48 + (a * 10 + d) / 10 = 48 + a by omega, ← ha, UInt8.ofNat_toNat]
    have hunits : UInt8.ofNat (48 + (a * 10 + d) % 10) = byteAt b (i + 1) := by
      rw [show 48 + (a * 10 + d) % 10 = 48 + d by omega, ← hd, UInt8.ofNat_toNat]
    refine ⟨hlong, by omega, ?_⟩
    rw [hpair, htens, hunits]
  · rintro ⟨hlong, hv, hslice⟩
    have hfirst : (byteAt b i).toNat = 48 + v / 10 := by
      have h := byteAt_slice (b := b) (i := i) (n := 2) (j := 0) (by omega)
      rw [hslice, Nat.add_zero] at h
      rw [← h]
      show (UInt8.ofNat (48 + v / 10)).toNat = _
      rw [UInt8.toNat_ofNat']
      omega
    have hsecond : (byteAt b (i + 1)).toNat = 48 + v % 10 := by
      have h := byteAt_slice (b := b) (i := i) (n := 2) (j := 1) (by omega)
      rw [hslice] at h
      rw [← h]
      show (UInt8.ofNat (48 + v % 10)).toNat = _
      rw [UInt8.toNat_ofNat']
      omega
    rw [hfirst, hsecond, if_neg (by omega)]
    congr 1
    omega

/-- A slice behind what is dropped. -/
theorem slice_drop (b : Bytes) (i j n : ℕ) : slice (b.drop i) j n = slice b (i + j) n := by
  unfold slice
  rw [List.drop_drop]

/-- The fields behind the year are read where their text stands. -/
theorem clock_iff {b : Bytes} {off : ℕ} (hlen : b.length = off + 11) (m : Moment) :
    (dec2 b off = some m.month ∧ dec2 b (off + 2) = some m.day ∧ dec2 b (off + 4) = some m.hour ∧
      dec2 b (off + 6) = some m.minute ∧ dec2 b (off + 8) = some m.second ∧
      byteAt b (off + 10) = 90) ↔ ShortFields m ∧ b.drop off = clockText m := by
  have hsplit : b.drop off = slice b off 2 ++ slice b (off + 2) 2 ++ slice b (off + 4) 2 ++
      slice b (off + 6) 2 ++ slice b (off + 8) 2 ++ [byteAt b (off + 10)] := by
    have hlast : slice b (off + 10) 1 = [byteAt b (off + 10)] := by
      rw [slice_succ (by omega)]
      rfl
    rw [← hlast, slice_append_slice, slice_append_slice, slice_append_slice, slice_append_slice,
      slice_append_slice]
    unfold slice
    rw [List.take_of_length_le]
    rw [List.length_drop]
    omega
  simp only [dec2_iff]
  constructor
  · rintro ⟨⟨-, hmonth, h1⟩, ⟨-, hday, h2⟩, ⟨-, hhour, h3⟩, ⟨-, hminute, h4⟩, ⟨-, hsecond, h5⟩, h6⟩
    refine ⟨⟨hmonth, hday, hhour, hminute, hsecond⟩, ?_⟩
    rw [hsplit, h1, h2, h3, h4, h5, h6]
    rfl
  · rintro ⟨hshort, htext⟩
    have hpair : ∀ j, slice b (off + j) 2 = slice (clockText m) j 2 := by
      intro j
      rw [← htext, slice_drop]
    have hzed : byteAt b (off + 10) = byteAt (clockText m) 10 := by
      rw [← htext, byteAt_drop]
    exact ⟨⟨by omega, hshort.month, hpair 0⟩, ⟨by omega, hshort.day, hpair 2⟩,
      ⟨by omega, hshort.hour, hpair 4⟩, ⟨by omega, hshort.minute, hpair 6⟩,
      ⟨by omega, hshort.second, hpair 8⟩, hzed⟩

/-- The year of a UTCTime. -/
theorem utcYear_iff (v y : ℕ) (hv : v < 100) :
    (if v ≥ 50 then 1900 + v else 2000 + v) = y ↔ 1950 ≤ y ∧ y ≤ 2049 ∧ y % 100 = v := by
  split <;> omega

/-- The year and the length of the text. -/
theorem parseAsn1Year_iff {t : DerTlv} (htag : t.tag = 0x17 ∨ t.tag = 0x18) (y off : ℕ) :
    parseAsn1Year t = some (y, off) ↔
      (t.tag = 0x17 ∧ off = 2 ∧ t.value.length = 13 ∧ 1950 ≤ y ∧ y ≤ 2049 ∧
        slice t.value 0 2 = twoDigits (y % 100)) ∨
      (t.tag = 0x18 ∧ off = 4 ∧ t.value.length = 15 ∧ y ≤ 9999 ∧
        slice t.value 0 2 = twoDigits (y / 100) ∧ slice t.value 2 2 = twoDigits (y % 100)) := by
  unfold parseAsn1Year
  by_cases hutc : t.tag = 0x17
  · have hother : ¬ ((0x17 : UInt8) = 0x18) := by decide
    rw [if_pos hutc]
    simp only [hutc, hother, true_and, false_and, or_false]
    by_cases hlen : t.value.length = 13
    · rw [if_neg (not_not.mpr hlen)]
      simp only [Option.bind_eq_bind, Option.bind_eq_some_iff, dec2_iff, Option.pure_def,
        Option.some.injEq, Prod.mk.injEq, hlen]
      constructor
      · rintro ⟨v, ⟨-, hv, hslice⟩, hyear, rfl⟩
        obtain ⟨hlow, hhigh, rfl⟩ := (utcYear_iff v y hv).mp hyear
        exact ⟨rfl, trivial, hlow, hhigh, hslice⟩
      · rintro ⟨rfl, -, hlow, hhigh, hslice⟩
        have hv : y % 100 < 100 := Nat.mod_lt _ (by omega)
        exact ⟨y % 100, ⟨by omega, hv, hslice⟩, (utcYear_iff _ y hv).mpr ⟨hlow, hhigh, rfl⟩, rfl⟩
    · rw [if_pos hlen]
      simp [hlen]
  · have hgen : t.tag = 0x18 := htag.resolve_left hutc
    have hother : ¬ ((0x18 : UInt8) = 0x17) := by decide
    rw [if_neg hutc]
    simp only [hgen, hother, true_and, false_and, false_or]
    by_cases hlen : t.value.length = 15
    · rw [if_neg (not_not.mpr hlen)]
      unfold dec4
      simp only [Option.bind_eq_bind, Option.bind_eq_some_iff, dec2_iff, Option.pure_def,
        Option.some.injEq, Prod.mk.injEq, hlen]
      constructor
      · rintro ⟨y', ⟨a, ⟨-, ha, hfirst⟩, c, ⟨-, hc, hsecond⟩, rfl⟩, rfl, rfl⟩
        have hdiv : (a * 100 + c) / 100 = a := by omega
        have hmod : (a * 100 + c) % 100 = c := by omega
        rw [hdiv, hmod]
        exact ⟨rfl, trivial, by omega, hfirst, hsecond⟩
      · rintro ⟨rfl, -, hhigh, hfirst, hsecond⟩
        exact ⟨y, ⟨y / 100, ⟨by omega, by omega, hfirst⟩, y % 100, ⟨by omega, by omega, hsecond⟩,
          by omega⟩, rfl, rfl⟩
    · rw [if_pos hlen]
      simp [hlen]

/-! ## The parser -/

/-- The fields of a text, read in order. -/
theorem denotes_iff {t : DerTlv} {m : Moment} :
    Denotes t m ↔ (t.tag = 0x17 ∨ t.tag = 0x18) ∧ ∃ off, parseAsn1Year t = some (m.year, off) ∧
      t.value.length = off + 11 ∧ ShortFields m ∧ t.value.drop off = clockText m := by
  constructor
  · intro h
    cases h with
    | utcTime htag hlow hhigh hshort htext =>
      refine ⟨.inl htag, 2, (parseAsn1Year_iff (.inl htag) _ _).mpr (.inl ?_), ?_, hshort, ?_⟩
      · rw [htext]
        exact ⟨htag, rfl, rfl, hlow, hhigh, rfl⟩
      · rw [htext]
        rfl
      · rw [htext]
        rfl
    | generalizedTime htag hhigh hshort htext =>
      refine ⟨.inr htag, 4, (parseAsn1Year_iff (.inr htag) _ _).mpr (.inr ?_), ?_, hshort, ?_⟩
      · rw [htext]
        exact ⟨htag, rfl, rfl, hhigh, rfl, rfl⟩
      · rw [htext]
        rfl
      · rw [htext]
        rfl
  · rintro ⟨htag, off, hyear, hlen, hshort, hclock⟩
    obtain ⟨htag, rfl, -, hlow, hhigh, hslice⟩ | ⟨htag, rfl, -, hhigh, hfirst, hsecond⟩ :=
      (parseAsn1Year_iff htag _ _).mp hyear
    · refine .utcTime htag hlow hhigh hshort ?_
      rw [← hslice, ← hclock]
      exact (List.take_append_drop 2 t.value).symm
    · refine .generalizedTime htag hhigh hshort ?_
      rw [← hfirst, ← hsecond, ← hclock, slice_append_slice]
      exact (List.take_append_drop 4 t.value).symm

/-- A text names one moment at most. -/
theorem denotes_unique {t : DerTlv} {m m' : Moment} (h : Denotes t m) (h' : Denotes t m') :
    m = m' := by
  obtain ⟨-, off, hyear, hlen, hclock⟩ := denotes_iff.mp h
  obtain ⟨-, off', hyear', -, hclock'⟩ := denotes_iff.mp h'
  rw [hyear] at hyear'
  obtain ⟨hsame, rfl⟩ := Prod.mk.inj (Option.some.inj hyear')
  obtain ⟨h1, h2, h3, h4, h5, -⟩ := (clock_iff hlen m).mpr hclock
  obtain ⟨h1', h2', h3', h4', h5', -⟩ := (clock_iff hlen m').mpr hclock'
  rw [h1] at h1'
  rw [h2] at h2'
  rw [h3] at h3'
  rw [h4] at h4'
  rw [h5] at h5'
  exact Moment.ext hsame (Option.some.inj h1') (Option.some.inj h2') (Option.some.inj h3')
    (Option.some.inj h4') (Option.some.inj h5')

/-- The number of the code is the number of seconds, whatever the day. -/
theorem seconds_eq {m : Moment} (h : FieldsInRange m) :
    ((daysBeforeYear m.year - daysBeforeYear 1970) + daysBeforeMonth m.year m.month +
      (m.day - 1)) * 86400 + m.hour * 3600 + m.minute * 60 + m.second = m.seconds 1970 := by
  rw [daysBeforeYear_eq h.year, Nat.add_sub_cancel_left,
    daysBeforeMonth_eq m.year h.month_pos h.month_le]
  rfl

/-- **What `parse_asn1_time` accepts**: the texts of the moments with each field in its range. -/
theorem parseAsn1Time_iff (t : DerTlv) (out : ℕ) :
    parseAsn1Time t = some out ↔
      ∃ m, Denotes t m ∧ FieldsInRange m ∧ out = m.seconds 1970 := by
  have hzed : UInt8.ofNat 90 = 90 := rfl
  unfold parseAsn1Time
  by_cases htag : t.tag = 0x17 ∨ t.tag = 0x18
  · have hknown : ¬ (t.tag ≠ 0x17 ∧ t.tag ≠ 0x18) := by tauto
    rw [if_neg hknown, hzed]
    simp only [Option.bind_eq_bind, Option.bind_eq_some_iff, Option.ite_none_left_eq_some,
      Option.some.injEq, Prod.exists]
    constructor
    · rintro ⟨y, off, hyear, mo, hmo, d, hd, h, hh, mi, hmi, se, hse, hlast, hrange, rfl⟩
      have hlen : t.value.length = off + 11 := by
        obtain ⟨-, rfl, hlen, -⟩ | ⟨-, rfl, hlen, -⟩ := (parseAsn1Year_iff htag y off).mp hyear
        · exact hlen
        · exact hlen
      have hm : FieldsInRange ⟨y, mo, d, h, mi, se⟩ := by
        constructor <;> dsimp only <;> omega
      have hclock := (clock_iff hlen ⟨y, mo, d, h, mi, se⟩).mp
        ⟨hmo, hd, hh, hmi, hse, not_not.mp hlast⟩
      have hseconds := seconds_eq hm
      simp only at hseconds
      rw [hseconds]
      exact ⟨_, denotes_iff.mpr ⟨htag, off, hyear, hlen, hclock⟩, hm, rfl⟩
    · rintro ⟨m, hdenotes, hm, rfl⟩
      obtain ⟨-, off, hyear, hlen, hclock⟩ := denotes_iff.mp hdenotes
      obtain ⟨hmo, hd, hh, hmi, hse, hlast⟩ := (clock_iff hlen m).mpr hclock
      have h1 := hm.year
      have h2 := hm.month_pos
      have h3 := hm.month_le
      have h4 := hm.day_pos
      have h5 := hm.day_le
      have h6 := hm.hour_le
      have h7 := hm.minute_le
      have h8 := hm.second_le
      refine ⟨m.year, off, hyear, m.month, hmo, m.day, hd, m.hour, hh, m.minute, hmi, m.second,
        hse, not_not.mpr hlast, by omega, ?_⟩
      rw [seconds_eq hm]
  · have hunknown : t.tag ≠ 0x17 ∧ t.tag ≠ 0x18 := by tauto
    rw [if_pos hunknown]
    simp only [reduceCtorEq, false_iff]
    rintro ⟨m, hdenotes, -, -⟩
    exact htag (denotes_iff.mp hdenotes).1

/-! ## The main result -/

/-- **Impossible days are accepted**: a value is read as the moment that it names unless it names
a day that its month does not have.  The results for real dates without a leap second are in the
order of the dates, and so is a clock that shows a real moment. -/
theorem asn1Time_iff (t t' : DerTlv) :
    (ReadAsRealTime t ↔ ¬ NoSuchDay t) ∧
    ∀ m out, Denotes t m → m.RealDate → m.second ≤ 59 → parseAsn1Time t = some out →
      (∀ m' out', Denotes t' m' → m'.RealDate → m'.second ≤ 59 → parseAsn1Time t' = some out' →
        (out < out' ↔ m.Before m')) ∧
      ∀ now : Moment, now.RealDate → now.RealTime → 1970 ≤ now.year →
        (out < now.seconds 1970 ↔ m.Before now) ∧ (now.seconds 1970 < out ↔ now.Before m) := by
  have hparsed : ∀ {t : DerTlv} {m : Moment} {out : ℕ}, Denotes t m → m.second ≤ 59 →
      parseAsn1Time t = some out → out = m.seconds 1970 ∧ 1970 ≤ m.year ∧ m.RealTime := by
    intro t m out hm hsecond hparse
    obtain ⟨m', hm', hrange, rfl⟩ := (parseAsn1Time_iff t out).mp hparse
    obtain rfl := denotes_unique hm hm'
    exact ⟨rfl, hrange.year, hrange.hour_le, hrange.minute_le, hsecond⟩
  constructor
  · constructor
    · rintro hreal ⟨m, hm, hrange, hday⟩
      obtain ⟨m', hm', hdate, -⟩ := hreal _ ((parseAsn1Time_iff t _).mpr ⟨m, hm, hrange, rfl⟩)
      obtain rfl := denotes_unique hm hm'
      exact absurd hdate.day_le (Nat.not_le_of_lt hday)
    · intro hnone out hparse
      obtain ⟨m, hm, hrange, hout⟩ := (parseAsn1Time_iff t out).mp hparse
      refine ⟨m, hm, ⟨hrange.month_pos, hrange.month_le, hrange.day_pos, ?_⟩, hout⟩
      by_contra hday
      exact hnone ⟨m, hm, hrange, Nat.lt_of_not_le hday⟩
  · intro m out hm hdate hsecond hparse
    obtain ⟨rfl, hyear, htime⟩ := hparsed hm hsecond hparse
    constructor
    · intro m' out' hm' hdate' hsecond' hparse'
      obtain ⟨rfl, hyear', htime'⟩ := hparsed hm' hsecond' hparse'
      exact Moment.seconds_lt_iff hdate hdate' htime htime' hyear hyear'
    · intro now hdate' htime' hyear'
      exact ⟨Moment.seconds_lt_iff hdate hdate' htime htime' hyear hyear',
        Moment.seconds_lt_iff hdate' hdate htime' htime hyear' hyear⟩

/-- The UTCTime `250230000000Z`: the 30th of February 2025. -/
def february30 : DerTlv where
  tag := 0x17
  full := []
  value := [50, 53, 48, 50, 51, 48, 48, 48, 48, 48, 48, 48, 90]
  next := 15

/-- The moment in its text. -/
theorem denotes_february30 : Denotes february30 ⟨2025, 2, 30, 0, 0, 0⟩ := by
  refine .utcTime rfl (by simp) (by simp) ?_ rfl
  constructor <;> simp

/-- It is accepted as the time of the 2nd of March. -/
theorem february30_accepted : parseAsn1Time february30 = some 1740873600 ∧
    (⟨2025, 3, 2, 0, 0, 0⟩ : Moment).seconds 1970 = 1740873600 ∧ ¬ ReadAsRealTime february30 := by
  have hparse : parseAsn1Time february30 = some 1740873600 := by decide +kernel
  refine ⟨hparse, ?_, ?_⟩
  · rw [← seconds_eq (by constructor <;> simp)]
    simp [daysBeforeYear, daysBeforeMonth]
  · intro hreal
    obtain ⟨m, hm, hdate, -⟩ := hreal _ hparse
    obtain rfl := denotes_unique denotes_february30 hm
    have hday := hdate.day_le
    simp [daysInMonth, IsLeap] at hday

end XboxTls.Analysis
