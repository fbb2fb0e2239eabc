import RelSearch.Calendar.Timestamp

/-!
# RelSearch.Proofs.DayNumber

Dates and instants tell the numbers of days and seconds that they were made from.

A cycle of 400 years has 146097 days. The year of a day in it cannot be had by one
division, since one in four years is longer, but not one in a hundred, but one in four
hundred again: days are taken off for the leap days before (`Calendar.yearOfCycle`), and
what is left lies between the first and the last day of that year
(`Calendar.yearOfCycle_spec`). The rest is to undo the steps from the number to the date.
-/

namespace RelSearch

namespace Calendar

/-- The days of a cycle before the given year of it. Years begin in March, so that the leap
day of a year is its last one. -/
def daysBefore (year : Nat) : Nat := 365 * year + year / 4 - year / 100

/-- The year of a cycle in which a day of it lies. -/
def yearOfCycle (day : Nat) : Nat := (day - day / 1460 + day / 36524 - day / 146096) / 365

/-- A day lies in its year. -/
theorem yearOfCycle_spec {day : Nat} (h : day < 146097) :
    yearOfCycle day < 400 ∧ daysBefore (yearOfCycle day) ≤ day ∧
      day ≤ daysBefore (yearOfCycle day) + 365 := by
  by_cases hlast : day = 146096
  · subst hlast
    decide
  · have hzero : day / 146096 = 0 := by omega
    obtain ⟨year, hyear⟩ : ∃ year, yearOfCycle day = year := ⟨_, rfl⟩
    rw [hyear, daysBefore]
    rw [yearOfCycle, hzero, Nat.sub_zero] at hyear
    -- `fours` counts the leap days before, one too many at most; `centuries` the hundredth
    -- years, which have none
    obtain ⟨fours, hfours⟩ : ∃ n, day / 1460 = n := ⟨_, rfl⟩
    obtain ⟨centuries, hcenturies⟩ : ∃ n, day / 36524 = n := ⟨_, rfl⟩
    rw [hfours, hcenturies] at hyear
    have hle : 25 * centuries ≤ fours := by omega
    have hcentury : year / 100 = centuries := by
      have hcases : centuries = 0 ∨ centuries = 1 ∨ centuries = 2 ∨ centuries = 3 := by omega
      rcases hcases with rfl | rfl | rfl | rfl <;> omega
    have hfour : year / 4 ≤ fours ∧ fours ≤ year / 4 + 1 := by omega
    omega

/-- The days of a year before the given month of it, March being 0. -/
def daysBeforeMonth (month : Nat) : Nat := (153 * month + 2) / 5

/-- A day lies in its month. -/
theorem month_spec {day : Nat} (h : day ≤ 365) :
    (5 * day + 2) / 153 < 12 ∧ daysBeforeMonth ((5 * day + 2) / 153) ≤ day := by
  rw [daysBeforeMonth]
  omega

end Calendar

open Calendar

namespace Date

/-- The number of days from 1970-01-01 to a date. -/
def dayNumber (d : Date) : Int :=
  let year := if d.month ≤ 2 then d.year - 1 else d.year
  let month := if d.month ≤ 2 then d.month + 9 else d.month - 3
  year / 400 * 146097 + daysBefore (year % 400).toNat + daysBeforeMonth month + d.day - 719469

/-- A date has the parts that it is made of. -/
theorem of?_eq_some {year : Int} {month day : Nat} {d : Date} (h : of? year month day = some d) :
    d.year = year ∧ d.month = month ∧ d.day = day := by
  unfold of? at h
  split at h
  · cases h
    exact ⟨rfl, rfl, rfl⟩
  · cases h

/-- The date of a day of a year of a cycle. January and February belong to the year that
began in March before. -/
def ofCycle? (cycle : Int) (year day : Nat) : Option Date :=
  let month := (5 * day + 2) / 153
  let monthOfYear := if month < 10 then month + 3 else month - 9
  of? (cycle * 400 + year + (if monthOfYear ≤ 2 then 1 else 0)) monthOfYear
    (day - daysBeforeMonth month + 1)

/-- The date of a day: cycles of 400 years, years in a cycle that start in March, and days in a
year. -/
theorem ofDayNumber?_eq (days : Int) :
    ofDayNumber? days =
      let day := ((days + 719468) % 146097).toNat
      let year := yearOfCycle day
      ofCycle? ((days + 719468) / 146097) year (day - daysBefore year) := rfl

/-- A date that is made from its place in a cycle has the number of that place. -/
theorem dayNumber_ofCycle? {cycle : Int} {year day : Nat} {d : Date} (hyear : year < 400)
    (hday : day ≤ 365) (h : ofCycle? cycle year day = some d) :
    d.dayNumber = cycle * 146097 + daysBefore year + day - 719468 := by
  obtain ⟨hmonth, hbefore⟩ := month_spec hday
  obtain ⟨hy, hm, hd⟩ := of?_eq_some h
  rw [← hm] at hy
  -- the year and the month are those that the day was taken from
  have hshift : (if d.month ≤ 2 then d.year - 1 else d.year) = cycle * 400 + year := by
    split at hy <;> omega
  have hcycle : (cycle * 400 + year) / 400 = cycle := by omega
  have hrest : ((cycle * 400 + year) % 400).toNat = year := by omega
  have hmonths : (if d.month ≤ 2 then d.month + 9 else d.month - 3) = (5 * day + 2) / 153 := by
    split at hm <;> split <;> omega
  simp only [dayNumber, hshift, hcycle, hrest, hmonths, hd]
  omega

/-- The date that lies some days after 1970-01-01 has that number of days. -/
theorem dayNumber_ofDayNumber? {days : Int} {d : Date} (h : ofDayNumber? days = some d) :
    d.dayNumber = days := by
  rw [ofDayNumber?_eq] at h
  have hcycle : ((days + 719468) % 146097).toNat < 146097 := by omega
  obtain ⟨hyear, hbefore, hafter⟩ := yearOfCycle_spec hcycle
  rw [dayNumber_ofCycle? hyear (by omega) h]
  omega

/-- Different days have different dates. -/
theorem ofDayNumber?_inj {n n' : Int} {d d' : Date} (h : ofDayNumber? n = some d)
    (h' : ofDayNumber? n' = some d') : d = d' ↔ n = n' := by
  constructor
  · rintro rfl
    rw [← dayNumber_ofDayNumber? h, dayNumber_ofDayNumber? h']
  · rintro rfl
    exact Option.some.inj (h.symm.trans h')

end Date

namespace Timestamp

/-- The number of seconds from the start of 1970 to an instant. -/
def unixSeconds (t : Timestamp) : Int := t.date.dayNumber * 86400 + t.second

/-- The instant some seconds after the start of 1970 has that number of seconds. -/
theorem unixSeconds_ofUnix? {seconds : Int} {nano : Nat} {t : Timestamp}
    (h : ofUnix? seconds nano = some t) : t.unixSeconds = seconds ∧ t.nano = nano := by
  rw [ofUnix?, Option.bind_eq_bind, Option.bind_eq_some_iff] at h
  obtain ⟨date, hdate, h⟩ := h
  unfold of? at h
  split at h
  · cases h
    have hday := Date.dayNumber_ofDayNumber? hdate
    refine ⟨?_, rfl⟩
    simp only [unixSeconds, hday]
    omega
  · cases h

/-- Different instants have different dates or times. -/
theorem ofUnix?_inj {s s' : Int} {n n' : Nat} {t t' : Timestamp} (h : ofUnix? s n = some t)
    (h' : ofUnix? s' n' = some t') : t = t' ↔ s = s' ∧ n = n' := by
  constructor
  · rintro rfl
    obtain ⟨hseconds, hnano⟩ := unixSeconds_ofUnix? h
    obtain ⟨hseconds', hnano'⟩ := unixSeconds_ofUnix? h'
    exact ⟨hseconds.symm.trans hseconds', hnano.symm.trans hnano'⟩
  · rintro ⟨rfl, rfl⟩
    exact Option.some.inj (h.symm.trans h')

end Timestamp

end RelSearch
