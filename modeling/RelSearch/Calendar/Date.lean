import RelSearch.Text.Scan

/-!
# RelSearch.Calendar.Date

Dates of the proleptic Gregorian calendar, for the years -262143 to 262142.

A date is written `YYYY-MM-DD`; a year outside 0 to 9999 has a sign and at
least four digits. A reader allows blanks in front of each part and fewer
digits in it, and needs the sign for more than four year digits.
-/

namespace RelSearch

namespace Calendar

def isLeapYear (year : Int) : Bool :=
  year % 4 == 0 && (year % 100 != 0 || year % 400 == 0)

/-- The number of days of a month, January being 1; zero for no month. -/
def daysIn (year : Int) (month : Nat) : Nat :=
  match month with
  | 2 => if isLeapYear year then 29 else 28
  | 4 | 6 | 9 | 11 => 30
  | 1 | 3 | 5 | 7 | 8 | 10 | 12 => 31
  | _ => 0

/-- Whether a year, a month and a day name a date of the supported range. -/
def IsDate (year : Int) (month day : Nat) : Prop :=
  -262143 ≤ year ∧ year ≤ 262142 ∧ 1 ≤ day ∧ day ≤ daysIn year month

instance (year : Int) (month day : Nat) : Decidable (IsDate year month day) :=
  inferInstanceAs (Decidable (_ ∧ _))

end Calendar

open Calendar

/-- A day of the calendar. -/
structure Date where
  year : Int
  month : Nat
  day : Nat
  isDate : IsDate year month day
deriving DecidableEq

namespace Date

/-- The date of a year, a month and a day, if there is one. -/
def of? (year : Int) (month day : Nat) : Option Date :=
  if h : IsDate year month day then some ⟨year, month, day, h⟩ else none

/-- The day after, unless the range ends. -/
def next? (d : Date) : Option Date :=
  of? d.year d.month (d.day + 1) <|> of? d.year (d.month + 1) 1 <|> of? (d.year + 1) 1 1

/-- The day before, unless the range begins. -/
def previous? (d : Date) : Option Date :=
  of? d.year d.month (d.day - 1) <|>
    of? d.year (d.month - 1) (daysIn d.year (d.month - 1)) <|> of? (d.year - 1) 12 31

/-! ## Day numbers -/

/-- The date that lies `days` days after 1970-01-01. Years are counted from
March, so that the leap day is the last one, and in cycles of 400 years, which
all have 146097 days. -/
def ofDayNumber? (days : Int) : Option Date :=
  let shifted := days + 719468
  let cycle := shifted / 146097
  let dayOfCycle := (shifted % 146097).toNat
  let yearOfCycle :=
    (dayOfCycle - dayOfCycle / 1460 + dayOfCycle / 36524 - dayOfCycle / 146096) / 365
  let dayOfYear := dayOfCycle - (365 * yearOfCycle + yearOfCycle / 4 - yearOfCycle / 100)
  let monthFromMarch := (5 * dayOfYear + 2) / 153
  let day := dayOfYear - (153 * monthFromMarch + 2) / 5 + 1
  let month := if monthFromMarch < 10 then monthFromMarch + 3 else monthFromMarch - 9
  let year := cycle * 400 + yearOfCycle + (if month ≤ 2 then 1 else 0)
  of? year month day

/-! ## Text -/

/-- A year: four digits, with a sign outside 0 to 9999. -/
def yearText (year : Int) : List Char :=
  if 0 ≤ year ∧ year ≤ 9999 then Text.padded 4 year.toNat
  else (if year < 0 then '-' else '+') :: Text.padded 4 year.natAbs

/-- The text `YYYY-MM-DD`. -/
def text (d : Date) : List Char :=
  yearText d.year ++ '-' :: Text.padded 2 d.month ++ '-' :: Text.padded 2 d.day

/-! ## Reading -/

open Text

/-- A year: up to four digits, or a sign and any number of digits. -/
def scanYear : Scan Int := do
  Scan.blanks
  match ← Scan.peek with
  | some '-' =>
    let _ ← Scan.next
    return -(← Scan.number none : Nat)
  | some '+' =>
    let _ ← Scan.next
    return (← Scan.number none : Nat)
  | _ => return (← Scan.number (some 4) : Nat)

/-- A part of at most two digits, with blanks in front. -/
def scanPart : Scan Nat := do
  Scan.blanks
  Scan.number (some 2)

/-- Year, month and day with `-` between them. -/
def scan : Scan Date := do
  let year ← scanYear
  Scan.blanks
  Scan.char '-'
  let month ← scanPart
  Scan.blanks
  Scan.char '-'
  let day ← scanPart
  fun cs => (of? year month day).map (·, cs)

/-- Reads a date; blanks may also follow it. -/
def ofText? (cs : List Char) : Option Date :=
  Scan.all (do let d ← scan; Scan.blanks; return d) cs

end Date

end RelSearch
