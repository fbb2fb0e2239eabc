import RelSearch.Calendar.Date
import RelSearch.Number.Power

/-!
# RelSearch.Calendar.Timestamp

Instants in universal time, to the nanosecond: a date, a second of its day and
the nanoseconds of that second. A leap second is the last second of a minute
with 10^9 nanoseconds or more.

An instant is written `<date>T<HH:MM:SS>Z`, with three, six or nine digits of a
fraction behind the second if it is not zero: the fewest that are exact. A leap
second is written as second 60.
-/

namespace RelSearch

namespace Calendar

/-- Whether a second of the day and a number of nanoseconds name a time. The nanoseconds of a
leap second behind a second that is not the last of a minute are left out, though a clock can
be set to them: no text is read as such a time. -/
def IsTime (second nano : Nat) : Prop :=
  second < 86400 ∧ nano < 2000000000 ∧ (1000000000 ≤ nano → second % 60 = 59)

instance (second nano : Nat) : Decidable (IsTime second nano) :=
  inferInstanceAs (Decidable (_ ∧ _))

end Calendar

open Calendar

/-- An instant in universal time. -/
structure Timestamp where
  date : Date
  second : Nat
  nano : Nat
  isTime : IsTime second nano
deriving DecidableEq

namespace Timestamp

/-- The instant of a date and a time, if the time is one. -/
def of? (date : Date) (second nano : Nat) : Option Timestamp :=
  if h : IsTime second nano then some ⟨date, second, nano, h⟩ else none

/-- The instant `seconds` seconds after the start of 1970. -/
def ofUnix? (seconds : Int) (nano : Nat) : Option Timestamp := do
  let date ← Date.ofDayNumber? (seconds / 86400)
  of? date (seconds % 86400).toNat nano

/-- The instant at which clocks that are `offset` seconds ahead of universal
time show the given local time. -/
def ofLocal? (date : Date) (second nano : Nat) (offset : Int) : Option Timestamp := do
  let shifted := (second : Int) - offset
  let day ←
    if shifted < 0 then date.previous?
    else if 86400 ≤ shifted then date.next?
    else some date
  of? day (shifted % 86400).toNat nano

/-! ## Text -/

/-- The fraction of a second: nothing, or a point and 3, 6 or 9 digits. -/
def fractionText (nano : Nat) : List Char :=
  if nano = 0 then []
  else if nano % 1000000 = 0 then '.' :: Text.padded 3 (nano / 1000000)
  else if nano % 1000 = 0 then '.' :: Text.padded 6 (nano / 1000)
  else '.' :: Text.padded 9 nano

/-- The text of an instant. -/
def text (t : Timestamp) : List Char :=
  let leap := 1000000000 ≤ t.nano
  let second := t.second % 60 + (if leap then 1 else 0)
  t.date.text ++ 'T' :: Text.padded 2 (t.second / 3600) ++
    ':' :: Text.padded 2 (t.second / 60 % 60) ++ ':' :: Text.padded 2 second ++
    fractionText (if leap then t.nano - 1000000000 else t.nano) ++ ['Z']

/-! ## Reading -/

open Text

/-- A fraction of a second in nanoseconds; digits behind the ninth are skipped. -/
def scanFraction : Scan Nat := do
  match ← Scan.peek with
  | some '.' =>
    let _ ← Scan.next
    let ds ← Scan.digits (some 9)
    let _ ← Scan.takeWhile Char.isDigit
    return ofDigits ds * pow10 (9 - ds.length)
  | _ => return 0

/-- Succeeds with `a` only if `holds`. -/
def guarded {α : Type} (holds : Bool) (a : α) : Scan α := fun cs =>
  if holds then some (a, cs) else none

/-- Hour, minute and second with `:` between them and a fraction behind, as the
second of the day and its nanoseconds. Second 60 is a leap second. -/
def scanTime : Scan (Nat × Nat) := do
  let hour ← Date.scanPart
  Scan.blanks
  Scan.char ':'
  let minute ← Date.scanPart
  Scan.blanks
  Scan.char ':'
  let second ← Date.scanPart
  let nano ← scanFraction
  Scan.blanks
  let whole := hour * 3600 + minute * 60
  guarded (hour < 24 && minute < 60 && second ≤ 60)
    (if second = 60 then (whole + 59, nano + 1000000000) else (whole + second, nano))

/-- Exactly two digits. -/
def scanPair : Scan Nat := do
  let a ← Scan.next
  let b ← Scan.next
  guarded (a.isDigit && b.isDigit) (ofDigits [a, b])

/-- An offset `hh:mm` in seconds; colons and blanks may divide it or be missing. -/
def scanHoursMinutes : Scan Nat := do
  let hours ← scanPair
  let _ ← Scan.takeWhile fun c => c == ':' || isBlank c
  let minutes ← scanPair
  guarded (minutes < 60) (hours * 3600 + minutes * 60)

/-- The offset from universal time in seconds: `Z`, `UTC` in any case, or a
sign and `hh:mm`, less than a day. The sign may be U+2212. -/
def scanOffset : Scan Int := do
  let sign ← Scan.next
  match sign with
  | 'Z' | 'z' => return 0
  | 'U' | 'u' =>
    let t ← Scan.next
    let c ← Scan.next
    guarded (t.toUpper == 'T' && c.toUpper == 'C') 0
  | '+' =>
    let n ← scanHoursMinutes
    guarded (n < 86400) (n : Int)
  | '-' | '−' =>
    let n ← scanHoursMinutes
    guarded (n < 86400) (-(n : Int))
  | _ => fun _ => none

/-- Date and time with `T` or a space between them, then the offset. -/
def scan : Scan Timestamp := do
  let date ← Date.scan
  let divider ← Scan.next
  guarded (divider == 'T' || divider == 't' || divider == ' ') ()
  let (second, nano) ← scanTime
  let offset ← scanOffset
  fun cs => (ofLocal? date second nano offset).map (·, cs)

/-- Reads an instant; blanks may also follow it. -/
def ofText? (cs : List Char) : Option Timestamp :=
  Scan.all (do let t ← scan; Scan.blanks; return t) cs

end Timestamp

end RelSearch
