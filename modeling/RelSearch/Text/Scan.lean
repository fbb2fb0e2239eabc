import RelSearch.Text.Blank
import RelSearch.Text.Digits

/-!
# RelSearch.Text.Scan

Reading a text from its front: each step takes some characters off, or fails.
-/

namespace RelSearch.Text

/-- A step that reads an `α` from the front of a text. -/
abbrev Scan (α : Type) := StateT (List Char) Option α

namespace Scan

/-- The next character, which stays in the text; `none` at its end. -/
def peek : Scan (Option Char) := fun cs => some (cs.head?, cs)

/-- Takes one character off. -/
def next : Scan Char
  | [] => none
  | c :: cs => some (c, cs)

/-- Takes off the character `c`, and nothing else. -/
def char (c : Char) : Scan Unit
  | [] => none
  | d :: cs => if d = c then some ((), cs) else none

/-- Takes off all blanks in front. -/
def blanks : Scan Unit := fun cs => some ((), dropBlanks cs)

/-- Takes off the characters in front that satisfy `p`. -/
def takeWhile (p : Char → Bool) : Scan (List Char) := fun cs =>
  some (cs.takeWhile p, cs.dropWhile p)

/-- Takes off a run of decimal digits: at least one, and at most `width` of
them if a width is given. -/
def digits (width : Option Nat) : Scan (List Char) := fun cs =>
  let run := cs.takeWhile Char.isDigit
  let ds := match width with
    | none => run
    | some w => run.take w
  if ds.isEmpty then none else some (ds, cs.drop ds.length)

/-- The number spelled by such a run. -/
def number (width : Option Nat) : Scan Nat := ofDigits <$> digits width

/-- Reads a whole text: `scan` has to leave nothing. -/
def all {α : Type} (scan : Scan α) (cs : List Char) : Option α :=
  match scan cs with
  | some (a, []) => some a
  | _ => none

end Scan

end RelSearch.Text
