/-!
# RelSearch.Text.Blank

The characters of the Unicode property `White_Space`. Dates and timestamps
may have them between their parts.
-/

namespace RelSearch.Text

/-- The `White_Space` characters as ranges of code points, in order. -/
def blankRanges : List (Nat × Nat) :=
  [(0x0009, 0x000D), (0x0020, 0x0020), (0x0085, 0x0085), (0x00A0, 0x00A0), (0x1680, 0x1680),
    (0x2000, 0x200A), (0x2028, 0x2029), (0x202F, 0x202F), (0x205F, 0x205F), (0x3000, 0x3000)]

/-- Whether `c` has the property `White_Space`. -/
def isBlank (c : Char) : Bool :=
  blankRanges.any fun (first, last) => first ≤ c.toNat && c.toNat ≤ last

/-- What is left of a text after its leading blanks. -/
def dropBlanks (cs : List Char) : List Char := cs.dropWhile isBlank

end RelSearch.Text
