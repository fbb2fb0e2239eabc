/-!
# RelSearch.Text.Digits

Digits as text: naturals in base ten and sixteen, zero padding, and the two
ways of placing a decimal point among given digits.

Everything works on `List Char`, so that a written form can be taken apart
again by the readers of the other modules.
-/

namespace RelSearch.Text

/-! ## Base ten -/

/-- The decimal digits of `n`, the most significant first; zero is `0`. -/
def digits (n : Nat) : List Char := Nat.toDigits 10 n

/-- The number that decimal digits spell; no digits spell zero. -/
def ofDigits (ds : List Char) : Nat := Nat.ofDigitChars 10 ds 0

/-- The digits of a number are read back. -/
theorem ofDigits_digits (n : Nat) : ofDigits (digits n) = n :=
  Nat.ofDigitChars_ten_toDigits

/-- A decimal integer: the digits, with `-` in front of a negative one. -/
def integer : Int → List Char
  | .ofNat n => digits n
  | .negSucc n => '-' :: digits (n + 1)

/-! ## Padding -/

def zeros (n : Nat) : List Char := List.replicate n '0'

theorem length_zeros (n : Nat) : (zeros n).length = n := by
  simp [zeros]

/-- `ds` with zeros in front, up to `width` characters. -/
def padLeft (width : Nat) (ds : List Char) : List Char := zeros (width - ds.length) ++ ds

theorem length_padLeft (width : Nat) (ds : List Char) :
    (padLeft width ds).length = max width ds.length := by
  simp only [padLeft, List.length_append, length_zeros]
  omega

/-- The decimal digits of `n`, at least `width` of them. -/
def padded (width n : Nat) : List Char := padLeft width (digits n)

/-! ## The decimal point -/

/-- The digits `ds` with the decimal point after the first `point` of them.
Zeros fill the gap when the point falls outside, and a point after the last
digit is not written. -/
def positional (ds : List Char) (point : Int) : List Char :=
  if point ≤ 0 then '0' :: '.' :: (zeros (-point).toNat ++ ds)
  else if ds.length ≤ point.toNat then ds ++ zeros (point.toNat - ds.length)
  else ds.take point.toNat ++ '.' :: ds.drop point.toNat

/-- The digits `ds` with the point after the first one: `d` or `d.ddd`. -/
def pointed : List Char → List Char
  | [] => []
  | [d] => [d]
  | d :: ds => d :: '.' :: ds

/-! ## Base sixteen -/

/-- The lower-case hexadecimal digits of `n`, at least `width` of them. -/
def hexPadded (width n : Nat) : List Char := padLeft width (Nat.toDigits 16 n)

/-- The value of a hexadecimal digit of either case. -/
def hexValue? (c : Char) : Option Nat :=
  if '0' ≤ c ∧ c ≤ '9' then some (c.toNat - '0'.toNat)
  else if 'a' ≤ c ∧ c ≤ 'f' then some (c.toNat - 'a'.toNat + 10)
  else if 'A' ≤ c ∧ c ≤ 'F' then some (c.toNat - 'A'.toNat + 10)
  else none

/-- The number that hexadecimal digits spell, if they all are such digits. -/
def ofHex? (cs : List Char) : Option Nat :=
  cs.foldlM (fun n c => (hexValue? c).map (16 * n + ·)) 0

end RelSearch.Text
