import RelSearch.Number.Power
import RelSearch.Text.Scan

/-!
# RelSearch.Proofs.Digits

Written digits and how they are read back.

1. What is written for a number is digits alone, starts with a zero only for zero
   itself, and spells the number, with zeros in front or not; zeros behind it
   multiply it by a power of ten.
2. A scanner takes exactly the digits off that were written, as soon as no further
   digit follows them or their number is known.
3. Hexadecimal digits, padded to any width, spell their number.

The scanners of the other modules are chains of such steps; `Scan.bind_of` takes
one step of a chain.
-/

namespace RelSearch.Text

/-! ## Runs of characters -/

/-- Characters are taken up to the first one that fails. -/
theorem takeWhile_append_of_stop {p : Char → Bool} {cs rest : List Char}
    (hcs : ∀ c ∈ cs, p c = true) (hrest : ∀ c ∈ rest.head?, p c = false) :
    (cs ++ rest).takeWhile p = cs := by
  rw [List.takeWhile_append_of_pos hcs]
  cases rest with
  | nil => simp
  | cons c rest => simp [hrest c rfl]

/-- What is left then starts with that one. -/
theorem dropWhile_append_of_stop {p : Char → Bool} {cs rest : List Char}
    (hcs : ∀ c ∈ cs, p c = true) (hrest : ∀ c ∈ rest.head?, p c = false) :
    (cs ++ rest).dropWhile p = rest := by
  rw [List.dropWhile_append_of_pos hcs]
  cases rest with
  | nil => simp
  | cons c rest => simp [hrest c rfl]

/-! ## Decimal digits -/

/-- A digit is none of the marks around it. -/
theorem ne_of_isDigit {c d : Char} (hc : c.isDigit = true) (hd : d.isDigit = false) : c ≠ d := by
  rintro rfl
  rw [hc] at hd
  contradiction

theorem digits_ne_nil (n : Nat) : digits n ≠ [] := Nat.toDigits_ne_nil

/-- The digits of a number are digits. -/
theorem isDigit_of_mem_digits {n : Nat} {c : Char} (h : c ∈ digits n) : c.isDigit = true :=
  Nat.isDigit_of_mem_toDigits (by decide) (by decide) h

/-- Only zero is written with a zero in front. -/
theorem head?_digits_ne {n : Nat} (h : n ≠ 0) : (digits n).head? ≠ some '0' := by
  induction n using Nat.strongRecOn with
  | ind n ih =>
      rw [digits, Nat.toDigits_eq_if (by decide)]
      split
      · simpa [Nat.digitChar_eq_zero] using h
      · have hhead := ih (n / 10) (by omega) (by omega)
        rw [digits] at hhead
        cases hd : Nat.toDigits 10 (n / 10) with
        | nil => exact absurd hd Nat.toDigits_ne_nil
        | cons d ds =>
            rw [hd] at hhead
            exact hhead

theorem digits_zero : digits 0 = ['0'] := Nat.toDigits_zero 10

/-- A number below a power of ten has so many digits at most. -/
theorem length_digits_le {n k : Nat} (hk : 0 < k) : (digits n).length ≤ k ↔ n < pow10 k :=
  Nat.length_toDigits_le_iff (by decide) hk

/-- Digits put behind others move these up. -/
theorem ofDigits_append (ds es : List Char) :
    ofDigits (ds ++ es) = pow10 es.length * ofDigits ds + ofDigits es := by
  rw [ofDigits, Nat.ofDigitChars_append, Nat.ofDigitChars_eq_ofDigitChars_zero]
  rfl

theorem ofDigits_zeros (k : Nat) : ofDigits (zeros k) = 0 := by
  rw [ofDigits, zeros, Nat.ofDigitChars_replicate_zero, Nat.mul_zero]

/-- Zeros in front of digits do not change the number. -/
theorem ofDigits_zeros_append (k : Nat) (ds : List Char) :
    ofDigits (zeros k ++ ds) = ofDigits ds := by
  rw [ofDigits_append, ofDigits_zeros, Nat.mul_zero, Nat.zero_add]

/-- Zeros behind digits multiply it by a power of ten. -/
theorem ofDigits_append_zeros (ds : List Char) (k : Nat) :
    ofDigits (ds ++ zeros k) = pow10 k * ofDigits ds := by
  rw [ofDigits_append, ofDigits_zeros, length_zeros, Nat.add_zero]

/-- Zeros behind the digits of a number other than zero multiply it. -/
theorem digits_mul_pow10 {n : Nat} (hn : n ≠ 0) (k : Nat) :
    digits (n * pow10 k) = digits n ++ zeros k := by
  induction k with
  | zero => rw [pow10_zero, Nat.mul_one, zeros, List.replicate_zero, List.append_nil]
  | succ k ih =>
      have hpos : 0 < n * pow10 k := Nat.mul_pos (Nat.pos_of_ne_zero hn) (pow10_pos k)
      have hdigits : digits (n * pow10 k * 10) = digits (n * pow10 k) ++ ['0'] := by
        rw [digits, Nat.toDigits_eq_if (by decide), if_neg (by omega),
          Nat.mul_div_cancel _ (by decide), Nat.mul_mod_left]
        rfl
      rw [pow10_succ, ← Nat.mul_assoc, hdigits, ih, List.append_assoc, zeros, zeros,
        List.replicate_succ']

theorem isDigit_of_mem_zeros {k : Nat} {c : Char} (h : c ∈ zeros k) : c.isDigit = true := by
  rw [List.eq_of_mem_replicate h]
  rfl

/-! ## Padded digits -/

/-- Padded digits are read back. -/
theorem ofDigits_padded (width n : Nat) : ofDigits (padded width n) = n := by
  rw [padded, padLeft, ofDigits_zeros_append, ofDigits_digits]

theorem isDigit_of_mem_padded {width n : Nat} {c : Char} (h : c ∈ padded width n) :
    c.isDigit = true := by
  rcases List.mem_append.mp h with h | h
  · exact isDigit_of_mem_zeros h
  · exact isDigit_of_mem_digits h

theorem padded_ne_nil (width n : Nat) : padded width n ≠ [] := by
  rw [padded, padLeft]
  simp [digits_ne_nil]

/-- A number that fits has exactly the given width. -/
theorem length_padded {width n : Nat} (hwidth : 0 < width) (h : n < pow10 width) :
    (padded width n).length = width := by
  rw [padded, length_padLeft]
  exact Nat.max_eq_left ((length_digits_le hwidth).mpr h)

/-! ## Hexadecimal digits -/

/-- Hexadecimal digits are read from the left. -/
theorem ofHex?_append (cs ds : List Char) :
    ofHex? (cs ++ ds) =
      (ofHex? cs).bind fun n => ds.foldlM (fun n c => (hexValue? c).map (16 * n + ·)) n := by
  simp [ofHex?, List.foldlM_append]

theorem hexValue?_digitChar {d : Nat} (h : d < 16) : hexValue? d.digitChar = some d := by
  revert d
  decide

/-- The hexadecimal digits of a number are read back. -/
theorem ofHex?_toDigits (n : Nat) : ofHex? (Nat.toDigits 16 n) = some n := by
  induction n using Nat.strongRecOn with
  | ind n ih =>
      rw [Nat.toDigits_eq_if (by decide)]
      split
      · next h => simp [ofHex?, hexValue?_digitChar h]
      · next h =>
          rw [ofHex?_append, ih (n / 16) (by omega)]
          have hlast : hexValue? (n % 16).digitChar = some (n % 16) :=
            hexValue?_digitChar (Nat.mod_lt n (by decide))
          simp [hlast, Nat.div_add_mod]

theorem ofHex?_zeros_append (k : Nat) (cs : List Char) : ofHex? (zeros k ++ cs) = ofHex? cs := by
  induction k with
  | zero => rfl
  | succ k ih =>
      rw [zeros, List.replicate_succ, List.cons_append, ← zeros, ← ih]
      rfl

/-- So are padded ones. -/
theorem ofHex?_hexPadded (width n : Nat) : ofHex? (hexPadded width n) = some n := by
  rw [hexPadded, padLeft, ofHex?_zeros_append, ofHex?_toDigits]

/-- A number that fits has exactly the given width in hexadecimal digits. -/
theorem length_hexPadded {width n : Nat} (hwidth : 0 < width) (h : n < pow2 (4 * width)) :
    (hexPadded width n).length = width := by
  have hpow : n < Nat.pow 16 width := Nat.lt_of_lt_of_eq h (Nat.pow_mul 2 4 width)
  rw [hexPadded, length_padLeft]
  exact Nat.max_eq_left ((Nat.length_toDigits_le_iff (by decide) hwidth).mpr hpow)

/-! ## Blanks -/

/-- A digit is no blank. -/
theorem isBlank_of_isDigit {c : Char} (h : c.isDigit = true) : isBlank c = false := by
  rw [Char.isDigit_iff_toNat] at h
  have hlow : 48 ≤ c.toNat := h.1
  have hhigh : c.toNat ≤ 57 := h.2
  simp [isBlank, blankRanges]
  omega

/-! ## Scanning -/

namespace Scan

variable {α β : Type}

/-- One step of a chain of scanners. -/
theorem bind_of {x : Scan α} {cs rest : List Char} {a : α} (h : x cs = some (a, rest))
    (f : α → Scan β) : (x >>= f) cs = f a rest := by
  change (x cs).bind (fun p => f p.1 p.2) = f a rest
  rw [h]
  rfl

/-- A scanner can be rewritten before it is applied. -/
theorem apply_of_eq {x y : Scan α} {cs : List Char} {r : Option (α × List Char)} (h : x = y)
    (hy : y cs = r) : x cs = r := h ▸ hy

/-- A scanner that leaves nothing has read the whole text. -/
theorem all_of {scan : Scan α} {cs : List Char} {a : α} (h : scan cs = some (a, [])) :
    all scan cs = some a := by
  rw [all, h]

theorem peek_cons (c : Char) (cs : List Char) : peek (c :: cs) = some (some c, c :: cs) := rfl

theorem next_cons (c : Char) (cs : List Char) : next (c :: cs) = some (c, cs) := rfl

theorem char_cons (c : Char) (cs : List Char) : char c (c :: cs) = some ((), cs) := if_pos rfl

/-- Where no blank stands, none is skipped. -/
theorem blanks_cons {c : Char} (h : isBlank c = false) (cs : List Char) :
    blanks (c :: cs) = some ((), c :: cs) := by
  simp [blanks, dropBlanks, h]

/-- In front of a number no blank is skipped. -/
theorem blanks_padded (width n : Nat) (rest : List Char) :
    blanks (padded width n ++ rest) = some ((), padded width n ++ rest) := by
  obtain ⟨c, cs, h⟩ := List.exists_cons_of_ne_nil (padded_ne_nil width n)
  have hc : c.isDigit = true := isDigit_of_mem_padded (h ▸ List.mem_cons_self)
  rw [h]
  exact blanks_cons (isBlank_of_isDigit hc) _

/-- A text that goes on with something else than a digit, or ends. -/
def EndsDigits (rest : List Char) : Prop := ∀ c ∈ rest.head?, c.isDigit = false

theorem endsDigits_cons {c : Char} (h : c.isDigit = false) (cs : List Char) :
    EndsDigits (c :: cs) := by
  intro d hd
  rw [List.head?_cons, Option.mem_some_iff] at hd
  exact hd ▸ h

/-- Where digits have ended, none are taken. -/
theorem takeWhile_of_endsDigits {rest : List Char} (hrest : EndsDigits rest) :
    takeWhile Char.isDigit rest = some ([], rest) := by
  have htake := takeWhile_append_of_stop (List.forall_mem_nil _) hrest
  have hdrop := dropWhile_append_of_stop (List.forall_mem_nil _) hrest
  rw [List.nil_append] at htake hdrop
  rw [takeWhile, htake, hdrop]

/-- Digits in front of something else are taken off. -/
theorem digits_append {ds rest : List Char} (hds : ∀ c ∈ ds, c.isDigit = true) (hne : ds ≠ [])
    (hrest : EndsDigits rest) : digits none (ds ++ rest) = some (ds, rest) := by
  simp [digits, takeWhile_append_of_stop hds hrest, hne]

/-- So are they if they are no more than may be read. -/
theorem digits_append_of_le {ds rest : List Char} {width : Nat} (hds : ∀ c ∈ ds, c.isDigit = true)
    (hne : ds ≠ []) (hlength : ds.length ≤ width) (hrest : EndsDigits rest) :
    digits (some width) (ds ++ rest) = some (ds, rest) := by
  simp [digits, takeWhile_append_of_stop hds hrest, List.take_of_length_le hlength, hne]

/-- As many digits as may be read are taken off, whatever follows. -/
theorem digits_append_of_length {ds : List Char} {width : Nat} (hds : ∀ c ∈ ds, c.isDigit = true)
    (hlength : ds.length = width) (hwidth : 0 < width) (rest : List Char) :
    digits (some width) (ds ++ rest) = some (ds, rest) := by
  have hne : ds ≠ [] := List.ne_nil_of_length_pos (hlength ▸ hwidth)
  have htake : ((ds ++ rest).takeWhile Char.isDigit).take width = ds := by
    rw [List.takeWhile_append_of_pos hds, ← hlength, List.take_left]
  simp [digits, htake, hne]

/-- A number is scanned through its digits. -/
theorem number_of {width : Option Nat} {cs ds rest : List Char}
    (h : digits width cs = some (ds, rest)) : number width cs = some (ofDigits ds, rest) := by
  change (digits width cs).bind (fun p => some (ofDigits p.1, p.2)) = _
  rw [h]
  rfl

/-- A padded number is read back, whatever follows. -/
theorem number_padded {width n : Nat} (hwidth : 0 < width) (h : n < pow10 width)
    (rest : List Char) : number (some width) (padded width n ++ rest) = some (n, rest) := by
  have hdigits := digits_append_of_length (fun _ => isDigit_of_mem_padded)
    (length_padded hwidth h) hwidth rest
  rw [number_of hdigits, ofDigits_padded]

/-- A number is read back in front of something else than a digit, padded or not. -/
theorem number_padded_append {width n : Nat} {rest : List Char} (hrest : EndsDigits rest) :
    number none (padded width n ++ rest) = some (n, rest) := by
  have hdigits := digits_append (fun _ => isDigit_of_mem_padded) (padded_ne_nil width n) hrest
  rw [number_of hdigits, ofDigits_padded]

end Scan

end RelSearch.Text
