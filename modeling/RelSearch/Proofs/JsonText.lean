import RelSearch.Json.Reader
import RelSearch.Json.Writer
import RelSearch.Proofs.Digits

/-!
# RelSearch.Proofs.JsonText

The compact text of a JSON value, and the tree that is read from it.

1. A string is read back as it was spelled: every escape that is written names
   the character that it stands for.
2. The digits of an integer are read back, whatever may follow a value.
3. One token takes the reader one step on (`Raw.Reads.token`). Steps are chained
   along the value: its text leads from a state in which a value may start to the
   state behind that value, with the same arrays and objects open.

So the text of a value without floats is read as the tree `Json.raw` of that
value, however deep it is.
-/

namespace RelSearch

open Text

/-! ## Strings -/

namespace StringUnit

/-- How a character is spelled inside a written string. -/
def ofChar (c : Char) : StringUnit :=
  if c = '"' ∨ c = '\\' ∨ c.toNat < 0x20 then .escape c else .char c

/-- How a string is spelled when it is written. -/
def spelling (s : String) : List StringUnit := s.toList.map ofChar

theorem chars?_spelling (cs : List Char) : chars? (cs.map ofChar) = some cs := by
  induction cs with
  | nil => rfl
  | cons c cs ih =>
      rw [List.map_cons, ofChar]
      split
      · rw [chars?, ih, Option.map_some]
      · rw [chars?, ih, Option.map_some]

/-- A string is read back from its spelling. -/
theorem text?_spelling (s : String) : text? (spelling s) = some s := by
  rw [text?, spelling, chars?_spelling, Option.map_some, String.ofList_toList]

end StringUnit

namespace Token

/-- A character that needs no escape stands for itself. -/
theorem units?_char {c : Char} (hquote : c ≠ '"') (hslash : c ≠ '\\') (h : ¬ c.toNat < 0x20)
    (cs : List Char) :
    units? (c :: cs) = (units? cs).map fun (us, rest) => (.char c :: us, rest) := by
  rw [units?]
  · rw [if_neg h]
    cases units? cs <;> rfl
  · exact hquote
  · intro _ _ _ _ _ heq
    exact absurd heq hslash
  · intro _ _ heq
    exact absurd heq hslash

/-- An escaped character is read behind its backslash. -/
theorem units?_escape {e c : Char} (he : e ≠ 'u') (h : unescaped? e = some c) (cs : List Char) :
    units? ('\\' :: e :: cs) = (units? cs).map fun (us, rest) => (.escape c :: us, rest) := by
  rw [units?]
  · rw [h]
    cases units? cs <;> rfl
  · intro _ _ _ _ _ heq
    exact absurd heq he

/-- A control character is named by its code. -/
theorem units?_code {c : Char} (h : c.toNat < 0x20) (cs : List Char) :
    units? ('\\' :: 'u' :: hexPadded 4 c.toNat ++ cs) =
      (units? cs).map fun (us, rest) => (.escape c :: us, rest) := by
  have hlength : (hexPadded 4 c.toNat).length = 4 :=
    length_hexPadded (by decide) (Nat.lt_trans h (by decide))
  have hvalue := ofHex?_hexPadded 4 c.toNat
  have hcode : StringUnit.ofCode c.toNat = .escape c := by
    rw [StringUnit.ofCode, if_neg (by omega), Char.ofNat_toNat]
  match hexPadded 4 c.toNat, hlength, hvalue with
  | [a, b, d, e], _, hvalue =>
    simp only [List.cons_append, List.nil_append]
    rw [units?, hvalue, ← hcode]
    cases units? cs <;> rfl

/-- A written character is read back. -/
theorem units?_escaped (c : Char) (cs : List Char) :
    units? (Json.escaped c ++ cs) =
      (units? cs).map fun (us, rest) => (StringUnit.ofChar c :: us, rest) := by
  rw [Json.escaped]
  -- Seven characters have an escape with a letter of their own.
  iterate 7
    split
    case isTrue h =>
      subst h
      exact units?_escape (by decide) rfl cs
  rename_i hquote hslash _ _ _ _ _
  split
  · next h => rw [StringUnit.ofChar, if_pos (.inr (.inr h)), units?_code h cs]
  · next h =>
      rw [StringUnit.ofChar, if_neg (by simp [hquote, hslash, h])]
      exact units?_char hquote hslash h cs

/-- What is written for a string is read up to the quotation mark. -/
theorem units?_stringText (cs rest : List Char) :
    units? (cs.flatMap Json.escaped ++ '"' :: rest) = some (cs.map .ofChar, rest) := by
  induction cs with
  | nil => rw [List.flatMap_nil, List.nil_append, units?, List.map_nil]
  | cons c cs ih =>
      rw [List.flatMap_cons, List.append_assoc, units?_escaped, ih, Option.map_some, List.map_cons]

theorem isSpace_of_isDigit {c : Char} (hc : c.isDigit = true) : isSpace c = false := by
  have hne : ∀ d : Char, d.isDigit = false → (c == d) = false := fun d hd =>
    beq_false_of_ne (ne_of_isDigit hc hd)
  rw [isSpace, hne ' ' rfl, hne '\t' rfl, hne '\n' rfl, hne '\r' rfl]
  rfl

/-- A digit starts a number. -/
theorem next?_of_isDigit {c : Char} (hc : c.isDigit = true) (cs : List Char) :
    next? c cs =
      (Numeral.scanUnsigned false (c :: cs)).map fun (n, rest) => (.number n, rest) := by
  rw [next?]
  all_goals exact ne_of_isDigit hc rfl

end Token

/-! ## Numbers -/

namespace Json

/-- A text that goes on behind a value, or ends. -/
def EndsValue (rest : List Char) : Prop := ∀ c ∈ rest.head?, c = ',' ∨ c = ']' ∨ c = '\x7d'

/-- What may follow a value is no digit. -/
theorem EndsValue.endsDigits {rest : List Char} (h : EndsValue rest) : Scan.EndsDigits rest := by
  intro c hc
  rcases h c hc with rfl | rfl | rfl <;> rfl

end Json

namespace Numeral

/-- The literal of an integer. -/
def ofInt (n : Int) : Numeral := ⟨n < 0, digits n.natAbs, [], none⟩

/-- The digits of a number are taken as a whole. -/
theorem scanWhole_digits (n : Nat) {rest : List Char} (hrest : Json.EndsValue rest) :
    scanWhole (digits n ++ rest) = some (digits n, rest) := by
  have hdigits := Scan.digits_append (fun _ => isDigit_of_mem_digits) (digits_ne_nil n)
    hrest.endsDigits
  have hzero : ¬ ((digits n).head? = some '0' ∧ digits n ≠ ['0']) := by
    rintro ⟨hhead, hne⟩
    by_cases hn : n = 0
    · exact hne (hn ▸ digits_zero)
    · exact head?_digits_ne hn hhead
  rw [scanWhole, Scan.bind_of hdigits, if_neg hzero]

theorem scanFraction_of_endsValue {rest : List Char} (hrest : Json.EndsValue rest) :
    scanFraction rest = some ([], rest) := by
  cases rest with
  | nil => rfl
  | cons c rest => rcases hrest c rfl with rfl | rfl | rfl <;> rfl

theorem scanExponent_of_endsValue {rest : List Char} (hrest : Json.EndsValue rest) :
    scanExponent rest = some (none, rest) := by
  cases rest with
  | nil => rfl
  | cons c rest => rcases hrest c rfl with rfl | rfl | rfl <;> rfl

/-- An integer has neither a fraction nor an exponent. -/
theorem scanUnsigned_digits (negative : Bool) (n : Nat) {rest : List Char}
    (hrest : Json.EndsValue rest) :
    scanUnsigned negative (digits n ++ rest) = some (⟨negative, digits n, [], none⟩, rest) := by
  rw [scanUnsigned, Scan.bind_of (scanWhole_digits n hrest),
    Scan.bind_of (scanFraction_of_endsValue hrest), Scan.bind_of (scanExponent_of_endsValue hrest)]
  rfl

/-- The first character of an integer, and what is read from there. -/
theorem next?_integer (n : Int) {rest : List Char} (hrest : Json.EndsValue rest) :
    ∃ c cs, integer n = c :: cs ∧ Token.isSpace c = false ∧
      Token.next? c (cs ++ rest) = some (.number (ofInt n), rest) := by
  cases n with
  | ofNat n =>
      obtain ⟨c, cs, h⟩ := List.exists_cons_of_ne_nil (digits_ne_nil n)
      have hc : c.isDigit = true := isDigit_of_mem_digits (h ▸ List.mem_cons_self)
      have hscan := scanUnsigned_digits false n hrest
      rw [h, List.cons_append] at hscan
      refine ⟨c, cs, h, Token.isSpace_of_isDigit hc, ?_⟩
      rw [Token.next?_of_isDigit hc, hscan, ← h]
      rfl
  | negSucc n =>
      refine ⟨'-', digits (n + 1), rfl, rfl, ?_⟩
      have hofInt : ofInt (.negSucc n) = ⟨true, digits (n + 1), [], none⟩ := by
        simp [ofInt, Int.negSucc_lt_zero]
      rw [Token.next?, scanUnsigned_digits true (n + 1) hrest, hofInt]
      rfl

/-- The literal of an integer of 64 bits stands for it. -/
theorem number?_ofInt {n : Int} (hlow : Int64.minValue.toInt ≤ n) (hhigh : n < UInt64.size) :
    (ofInt n).number? = some (.int n) := by
  have hmin : Int64.minValue.toInt = -9223372036854775808 := rfl
  have hpow : pow2 63 = 9223372036854775808 := rfl
  have hint : (ofInt n).int? = some n := by
    simp only [int?, ofInt, ofDigits_digits]
    by_cases hnegative : n < 0
    · have hrange : 0 < n.natAbs ∧ n.natAbs ≤ pow2 63 := by omega
      simp [hnegative, hrange, Int.ofNat_natAbs_of_nonpos (Int.le_of_lt hnegative)]
    · have hrange : n.natAbs < UInt64.size := by omega
      simp [hnegative, hrange, Int.natAbs_of_nonneg (Int.not_lt.mp hnegative)]
  rw [number?, hint]

end Numeral

/-! ## Values -/

namespace Json

mutual

/-- Whether a value holds no float. -/
def isExact : Json → Bool
  | .number (.float _) => false
  | .array items => areExact items
  | .object members => haveExact members
  | _ => true

def areExact : List Json → Bool
  | [] => true
  | x :: xs => x.isExact && areExact xs

def haveExact : List (String × Json) → Bool
  | [] => true
  | (_, v) :: ms => v.isExact && haveExact ms

end

mutual

/-- The tree that is read from the text of a value. Floats are left out: their
literals are read by rounding. -/
def raw : Json → Raw
  | .null => .null
  | .bool b => .bool b
  | .number (.int n) => .number (.ofInt n)
  | .number (.float _) => .null
  | .string s => .string (StringUnit.spelling s)
  | .array items => .array (rawItems items)
  | .object members => .object (rawMembers members)

def rawItems : List Json → List Raw
  | [] => []
  | x :: xs => x.raw :: rawItems xs

def rawMembers : List (String × Json) → List (List StringUnit × Raw)
  | [] => []
  | (k, v) :: ms => (StringUnit.spelling k, v.raw) :: rawMembers ms

end

end Json

namespace Raw

/-- Taking in the text `cs` up to `rest` leads from one state to another. -/
def Reads (cs : List Char) (s : State) (rest : List Char) (t : State) : Prop :=
  ∀ bound, cs.length ≤ bound → ∃ bound', rest.length ≤ bound' ∧ run bound cs s = run bound' rest t

namespace Reads

/-- Taking in one text after another. -/
theorem trans {cs ds es : List Char} {s t u : State} (h : Reads cs s ds t) (h' : Reads ds t es u) :
    Reads cs s es u := by
  intro bound hbound
  obtain ⟨bound', hbound', hrun⟩ := h bound hbound
  obtain ⟨bound'', hbound'', hrun'⟩ := h' bound' hbound'
  exact ⟨bound'', hbound'', hrun.trans hrun'⟩

/-- A token `c :: cs` takes the reader one step on. -/
theorem token (c : Char) (cs : List Char) {rest : List Char} {token : Token} {s t : State}
    (hspace : Token.isSpace c = false) (htoken : Token.next? c (cs ++ rest) = some (token, rest))
    (hstep : step s token = some t) : Reads (c :: (cs ++ rest)) s rest t := by
  intro bound hbound
  cases bound with
  | zero => exact absurd hbound (Nat.not_succ_le_zero _)
  | succ bound =>
      have hlength : rest.length ≤ (cs ++ rest).length := by
        rw [List.length_append]
        exact Nat.le_add_left _ _
      have hdrop : (c :: (cs ++ rest)).dropWhile Token.isSpace = c :: (cs ++ rest) := by
        simp [hspace]
      refine ⟨bound, Nat.le_trans hlength (Nat.le_of_succ_le_succ hbound), ?_⟩
      rw [run.eq_def]
      simp only [hdrop, htoken, hstep]

end Reads

/-- A string is taken in as a single token. -/
theorem reads_string (k : String) (rest : List Char) {s t : State}
    (hstep : step s (.string (StringUnit.spelling k)) = some t) :
    Reads (Json.stringText k ++ rest) s rest t := by
  have htoken : Token.next? '"' (k.toList.flatMap Json.escaped ++ ['"'] ++ rest) =
      some (.string (StringUnit.spelling k), rest) := by
    rw [Token.next?, List.append_assoc, List.singleton_append, Token.units?_stringText]
    rfl
  exact .token '"' _ rfl htoken hstep

/-- A state in which a value may start; `stack` is what is open then. -/
def Begins (s : State) (stack : List Frame) : Prop :=
  ∀ t : Token, t ≠ .closeArray → step s t = start stack t

theorem begins_value (stack : List Frame) : Begins (.value stack) stack := fun _ _ => rfl

/-- The first item of an array begins where the array may also end. -/
theorem begins_firstItem (stack : List Frame) :
    Begins (.firstItem stack) (.array [] :: stack) := by
  intro t ht
  rw [step]
  exact ht

/-- What follows an item or a member of a written value. -/
theorem endsValue_prependItems (xs : List Json) (rest : List Char) :
    Json.EndsValue (Json.prependItems xs rest) := by
  cases xs with
  | nil => exact fun c hc => .inr (.inl (Option.mem_some_iff.mp hc).symm)
  | cons x xs => exact fun c hc => .inl (Option.mem_some_iff.mp hc).symm

/-- Behind a member a comma or the end of the object follows. -/
theorem endsValue_prependMembers (ms : List (String × Json)) (rest : List Char) :
    Json.EndsValue (Json.prependMembers ms rest) := by
  cases ms with
  | nil => exact fun c hc => .inr (.inr (Option.mem_some_iff.mp hc).symm)
  | cons m ms => exact fun c hc => .inl (Option.mem_some_iff.mp hc).symm

mutual

/-- Reading a value from any state in which one may start, with whatever is open
then. -/
theorem reads_prepend (j : Json) (hj : j.isExact = true) {s : State} {stack : List Frame}
    (hs : Begins s stack) {rest : List Char} (hrest : Json.EndsValue rest) :
    Reads (j.prepend rest) s rest (.complete stack j.raw) := by
  match j with
  | .null => exact .token 'n' ['u', 'l', 'l'] rfl rfl (hs .null nofun)
  | .bool true => exact .token 't' ['r', 'u', 'e'] rfl rfl (hs (.bool true) nofun)
  | .bool false => exact .token 'f' ['a', 'l', 's', 'e'] rfl rfl (hs (.bool false) nofun)
  | .number (.int n) =>
    obtain ⟨c, cs, heq, hspace, htoken⟩ := Numeral.next?_integer n hrest
    rw [Json.prepend, Json.numberText, heq]
    exact .token c cs hspace htoken (hs (.number (.ofInt n)) nofun)
  | .number (.float _) => exact absurd hj Bool.false_ne_true
  | .string text =>
    rw [Json.prepend]
    exact reads_string text rest (hs (.string _) nofun)
  | .array [] =>
    have hopen : Reads ('[' :: ']' :: rest) s (']' :: rest) (.firstItem stack) :=
      .token '[' [] rfl rfl (hs .openArray nofun)
    exact hopen.trans (.token ']' [] rfl rfl rfl)
  | .array (x :: xs) =>
    rw [Json.isExact, Json.areExact, Bool.and_eq_true] at hj
    have hopen : Reads ('[' :: x.prepend (Json.prependItems xs rest)) s _ (.firstItem stack) :=
      .token '[' [] rfl rfl (hs .openArray nofun)
    have hfirst := reads_prepend x hj.1 (begins_firstItem stack) (endsValue_prependItems xs rest)
    have hitems := reads_items xs hj.2 stack [] x.raw rest
    exact hopen.trans (hfirst.trans hitems)
  | .object [] =>
    have hopen : Reads ('\x7b' :: '\x7d' :: rest) s ('\x7d' :: rest) (.firstKey stack) :=
      .token '\x7b' [] rfl rfl (hs .openObject nofun)
    exact hopen.trans (.token '\x7d' [] rfl rfl rfl)
  | .object ((k, v) :: ms) =>
    rw [Json.isExact, Json.haveExact, Bool.and_eq_true] at hj
    have hopen : Reads
        ('\x7b' :: (Json.stringText k ++ ':' :: v.prepend (Json.prependMembers ms rest))) s _
        (.firstKey stack) :=
      .token '\x7b' [] rfl rfl (hs .openObject nofun)
    have hmember := reads_member k v hj.1 ms rest (rfl : step (.firstKey stack) _ = _)
    have hmembers := reads_members ms hj.2 stack [] (StringUnit.spelling k) v.raw rest
    exact hopen.trans (hmember.trans hmembers)

/-- The items behind one that has been read, up to the end of the array. -/
theorem reads_items (xs : List Json) (hxs : Json.areExact xs = true) (stack : List Frame)
    (before : List Raw) (v : Raw) (rest : List Char) :
    Reads (Json.prependItems xs rest) (.complete (.array before :: stack) v) rest
      (.complete stack (.array ((v :: before).reverse ++ Json.rawItems xs))) := by
  match xs with
  | [] =>
    rw [Json.rawItems, List.append_nil]
    exact .token ']' [] rfl rfl rfl
  | x :: xs =>
    rw [Json.areExact, Bool.and_eq_true] at hxs
    have hcomma : Reads (',' :: x.prepend (Json.prependItems xs rest))
        (.complete (.array before :: stack) v) _ (.value (.array (v :: before) :: stack)) :=
      .token ',' [] rfl rfl rfl
    have hitem := reads_prepend x hxs.1 (begins_value (.array (v :: before) :: stack))
      (endsValue_prependItems xs rest)
    have hitems := reads_items xs hxs.2 stack (v :: before) x.raw rest
    rw [List.reverse_cons, List.append_assoc] at hitems
    exact hcomma.trans (hitem.trans hitems)

/-- A member from its key to its value. -/
theorem reads_member (k : String) (v : Json) (hv : v.isExact = true) (ms : List (String × Json))
    (rest : List Char) {s : State} {stack : List Frame} {before : List (List StringUnit × Raw)}
    (hstep : step s (.string (StringUnit.spelling k)) =
      some (.colon stack before (StringUnit.spelling k))) :
    Reads (Json.stringText k ++ ':' :: v.prepend (Json.prependMembers ms rest)) s
      (Json.prependMembers ms rest)
      (.complete (.object before (StringUnit.spelling k) :: stack) v.raw) := by
  have hkey := reads_string k (':' :: v.prepend (Json.prependMembers ms rest)) hstep
  have hcolon : Reads (':' :: v.prepend (Json.prependMembers ms rest))
      (.colon stack before (StringUnit.spelling k)) _
      (.value (.object before (StringUnit.spelling k) :: stack)) :=
    .token ':' [] rfl rfl rfl
  have hvalue := reads_prepend v hv (begins_value (.object before (StringUnit.spelling k) :: stack))
    (endsValue_prependMembers ms rest)
  exact hkey.trans (hcolon.trans hvalue)

/-- The members behind one that has been read, up to the end of the object. -/
theorem reads_members (ms : List (String × Json)) (hms : Json.haveExact ms = true)
    (stack : List Frame) (before : List (List StringUnit × Raw)) (key : List StringUnit) (v : Raw)
    (rest : List Char) :
    Reads (Json.prependMembers ms rest) (.complete (.object before key :: stack) v) rest
      (.complete stack (.object (((key, v) :: before).reverse ++ Json.rawMembers ms))) := by
  match ms with
  | [] =>
    rw [Json.rawMembers, List.append_nil]
    exact .token '\x7d' [] rfl rfl rfl
  | (k, w) :: ms =>
    rw [Json.haveExact, Bool.and_eq_true] at hms
    have hcomma : Reads
        (',' :: (Json.stringText k ++ ':' :: w.prepend (Json.prependMembers ms rest)))
        (.complete (.object before key :: stack) v) _ (.key stack ((key, v) :: before)) :=
      .token ',' [] rfl rfl rfl
    have hmember := reads_member k w hms.1 ms rest
      (rfl : step (.key stack ((key, v) :: before)) _ = _)
    have hmembers := reads_members ms hms.2 stack ((key, v) :: before) (StringUnit.spelling k) w.raw
      rest
    rw [List.reverse_cons, List.append_assoc] at hmembers
    exact hcomma.trans (hmember.trans hmembers)

end

/-- The text of a value without floats is read as the tree of that value. -/
theorem ofChars?_chars {j : Json} (hj : j.isExact = true) : ofChars? j.chars = some j.raw := by
  obtain ⟨bound, -, hrun⟩ := reads_prepend j hj (begins_value []) (nofun : Json.EndsValue [])
    j.chars.length (Nat.le_refl _)
  refine hrun.trans ?_
  rw [run.eq_def]
  rfl

/-- The text of an exact value is read as the tree of the value. -/
theorem ofText?_text {j : Json} (hj : j.isExact = true) : ofText? j.text = some j.raw := by
  rw [ofText?, Json.text, String.toList_ofList, ofChars?_chars hj]

end Raw

end RelSearch
