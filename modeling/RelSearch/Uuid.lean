import RelSearch.Text.Digits

/-!
# RelSearch.Uuid

Universally unique identifiers: 128 bits, written as lower-case hexadecimal
digits in groups of 8, 4, 4, 4 and 12.

A reader takes letters of either case, the groups with or without hyphens, and
the hyphenated form also in braces or after `urn:uuid:`.
-/

namespace RelSearch

/-- A 128-bit identifier. -/
structure Uuid where
  bits : BitVec 128
deriving DecidableEq

namespace Uuid

/-- Puts hyphens after the digits 8, 12, 16 and 20. -/
def hyphenated (ds : List Char) : List Char :=
  ds.take 8 ++ '-' :: (ds.drop 8).take 4 ++ '-' :: (ds.drop 12).take 4 ++
    '-' :: (ds.drop 16).take 4 ++ '-' :: ds.drop 20

/-- The canonical text. -/
def text (u : Uuid) : List Char := hyphenated (Text.hexPadded 32 u.bits.toNat)

/-- An identifier from exactly 32 hexadecimal digits. -/
def ofHex? (cs : List Char) : Option Uuid :=
  if cs.length = 32 then (Text.ofHex? cs).map fun n => ⟨BitVec.ofNat 128 n⟩ else none

/-- An identifier from a text with hyphens after the digits 8, 12, 16 and 20. -/
def ofHyphenated? (cs : List Char) : Option Uuid :=
  let ds := cs.take 8 ++ (cs.drop 9).take 4 ++ (cs.drop 14).take 4 ++ (cs.drop 19).take 4 ++
    cs.drop 24
  if cs = hyphenated ds then ofHex? ds else none

/-- An identifier from any of its written forms. -/
def ofText? (cs : List Char) : Option Uuid :=
  if cs.length = 32 then ofHex? cs
  else if cs.length = 38 ∧ cs.head? = some '\x7b' ∧ cs.getLast? = some '\x7d' then
    ofHyphenated? (cs.tail.dropLast)
  else if (cs.take 9).map Char.toLower = "urn:uuid:".toList then ofHyphenated? (cs.drop 9)
  else ofHyphenated? cs

end Uuid

end RelSearch
