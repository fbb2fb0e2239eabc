import RelSearch.Json.Basic
import RelSearch.Number.Shortest

/-!
# RelSearch.Json.Writer

The compact text of a JSON value:

1. no white space anywhere;
2. `"` and `\` are escaped in strings, and so are the characters below U+0020,
   five of them by a letter and the others as `\u00xx`; everything else stands
   for itself;
3. a float has the fewest digits that read back. It is positional, with a point,
   while the power of ten of its leading digit is between -5 and 15, and
   scientific beyond.
-/

namespace RelSearch

namespace Json

/-! ## Strings -/

/-- A character as it stands inside a string. -/
def escaped (c : Char) : List Char :=
  if c = '"' then ['\\', '"']
  else if c = '\\' then ['\\', '\\']
  else if c = '\x08' then ['\\', 'b']
  else if c = '\t' then ['\\', 't']
  else if c = '\n' then ['\\', 'n']
  else if c = '\x0c' then ['\\', 'f']
  else if c = '\r' then ['\\', 'r']
  else if c.toNat < 0x20 then '\\' :: 'u' :: Text.hexPadded 4 c.toNat
  else [c]

/-- A string in its quotes. -/
def stringText (s : String) : List Char := '"' :: s.toList.flatMap escaped ++ ['"']

/-! ## Numbers -/

/-- Floats keep a point, and ties between digits go to the even one. -/
def floatStyle : FloatStyle := ⟨.even, some (-5, 15), true⟩

/-- A number; a float that is not finite has no text of its own. -/
def numberText : Number → List Char
  | .int n => Text.integer n
  | .float x => if x.isFinite then floatStyle.write x else "null".toList

/-! ## Values -/

mutual

/-- The compact text of a value in front of `rest`. Writing in front of a given
rest never copies what has been written. -/
def prepend : Json → List Char → List Char
  | .null, rest => "null".toList ++ rest
  | .bool true, rest => "true".toList ++ rest
  | .bool false, rest => "false".toList ++ rest
  | .number n, rest => numberText n ++ rest
  | .string s, rest => stringText s ++ rest
  | .array [], rest => '[' :: ']' :: rest
  | .array (x :: xs), rest => '[' :: x.prepend (prependItems xs rest)
  | .object [], rest => '\x7b' :: '\x7d' :: rest
  | .object ((k, v) :: ms), rest =>
    '\x7b' :: (stringText k ++ ':' :: v.prepend (prependMembers ms rest))

/-- The items of an array behind the first one, and the closing bracket. -/
def prependItems : List Json → List Char → List Char
  | [], rest => ']' :: rest
  | x :: xs, rest => ',' :: x.prepend (prependItems xs rest)

/-- The members of an object behind the first one, and the closing brace. -/
def prependMembers : List (String × Json) → List Char → List Char
  | [], rest => '\x7d' :: rest
  | (k, v) :: ms, rest => ',' :: (stringText k ++ ':' :: v.prepend (prependMembers ms rest))

end

/-- The compact text of a value. -/
def chars (j : Json) : List Char := j.prepend []

/-- The compact text of a value, as a string. -/
def text (j : Json) : String := String.ofList j.chars

end Json

end RelSearch
