import RelSearch.Json.Raw

/-!
# RelSearch.Json.Reader

Reading a JSON text (RFC 8259) into a tree.

A text is a sequence of tokens with white space between them. The reader takes
one token after the other and keeps the arrays and objects that are still open
on a stack, so the depth of a text costs nothing but memory. What may come next
is the reader's state.
-/

namespace RelSearch

/-! ## Tokens -/

/-- The smallest parts of a JSON text. -/
inductive Token where
  | openArray
  | closeArray
  | openObject
  | closeObject
  | comma
  | colon
  | null
  | bool (b : Bool)
  | number (n : Numeral)
  | string (units : List StringUnit)

namespace Token

/-- White space between tokens. -/
def isSpace (c : Char) : Bool := c == ' ' || c == '\t' || c == '\n' || c == '\r'

/-- The character that a backslash and a letter stand for. -/
def unescaped? : Char → Option Char
  | '"' => some '"'
  | '\\' => some '\\'
  | '/' => some '/'
  | 'b' => some '\x08'
  | 'f' => some '\x0c'
  | 'n' => some '\n'
  | 'r' => some '\r'
  | 't' => some '\t'
  | _ => none

/-- The units of a string literal behind its opening quote, and what follows
the closing one. Characters below U+0020 have to be escaped. -/
def units? : List Char → Option (List StringUnit × List Char)
  | [] => none
  | '"' :: cs => some ([], cs)
  | '\\' :: 'u' :: a :: b :: c :: d :: cs => do
    let code ← Text.ofHex? [a, b, c, d]
    let (us, rest) ← units? cs
    return (.ofCode code :: us, rest)
  | '\\' :: e :: cs => do
    let c ← unescaped? e
    let (us, rest) ← units? cs
    return (.escape c :: us, rest)
  | c :: cs =>
    if c.toNat < 0x20 then none
    else do
      let (us, rest) ← units? cs
      return (.char c :: us, rest)

/-- The token that starts with the character `c`, and what follows it. -/
def next? (c : Char) (cs : List Char) : Option (Token × List Char) :=
  let word (w : String) (t : Token) : Option (Token × List Char) :=
    if w.toList.isPrefixOf cs then some (t, cs.drop w.toList.length) else none
  match c with
  | '[' => some (.openArray, cs)
  | ']' => some (.closeArray, cs)
  | '\x7b' => some (.openObject, cs)
  | '\x7d' => some (.closeObject, cs)
  | ',' => some (.comma, cs)
  | ':' => some (.colon, cs)
  | 'n' => word "ull" .null
  | 't' => word "rue" (.bool true)
  | 'f' => word "alse" (.bool false)
  | '"' => (units? cs).map fun (us, rest) => (.string us, rest)
  | '-' => (Numeral.scanUnsigned true cs).map fun (n, rest) => (.number n, rest)
  | _ => (Numeral.scanUnsigned false (c :: cs)).map fun (n, rest) => (.number n, rest)

end Token

/-! ## The machine -/

namespace Raw

/-- An array or object that is still open, with what it holds so far, the last
first. An object waits for the value of `key`. -/
inductive Frame where
  | array (before : List Raw)
  | object (before : List (List StringUnit × Raw)) (key : List StringUnit)

/-- What may come next. -/
inductive State where
  /-- A value. -/
  | value (stack : List Frame)
  /-- The first item of an array, or its end. -/
  | firstItem (stack : List Frame)
  /-- The first key of an object, or its end. -/
  | firstKey (stack : List Frame)
  /-- A further key of an object. -/
  | key (stack : List Frame) (before : List (List StringUnit × Raw))
  /-- The colon behind a key. -/
  | colon (stack : List Frame) (before : List (List StringUnit × Raw)) (key : List StringUnit)
  /-- Whatever follows the value just read. -/
  | complete (stack : List Frame) (value : Raw)

/-- A value starts. -/
def start (stack : List Frame) : Token → Option State
  | .null => some (.complete stack .null)
  | .bool b => some (.complete stack (.bool b))
  | .number n => some (.complete stack (.number n))
  | .string us => some (.complete stack (.string us))
  | .openArray => some (.firstItem stack)
  | .openObject => some (.firstKey stack)
  | _ => none

/-- A value has been read, and the innermost open array or object goes on or ends. -/
def goOn (value : Raw) : List Frame → Token → Option State
  | .array before :: stack, .comma => some (.value (.array (value :: before) :: stack))
  | .array before :: stack, .closeArray =>
    some (.complete stack (.array (value :: before).reverse))
  | .object before key :: stack, .comma => some (.key stack ((key, value) :: before))
  | .object before key :: stack, .closeObject =>
    some (.complete stack (.object ((key, value) :: before).reverse))
  | _, _ => none

/-- Takes one token in. -/
def step : State → Token → Option State
  | .value stack, t => start stack t
  | .firstItem stack, .closeArray => some (.complete stack (.array []))
  | .firstItem stack, t => start (.array [] :: stack) t
  | .firstKey stack, .closeObject => some (.complete stack (.object []))
  | .firstKey stack, .string key => some (.colon stack [] key)
  | .firstKey _, _ => none
  | .key stack before, .string key => some (.colon stack before key)
  | .key _ _, _ => none
  | .colon stack before key, .colon => some (.value (.object before key :: stack))
  | .colon _ _ _, _ => none
  | .complete stack value, t => goOn value stack t

/-- The tree that has been read when the text ends. -/
def finish : State → Option Raw
  | .complete [] value => some value
  | _ => none

/-- Takes in all tokens of a text of at most `bound` characters. -/
def run : (bound : Nat) → List Char → State → Option Raw
  | bound, cs, state =>
    match cs.dropWhile Token.isSpace, bound with
    | [], _ => finish state
    | _ :: _, 0 => none
    | c :: rest, bound + 1 =>
      match Token.next? c rest with
      | none => none
      | some (token, rest) =>
        match step state token with
        | none => none
        | some state => run bound rest state

/-- Reads a JSON text. Every token takes at least one character, so the length
of the text bounds their number. -/
def ofChars? (cs : List Char) : Option Raw := run cs.length cs (.value [])

/-- Reads a JSON text. -/
def ofText? (s : String) : Option Raw := ofChars? s.toList

end Raw

end RelSearch
