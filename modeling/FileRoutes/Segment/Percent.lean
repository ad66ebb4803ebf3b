/-!
# Literal text in route paths

A route path holds ASCII only, and a colon in it starts a parameter. Literal text is therefore
written with its unsafe bytes as percent triplets and its colons behind a backslash.

* `Segment.encodeStatic`: literal text as it stands in a route path.
* `Segment.unescapeColons`: the backslashes before colons taken out again.
-/

namespace FileRoutes.Segment

/-- Characters that stand for themselves in a route path: printable ASCII without the delimiters. -/
def isPlain (c : Char) : Bool :=
  0x20 < c.toNat && c.toNat < 0x7F &&
    !(['"', '#', '<', '>', '?', '\x60', '\x7b', '\x7d', '^', '|', '\\'].contains c)

/-- The upper-case hexadecimal digit of a number below sixteen. -/
def hexDigit (n : Nat) : Char :=
  if n < 10 then Char.ofNat ('0'.toNat + n) else Char.ofNat ('A'.toNat + (n - 10))

/-- A byte as a percent sign and two hexadecimal digits. -/
def percent (byte : UInt8) : List Char :=
  ['%', hexDigit (byte.toNat / 16), hexDigit (byte.toNat % 16)]

/-- One character of literal text. A character that is not plain is written by its UTF-8 bytes. -/
def encodeChar (c : Char) : List Char :=
  if c = ':' then ['\\', ':']
  else if isPlain c then [c]
  else (String.utf8EncodeChar c).flatMap percent

/-- Literal text as it stands in a route path. -/
def encodeStatic (text : String) : String := String.ofList (text.toList.flatMap encodeChar)

/-- The text with `:` for each escaped colon. -/
def unescape : List Char → List Char
  | '\\' :: ':' :: rest => ':' :: unescape rest
  | c :: rest => c :: unescape rest
  | [] => []

/-- A route path with `:` for each escaped colon. -/
def unescapeColons (path : String) : String := String.ofList (unescape path.toList)

/-- A colon occurs that no backslash precedes; `previous` is the character before the text. -/
def marksParam : (previous : Option Char) → List Char → Bool
  | _, [] => false
  | previous, c :: rest => (c == ':' && previous != some '\\') || marksParam (some c) rest

/-- A route path holds a parameter: a colon that is not escaped. -/
def hasParam (path : String) : Bool := marksParam none path.toList

/-! ## Concatenation -/

theorem encodeStatic_append (a b : String) :
    encodeStatic (a ++ b) = encodeStatic a ++ encodeStatic b := by
  simp [encodeStatic, String.ofList_append]

end FileRoutes.Segment
