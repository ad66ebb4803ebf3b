import FileRoutes.Text.Unicode

/-!
# The alphabet of scripts

Which characters separate tokens, end lines, and make up identifiers and digits.
-/

namespace FileRoutes.Script

/-- Line feed, carriage return, line separator and paragraph separator. -/
def isLineEnd (c : Char) : Bool :=
  c == '\n' || c == '\r' || c.toNat == 0x2028 || c.toNat == 0x2029

/-- Characters between tokens that end no line. -/
def isBlank (c : Char) : Bool :=
  Unicode.isIn [(0x9, 0x9), (0xB, 0xC), (0x20, 0x20), (0x85, 0x85), (0xA0, 0xA0), (0x1680, 0x1680),
    (0x180E, 0x180E), (0x2000, 0x200B), (0x202F, 0x202F), (0x205F, 0x205F), (0x3000, 0x3000),
    (0xFEFF, 0xFEFF)] c.toNat

/-- Characters that start an identifier: letters, `$`, `_`, and four symbols kept for stability. -/
def isNameStart (c : Char) : Bool :=
  c == '$' || c == '_' || (Unicode.isLetter c && c.toNat != 0x2E2F)
    || Unicode.isIn [(0x1885, 0x1886), (0x2118, 0x2118), (0x212E, 0x212E), (0x309B, 0x309C)] c.toNat

/-- Characters that continue an identifier. -/
def isNamePart (c : Char) : Bool :=
  isNameStart c || Unicode.isDecimalDigit c || Unicode.isConnector c || Unicode.isJoiner c
    || (Unicode.isMark c
      && !Unicode.isIn [(0x488, 0x489), (0x1ABE, 0x1ABE), (0x20DD, 0x20E0), (0x20E2, 0x20E4),
        (0xA670, 0xA672)] c.toNat)
    || Unicode.isIn [(0xB7, 0xB7), (0x387, 0x387), (0x1369, 0x1371), (0x19DA, 0x19DA),
        (0x30FB, 0x30FB), (0xFF65, 0xFF65)] c.toNat

/-- The value of a hexadecimal digit. -/
def hexValue? (c : Char) : Option Nat :=
  if '0' ≤ c ∧ c ≤ '9' then some (c.toNat - '0'.toNat)
  else if 'a' ≤ c ∧ c ≤ 'f' then some (c.toNat - 'a'.toNat + 10)
  else if 'A' ≤ c ∧ c ≤ 'F' then some (c.toNat - 'A'.toNat + 10)
  else none

/-- The value of a digit in a radix of at most sixteen. -/
def digitValue? (radix : Nat) (c : Char) : Option Nat :=
  (hexValue? c).filter (· < radix)

/-- Words that are never identifiers. The words `await` and `yield` are identifiers where they are
no operators. -/
def reservedWords : List String :=
  ["break", "case", "catch", "class", "const", "continue", "debugger", "default", "delete", "do",
   "else", "enum", "export", "extends", "false", "finally", "for", "function", "if", "import", "in",
   "instanceof", "new", "null", "return", "super", "switch", "this", "throw", "true", "try",
   "typeof", "var", "void", "while", "with"]

/-- The word is never an identifier. -/
def isReserved (word : String) : Bool := reservedWords.contains word

end FileRoutes.Script
