import FileRoutes.Number.Binary64
import FileRoutes.Script.Alphabet

/-!
# Lexemes of scripts

Reading one token off the front of a source text. Every reader is a recursion on the characters;
those that must look inside an escape sequence carry the state of the escape along.

* `skipGap` passes blanks and comments and notes whether a line ended.
* `readToken` reads a token where an operator or an operand may stand. A slash is read as an
  operator, a closing brace as a bracket and `>` always alone; the grammar asks for `readRegex`,
  `readTemplate` or markup text where those are meant.
* `textOfUnits` turns the code units of a literal into text.
-/

namespace FileRoutes.Script

/-- Tokens of a script. -/
inductive Token where
  /-- An identifier name or keyword; `escaped` when its spelling holds an escape sequence. -/
  | word (text : String) (escaped : Bool)
  | privateName (text : String)
  | punctuator (text : String)
  | string (value : String)
  | number (value : Binary64)
  | bigint
  /-- A piece of a template up to the closing backquote (`closed`) or up to a substitution. -/
  | template (closed wellFormed : Bool)
  /-- The end of the source. -/
  | finish
  /-- No token starts here. -/
  | invalid
  deriving DecidableEq, Repr, Inhabited

/-- A token with the offset after it and the characters that follow. -/
structure Lexeme where
  token : Token
  stop : Nat
  rest : List Char

/-! ## Blanks and comments -/

/-- Where a gap between tokens is: between comments, in a line comment, in a block comment. -/
inductive Gap where
  | open | line | block

/-- Skips blanks and comments: whether a line ended, the new offset and the rest. An unclosed block
comment has no end. -/
def skipGap : Gap → (newline : Bool) → (offset : Nat) → List Char → Option (Bool × Nat × List Char)
  | .open, newline, offset, '/' :: '/' :: rest => skipGap .line newline (offset + 2) rest
  | .open, newline, offset, '/' :: '*' :: rest => skipGap .block newline (offset + 2) rest
  | .open, newline, offset, c :: rest =>
    if isLineEnd c then skipGap .open true (offset + 1) rest
    else if isBlank c then skipGap .open newline (offset + 1) rest
    else some (newline, offset, c :: rest)
  | .line, newline, offset, c :: rest =>
    if isLineEnd c then skipGap .open true (offset + 1) rest
    else skipGap .line newline (offset + 1) rest
  | .block, newline, offset, '*' :: '/' :: rest => skipGap .open newline (offset + 2) rest
  | .block, newline, offset, c :: rest => skipGap .block (newline || isLineEnd c) (offset + 1) rest
  | .block, _, _, [] => none
  | _, newline, offset, [] => some (newline, offset, [])

/-! ## Code units -/

/-- The code point of a surrogate pair. -/
def pairCodePoint (high low : Nat) : Nat := 0x10000 + (high - 0xD800) * 0x400 + (low - 0xDC00)

/-- A leading surrogate. -/
def isHighSurrogate (unit : Nat) : Bool := decide (0xD800 ≤ unit ∧ unit < 0xDC00)

/-- A trailing surrogate. -/
def isLowSurrogate (unit : Nat) : Bool := decide (0xDC00 ≤ unit ∧ unit < 0xE000)

/-- Joins each leading surrogate with the trailing one after it. -/
def joinSurrogates : List Nat → List Nat
  | high :: low :: rest =>
    if isHighSurrogate high && isLowSurrogate low then
      pairCodePoint high low :: joinSurrogates rest
    else high :: joinSurrogates (low :: rest)
  | [unit] => [unit]
  | [] => []

/-- The four lower-case hexadecimal digits of a code unit. -/
def hexUnit (unit : Nat) : List Char :=
  [unit / 0x1000 % 16, unit / 0x100 % 16, unit / 0x10 % 16, unit % 16].map fun digit =>
    Char.ofNat (if digit < 10 then '0'.toNat + digit else 'a'.toNat + digit - 10)

/-- The text of a literal's code units. If a surrogate stands alone, it and every replacement
character are written as a replacement character and four hexadecimal digits. -/
def textOfUnits (units : List Nat) : String :=
  let points := joinSurrogates units
  let lone (point : Nat) : Bool := isHighSurrogate point || isLowSurrogate point
  let marked (point : Nat) : Bool := lone point || (point == 0xFFFD && points.any lone)
  String.ofList <| points.flatMap fun point =>
    if marked point then Char.ofNat 0xFFFD :: hexUnit point else [Char.ofNat point]

/-! ## Escape sequences -/

/-- How much of an escape sequence has been read. -/
inductive Escape where
  | none
  | backslash
  /-- Hexadecimal digits: how many are missing, and the value so far. -/
  | hex (missing value : Nat)
  /-- After the `u` of a code point escape. -/
  | unicode
  /-- Digits between braces: the value so far, and whether there is a digit. -/
  | braced (value : Nat) (started : Bool)
  /-- Octal digits: how many more may follow, and the value so far. -/
  | octal (left value : Nat)
  /-- After an escaped carriage return, which a line feed may complete. -/
  | afterReturn

/-- The code unit of a one-character escape. -/
def simpleEscape (c : Char) : Nat :=
  match c with
  | 'n' => 10
  | 't' => 9
  | 'r' => 13
  | 'b' => 8
  | 'f' => 12
  | 'v' => 11
  | c => c.toNat

/-- Ends an escape whose length is open when the next character does not belong to it. -/
def Escape.settle (escape : Escape) (units : List Nat) (next : Char) : Escape × List Nat :=
  match escape with
  | .octal _ value =>
    if (digitValue? 8 next).isSome then (escape, units) else (.none, value :: units)
  | .afterReturn => if next == '\n' then (escape, units) else (.none, units)
  | _ => (escape, units)

/-- Reads a string literal after its opening quote: its code units, last first, the offset after the
closing quote, and the rest. -/
def scanString (quote : Char) :
    Escape → (units : List Nat) → (offset : Nat) → List Char → Option (List Nat × Nat × List Char)
  | _, _, _, [] => .none
  | escape, units, offset, c :: rest =>
    let settled := escape.settle units c
    let units := settled.2
    let proceed (escape : Escape) (units : List Nat) :=
      scanString quote escape units (offset + 1) rest
    match settled.1 with
    | .none =>
      if c == quote then some (units, offset + 1, rest)
      else if c == '\\' then proceed .backslash units
      else if c == '\n' || c == '\r' then .none
      else proceed .none (c.toNat :: units)
    | .backslash =>
      if c == 'x' then proceed (.hex 2 0) units
      else if c == 'u' then proceed .unicode units
      else if c == '\r' then proceed .afterReturn units
      else if isLineEnd c then proceed .none units
      else match digitValue? 8 c with
        | some digit => proceed (.octal (if digit < 4 then 2 else 1) digit) units
        | .none => proceed .none (simpleEscape c :: units)
    | .hex missing value =>
      match hexValue? c with
      | .none => .none
      | some digit =>
        let value := value * 16 + digit
        if missing ≤ 1 then proceed .none (value :: units)
        else proceed (.hex (missing - 1) value) units
    | .unicode =>
      if c == '{' then proceed (.braced 0 false) units
      else match hexValue? c with
        | .none => .none
        | some digit => proceed (.hex 3 digit) units
    | .braced value started =>
      if c == '}' then
        if started then proceed .none (value :: units) else .none
      else match hexValue? c with
        | .none => .none
        | some digit =>
          let value := value * 16 + digit
          if 0x10FFFF < value then .none else proceed (.braced value true) units
    | .octal left value =>
      let value := value * 8 + (digitValue? 8 c).getD 0
      if left ≤ 1 then proceed .none (value :: units)
      else proceed (.octal (left - 1) value) units
    | .afterReturn => proceed .none units

/-! ## Words -/

/-- Reads an identifier name: its characters, last first, whether one was escaped, the offset after
it, and the rest. An escape must stand for a character that may stand there itself. -/
def scanWord : Escape → (word : List Char) → (escaped : Bool) → (offset : Nat) → List Char →
    Option (List Char × Bool × Nat × List Char)
  | .none, word, escaped, offset, [] => some (word, escaped, offset, [])
  | _, _, _, _, [] => .none
  | escape, word, escaped, offset, c :: rest =>
    let fits (c : Char) : Bool := if word.isEmpty then isNameStart c else isNamePart c
    match escape with
    | .none =>
      if c == '\\' then scanWord .backslash word true (offset + 1) rest
      else if fits c then scanWord .none (c :: word) escaped (offset + 1) rest
      else some (word, escaped, offset, c :: rest)
    | .backslash => if c == 'u' then scanWord .unicode word true (offset + 1) rest else .none
    | .unicode =>
      if c == '{' then scanWord (.braced 0 false) word true (offset + 1) rest
      else match hexValue? c with
        | .none => .none
        | some digit => scanWord (.hex 3 digit) word true (offset + 1) rest
    | .hex missing value =>
      match hexValue? c with
      | .none => .none
      | some digit =>
        let value := value * 16 + digit
        if 1 < missing then scanWord (.hex (missing - 1) value) word true (offset + 1) rest
        else if fits (Char.ofNat value) then
          scanWord .none (Char.ofNat value :: word) true (offset + 1) rest
        else .none
    | .braced value _ =>
      if c == '}' then
        if fits (Char.ofNat value) then
          scanWord .none (Char.ofNat value :: word) true (offset + 1) rest
        else .none
      else match hexValue? c with
        | .none => .none
        | some digit =>
          let value := value * 16 + digit
          if 0x10FFFF < value then .none
          else scanWord (.braced value true) word true (offset + 1) rest
    | .octal _ _ | .afterReturn => .none

/-! ## Templates -/

/-- Ends an escape of a template at a character that cannot continue it, noting that it is not well
formed. -/
def Escape.settleTemplate (escape : Escape) (wellFormed : Bool) (next : Char) : Escape × Bool :=
  match escape with
  | .hex _ _ => if (hexValue? next).isSome then (escape, wellFormed) else (.none, false)
  | .unicode =>
    if next == '{' || (hexValue? next).isSome then (escape, wellFormed) else (.none, false)
  | .braced _ started =>
    if (next == '}' && started) || (hexValue? next).isSome then (escape, wellFormed)
    else (.none, false)
  | .octal _ _ => (.none, wellFormed && !next.isDigit)
  | escape => (escape, wellFormed)

/-- Reads a piece of a template: whether the closing backquote ended it, whether all its escapes are
well formed, the offset after it and the rest. -/
def scanTemplate : Escape → (wellFormed : Bool) → (offset : Nat) → List Char →
    Option (Bool × Bool × Nat × List Char)
  | _, _, _, [] => .none
  | escape, wellFormed, offset, c :: rest =>
    let settled := escape.settleTemplate wellFormed c
    let wellFormed := settled.2
    let proceed (escape : Escape) (wellFormed : Bool) :=
      scanTemplate escape wellFormed (offset + 1) rest
    match settled.1 with
    | .none =>
      if c == '\x60' then some (true, wellFormed, offset + 1, rest)
      else if c == '\\' then proceed .backslash wellFormed
      else if c == '$' then
        match rest with
        | '{' :: rest => some (false, wellFormed, offset + 2, rest)
        | _ => proceed .none wellFormed
      else proceed .none wellFormed
    | .backslash =>
      if c == 'x' then proceed (.hex 2 0) wellFormed
      else if c == 'u' then proceed .unicode wellFormed
      else if c == '0' then proceed (.octal 1 0) wellFormed
      else proceed .none (wellFormed && !c.isDigit)
    | .hex missing _ =>
      if 1 < missing then proceed (.hex (missing - 1) 0) wellFormed
      else proceed .none wellFormed
    | .unicode => proceed (if c == '{' then .braced 0 false else .hex 3 0) wellFormed
    | .braced value _ =>
      if c == '}' then proceed .none (wellFormed && decide (value ≤ 0x10FFFF))
      else proceed (.braced (min 0x110000 (value * 16 + (hexValue? c).getD 0)) true) wellFormed
    | .octal _ _ | .afterReturn => proceed .none wellFormed

/-- The piece of a template that starts after a backquote or after a substitution. -/
def readTemplate (offset : Nat) (text : List Char) : Option Lexeme :=
  (scanTemplate .none true offset text).map fun (closed, wellFormed, stop, rest) =>
    ⟨.template closed wellFormed, stop, rest⟩

/-! ## Regular expressions -/

/-- Reads a regular expression body after its opening slash. A slash inside a class or after a
backslash does not close it; no line ends in it. -/
def scanRegex : (inClass escaped : Bool) → (offset : Nat) → List Char → Option (Nat × List Char)
  | _, _, _, [] => none
  | inClass, escaped, offset, c :: rest =>
    if isLineEnd c then none
    else if escaped then scanRegex inClass false (offset + 1) rest
    else if c == '\\' then scanRegex inClass true (offset + 1) rest
    else if c == '[' then scanRegex true false (offset + 1) rest
    else if c == ']' then scanRegex false false (offset + 1) rest
    else if c == '/' && !inClass then some (offset + 1, rest)
    else scanRegex inClass false (offset + 1) rest

/-- Flags are distinct letters out of `dgimsuvy`. -/
def areFlags : List Char → Bool
  | [] => true
  | c :: rest => "dgimsuvy".toList.contains c && !rest.contains c && areFlags rest

/-- The offset after a regular expression and its flags, and the rest, read from after the opening
slash. An empty body would be a comment. -/
def readRegex (offset : Nat) (text : List Char) : Option (Nat × List Char) :=
  match text with
  | '*' :: _ => none
  | _ =>
    match scanRegex false false offset text with
    | none => none
    | some (stop, rest) =>
      let flags := rest.takeWhile isNamePart
      if areFlags flags then some (stop + flags.length, rest.dropWhile isNamePart) else none

/-! ## Numbers -/

/-- A run of digits: its value, how many there are, the offset after it and the rest. -/
structure Digits where
  value : Nat
  count : Nat
  stop : Nat
  rest : List Char

/-- Reads digits of a radix with single underscores between them. -/
def scanDigits (radix : Nat) : (value count : Nat) → (afterDigit : Bool) → (offset : Nat) →
    List Char → Option Digits
  | value, count, afterDigit, offset, [] =>
    if afterDigit || count == 0 then some ⟨value, count, offset, []⟩ else none
  | value, count, afterDigit, offset, c :: rest =>
    if c == '_' && 0 < count then
      if afterDigit then scanDigits radix value count false (offset + 1) rest else none
    else match digitValue? radix c with
      | some digit => scanDigits radix (value * radix + digit) (count + 1) true (offset + 1) rest
      | none => if afterDigit || count == 0 then some ⟨value, count, offset, c :: rest⟩ else none

/-- The exponent part after a mantissa, if one is written: its value, the offset and the rest. -/
def scanExponent (offset : Nat) (text : List Char) : Option (Int × Nat × List Char) :=
  let digits (sign : Int) (offset : Nat) (text : List Char) : Option (Int × Nat × List Char) :=
    match scanDigits 10 0 0 false offset text with
    | some ⟨value, count, stop, rest⟩ => if count = 0 then none else some (sign * value, stop, rest)
    | none => none
  match text with
  | e :: '+' :: rest =>
    if e == 'e' || e == 'E' then digits 1 (offset + 2) rest else some (0, offset, text)
  | e :: '-' :: rest =>
    if e == 'e' || e == 'E' then digits (-1) (offset + 2) rest else some (0, offset, text)
  | e :: rest => if e == 'e' || e == 'E' then digits 1 (offset + 1) rest else some (0, offset, text)
  | [] => some (0, offset, [])

/-- A fraction and an exponent after the whole part of a decimal literal. -/
def readFraction (whole : Nat) (offset : Nat) (text : List Char) : Option Lexeme :=
  let fraction :=
    match text with
    | '.' :: rest => scanDigits 10 whole 0 false (offset + 1) rest
    | _ => some ⟨whole, 0, offset, text⟩
  match fraction with
  | none => none
  | some ⟨mantissa, places, offset, text⟩ =>
    match scanExponent offset text with
    | none => none
    | some (exponent, stop, rest) =>
      some ⟨.number (Binary64.ofDecimal mantissa (exponent - places)), stop, rest⟩

/-- A whole literal of a radix, which a final `n` makes a big integer. -/
def readWhole (radix : Nat) (offset : Nat) (text : List Char) : Option Lexeme :=
  match scanDigits radix 0 0 false offset text with
  | none => none
  | some ⟨_, 0, _, _⟩ => none
  | some ⟨_, _, stop, 'n' :: rest⟩ => some ⟨.bigint, stop + 1, rest⟩
  | some ⟨value, _, stop, rest⟩ => some ⟨.number (Binary64.ofQuotient value 1), stop, rest⟩

/-- A literal with a leading zero before more digits. It is octal if all its digits are; else it is
decimal and may go on with a fraction. -/
def readZeroLed (offset : Nat) (text : List Char) : Option Lexeme :=
  let digits := text.takeWhile Char.isDigit
  let value (radix : Nat) : Nat :=
    digits.foldl (fun value c => value * radix + (digitValue? radix c).getD 0) 0
  let stop := offset + digits.length
  let rest := text.drop digits.length
  if digits.all fun c => (digitValue? 8 c).isSome then
    some ⟨.number (Binary64.ofQuotient (value 8) 1), stop, rest⟩
  else readFraction (value 10) stop rest

/-- A decimal literal. -/
def readDecimal (offset : Nat) (text : List Char) : Option Lexeme :=
  let zeroLed : Bool :=
    match text with
    | '0' :: c :: _ => c.isDigit
    | _ => false
  if zeroLed then readZeroLed offset text
  else if ['0', '_'].isPrefixOf text then none
  else
    match scanDigits 10 0 0 false offset text with
    | none => none
    | some ⟨_, _, stop, 'n' :: rest⟩ => some ⟨.bigint, stop + 1, rest⟩
    | some ⟨whole, count, offset, text⟩ =>
      match count, text with
      | 0, '.' :: c :: _ => if c.isDigit then readFraction whole offset text else none
      | _, _ => readFraction whole offset text

/-- A numeric literal, which no name may follow directly. -/
def readNumber (offset : Nat) (text : List Char) : Option Lexeme :=
  let literal :=
    match text with
    | '0' :: 'x' :: rest | '0' :: 'X' :: rest => readWhole 16 (offset + 2) rest
    | '0' :: 'o' :: rest | '0' :: 'O' :: rest => readWhole 8 (offset + 2) rest
    | '0' :: 'b' :: rest | '0' :: 'B' :: rest => readWhole 2 (offset + 2) rest
    | _ => readDecimal offset text
  match literal with
  | none => none
  | some lexeme =>
    match lexeme.rest with
    | c :: _ => if isNameStart c || c.isDigit || c == '\\' then none else some lexeme
    | [] => some lexeme

/-! ## Punctuators -/

/-- Punctuators of more than one character, each before its own beginnings. A `>` is always read
alone. -/
def longPunctuators : List String :=
  ["...", "===", "!==", "**=", "<<=", "&&=", "||=", "??=", "=>", "==", "!=", "<=", "++", "--", "<<",
   "&&", "||", "??", "?.", "+=", "-=", "*=", "/=", "%=", "&=", "|=", "^=", "**"]

/-- Punctuators of one character. -/
def shortPunctuators : List Char := "\x7b\x7d()[];,<>+-*/%&|^!~?:=.@".toList

/-- The longest punctuator at the front. `?.` before a digit is a question mark. -/
def readPunctuator (offset : Nat) (text : List Char) : Option Lexeme :=
  let short : Option Lexeme :=
    match text with
    | c :: rest =>
      if shortPunctuators.contains c then some ⟨.punctuator (String.singleton c), offset + 1, rest⟩
      else none
    | [] => none
  match longPunctuators.find? fun p => p.toList.isPrefixOf text with
  | none => short
  | some p =>
    let rest := text.drop p.length
    if p == "?." && (rest.head?.any Char.isDigit) then short
    else some ⟨.punctuator p, offset + p.length, rest⟩

/-! ## Tokens -/

/-- The token at the front of a text that starts with no blank. -/
def readToken? (offset : Nat) (text : List Char) : Option Lexeme :=
  match text with
  | [] => some ⟨.finish, offset, []⟩
  | c :: rest =>
    if c == '"' || c == '\'' then
      (scanString c .none [] (offset + 1) rest).map fun (units, stop, rest) =>
        ⟨.string (textOfUnits units.reverse), stop, rest⟩
    else if c == '\x60' then readTemplate (offset + 1) rest
    else if c.isDigit || (c == '.' && rest.head?.any Char.isDigit) then readNumber offset text
    else if isNameStart c || c == '\\' then
      (scanWord .none [] false offset text).map fun (word, escaped, stop, rest) =>
        ⟨.word (String.ofList word.reverse) escaped, stop, rest⟩
    else if c == '#' then
      match scanWord .none [] false (offset + 1) rest with
      | some (w :: word, _, stop, rest) =>
        some ⟨.privateName (String.ofList (w :: word).reverse), stop, rest⟩
      | _ => none
    else readPunctuator offset text

/-- The token at the front of a text, `invalid` where there is none. -/
def readToken (offset : Nat) (text : List Char) : Lexeme :=
  (readToken? offset text).getD ⟨.invalid, offset + 1, text.drop 1⟩

end FileRoutes.Script
