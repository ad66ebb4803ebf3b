import FileRoutes.Segment.Token

/-!
# Reading segments

The tokens of a segment are found in one pass over its characters.

* `Segment.Place`: where the pass stands: between tokens, in literal text, or inside brackets.
* `Segment.Scan`: the state of the pass, with `Scan.step` for one character.
* `Segment.tokenize`: the tokens of a segment, or why it has none.

Three rules look beyond one character. An opening bracket inside a parameter makes it optional, and
an optional parameter ends at the second of two closing brackets. Three dots at the start of a
bracket make a catchall, which is noticed at the character after them. A question mark right after
a dynamic parameter makes that parameter optional.
-/

namespace FileRoutes.Segment

/-- Where the reading of a segment stands. -/
inductive Place where
  | outside
  | within (kind : Kind)
  deriving DecidableEq, Repr

/-- The state of the reading: what was read of the current token, the tokens before it, and the
characters left out. -/
structure Scan where
  place : Place := .outside
  buffer : List Char := []
  tokens : List Token := []
  ignored : List Char := []
  deriving DecidableEq, Repr

/-- The characters of parameter names and group labels. -/
def isNameChar (c : Char) : Bool := c.isAlphanum || c == '_' || c == '.'

namespace Scan

/-- The kind of the current token. -/
def kind (s : Scan) : Kind :=
  match s.place with
  | .outside => .static
  | .within kind => kind

/-- Ends the current token, if anything was read of it. -/
def flush (s : Scan) : Scan :=
  if s.buffer.isEmpty then s
  else { s with buffer := [], tokens := s.tokens ++ [⟨s.kind, String.ofList s.buffer⟩] }

/-- Opens a bracket after whatever was read. -/
def enter (s : Scan) (kind : Kind) : Scan := { s.flush with place := .within kind }

/-- Adds a character to the current token. -/
def push (s : Scan) (c : Char) : Scan := { s with buffer := s.buffer ++ [c] }

/-- The last token is a dynamic parameter. -/
def endsDynamic (s : Scan) : Bool := s.tokens.getLast?.any fun token => token.kind == .dynamic

/-- Makes the last token optional. -/
def promote (s : Scan) : Scan :=
  { s with
    tokens := s.tokens.dropLast ++ s.tokens.getLast?.toList.map ({ · with kind := .optional }) }

/-- A bracket that starts with three dots is a catchall. -/
def noticeCatchall (s : Scan) : Scan :=
  if s.buffer = ['.', '.', '.'] then { s with buffer := [], place := .within .catchall } else s

/-- One character outside brackets. -/
def stepOutside (s : Scan) (c : Char) : Scan :=
  if c = '[' then s.enter .dynamic
  else if c = '(' then s.enter .group
  else if s.place = .outside then
    if c = '?' ∧ s.endsDynamic then s.promote
    else { s with place := .within .static, buffer := [c] }
  else s.push c

/-- One character inside brackets of a kind, after the character `previous`. -/
def stepEnclosed (segment : String) (kind : Kind) (previous : Option Char) (s : Scan) (c : Char) :
    Except Error Scan :=
  let kind := if c = '[' ∧ kind = .dynamic then .optional else kind
  let s := { s with place := .within kind }
  if c = ']' ∧ kind.isParam ∧ (kind ≠ .optional ∨ previous = some ']') then
    if s.buffer.isEmpty then .error (.emptyParam segment)
    else .ok { s.flush with place := .outside }
  else if c = ')' ∧ kind = .group then
    if s.buffer.isEmpty then .error (.emptyGroup segment)
    else .ok { s.flush with place := .outside }
  else if isNameChar c then .ok (s.push c)
  else if kind.isParam ∧ c ≠ '[' ∧ c ≠ ']' then .ok { s with ignored := s.ignored ++ [c] }
  else .ok s

/-- One character, after the character `previous`. -/
def step (segment : String) (previous : Option Char) (s : Scan) (c : Char) : Except Error Scan :=
  match s.place with
  | .outside | .within .static => .ok (s.stepOutside c)
  | .within _ =>
    let s := s.noticeCatchall
    stepEnclosed segment s.kind previous s c

/-- The characters of a text, one after the other. -/
def run (segment : String) : (previous : Option Char) → Scan → List Char → Except Error Scan
  | _, s, [] => .ok s
  | previous, s, c :: rest => do run segment (some c) (← step segment previous s c) rest

end Scan

/-- A catchall must be the only parameter of its segment. -/
def checkCatchall (segment : String) (tokens : List Token) : Except Error Unit :=
  match tokens.find? fun token => token.kind == .catchall with
  | some catchall =>
    if 2 ≤ tokens.countP Token.isParam then .error (.catchallNotAlone segment catchall.value)
    else .ok ()
  | none => .ok ()

/-- The tokens of a segment. A dynamic parameter must be closed at its end. -/
def tokenize (segment : String) : Except Error Tokens := do
  let s ← Scan.run segment none {} segment.toList
  if s.place = .within .dynamic then
    throw (.unfinishedParam segment (String.ofList s.buffer))
  let s := s.flush
  checkCatchall segment s.tokens
  return ⟨s.tokens, s.ignored⟩

end FileRoutes.Segment
