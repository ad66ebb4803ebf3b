import FileRoutes.Script.Dialect
import FileRoutes.Script.Lexeme
import FileRoutes.Script.Tree

/-!
# Reading grammars

A `Parser` reads a construct off a `Cursor`, which holds one token of look-ahead and the text behind
it, so that a rule may read the same text again as another kind of token. A parser that fails
changes nothing; alternatives start over from where they were tried.

* `Context`: what surrounds a construct and decides how it is read.
* `Cursor`: the position in the text.
* `Parser.iterate`: repetition, bounded by the length of the text.
* `Grammar`: the rules that refer to each other, as one table; `Symbol` lists them.
-/

namespace FileRoutes.Script

/-- What surrounds a construct. -/
structure Context where
  dialect : Dialect
  /-- The number of characters of the source, which bounds every repetition. -/
  size : Nat
  /-- `await` is an operator. -/
  inAsync : Bool
  /-- `yield` is an operator. -/
  inGenerator : Bool := false
  /-- `return` is a statement. -/
  inFunction : Bool := false
  /-- `in` is an operator; it is none in the head of a loop. -/
  allowIn : Bool := true
  /-- A declaration without implementation: bodies and initial values may be missing. -/
  isAmbient : Bool := false
  /-- The middle of a conditional, where a colon is not a return type unless one more follows. -/
  inConditional : Bool := false
  /-- The type to be read is no conditional one, since a question mark after it belongs outside. -/
  noConditional : Bool := false
  /-- A question mark after the bound of an inferred type belongs to a conditional outside. -/
  inExtends : Bool := false

/-- A position in a source: the current token and what surrounds it. -/
structure Cursor where
  token : Token
  /-- Offset of the token's first character. -/
  start : Nat
  /-- Offset after the token. -/
  stop : Nat
  /-- The text from the token's first character on. -/
  text : List Char
  /-- The text after the token. -/
  rest : List Char
  /-- A line ended between the previous token and this one. -/
  newline : Bool
  /-- Offset after the previous token. -/
  lastStop : Nat
  /-- How many shorthand defaults still wait for their literal to turn out to be a pattern. -/
  covers : Nat

/-- The cursor at the first token of a text that starts at an offset. -/
def Cursor.read (lastStop covers : Nat) (offset : Nat) (text : List Char) : Cursor :=
  match skipGap .open false offset text with
  | none => ⟨.invalid, offset, offset, text, text, false, lastStop, covers⟩
  | some (newline, start, text) =>
    let lexeme := readToken start text
    ⟨lexeme.token, start, lexeme.stop, text, lexeme.rest, newline, lastStop, covers⟩

/-- The cursor at the first token of a source. A first line that starts with `#!` is passed over. -/
def Cursor.ofSource (source : List Char) : Cursor :=
  match source with
  | '#' :: '!' :: rest =>
    let line := rest.takeWhile fun c => !isLineEnd c
    Cursor.read 0 0 (2 + line.length) (rest.drop line.length)
  | _ => Cursor.read 0 0 0 source

/-- Reads a construct, or fails. -/
abbrev Parser := ReaderT Context (StateT Cursor Option)

namespace Parser

/-- Runs a parser in a changed context. -/
def within (change : Context → Context) (p : Parser α) : Parser α :=
  withReader change p

/-- Runs a parser without moving: `none` when it fails. -/
def ahead (p : Parser α) : Parser (Option α) := do
  let here ← get
  let result ← optional p
  set here
  return result

/-- Runs a parser between brackets, where `in` is an operator and a colon belongs to no conditional
outside. -/
def inBrackets (p : Parser α) : Parser α :=
  within (fun context => { context with allowIn := true, inConditional := false }) p

/-- Fails unless a condition holds. -/
def require (condition : Bool) : Parser Unit :=
  if condition then return () else failure

/-- Repeats a step at most `fuel` times. -/
def iterateAtMost (step : α → Parser (Option α)) : (fuel : Nat) → α → Parser α
  | 0, _ => failure
  | fuel + 1, value => do
    match ← step value with
    | none => return value
    | some next => iterateAtMost step fuel next

/-- Repeats a step until it gives `none`. Every step reads at least one character, so the text left
bounds their number. -/
def iterate (step : α → Parser (Option α)) (value : α) : Parser α := do
  let context ← read
  let here ← get
  iterateAtMost step (context.size + 2 - here.start) value

/-- Reads items as long as there are any, in order. -/
def many (item : Parser (Option α)) : Parser (List α) :=
  List.reverse <$> iterate (fun items => do return (← item).map (· :: items)) []

/-! ## Tokens -/

/-- The current token. -/
def peek : Parser Token := return (← get).token

/-- Moves to the next token. -/
def advance : Parser Unit :=
  modify fun here => Cursor.read here.stop here.covers here.stop here.rest

/-- The current token is the given punctuator. -/
def atPunctuator (p : String) : Parser Bool := do
  match ← peek with
  | .punctuator q => return p == q
  | _ => return false

/-- The current token is the given word, spelt without escapes. -/
def atWord (word : String) : Parser Bool := do
  match ← peek with
  | .word text false => return word == text
  | _ => return false

/-- A line ended before the current token. -/
def afterNewline : Parser Bool := return (← get).newline

/-- Passes a punctuator if it is there. -/
def eat (p : String) : Parser Bool := do
  if ← atPunctuator p then
    advance
    return true
  else return false

/-- Passes one of several punctuators if it is there. -/
def eatAny (ps : List String) : Parser Bool := do
  match ← peek with
  | .punctuator p =>
    if ps.contains p then
      advance
      return true
    else return false
  | _ => return false

/-- Passes a word if it is there. -/
def eatWord (word : String) : Parser Bool := do
  if ← atWord word then
    advance
    return true
  else return false

/-- Both tests hold; the second is made only if the first holds. -/
def andAlso (first second : Parser Bool) : Parser Bool := do
  if ← first then second else return false

/-- Passes a punctuator that has to be there. -/
def expect (p : String) : Parser Unit := do require (← eat p)

/-- Passes a word that has to be there. -/
def expectWord (word : String) : Parser Unit := do require (← eatWord word)

/-- The token after the current one, and whether a line ends between the two. -/
def peekNext : Parser (Token × Bool) := do
  let here ← get
  let next := Cursor.read here.stop here.covers here.stop here.rest
  return (next.token, next.newline)

/-- Type annotations are part of the dialect. -/
def hasTypes : Parser Bool := return (← read).dialect.hasTypes

/-- Reads the text of the current token again, from its first character, as the lexeme a reader
finds there. -/
def reread (reader : Nat → List Char → Option Lexeme) : Parser Unit := do
  let here ← get
  match reader here.start here.text with
  | none => failure
  | some lexeme => set { here with token := lexeme.token, stop := lexeme.stop, rest := lexeme.rest }

/-- Takes the given number of characters of the current token's text as a token of its own. -/
def resplit (p : String) : Parser Unit :=
  reread fun offset text => some ⟨.punctuator p, offset + p.length, text.drop p.length⟩

/-- Ends a statement: at a semicolon, or where one is understood, before a closing brace, at the end
of the source or of a line. -/
def semicolon : Parser Unit := do
  if ← eat ";" then return ()
  match ← peek with
  | .finish => return ()
  | .punctuator "\x7d" => return ()
  | _ => require (← afterNewline)

/-- Items separated by commas up to a closing punctuator, which is passed; a comma may precede
it. -/
def commaSeparated (close : String) (item : Parser α) : Parser (List α) := do
  let items ← many do
    if ← atPunctuator close then return none
    let value ← item
    if !(← atPunctuator close) then expect ","
    return some value
  expect close
  return items

/-! ## Names -/

/-- The word can be the name of a variable here. -/
def isBindable (word : String) : Parser Bool := do
  let context ← read
  return !isReserved word && !(word == "yield" && context.inGenerator)
    && !(word == "await" && context.inAsync)

/-- An identifier that names a variable. -/
def bindingName : Parser String := do
  match ← peek with
  | .word text _ =>
    require (← isBindable text)
    advance
    return text
  | _ => failure

/-- The current token can be the name of a variable. -/
def atBindingName : Parser Bool := do
  match ← peek with
  | .word text _ => isBindable text
  | _ => return false

/-- Any identifier name, reserved or not. -/
def anyName : Parser String := do
  match ← peek with
  | .word text _ =>
    advance
    return text
  | _ => failure

end Parser

/-! ## Rules -/

/-- The rules that other rules refer to. -/
inductive Symbol where
  /-- An expression without top-level commas. -/
  | assignment
  /-- An operand with its leading operators. -/
  | unary
  /-- An operand with the calls and member accesses that follow it. -/
  | operand
  | statement
  /-- A statement, an import or an export. -/
  | item
  /-- A type; it leaves no tree. -/
  | type
  /-- A variable or a pattern that binds variables. -/
  | binding
  /-- A markup element; the cursor stays on its final bracket. -/
  | element

/-- What a rule reads. -/
abbrev Symbol.Tree : Symbol → Type
  | .assignment | .unary | .operand | .binding | .element => Expr
  | .statement | .item => Stmt
  | .type => Unit

/-- The rules that a rule may use for the parts of its construct. -/
abbrev Grammar := (symbol : Symbol) → Parser symbol.Tree

namespace Grammar

variable (g : Grammar)

/-- An expression without top-level commas. -/
def assignment : Parser Expr := g .assignment

/-- An operand with its leading operators. -/
def unary : Parser Expr := g .unary

/-- An operand with the calls and member accesses that follow it. -/
def operand : Parser Expr := g .operand

/-- A statement. -/
def statement : Parser Stmt := g .statement

/-- A statement, an import or an export. -/
def item : Parser Stmt := g .item

/-- A type. -/
def type : Parser Unit := g .type

/-- A variable or a pattern that binds variables. -/
def binding : Parser Expr := g .binding

/-- A markup element. -/
def element : Parser Expr := g .element

/-- An expression: one or more parts separated by commas. -/
def expression : Parser Expr := do
  let first ← g.assignment
  let more ← Parser.many do
    if ← Parser.eat "," then some <$> g.assignment else return none
  return if more.isEmpty then first else .sequence (first :: more)

end Grammar

end FileRoutes.Script
