import FileRoutes.Script.Grammar.Literal

/-!
# Markup

Elements with attributes and children. Between tags the text is not made of tokens, so the children
are read off the characters; expressions in braces are read as everywhere else.

* `Grammar.elementRule`: an element or a fragment. It leaves the cursor on the closing bracket,
  after which either more text or a token follows.
-/

namespace FileRoutes.Script

open Script.Parser

namespace Grammar

variable (g : Grammar)

/-- One word of a name, which may hold dashes. -/
def markupWord : Parser String := do
  let here ← get
  let word := here.text.takeWhile fun c => isNamePart c || c == '-'
  require (word.head?.any isNameStart)
  set { here with
    token := .word (String.ofList word) false,
    stop := here.start + word.length, rest := here.text.drop word.length }
  advance
  return String.ofList word

/-- The name of an attribute: a word, or two around a colon. -/
def attributeName : Parser String := do
  let word ← markupWord
  if ← eat ":" then return word ++ ":" ++ (← markupWord) else return word

/-- The name of an element: that of an attribute, or words without dashes around dots. -/
def elementName : Parser String := do
  let name ← attributeName
  let members ← many do
    if ← eat "." then some <$> markupWord else return none
  let isPlain (word : String) : Bool := word.toList.all fun c => c != '-' && c != ':'
  require (members.isEmpty || (name :: members).all isPlain)
  return ".".intercalate (name :: members)

/-- A quoted attribute value, which has no escapes. -/
def quotedValue (offset : Nat) (text : List Char) : Option Lexeme :=
  match text with
  | quote :: rest =>
    if quote == '"' || quote == '\'' then
      let value := rest.takeWhile (· != quote)
      match rest.drop value.length with
      | _ :: after => some ⟨.string (String.ofList value), offset + value.length + 2, after⟩
      | [] => none
    else none
  | [] => none

/-- The value after the equals sign of an attribute. -/
def attributeValue : Parser (List Expr) := do
  advance
  match ← peek with
  | .punctuator "\x7b" =>
    advance
    let value ← inBrackets g.assignment
    expect "\x7d"
    return [value]
  | .punctuator "<" =>
    let value ← inBrackets g.element
    advance
    return [value]
  | _ =>
    reread quotedValue
    advance
    return []

/-- The attributes of a tag, by the expressions in them. -/
def attributes : Parser (List Expr) :=
  List.flatten <$> many do
    match ← peek with
    | .punctuator "/" | .punctuator ">" => return none
    | .punctuator "\x7b" =>
      advance
      expect "..."
      let value ← inBrackets g.assignment
      expect "\x7d"
      return some [value]
    | _ =>
      let _ ← attributeName
      if ← atPunctuator "=" then some <$> attributeValue g else return some []

/-- Moves to the first character after the current token that is not plain text. -/
def skipText : Parser Unit := do
  let here ← get
  let isText (c : Char) : Bool := c != '<' && c != '\x7b' && c != '>' && c != '\x7d'
  let text := here.rest.takeWhile isText
  let offset := here.stop + text.length
  set (Cursor.read offset here.covers offset (here.rest.drop text.length))

/-- The name in a closing tag, empty for a fragment. The cursor stays on its bracket. -/
def closingName : Parser String := do
  expect "/"
  let name ← if ← atPunctuator ">" then pure "" else elementName
  require (← atPunctuator ">")
  return name

/-- The children of an element up to its closing tag, which has to repeat the name. -/
def children (name : String) : Parser (List Expr) :=
  List.flatten <$> many do
    -- the cursor is on the token before the text; the closing tag ends on its own bracket
    skipText
    match ← peek with
    | .punctuator "\x7b" =>
      advance
      if ← atPunctuator "\x7d" then return some []
      let child ← inBrackets do
        if ← eat "..." then Expr.spread <$> g.assignment else g.expression
      require (← atPunctuator "\x7d")
      return some [child]
    | .punctuator "<" =>
      match (← peekNext).1 with
      | .punctuator "/" =>
        advance
        require ((← closingName) == name)
        return none
      | _ => return some [← inBrackets g.element]
    | _ => failure

/-- An element or a fragment. -/
def elementRule : Parser Expr := do
  expect "<"
  if ← atPunctuator ">" then
    return .markup (← children g "")
  let name ← elementName
  if ← hasTypes then optionalTypeArguments g
  let values ← attributes g
  if ← eat "/" then
    require (← atPunctuator ">")
    return .markup values
  require (← atPunctuator ">")
  return .markup (values ++ (← children g name))

end Grammar

end FileRoutes.Script
