import FileRoutes.Script.Grammar.Function

/-!
# Literals with parts

* `Grammar.objectLiteral`: object literals, with the range of the source they are written in.
* `Grammar.arrayLiteral`: array literals with holes and spreads.
* `Grammar.substitutions`: the substitutions of a template.
-/

namespace FileRoutes.Script

open Script.Parser

namespace Grammar

variable (g : Grammar)

/-- A spread operand or a plain one: an element of an array, or an argument. -/
def spreadable : Parser Expr := do
  if ← eat "..." then Expr.spread <$> g.assignment else g.assignment

/-- The elements of an array literal, from its opening bracket on. -/
def arrayLiteral : Parser Expr := do
  expect "["
  let elements ← inBrackets <| many do
    if ← atPunctuator "]" then return none
    if ← eat "," then return some .hole
    let element ← spreadable g
    if !(← atPunctuator "]") then expect ","
    return some element
  expect "]"
  return .array elements

/-- Arguments between parentheses. -/
def arguments : Parser (List Expr) := do
  expect "("
  inBrackets (commaSeparated ")" (spreadable g))

/-- A word before the name of a field says how the field is made, if a name follows. -/
def atFieldModifier (modifiers : List String) : Parser (Option String) := do
  match ← peek with
  | .word text false =>
    if !modifiers.contains text then return none
    let (next, newline) ← peekNext
    let named :=
      match next with
      | .punctuator p => p == "[" || (p == "*" && text == "async")
      | next => isMemberName next
    return if named && !(text == "async" && newline) then some text else none
  | _ => return none

/-- A method of an object literal or a class, from its parameters on. -/
def methodRest (modifier : Option String) (isGenerator mayLackBody : Bool) :
    Parser (List Expr × List Stmt) := do
  let method ← functionRest g (modifier == some "async") isGenerator mayLackBody
  match modifier with
  | some accessor =>
    require (accessor == "async" || accessorFits accessor method.1)
    return method
  | none => return method

/-- The token can be the name of a field of an object literal. -/
def isFieldName : Token → Bool
  | .privateName _ => false
  | token => isMemberName token

/-- One entry of an object literal. -/
def property : Parser Property := do
  if ← eat "..." then return .spread (← g.assignment)
  let modifier ← atFieldModifier ["get", "set", "async"]
  if modifier.isSome then advance
  let isGenerator ← eat "*"
  let token ← peek
  require (isFieldName token)
  let key ← fieldKey g
  if modifier.isSome || isGenerator || (← atPunctuator "(")
      || ((← hasTypes) && (← atPunctuator "<")) then
    let (list, body) ← methodRest g modifier isGenerator false
    return .field key (.function list body)
  if ← eat ":" then return .field key (← g.assignment)
  match token with
  | .word name _ =>
    require (← isBindable name)
    if ← atPunctuator "=" then
      modify fun here => { here with covers := here.covers + 1 }
      advance
      return .field key (.assign "=" (.identifier name) (← g.assignment))
    return .field key (.identifier name)
  | _ => failure

/-- An object literal, from its opening brace on. -/
def objectLiteral : Parser Expr := do
  let start := (← get).start
  expect "\x7b"
  let properties ← inBrackets (commaSeparated "\x7d" (property g))
  return .object ⟨start, (← get).lastStop⟩ properties

/-- The substitutions of a template, from its backquote on. Only a tag accepts escapes that are not
well formed. -/
def substitutions (isTagged : Bool) : Parser (List Expr) :=
  many do
    match ← peek with
    | .template true wellFormed =>
      require (isTagged || wellFormed)
      advance
      return none
    | .template false wellFormed =>
      require (isTagged || wellFormed)
      advance
      let substitution ← inBrackets g.expression
      require (← atPunctuator "\x7d")
      reread fun offset text => readTemplate (offset + 1) (text.drop 1)
      return some substitution
    | _ => failure

/-- A regular expression, where the current token is a slash. -/
def regexLiteral : Parser Expr := do
  let here ← get
  match readRegex (here.start + 1) (here.text.drop 1) with
  | none => failure
  | some (stop, rest) =>
    set (Cursor.read stop here.covers stop rest)
    return .regex

end Grammar

end FileRoutes.Script
