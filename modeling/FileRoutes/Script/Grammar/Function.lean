import FileRoutes.Script.Grammar.Type

/-!
# Functions and patterns

* `Grammar.bindingRule`: variables and the patterns that take a value apart.
* `Grammar.functionRest`: parameters, return type and body of a function.
* `Grammar.arrow?`: arrow functions, told from parenthesized expressions by looking ahead.
-/

namespace FileRoutes.Script

open Script.Parser

namespace Grammar

variable (g : Grammar)

/-! ## Keys and patterns -/

/-- The name of a field: a word, a literal or a computed key. -/
def fieldKey : Parser Key := do
  match ← peek with
  | .word text _ =>
    advance
    return .word text
  | .string value =>
    advance
    return .string value
  | .number value =>
    advance
    return .numeric (some value)
  | .bigint =>
    advance
    return .numeric none
  | .punctuator "[" =>
    advance
    let key ← inBrackets g.assignment
    expect "]"
    return .computed key
  | _ => failure

/-- A pattern with its default, if one is written. -/
def withDefault (target : Expr) : Parser Expr := do
  if ← eat "=" then return .assign "=" target (← inBrackets g.assignment) else return target

/-- The elements of an array pattern after its opening bracket. -/
def arrayPattern : Parser Expr := do
  let elements ← many do
    if ← atPunctuator "]" then return none
    if ← eat "," then return some .hole
    if ← eat "..." then
      let rest ← g.binding
      require (← atPunctuator "]")
      return some (.spread rest)
    let element ← withDefault g (← g.binding)
    if !(← atPunctuator "]") then expect ","
    return some element
  expect "]"
  return .array elements

/-- One entry of an object pattern. -/
def patternProperty : Parser Property := do
  if ← eat "..." then
    let name ← bindingName
    require (← atPunctuator "\x7d")
    return .spread (.identifier name)
  match ← peek, (← peekNext).1 with
  | .word text _, .punctuator ":" =>
    advance
    advance
    return .field (.word text) (← withDefault g (← g.binding))
  | .word _ _, _ =>
    let name ← bindingName
    return .field (.word name) (← withDefault g (.identifier name))
  | _, _ =>
    let key ← fieldKey g
    expect ":"
    return .field key (← withDefault g (← g.binding))

/-- A variable, an array pattern or an object pattern. -/
def bindingRule : Parser Expr := do
  match ← peek with
  | .punctuator "[" =>
    advance
    arrayPattern g
  | .punctuator "\x7b" =>
    let start := (← get).start
    advance
    let properties ← commaSeparated "\x7d" (patternProperty g)
    return .object ⟨start, (← get).lastStop⟩ properties
  | _ => return .identifier (← bindingName)

/-! ## Functions -/

/-- The context of a function's parameters and body. -/
def functionContext (isAsync isGenerator : Bool) (context : Context) : Context :=
  { context with
    inAsync := isAsync, inGenerator := isGenerator, inFunction := true, allowIn := true,
    isAmbient := false, inConditional := false }

/-- Statements between braces. -/
def block : Parser (List Stmt) := do
  expect "\x7b"
  let body ← many do
    if ← atPunctuator "\x7d" then return none else some <$> g.statement
  expect "\x7d"
  return body

/-- The parameters and body of a function, from its type parameters on. Where types are written the
body may be missing. -/
def functionRest (isAsync isGenerator mayLackBody : Bool) : Parser (List Expr × List Stmt) := do
  let isAmbient := (← read).isAmbient
  within (functionContext isAsync isGenerator) do
    optionalTypeParameters g
    let list ← parameters g
    optionalReturnType g
    if (← hasTypes) && (mayLackBody || isAmbient) && !(← atPunctuator "\x7b") then
      semicolon
      return (list, [])
    return (list, ← block g)

/-- A function from the word `function` on; `named` when it has to have a name. -/
def functionFrom (isAsync named mayLackBody : Bool) : Parser Expr := do
  expectWord "function"
  let isGenerator ← eat "*"
  if named || (← atBindingName) then
    let _ ← bindingName
  let (list, body) ← functionRest g isAsync isGenerator mayLackBody
  return .function list body

/-- The words `async function` stand here on one line. -/
def atAsyncFunction : Parser Bool := do
  match ← peek, ← peekNext with
  | .word "async" false, (.word "function" false, false) => return true
  | _, _ => return false

/-- An accessor without parameters, or with exactly one. -/
def accessorFits (accessor : String) (list : List Expr) : Bool :=
  match list with
  | [] | [.this] => accessor == "get"
  | [.spread _] => false
  | [_] => accessor == "set"
  | _ => false

/-! ## Arrow functions -/

/-- The arrow and the body of an arrow function. No line ends before the arrow. -/
def arrowRest (isAsync : Bool) (list : List Expr) : Parser Expr := do
  require (!(← afterNewline))
  expect "=>"
  if ← atPunctuator "\x7b" then
    return .arrow list (← within (functionContext isAsync false) (block g))
  let body ← within
    (fun context => { context with inAsync := isAsync, inGenerator := false }) g.assignment
  return .arrow list [.control "return" [body] []]

/-- An arrow function from its parameter list on. -/
def parenthesizedArrow (isAsync : Bool) : Parser Expr := do
  let list ← within (functionContext isAsync false) do
    optionalTypeParameters g
    parameters g
  let annotated := (← hasTypes) && (← atPunctuator ":")
  optionalReturnType g
  let function ← arrowRest g isAsync list
  if annotated && (← read).inConditional then require (← atPunctuator ":")
  return function

/-- What an opening parenthesis may start. -/
inductive ParenthesisGuess where
  | arrow | either | expression

/-- Tells an arrow function from a parenthesized expression by the tokens after the parenthesis. -/
def guessParenthesis : Parser ParenthesisGuess := do
  let typed ← hasTypes
  advance
  let first ← peek
  let second := (← peekNext).1
  match first, second with
  | .punctuator ")", _ | .punctuator "...", _ => return .arrow
  | .punctuator "[", _ | .punctuator "\x7b", _ => return .either
  | .punctuator "@", _ => return if typed then .either else .expression
  | .word _ _, .punctuator p =>
    if p == "," || p == "=" || p == ")" then return .either
    else if typed && (p == ":" || p == "?") then return .either
    else return .expression
  | .word text _, .word _ _ =>
    return if typed && parameterModifiers.contains text then .either else .expression
  | _, _ => return .expression

/-- The type parameters of an arrow function start here. In a dialect with markup they must show
that they are no element. -/
def atGenericArrow : Parser Bool := do
  if !(← hasTypes) || !(← atPunctuator "<") then return false
  if !(← read).dialect.hasMarkup then return true
  let shows : Parser Unit := do
    advance
    let _ ← eatWord "const"
    let _ ← anyName
    require ((← atPunctuator ",") || (← atWord "extends") || (← atPunctuator "="))
  return (← ahead shows).isSome

/-- An arrow function, if one starts here. -/
def arrow? : Parser (Option Expr) := do
  let next ← peekNext
  match ← peek, next with
  | .word "async" false, (.word name _, false) =>
    if isReserved name then return none
    let single : Parser Expr := do
      advance
      let name ← bindingName
      require (← atPunctuator "=>")
      arrowRest g true [.identifier name]
    optional single
  | .word "async" false, (.punctuator "(", false) =>
    optional do
      advance
      parenthesizedArrow g true
  | .word "async" false, (.punctuator "<", false) =>
    if ← hasTypes then
      optional do
        advance
        parenthesizedArrow g true
    else return none
  | .word text _, (.punctuator "=>", _) =>
    if ← isBindable text then
      advance
      some <$> arrowRest g false [.identifier text]
    else return none
  | .punctuator "(", _ =>
    match ← ahead guessParenthesis with
    | some .arrow => some <$> parenthesizedArrow g false
    | some .either => optional (parenthesizedArrow g false)
    | _ => return none
  | .punctuator "<", _ =>
    if ← atGenericArrow then optional (parenthesizedArrow g false) else return none
  | _, _ => return none

end Grammar

end FileRoutes.Script
