import FileRoutes.Script.Grammar.Literal

/-!
# Classes

* `Grammar.classFrom`: a class from the word `class` on.
* `Grammar.classMember`: one element of its body.
-/

namespace FileRoutes.Script

open Script.Parser

namespace Grammar

variable (g : Grammar)

/-- Words before a class member where types are written, in any order. -/
def typedModifiers : List String :=
  ["static", "async", "accessor", "public", "private", "protected", "readonly", "abstract",
    "override", "declare"]

/-- Passes one of the given words if it modifies the member after it. -/
def modifier? (words : List String) : Parser (Option String) := do
  match ← peek with
  | .word text false =>
    if !words.contains text then return none
    let (next, newline) ← peekNext
    let isAccessor := text == "get" || text == "set"
    let follows :=
      match next with
      | .punctuator p =>
        p == "[" || (p == "*" && !isAccessor && text != "accessor")
          || (p == "\x7b" && text == "static")
      | next => isMemberName next
    if follows && (!newline || text == "static" || isAccessor) then
      advance
      return some text
    else return none
  | _ => return none

/-- The modifiers before a member, in order. Without types these are `static` and one other word. An
accessor is not asynchronous. -/
def readModifiers : Parser (List String) := do
  let typed ← hasTypes
  let leading ←
    if typed then many (modifier? typedModifiers) else Option.toList <$> modifier? ["static"]
  let last ← modifier? (if typed then ["get", "set"] else ["async", "get", "set", "accessor"])
  let isAccessor := last == some "get" || last == some "set"
  require (leading.eraseDups == leading && !(isAccessor && leading.contains "async"))
  return leading ++ last.toList

/-- The context of what a class evaluates for itself: neither `await` nor `yield` of the function
around it. -/
def fieldContext (context : Context) : Context :=
  { context with inAsync := false, inGenerator := false, allowIn := true, inConditional := false }

/-- The context of a static block, in which `await` is read as an operator. -/
def staticBlockContext (context : Context) : Context :=
  { fieldContext context with inAsync := true, inFunction := false }

/-- A field after its key: an annotation, an initial value, the end of the statement. -/
def fieldRest (key : Key) : Parser Member := do
  if ← hasTypes then
    let _ ← eatAny ["?", "!"]
  optionalAnnotation g
  if ← eat "=" then
    let value ← within fieldContext g.assignment
    semicolon
    return .field key (some value)
  semicolon
  return .field key none

/-- The key of a class member, which may be private. -/
def memberKey : Parser Key := do
  match ← peek with
  | .privateName name =>
    advance
    return .privateName name
  | _ => fieldKey g

/-- The name of a member as far as rules on names go; a computed name is none. -/
def plainName : Key → String
  | .word text => text
  | .string text => text
  | .privateName name => "#" ++ name
  | .numeric _ | .computed _ => ""

/-- The member may have its name: a constructor is a plain method, and a class has a `prototype` of
its own. -/
def isNameAllowed (name : String) (isStatic isPlainMethod isField : Bool) : Bool :=
  name != "#constructor" && !(name == "prototype" && isStatic)
    && !(name == "constructor" && (isField || !(isStatic || isPlainMethod)))

/-- A method or field, after its modifiers. -/
def memberAfter (modifiers : List String) : Parser Member := do
  let isGenerator ← eat "*"
  let key ← memberKey g
  let isStatic := modifiers.contains "static"
  let typed ← hasTypes
  let optionalMethod : Parser Unit := do
    expect "?"
    require ((← atPunctuator "(") || (← atPunctuator "<"))
  if typed && (← ahead optionalMethod).isSome then advance
  let modifier := modifiers.find? fun m => m == "async" || m == "get" || m == "set"
  if isGenerator || modifier.isSome || (← atPunctuator "(") || (typed && (← atPunctuator "<")) then
    require (isNameAllowed (plainName key) isStatic (!isGenerator && modifier.isNone) false)
    let (list, body) ← methodRest g modifier isGenerator true
    return .method key list body
  require (isNameAllowed (plainName key) isStatic false true)
  fieldRest g key

/-- One element of a class body; a signature leaves nothing. -/
def classMember : Parser (List Member) := do
  if ← eat ";" then return []
  let marks ← decorators g
  let modifiers ← readModifiers
  let member ←
    if modifiers == ["static"] && (← atPunctuator "\x7b") then
      let body ← within staticBlockContext (block g)
      pure [Member.staticBlock body]
    else if (← hasTypes) && (← atPunctuator "[") then
      let signature : Parser (List Member) := do
        indexSignature g
        semicolon
        return []
      signature <|> List.singleton <$> memberAfter g modifiers
    else List.singleton <$> memberAfter g modifiers
  return marks.map .decorator ++ member

/-- The body of a class, between braces. -/
def classMembers : Parser (List Member) := do
  expect "\x7b"
  let members ← many do
    if ← atPunctuator "\x7d" then return none else some <$> classMember g
  expect "\x7d"
  return members.flatten

/-- What a class extends and implements. -/
def classHeritage : Parser (List Expr) := do
  let heritage ←
    if ← eatWord "extends" then
      let base ← g.operand
      if ← hasTypes then optionalTypeArguments g
      pure [base]
    else pure []
  if ← andAlso hasTypes (eatWord "implements") then
    typeReference g
    let _ ← many do
      if ← eat "," then some <$> typeReference g else return none
  return heritage

/-- A class from the word `class` on; `named` when it has to have a name. -/
def classFrom (marks : List Expr) (named : Bool) : Parser Expr := do
  expectWord "class"
  let nameless := (← atWord "extends") || (← atPunctuator "\x7b")
    || ((← hasTypes) && ((← atWord "implements") || (← atPunctuator "<")))
  if named || !nameless then
    let _ ← bindingName
  optionalTypeParameters g
  let heritage ← classHeritage g
  return .classBody marks heritage (← classMembers g)

end Grammar

end FileRoutes.Script
