import FileRoutes.Script.Grammar.Basic

/-!
# Types

Type annotations are read only to find where they end; they leave no tree.

* `Grammar.typeRule`: a type. `Grammar.returnType` also admits predicates such as `x is T`.
* `Grammar.typeParameters`, `Grammar.typeArguments`: lists between angle brackets.
* `Grammar.parameters`: a parameter list, shared by function types and functions.
-/

namespace FileRoutes.Script

open Script.Parser

variable (g : Grammar)

namespace Grammar

/-- Type parameters between angle brackets, each with an optional bound and default. -/
def typeParameters : Parser Unit := do
  expect "<"
  let names ← commaSeparated ">" do
    let _ ← many do
      let isOut := (← atWord "out") && (← peekNext).1 matches .word _ _
      if (← atWord "const") || (← atWord "in") || isOut then
        advance
        return some ()
      else return none
    let _ ← bindingName
    if ← eatWord "extends" then g.type
    if ← eat "=" then g.type
  require (!names.isEmpty)

/-- Type parameters, if there are any. -/
def optionalTypeParameters : Parser Unit := do
  if (← hasTypes) && (← atPunctuator "<") then typeParameters g

/-- Type arguments between angle brackets. -/
def typeArguments : Parser Unit := do
  if ← atPunctuator "<<" then resplit "<"
  expect "<"
  let arguments ← commaSeparated ">" g.type
  require (!arguments.isEmpty)

/-- Type arguments on the same line, if there are any. -/
def optionalTypeArguments : Parser Unit := do
  if !(← afterNewline) && ((← atPunctuator "<") || (← atPunctuator "<<")) then typeArguments g

/-- A type after a colon, if the dialect has types and one is written. -/
def optionalAnnotation : Parser Unit := do
  if ← andAlso hasTypes (eat ":") then g.type

/-! ## Parameters -/

/-- Words before a constructor parameter that make it a field. -/
def parameterModifiers : List String := ["public", "private", "protected", "readonly", "override"]

/-- Decorators before a parameter, a class or a member. -/
def decorators : Parser (List Expr) :=
  many do
    if ← eat "@" then some <$> inBrackets g.operand
    else return none

/-- Passes parameter modifiers. -/
def skipParameterModifiers : Parser Unit := do
  let _ ← many do
    match ← peek with
    | .word text false =>
      let modifies :=
        match (← peekNext).1 with
        | .word _ _ => true
        | .punctuator p => p == "[" || p == "\x7b"
        | _ => false
      if parameterModifiers.contains text && modifies then
        advance
        return some ()
      else return none
    | _ => return none

/-- One parameter: a pattern with an optional default, or a rest parameter. -/
def parameter : Parser Expr := do
  let typed ← hasTypes
  let _ ← decorators g
  if typed then skipParameterModifiers
  if ← eat "..." then
    let target ← g.binding
    optionalAnnotation g
    require ((← read).isAmbient || (← atPunctuator ")"))
    return .spread target
  let target ←
    if typed && (← atWord "this") then
      advance
      pure .this
    else g.binding
  if typed then
    let _ ← eat "?"
  optionalAnnotation g
  if ← eat "=" then
    return .assign "=" target (← inBrackets g.assignment)
  return target

/-- No parameter follows a rest parameter. -/
def restIsLast : List Expr → Bool
  | [] | [_] => true
  | .spread _ :: _ :: _ => false
  | _ :: rest => restIsLast rest

/-- A parenthesized parameter list. -/
def parameters : Parser (List Expr) := do
  expect "("
  let list ← commaSeparated ")" (parameter g)
  require (restIsLast list)
  return list

/-- The type of what a function returns: a type or a predicate on a parameter. -/
def returnType : Parser Unit := do
  let predicate : Parser Unit := do
    match ← peek, ← peekNext with
    | .word "asserts" false, (.word _ _, false) =>
      advance
      advance
      if ← eatWord "is" then g.type
    | .word _ _, (.word "is" false, false) =>
      advance
      advance
      g.type
    | _, _ => failure
  predicate <|> g.type

/-- The return type after a colon, if the dialect has types and one is written. -/
def optionalReturnType : Parser Unit := do
  if ← andAlso hasTypes (eat ":") then returnType g

/-! ## Type members -/

/-- The rest of a method, call or construct signature. -/
def signature : Parser Unit := do
  optionalTypeParameters g
  let _ ← parameters g
  optionalReturnType g

/-- The token can be the name of a member. -/
def isMemberName : Token → Bool
  | .word _ _ | .string _ | .number _ | .bigint | .privateName _ => true
  | .punctuator p => p == "["
  | _ => false

/-- A member name of an object type: a name, a literal or a computed key. -/
def typeMemberName : Parser Unit := do
  match ← peek with
  | .punctuator "[" =>
    advance
    let _ ← g.assignment
    expect "]"
  | token =>
    require (isMemberName token)
    advance

/-- An index signature such as `[key: string]: T`. -/
def indexSignature : Parser Unit := do
  expect "["
  let _ ← anyName
  expect ":"
  g.type
  expect "]"
  optionalAnnotation g

/-- A property or method of an object type. -/
def propertySignature : Parser Unit := do
  typeMemberName g
  let _ ← eat "?"
  if (← atPunctuator "(") || (← atPunctuator "<") then signature g else optionalAnnotation g

/-- A member of an object type or an interface. -/
def typeMember : Parser Unit := do
  match ← peek, (← peekNext).1 with
  | .punctuator "(", _ | .punctuator "<", _ => signature g
  | .word "new" false, .punctuator "(" | .word "new" false, .punctuator "<" =>
    advance
    signature g
  | .punctuator "[", _ => indexSignature g <|> propertySignature g
  | .word text false, next =>
    if !isMemberName next then propertySignature g
    else if text == "get" || text == "set" then
      advance
      typeMemberName g
      signature g
    else if text == "readonly" then
      advance
      indexSignature g <|> propertySignature g
    else propertySignature g
  | _, _ => propertySignature g

/-- The members of an object type or an interface, between braces. -/
def typeMembers : Parser Unit := do
  expect "\x7b"
  let _ ← many do
    if ← atPunctuator "\x7d" then return none
    typeMember g
    if !(← eat ",") then semicolon
    return some ()
  expect "\x7d"

/-- A mapped type such as `{ readonly [K in T]?: U }`. -/
def mappedType : Parser Unit := do
  expect "\x7b"
  let sign : Parser Bool := eatAny ["+", "-"]
  if ← sign then expectWord "readonly" else
    let _ ← eatWord "readonly"
  expect "["
  let _ ← bindingName
  expectWord "in"
  g.type
  if ← eatWord "as" then g.type
  expect "]"
  if ← sign then expect "?" else
    let _ ← eat "?"
  optionalAnnotation g
  let _ ← eatAny [";", ","]
  expect "\x7d"

/-! ## Operands -/

/-- Words that name a type although they are reserved. -/
def isTypeName (word : String) : Bool :=
  !isReserved word || ["this", "void", "null", "true", "false"].contains word

/-- The dotted rest of a name. -/
def qualifiers : Parser Unit := do
  let _ ← many do
    if ← eat "." then
      let _ ← anyName
      return some ()
    else return none

/-- A named type, as it stands in the list of what a class implements. -/
def typeReference : Parser Unit := do
  let _ ← bindingName
  qualifiers
  optionalTypeArguments g

/-- An import type such as `import('x').T`. -/
def importType : Parser Unit := do
  expectWord "import"
  expect "("
  let _ ← commaSeparated ")" g.type
  qualifiers
  optionalTypeArguments g

/-- One element of a tuple type, perhaps with a label. -/
def tupleElement : Parser Unit := do
  let _ ← eat "..."
  let labelled : Parser Unit := do
    let _ ← anyName
    let _ ← eat "?"
    expect ":"
    g.type
  let plain : Parser Unit := do
    g.type
    let _ ← eat "?"
  labelled <|> plain

/-- The substitutions of a template type. -/
def templateType : Parser Unit := do
  let _ ← many do
    match ← peek with
    | .template true _ =>
      advance
      return none
    | .template false _ =>
      advance
      g.type
      require (← atPunctuator "\x7d")
      reread fun offset text => readTemplate (offset + 1) (text.drop 1)
      return some ()
    | _ => failure

/-- A type without operators. -/
def primaryType : Parser Unit := do
  match ← peek with
  | .string _ | .number _ | .bigint => advance
  | .template _ _ => templateType g
  | .punctuator "-" =>
    advance
    match ← peek with
    | .number _ | .bigint => advance
    | _ => failure
  | .punctuator "(" =>
    advance
    g.type
    expect ")"
  | .punctuator "[" =>
    advance
    let _ ← commaSeparated "]" (tupleElement g)
  | .punctuator "\x7b" => mappedType g <|> typeMembers g
  | .word "typeof" false =>
    advance
    if ← atWord "import" then importType g else
      let _ ← anyName
      qualifiers
      optionalTypeArguments g
  | .word "import" false => importType g
  | .word text _ =>
    require (isTypeName text)
    advance
    qualifiers
    optionalTypeArguments g
  | _ => failure

/-- A type with the array and index brackets that follow it on its line. -/
def postfixType : Parser Unit := do
  primaryType g
  let _ ← many do
    if ← andAlso (not <$> afterNewline) (eat "[") then
      if !(← eat "]") then
        g.type
        expect "]"
      return some ()
    else return none

/-- A type with its leading operators. -/
def operatorType : Parser Unit := do
  let _ ← many do
    if (← atWord "keyof") || (← atWord "unique") || (← atWord "readonly") then
      advance
      return some ()
    else return none
  if ← eatWord "infer" then
    let _ ← bindingName
    let bound : Parser Unit := do
      expectWord "extends"
      within (fun context => { context with noConditional := true }) g.type
      require ((← read).inExtends || !(← atPunctuator "?"))
    let _ ← optional bound
  else postfixType g

/-- Types joined by one operator, which may also lead the list. -/
def joinedType (operator : String) (item : Parser Unit) : Parser Unit := do
  let _ ← eat operator
  item
  let _ ← many do
    if ← eat operator then
      item
      return some ()
    else return none

/-- Function and constructor types. -/
def functionType : Parser Unit := do
  if ← eatWord "abstract" then expectWord "new" else
    let _ ← eatWord "new"
  optionalTypeParameters g
  let _ ← parameters g
  expect "=>"
  returnType g

/-- A type that is not conditional. -/
def plainType : Parser Unit := do
  let union := joinedType "|" (joinedType "&" (operatorType g))
  match ← peek, (← peekNext).1 with
  | .punctuator "<", _ | .word "new" false, _ | .word "abstract" false, .word "new" false =>
    functionType g
  | .punctuator "(", _ => functionType g <|> union
  | _, _ => union

/-- A type: a plain one, or a choice between two after `extends`. -/
def typeRule : Parser Unit := do
  let inExtends := (← read).noConditional
  within (fun context => { context with noConditional := false, inExtends }) (plainType g)
  if ← andAlso (return !inExtends && !(← afterNewline)) (eatWord "extends") then
    within (fun context => { context with noConditional := true }) g.type
    expect "?"
    g.type
    expect ":"
    g.type

end Grammar

end FileRoutes.Script
