import FileRoutes.Script.Grammar.Class
import FileRoutes.Script.Grammar.Markup

/-!
# Operands

* `Grammar.primary`: the smallest expressions.
* `Grammar.operandRule`: a primary expression with the member accesses, calls, template tags and
  type operators that follow it. A chain with `?.` is held as one `Expr.chain`.
-/

namespace FileRoutes.Script

open Script.Parser

namespace Grammar

variable (g : Grammar)

/-- A parenthesized expression. -/
def parenthesized : Parser Expr := do
  expect "("
  let operand ← inBrackets g.expression
  expect ")"
  return .parenthesized operand

/-- A class expression with the decorators before it. -/
def decoratedClass : Parser Expr := do
  let marks ← decorators g
  classFrom g marks false

/-- The word `super`, which has to be called or asked for a member. -/
def superOperand : Parser Expr := do
  expectWord "super"
  require ((← atPunctuator "(") || (← atPunctuator ".") || (← atPunctuator "["))
  return .super

/-- A dynamic import or `import.meta`. -/
def importOperand : Parser Expr := do
  expectWord "import"
  if ← eat "." then
    expectWord "meta"
    return .metaProperty
  let list ← arguments g
  require (!list.isEmpty)
  return .importCall list

/-- A primary expression other than `new`. -/
def primary : Parser Expr := do
  match ← peek with
  | .string value =>
    advance
    return .string value
  | .number value =>
    advance
    return .number value
  | .bigint =>
    advance
    return .bigint
  | .template _ _ => return .template (← substitutions g false)
  | .privateName name =>
    require ((← peekNext).1 matches .word "in" false)
    advance
    return .privateName name
  | .punctuator p =>
    if p == "(" then parenthesized g
    else if p == "[" then arrayLiteral g
    else if p == "\x7b" then objectLiteral g
    else if p == "/" || p == "/=" then regexLiteral
    else if p == "@" then decoratedClass g
    else if p == "<" && (← read).dialect.hasMarkup then
      let element ← g.element
      advance
      return element
    else failure
  | .word "this" false =>
    advance
    return .this
  | .word "null" false =>
    advance
    return .null
  | .word "true" false =>
    advance
    return .boolean true
  | .word "false" false =>
    advance
    return .boolean false
  | .word "function" false => functionFrom g false false false
  | .word "class" false => classFrom g [] false
  | .word "super" false => superOperand
  | .word "import" false => importOperand g
  | .word name _ =>
    if ← atAsyncFunction then
      advance
      functionFrom g true false false
    else
      require (← isBindable name)
      advance
      return .identifier name
  | _ => failure

/-! ## Suffixes -/

/-- The token can start an expression. -/
def startsExpression : Token → Bool
  | .word text false =>
    !isReserved text
      || ["this", "super", "null", "true", "false", "function", "class", "new", "typeof", "void",
          "delete", "import", "await"].contains text
  | .word _ true | .privateName _ | .string _ | .number _ | .bigint | .template _ _ => true
  | .punctuator p =>
    ["(", "[", "\x7b", "+", "-", "!", "~", "++", "--", "<", "/", "/=", "@"].contains p
  | _ => false

/-- Type arguments without a call may be followed by this token. -/
def endsInstantiation (token : Token) (newline : Bool) : Bool :=
  match token with
  | .punctuator p =>
    !(["<", "<<", ">", "+", "-"].contains p) && (newline || !startsExpression token)
  | .word "in" false | .word "instanceof" false | .word "as" false | .word "satisfies" false => true
  | _ => newline || !startsExpression token

/-- What type arguments apply to. -/
inductive TypeApplication where
  | call (list : List Expr)
  | tag (list : List Expr)
  | plain

/-- Type arguments together with the call or template that they belong to, if they are any. -/
def typeApplication (inChain : Bool) : Parser TypeApplication := do
  typeArguments g
  match ← peek with
  | .punctuator "(" => return .call (← arguments g)
  | .template _ _ =>
    require (!inChain)
    return .tag (← substitutions g true)
  | token =>
    require (endsInstantiation token (← afterNewline))
    return .plain

/-- A member access after its dot. -/
def memberAfterDot (object : Expr) : Parser Expr := do
  match ← peek with
  | .privateName name =>
    advance
    return .index object (.privateName name)
  | _ => return .member object (← anyName)

/-- A computed member access. -/
def indexAfter (object : Expr) : Parser Expr := do
  expect "["
  let key ← inBrackets g.expression
  expect "]"
  return .index object key

/-- What may follow `?.`. -/
def optionalSuffix (object : Expr) : Parser Expr := do
  match ← peek with
  | .punctuator "(" => return .call object (← arguments g)
  | .punctuator "[" => indexAfter g object
  | .punctuator "<" =>
    require (← hasTypes)
    typeArguments g
    return .call object (← arguments g)
  | _ => memberAfterDot object

/-- A suffix that also a constructor may have: anything but a call or an optional access. -/
def memberSuffix (object : Expr) (inChain : Bool) : Parser (Option Expr) := do
  match ← peek with
  | .punctuator "." =>
    advance
    some <$> memberAfterDot object
  | .punctuator "[" => some <$> indexAfter g object
  | .punctuator "!" =>
    if (← hasTypes) && !(← afterNewline) then
      advance
      return some (.typed object)
    else return none
  | .template _ _ =>
    require (!inChain)
    return some (.taggedTemplate object (← substitutions g true))
  | _ => return none

/-- One suffix of an operand, with whether the operand is an optional chain by now. -/
def suffix (state : Expr × Bool) : Parser (Option (Expr × Bool)) := do
  let (object, inChain) := state
  match ← memberSuffix g object inChain with
  | some next => return some (next, inChain)
  | none =>
    match ← peek with
    | .punctuator "?." =>
      advance
      return some (← optionalSuffix g object, true)
    | .punctuator "(" => return some (.call object (← arguments g), inChain)
    | .punctuator p =>
      if !(p == "<" || p == "<<") || !(← hasTypes) then return none
      match ← optional (typeApplication g inChain) with
      | none => return none
      | some (.call list) => return some (.call object list, inChain)
      | some (.tag list) => return some (.taggedTemplate object list, inChain)
      | some .plain => return some (.typed object, inChain)
    | _ => return none

/-! ## Constructors -/

/-- The operand of `new` with its member accesses. -/
def memberChain (base : Expr) : Parser Expr := do
  let target ← iterate (fun e => memberSuffix g e false) base
  require (!(← atPunctuator "?."))
  return target

/-- Type arguments before the arguments of `new`, if both are there or an end follows. -/
def constructorTypeArguments : Parser Unit := do
  if (← hasTypes) && ((← atPunctuator "<") || (← atPunctuator "<<")) then
    let applied : Parser Unit := do
      typeArguments g
      require ((← atPunctuator "(") || endsInstantiation (← peek) (← afterNewline))
    let _ ← optional applied

/-- Applies `new` once, with the arguments that follow, if any. -/
def construct (target : Expr) : Parser Expr := do
  constructorTypeArguments g
  let list ← if ← atPunctuator "(" then arguments g else pure []
  return .new target list

/-- One or more `new` with their operand; the innermost takes the first arguments. -/
def newOperand : Parser Expr := do
  let words ← many do
    if (← atWord "new") && !((← peekNext).1 matches .punctuator ".") then
      advance
      return some ()
    else return none
  let base ←
    if ← eatWord "new" then
      expect "."
      expectWord "target"
      pure .metaProperty
    else primary g
  require (!(base matches .importCall _))
  let rec build : List Unit → Expr → Parser Expr
    | [], target => return target
    | _ :: more, target => do build more (← construct g (← memberChain g target))
  build words base

/-- An operand with everything that follows it. -/
def operandRule : Parser Expr := do
  let base ← if ← atWord "new" then newOperand g else primary g
  let (operand, inChain) ← iterate (suffix g) (base, false)
  return if inChain then .chain operand else operand

end Grammar

end FileRoutes.Script
