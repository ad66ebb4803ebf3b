import FileRoutes.Script.Grammar.Operand

/-!
# Expressions

* `Grammar.unaryRule`: prefix and postfix operators.
* `Grammar.binaryExpression`: binary operators by precedence, with a stack of pending operands.
* `Grammar.assignmentRule`: everything above the comma, including arrow functions.
* `isTarget`, `isPattern`: what may stand on the left of an assignment.
-/

namespace FileRoutes.Script

open Script.Parser

/-! ## Assignment targets -/

/-- A variable or a member, perhaps in parentheses or under a type operator. -/
def isTarget : Expr → Bool
  | .identifier _ | .member _ _ | .index _ _ => true
  | .parenthesized e | .typed e => isTarget e
  | _ => false

mutual

/-- A target, a target with a default, or an array or object literal of such. -/
def isPattern : Expr → Bool
  | .identifier _ | .member _ _ | .index _ _ => true
  | .parenthesized e | .typed e => isTarget e
  | .array elements => arePatternElements elements
  | .object _ properties => arePatternProperties properties
  | .assign operator target _ => operator == "=" && isPattern target
  | _ => false

/-- The elements of an array pattern; a rest element comes last. -/
def arePatternElements : List Expr → Bool
  | [] => true
  | [.spread (.assign _ _ _)] => false
  | [.spread target] => isPattern target
  | .hole :: rest => arePatternElements rest
  | target :: rest => isPattern target && arePatternElements rest

/-- The entries of an object pattern; a rest entry comes last. -/
def arePatternProperties : List Property → Bool
  | [] => true
  | [.spread target] => isTarget target
  | .field _ target :: rest => isPattern target && arePatternProperties rest
  | _ => false

end

namespace Grammar

variable (g : Grammar)

/-! ## Unary operators -/

/-- An operand under a type in angle brackets. -/
def typeAssertion : Parser Expr := do
  expect "<"
  if !(← eatWord "const") then g.type
  expect ">"
  return .typed (← g.unary)

/-- An operand with an increment or decrement after it on its line. -/
def postfixOperand : Parser Expr := do
  let operand ← g.operand
  match ← peek with
  | .punctuator p =>
    if (p == "++" || p == "--") && !(← afterNewline) then
      require (isTarget operand)
      advance
      return .update p operand
    else return operand
  | _ => return operand

/-- An operand with its leading operators. -/
def unaryRule : Parser Expr := do
  match ← peek with
  | .punctuator p =>
    if ["+", "-", "~", "!"].contains p then
      advance
      return .unary p (← g.unary)
    else if p == "++" || p == "--" then
      advance
      let operand ← g.unary
      require (isTarget operand)
      return .update p operand
    else if p == "<" && (← hasTypes) && !(← read).dialect.hasMarkup then typeAssertion g
    else postfixOperand g
  | .word text false =>
    if ["delete", "void", "typeof"].contains text then
      advance
      return .unary text (← g.unary)
    else if text == "await" && (← read).inAsync then
      advance
      return .await (← g.unary)
    else postfixOperand g
  | _ => postfixOperand g

/-! ## Binary operators -/

/-- The precedence of a binary operator. -/
def precedence? (operator : String) : Option Nat :=
  match operator with
  | "??" => some 1
  | "||" => some 2
  | "&&" => some 3
  | "|" => some 4
  | "^" => some 5
  | "&" => some 6
  | "==" | "!=" | "===" | "!==" => some 7
  | "<" | ">" | "<=" | ">=" | "in" | "instanceof" => some 8
  | "<<" | ">>" | ">>>" => some 9
  | "+" | "-" => some 10
  | "*" | "/" | "%" => some 11
  | "**" => some 12
  | _ => none

/-- The precedence of the type operators `as` and `satisfies`. -/
def typePrecedence : Nat := 8

/-- The operators that start with `>`, longest first. -/
def rightAngles : List String := [">>>=", ">>>", ">>=", ">=", ">>", ">"]

/-- The operator at the current token, joining the angle brackets that are read one by one. -/
def currentOperator : Parser (Option String) := do
  match ← peek with
  | .punctuator ">" =>
    let text := (← get).text
    return rightAngles.find? fun p => p.toList.isPrefixOf text
  | .punctuator p => return some p
  | .word "in" false => return if (← read).allowIn then some "in" else none
  | .word "instanceof" false => return some "instanceof"
  | _ => return none

/-- Passes the operator that `currentOperator` gave. -/
def passOperator (operator : String) : Parser Unit := do
  if operator.startsWith ">" then resplit operator
  advance

/-- `??` mixes with neither `||` nor `&&` without parentheses. -/
def mixes (operator : String) : Expr → Bool
  | .binary inner _ _ =>
    (operator == "??" && (inner == "||" || inner == "&&"))
      || ((operator == "||" || operator == "&&") && inner == "??")
  | _ => false

/-- Pending operands, each with the operator and the precedence before the next one. -/
abbrev Pending := List (Expr × String × Nat)

/-- Closes the pending operators that bind at least as tightly as the given precedence. -/
def reduce (limit : Nat) : Pending → Expr → Option (Pending × Expr)
  | [], operand => some ([], operand)
  | (left, operator, level) :: pending, operand =>
    if level < limit || (level == limit && operator == "**") then
      some ((left, operator, level) :: pending, operand)
    else if mixes operator left || mixes operator operand then none
    else reduce limit pending (.binary operator left operand)

/-- Whether an operand may stand left of `**`: no prefix operator without parentheses. -/
def isPowerBase : Expr → Bool
  | .unary _ _ | .await _ => false
  | _ => true

/-- `reduce`, failing where operators do not mix. -/
def reduced (limit : Nat) (pending : Pending) (operand : Expr) : Parser (Pending × Expr) :=
  match reduce limit pending operand with
  | some state => return state
  | none => failure

/-- A private name is an operand only before `in`. -/
def isPlaced (operator : String) : Expr → Bool
  | .privateName _ => operator == "in"
  | _ => true

/-- One more operator with its operand. -/
def binaryStep (state : Pending × Expr) : Parser (Option (Pending × Expr)) := do
  let (pending, operand) := state
  if (← hasTypes) && !(← afterNewline) && ((← atWord "as") || (← atWord "satisfies")) then
    let (pending, operand) ← reduced typePrecedence pending operand
    advance
    if !(← eatWord "const") then g.type
    return some (pending, .typed operand)
  match ← currentOperator with
  | none => return none
  | some operator =>
    match precedence? operator with
    | none => return none
    | some level =>
      let (pending, operand) ← reduced level pending operand
      require (isPlaced operator operand && (operator != "**" || isPowerBase operand))
      passOperator operator
      return some ((operand, operator, level) :: pending, ← g.unary)

/-- Operands joined by binary operators. -/
def binaryExpression : Parser Expr := do
  let first ← g.unary
  let (pending, operand) ← iterate (binaryStep g) ([], first)
  let (_, whole) ← reduced 0 pending operand
  return whole

/-! ## Conditionals and assignments -/

/-- A choice between two expressions, or a binary expression. -/
def conditional : Parser Expr := do
  let test ← binaryExpression g
  if ← eat "?" then
    let consequent ← within
      (fun context => { context with allowIn := true, inConditional := true }) g.assignment
    expect ":"
    return .conditional test consequent (← g.assignment)
  return test

/-- The assignment operators besides `=`. -/
def compoundAssignments : List String :=
  ["+=", "-=", "*=", "/=", "%=", "**=", "<<=", ">>=", ">>>=", "&=", "|=", "^=", "&&=", "||=", "??="]

/-- A `yield` with its operand, which has to start on the same line. -/
def yieldExpression : Parser Expr := do
  expectWord "yield"
  let ends :=
    match ← peek with
    | .punctuator p => [")", "]", "\x7d", ",", ";", ":"].contains p
    | .word "in" false | .word "of" false | .finish => true
    | _ => false
  if ends || (← afterNewline) then return .yield none
  let _ ← eat "*"
  return .yield (some (← g.assignment))

/-- An expression without top-level commas. -/
def assignmentRule : Parser Expr := do
  if (← read).inGenerator && (← atWord "yield") then yieldExpression g
  else match ← arrow? g with
  | some function => return function
  | none =>
    let covers := (← get).covers
    let target ← conditional g
    match ← currentOperator with
    | some operator =>
      if operator == "=" then
        require (isPattern target)
        match target with
        | .array _ | .object _ _ => modify fun here => { here with covers := covers }
        | .assign _ _ _ => failure
        | _ => pure ()
        advance
        return .assign "=" target (← g.assignment)
      else if compoundAssignments.contains operator then
        require (isTarget target)
        passOperator operator
        return .assign operator target (← g.assignment)
      else return target
    | none => return target

end Grammar

end FileRoutes.Script
