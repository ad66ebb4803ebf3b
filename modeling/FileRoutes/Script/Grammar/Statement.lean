import FileRoutes.Script.Grammar.Expression

/-!
# Statements

* `Grammar.statementRule`: statements and declarations, those of types included.
* Declarations of types leave an empty `Stmt.declaration`.
-/

namespace FileRoutes.Script

open Script.Parser

namespace Grammar

variable (g : Grammar)

/-- What a declaration that exists only for types leaves behind. -/
def erased : Stmt := .declaration []

/-! ## Variables -/

/-- A variable with its initial value. Constants and patterns need one, except where nothing is
implemented or a loop supplies it. -/
def declarator (isConstant inLoopHead : Bool) : Parser Expr := do
  let target ← g.binding
  if ← hasTypes then
    let _ ← eat "!"
  optionalAnnotation g
  if ← eat "=" then return .assign "=" target (← g.assignment)
  let needsValue :=
    match target with
    | .identifier _ => isConstant
    | _ => true
  require (!needsValue || inLoopHead || (← read).isAmbient)
  return target

/-- Variables after their keyword, separated by commas. -/
def declarators (isConstant inLoopHead : Bool) : Parser (List Expr) := do
  let first ← declarator g isConstant inLoopHead
  let more ← many do
    if ← eat "," then some <$> declarator g isConstant inLoopHead else return none
  return first :: more

/-- The words `await using` stand here before a name, all on one line. -/
def atAwaitUsing : Parser Bool := do
  let name : Parser Unit := do
    expectWord "await"
    require (!(← afterNewline))
    expectWord "using"
    require (!(← afterNewline))
    let _ ← bindingName
  if (← read).inAsync then return (← ahead name).isSome else return false

/-- A declaration of variables starts here: its keyword. `let` and `using` are keywords only before
a name. -/
def atVariables : Parser (Option String) := do
  match ← peek, ← peekNext with
  | .word "var" false, _ => return some "var"
  | .word "const" false, (next, _) =>
    return if next == .word "enum" false then none else some "const"
  | .word "let" false, (.word text _, _) =>
    return if text != "in" && text != "instanceof" then some "let" else none
  | .word "let" false, (.punctuator p, _) =>
    return if p == "[" || p == "\x7b" then some "let" else none
  | .word "using" false, (.word text _, false) =>
    return if !isReserved text && text != "of" then some "using" else none
  | .word "await" false, _ => return if ← atAwaitUsing then some "await using" else none
  | _, _ => return none

/-- Passes the keyword of a declaration of variables. -/
def passKeyword (keyword : String) : Parser Unit := do
  advance
  if keyword == "await using" then advance

/-- Variables under this keyword keep the value they start with. -/
def isConstantKeyword (keyword : String) : Bool :=
  keyword == "const" || keyword == "using" || keyword == "await using"

/-- A declaration of variables as a statement. -/
def variableStatement (keyword : String) : Parser Stmt := do
  passKeyword keyword
  let list ← declarators g (isConstantKeyword keyword) false
  semicolon
  return .declaration list

/-! ## Control flow -/

/-- An expression between parentheses. -/
def condition : Parser Expr := do
  expect "("
  let test ← inBrackets g.expression
  expect ")"
  return test

/-- A statement inside another one: no declaration, apart from that of variables for the whole
function and that of a plain function. -/
def embedded : Parser Stmt := do
  let keyword ← atVariables
  let declares ← match ← peek, (← peekNext).1 with
    | .word "class" false, _ | .punctuator "@", _ => pure true
    | .word "function" false, .punctuator "*" => pure true
    | _, _ => atAsyncFunction
  require ((keyword.isNone || keyword == some "var") && !declares)
  g.statement

/-- A conditional statement. -/
def ifStatement : Parser Stmt := do
  advance
  let test ← condition g
  let consequent ← embedded g
  if ← eatWord "else" then return .control "if" [test] [consequent, ← embedded g]
  return .control "if" [test] [consequent]

/-- The rest of a counting loop from its first semicolon on. -/
def countingLoop (start : List Expr) : Parser Stmt := do
  expect ";"
  let part (close : String) : Parser (List Expr) := do
    if ← atPunctuator close then return [] else return [← inBrackets g.expression]
  let test ← part ";"
  expect ";"
  let update ← part ")"
  expect ")"
  return .control "for" (start ++ test ++ update) [← embedded g]

/-- The rest of a loop over a collection from `in` or `of` on. Only `of` can wait for each item. -/
def collectionLoop (awaits : Bool) (head : List Expr) : Parser Stmt := do
  let subject ←
    if ← eatWord "of" then inBrackets g.assignment
    else
      require (!awaits)
      expectWord "in"
      inBrackets g.expression
  expect ")"
  return .control "for" (head ++ [subject]) [← embedded g]

/-- The words that lead to the collection of a loop. -/
def atCollection : Parser Bool := return (← atWord "of") || (← atWord "in")

/-- Every variable that has to have a value has one. -/
def areInitialized (isConstant : Bool) (list : List Expr) : Bool :=
  list.all fun
    | .assign _ _ _ => true
    | .identifier _ => !isConstant
    | _ => false

/-- The words `async of` stand here, which start an arrow function and no collection. -/
def atAsyncOf : Parser Bool := do
  match ← peek, (← peekNext).1 with
  | .word "async" false, .word "of" false => return true
  | _, _ => return false

/-- A loop led by `for`. -/
def forStatement : Parser Stmt := do
  advance
  let awaits ← if (← read).inAsync then eatWord "await" else pure false
  expect "("
  let withoutIn (context : Context) : Context :=
    { context with allowIn := false, inConditional := false }
  if ← atPunctuator ";" then
    require (!awaits)
    return ← countingLoop g []
  match ← atVariables with
  | some keyword =>
    passKeyword keyword
    let isConstant := isConstantKeyword keyword
    let list ← within withoutIn (declarators g isConstant true)
    if ← atCollection then
      require (list matches [_] && !(list matches [.assign _ _ _]))
      collectionLoop g awaits list
    else
      require (!awaits && areInitialized isConstant list)
      countingLoop g list
  | none =>
    let covers := (← get).covers
    let isAsyncOf := (← atAsyncOf) && !awaits
    let head ← within withoutIn g.expression
    if ← atCollection then
      require (isPattern head && !(head matches .assign _ _ _))
      require (!(isAsyncOf && head matches .identifier _))
      modify fun here => { here with covers := covers }
      collectionLoop g awaits [head]
    else
      require (!awaits)
      countingLoop g [head]

/-- A loop led by `while`. -/
def whileStatement : Parser Stmt := do
  advance
  let test ← condition g
  return .control "while" [test] [← embedded g]

/-- A loop led by `do`; the semicolon after it may be missing anywhere. -/
def doStatement : Parser Stmt := do
  advance
  let body ← embedded g
  expectWord "while"
  let test ← condition g
  let _ ← eat ";"
  return .control "do" [test] [body]

/-- A jump, perhaps to a label on its line. -/
def jumpStatement (keyword : String) : Parser Stmt := do
  advance
  if !(← afterNewline) && (← atBindingName) then advance
  semicolon
  return .control keyword [] []

/-- A `return`, which only a function may hold, with the value on its line. -/
def returnStatement : Parser Stmt := do
  require (← read).inFunction
  advance
  let ends :=
    match ← peek with
    | .punctuator p => p == ";" || p == "\x7d"
    | .finish => true
    | _ => false
  if ends || (← afterNewline) then
    semicolon
    return .control "return" [] []
  let value ← g.expression
  semicolon
  return .control "return" [value] []

/-- A `throw` with the value on its line. -/
def throwStatement : Parser Stmt := do
  advance
  require (!(← afterNewline))
  let value ← g.expression
  semicolon
  return .control "throw" [value] []

/-- A `try` with a handler, a final block, or both. -/
def tryStatement : Parser Stmt := do
  advance
  let body ← block g
  let handler : List Stmt ←
    if ← eatWord "catch" then
      let head ←
        if ← eat "(" then
          let target ← g.binding
          optionalAnnotation g
          expect ")"
          pure [target]
        else pure []
      pure [.control "catch" head (← block g)]
    else pure []
  let final : List Stmt ←
    if ← eatWord "finally" then pure [.control "finally" [] (← block g)] else pure []
  require (!(handler ++ final).isEmpty)
  return .control "try" [] ([.control "block" [] body] ++ handler ++ final)

/-- One case of a `switch`, with the statements up to the next one. -/
def switchCase : Parser Stmt := do
  let head ←
    if ← eatWord "default" then pure []
    else
      expectWord "case"
      pure [← inBrackets g.expression]
  expect ":"
  let body ← many do
    if (← atWord "case") || (← atWord "default") || (← atPunctuator "\x7d") then return none
    else some <$> g.statement
  return .control "case" head body

/-- The default case of a `switch`. -/
def isDefaultCase : Stmt → Bool
  | .control "case" [] _ => true
  | _ => false

/-- A `switch` with at most one default case. -/
def switchStatement : Parser Stmt := do
  advance
  let subject ← condition g
  expect "\x7b"
  let cases ← many do
    if ← atPunctuator "\x7d" then return none else some <$> switchCase g
  expect "\x7d"
  require ((cases.filter isDefaultCase).length ≤ 1)
  return .control "switch" [subject] cases

/-- A statement with an object whose members are names in it. -/
def withStatement : Parser Stmt := do
  advance
  let subject ← condition g
  return .control "with" [subject] [← embedded g]

/-! ## Declarations of types -/

/-- An interface with what it extends. -/
def interfaceDeclaration : Parser Stmt := do
  expectWord "interface"
  let _ ← bindingName
  optionalTypeParameters g
  if ← eatWord "extends" then
    g.type
    let _ ← many do
      if ← eat "," then some <$> g.type else return none
  typeMembers g
  return erased

/-- A type alias. -/
def aliasDeclaration : Parser Stmt := do
  expectWord "type"
  let _ ← bindingName
  optionalTypeParameters g
  expect "="
  g.type
  semicolon
  return erased

/-- One member of an enumeration, with its value. -/
def enumMember : Parser (List Expr) := do
  match ← peek with
  | .word _ _ | .string _ => advance
  | _ =>
    expect "["
    match ← peek with
    | .string _ => advance
    | _ => failure
    expect "]"
  if ← eat "=" then return [← inBrackets g.assignment] else return []

/-- An enumeration. -/
def enumDeclaration : Parser Stmt := do
  let _ ← eatWord "const"
  expectWord "enum"
  let _ ← bindingName
  expect "\x7b"
  let values ← commaSeparated "\x7d" (enumMember g)
  return .control "enum" values.flatten []

/-- The body of a namespace, which may import and export. -/
def namespaceBody : Parser Stmt := do
  expect "\x7b"
  let body ← many do
    if ← atPunctuator "\x7d" then return none else some <$> g.item
  expect "\x7d"
  return .control "namespace" [] body

/-- A namespace, by a dotted name or a string. A declared module may lack its body. -/
def namespaceDeclaration : Parser Stmt := do
  match ← peek with
  | .string _ => advance
  | _ =>
    let _ ← anyName
    qualifiers
  if (← read).isAmbient && !(← atPunctuator "\x7b") then
    semicolon
    return erased
  namespaceBody g

/-- The token after the current one is a name on the same line. -/
def nextIsName : Parser Bool := do
  match ← peekNext with
  | (.word text _, false) => return !isReserved text
  | _ => return false

/-- The token after the current one is a string on the same line. -/
def nextIsString : Parser Bool := do
  match ← peekNext with
  | (.string _, false) => return true
  | _ => return false

/-- Words that lead a declaration after `declare`. -/
def declarableWords : List String :=
  ["var", "let", "const", "function", "class", "abstract", "enum", "namespace", "module", "global",
   "type", "interface", "async", "import", "using"]

/-- A declaration that only dialects with types have, if one starts here. -/
def typeDeclaration? : Parser (Option Stmt) := do
  if !(← hasTypes) then return none
  match ← peek with
  | .word text false =>
    match text with
    | "interface" => if ← nextIsName then some <$> interfaceDeclaration g else return none
    | "type" => if ← nextIsName then some <$> aliasDeclaration g else return none
    | "enum" => some <$> enumDeclaration g
    | "const" =>
      if (← peekNext).1 == .word "enum" false then some <$> enumDeclaration g else return none
    | "namespace" | "module" =>
      if (← nextIsName) || (text == "module" && (← nextIsString)) then
        advance
        some <$> namespaceDeclaration g
      else return none
    | "global" =>
      if (← peekNext) == (.punctuator "\x7b", false) then
        advance
        some <$> namespaceBody g
      else return none
    | "abstract" =>
      if (← peekNext) == (.word "class" false, false) then
        advance
        return some (.expression (← classFrom g [] true))
      else return none
    | "declare" =>
      match ← peekNext with
      | (.word next false, false) =>
        if declarableWords.contains next then
          advance
          some <$> within (fun context => { context with isAmbient := true }) g.statement
        else return none
      | _ => return none
    | _ => return none
  | _ => return none

/-! ## Statements -/

/-- A function or class declaration is held as the expression it declares. -/
def functionDeclaration : Parser Stmt := do
  let isAsync ← eatWord "async"
  return .expression (← functionFrom g isAsync true true)

/-- A class declaration with the decorators before it. -/
def classDeclaration : Parser Stmt := do
  let marks ← decorators g
  let _ ← eatWord "abstract"
  return .expression (← classFrom g marks true)

/-- An expression as a statement. -/
def expressionStatement : Parser Stmt := do
  let operand ← g.expression
  semicolon
  return .expression operand

/-- A statement led by a keyword, if the word is one. -/
def keywordStatement? (word : String) : Option (Parser Stmt) :=
  match word with
  | "if" => some (ifStatement g)
  | "for" => some (forStatement g)
  | "while" => some (whileStatement g)
  | "do" => some (doStatement g)
  | "break" | "continue" => some (jumpStatement word)
  | "return" => some (returnStatement g)
  | "throw" => some (throwStatement g)
  | "try" => some (tryStatement g)
  | "switch" => some (switchStatement g)
  | "with" => some (withStatement g)
  | "function" => some (functionDeclaration g)
  | "class" => some (classDeclaration g)
  | "debugger" => some do
      advance
      semicolon
      return .control "debugger" [] []
  | _ => none

/-- A statement. -/
def statementRule : Parser Stmt := do
  match ← peek with
  | .punctuator "\x7b" => return .control "block" [] (← block g)
  | .punctuator ";" =>
    advance
    return .control "empty" [] []
  | .punctuator "@" => classDeclaration g
  | .word text escaped =>
    if let some declaration ← typeDeclaration? g then return declaration
    if let some keyword ← atVariables then return ← variableStatement g keyword
    if ← atAsyncFunction then return ← functionDeclaration g
    if !escaped then
      if let some statement := keywordStatement? g text then return ← statement
    if (← isBindable text) && (← peekNext).1 == .punctuator ":" then
      advance
      advance
      return .control "label" [] [← embedded g]
    expressionStatement g
  | _ => expressionStatement g

end Grammar

end FileRoutes.Script
