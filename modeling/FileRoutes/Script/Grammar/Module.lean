import FileRoutes.Script.Grammar.Statement

/-!
# Modules

Imports and exports, which stand only at the top level.

* `Grammar.moduleItem`: an import, an export or a statement.
-/

namespace FileRoutes.Script

open Script.Parser

namespace Grammar

variable (g : Grammar)

/-- A name of a module's interface: an identifier name or a string. -/
def interfaceName : Parser Token := do
  let token ← peek
  match token with
  | .word _ _ | .string _ =>
    advance
    return token
  | _ => failure

/-- The attributes after the specifier of an import or export. -/
def importAttributes : Parser Unit := do
  if (← atWord "with") || ((← atWord "assert") && !(← afterNewline)) then
    advance
    expect "\x7b"
    let _ ← commaSeparated "\x7d" do
      match ← peek with
      | .word _ _ | .string _ => advance
      | _ => failure
      expect ":"
      match ← peek with
      | .string _ => advance
      | _ => failure

/-- The specifier of a module and the end of the statement. -/
def fromModule : Parser Unit := do
  match ← peek with
  | .string _ => advance
  | _ => failure
  importAttributes
  semicolon

/-- The word `type` before a single import or export, unless it is the name itself. -/
def skipTypeMark : Parser Unit := do
  if (← hasTypes) && (← atWord "type") then
    match (← peekNext).1 with
    | .word "as" false =>
      -- `type as as x` and `type as x` rename; `type as` alone imports `as`
      let renames : Parser Unit := do
        advance
        advance
        require ((← peek) matches .word _ _)
        advance
        require (!((← peek) matches .word _ _))
      if (← ahead renames).isNone then advance
    | .word _ _ | .string _ => advance
    | _ => return ()

/-- One imported name; a reserved word or a string has to be renamed. -/
def importName : Parser Unit := do
  skipTypeMark
  let name ← interfaceName
  if ← eatWord "as" then
    let _ ← bindingName
  else
    match name with
    | .word text _ => require (← isBindable text)
    | _ => failure

/-- The names an import binds, up to the word `from`. -/
def importClause : Parser Unit := do
  let names : Parser Unit := do
    match ← peek with
    | .punctuator "*" =>
      advance
      expectWord "as"
      let _ ← bindingName
    | _ =>
      expect "\x7b"
      let _ ← commaSeparated "\x7d" importName
  if ← atBindingName then
    advance
    if ← eat "," then names
  else names
  expectWord "from"

/-- An import that is an alias: `import a = b.c` or `import a = require('m')`. -/
def importAlias : Parser Unit := do
  let _ ← eatWord "type"
  let _ ← bindingName
  expect "="
  if (← atWord "require") && (← peekNext).1 == .punctuator "(" then
    advance
    advance
    match ← peek with
    | .string _ => advance
    | _ => failure
    expect ")"
  else
    let _ ← anyName
    qualifiers
  semicolon

/-- An import declaration. -/
def importDeclaration : Parser Stmt := do
  expectWord "import"
  match ← peek with
  | .string _ => fromModule
  | _ =>
    let plain : Parser Unit := do
      importClause
      fromModule
    let typed : Parser Unit := do
      require (← hasTypes)
      let onlyTypes : Parser Unit := do
        expectWord "type"
        importClause
        fromModule
      onlyTypes <|> importAlias
    plain <|> typed
  return erased

/-- Exported names between braces, and the module they come from. Without one the names are
variables. -/
def exportNames : Parser Stmt := do
  expect "\x7b"
  let names ← commaSeparated "\x7d" do
    skipTypeMark
    let name ← interfaceName
    if ← eatWord "as" then
      let _ ← interfaceName
    return name
  if ← eatWord "from" then fromModule
  else
    let bound (name : Token) : Bool :=
      match name with
      | .word text _ => !isReserved text && text != "await"
      | _ => false
    require (names.all bound)
    semicolon
  return erased

/-- The value after `export default`. -/
def exportDefault : Parser Stmt := do
  advance
  match ← peek, ← peekNext with
  | .word "function" false, _ => return .expression (← functionFrom g false false true)
  | .word "class" false, _ => return .expression (← classFrom g [] false)
  | .punctuator "@", _ =>
    let marks ← decorators g
    return .expression (← classFrom g marks false)
  | .word "abstract" false, (.word "class" false, false) =>
    require (← hasTypes)
    advance
    return .expression (← classFrom g [] false)
  | .word "interface" false, (.word _ _, false) =>
    require (← hasTypes)
    interfaceDeclaration g
  | _, _ =>
    if ← atAsyncFunction then
      advance
      return .expression (← functionFrom g true false true)
    let value ← g.assignment
    semicolon
    return .control "export" [value] []

/-- Exports that only dialects with types have. -/
def typedExport? : Parser (Option Stmt) := do
  if !(← hasTypes) then return none
  match ← peek, (← peekNext).1 with
  | .punctuator "=", _ =>
    advance
    let value ← g.expression
    semicolon
    return some (.control "export" [value] [])
  | .word "as" false, .word "namespace" false =>
    advance
    advance
    let _ ← bindingName
    semicolon
    return some erased
  | .word "type" false, .punctuator "\x7b" =>
    advance
    some <$> exportNames
  | .word "type" false, .punctuator "*" =>
    advance
    return none
  | .word "import" false, _ =>
    advance
    importAlias
    return some erased
  | _, _ => return none

/-- A statement that may follow `export`. -/
def isExportable (token : Token) : Bool :=
  match token with
  | .word text false =>
    ["var", "let", "const", "function", "class", "async", "interface", "type", "enum", "namespace",
     "module", "abstract", "declare"].contains text
  | .punctuator p => p == "@"
  | _ => false

/-- An export declaration. -/
def exportDeclaration : Parser Stmt := do
  expectWord "export"
  if let some statement ← typedExport? g then return statement
  match ← peek with
  | .punctuator "*" =>
    advance
    if ← eatWord "as" then
      let _ ← interfaceName
    expectWord "from"
    fromModule
    return erased
  | .punctuator "\x7b" => exportNames
  | .word "default" false => exportDefault g
  | token =>
    require (isExportable token)
    match ← g.statement with
    | .expression (.function list body) =>
      return .control "export" [] [.expression (.function list body)]
    | .expression (.classBody marks heritage members) =>
      return .control "export" [] [.expression (.classBody marks heritage members)]
    | .expression _ => failure
    | statement => return .control "export" [] [statement]

/-- An exported class whose decorators stand before the word `export`. -/
def decoratedExport : Parser Stmt := do
  let marks ← decorators g
  expectWord "export"
  let _ ← eatWord "default"
  let _ ← andAlso hasTypes (eatWord "abstract")
  return .control "export" [] [.expression (← classFrom g marks false)]

/-- An import, an export or a statement. -/
def moduleItem : Parser Stmt := do
  match ← peek, (← peekNext).1 with
  | .punctuator "@", _ => g.statement <|> decoratedExport g
  | .word "import" false, .punctuator "(" | .word "import" false, .punctuator "." => g.statement
  | .word "import" false, _ => importDeclaration
  | .word "export" false, _ => exportDeclaration g
  | _, _ => g.statement

end Grammar

end FileRoutes.Script
