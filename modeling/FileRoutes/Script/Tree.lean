import FileRoutes.Number.Binary64

/-!
# Syntax trees of scripts

The tree a script is read into. Expressions keep every form apart, because what may be known of a
page before it runs depends on the form; statements keep their sub-expressions and sub-statements.
Type annotations leave no trace.

* `Expr`: expressions. Binding patterns are held as the expression of the same spelling: a
  default is an assignment, a rest element is a spread.
* `Property`: one entry of an object literal. Methods and accessors are fields whose value is a
  function.
* `Key`: the name of a field or of a class member, as written.
* `Member`: one element of a class body.
* `Stmt`: statements.
-/

namespace FileRoutes.Script

/-- A range of a source text, in characters; `stop` is the first one after it. -/
structure Span where
  start : Nat
  stop : Nat
  deriving DecidableEq, Repr, Inhabited

/-- The characters of a range. -/
def Span.slice (span : Span) (source : String) : String :=
  String.ofList ((source.toList.drop span.start).take (span.stop - span.start))

mutual

/-- Expressions. -/
inductive Expr where
  | this
  | super
  | identifier (name : String)
  | privateName (name : String)
  | string (value : String)
  | number (value : Binary64)
  | bigint
  | regex
  | boolean (value : Bool)
  | null
  /-- The expressions `new.target` and `import.meta`. -/
  | metaProperty
  | template (substitutions : List Expr)
  | taggedTemplate (tag : Expr) (substitutions : List Expr)
  | array (elements : List Expr)
  /-- The missing element between two commas of an array. -/
  | hole
  | spread (operand : Expr)
  | object (span : Span) (properties : List Property)
  | function (parameters : List Expr) (body : List Stmt)
  | arrow (parameters : List Expr) (body : List Stmt)
  /-- A class with its decorators, what it extends, and its body. -/
  | classBody (decorators : List Expr) (heritage : List Expr) (members : List Member)
  | unary (operator : String) (operand : Expr)
  | update (operator : String) (operand : Expr)
  | binary (operator : String) (left right : Expr)
  | assign (operator : String) (target value : Expr)
  | conditional (test consequent alternate : Expr)
  | sequence (parts : List Expr)
  | call (callee : Expr) (arguments : List Expr)
  | new (callee : Expr) (arguments : List Expr)
  | member (object : Expr) (name : String)
  | index (object key : Expr)
  /-- The extent of an optional chain: the parts that `?.` may skip. -/
  | chain (operand : Expr)
  | importCall (arguments : List Expr)
  | await (operand : Expr)
  | yield (operand : Option Expr)
  | parenthesized (operand : Expr)
  /-- An operand under a type operator: `as`, `satisfies`, `!`, an assertion or type arguments. -/
  | typed (operand : Expr)
  /-- A markup element, by its attribute values and children. -/
  | markup (parts : List Expr)

/-- An entry of an object literal. -/
inductive Property where
  | field (key : Key) (value : Expr)
  | spread (operand : Expr)

/-- A name as written before a colon or a parameter list. -/
inductive Key where
  | word (text : String)
  | string (value : String)
  /-- A numeric literal, by the name it denotes. -/
  | numeric (value : Option Binary64)
  | privateName (name : String)
  | computed (key : Expr)

/-- An element of a class body. -/
inductive Member where
  | decorator (operand : Expr)
  | method (key : Key) (parameters : List Expr) (body : List Stmt)
  | field (key : Key) (value : Option Expr)
  | staticBlock (body : List Stmt)

/-- Statements. -/
inductive Stmt where
  | expression (operand : Expr)
  /-- Variable bindings; each is a pattern or an assignment to a pattern. -/
  | declaration (bindings : List Expr)
  /-- A statement led by a keyword, by its expressions and its sub-statements. -/
  | control (keyword : String) (heads : List Expr) (bodies : List Stmt)

end

/-- A script is the list of its top-level statements. -/
abbrev Program := List Stmt

/-- The name of a field that can be read off its spelling: an identifier or a string, the string
also in brackets. -/
def Key.readable? : Key → Option String
  | .word text => some text
  | .string value => some value
  | .computed (.string value) => some value
  | _ => none

end FileRoutes.Script
