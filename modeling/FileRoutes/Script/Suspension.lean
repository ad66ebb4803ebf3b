import FileRoutes.Script.Tree

/-!
# Suspension points

An expression suspends when evaluating it runs into an `await`. A nested function suspends only when
it is called, so its parameters and body do not count; everything else in an expression is evaluated
with it: values, computed keys, spreads, the bodies of classes, and so on.

* `Expr.suspends`, `Property.suspends`: whether an `await` is met.
-/

namespace FileRoutes.Script

mutual

/-- An `await` occurs in the expression outside every nested function. -/
def Expr.suspends : Expr → Bool
  | .await _ => true
  | .this | .super | .identifier _ | .privateName _ | .string _ | .number _ | .bigint | .regex
  | .boolean _ | .null | .metaProperty | .hole => false
  | .function _ _ | .arrow _ _ => false
  | .template parts | .array parts | .sequence parts | .importCall parts | .markup parts =>
    Expr.anySuspends parts
  | .taggedTemplate e parts | .call e parts | .new e parts => e.suspends || Expr.anySuspends parts
  | .spread e | .unary _ e | .update _ e | .member e _ | .chain e | .parenthesized e | .typed e =>
    e.suspends
  | .binary _ l r | .assign _ l r | .index l r => l.suspends || r.suspends
  | .conditional t c a => t.suspends || c.suspends || a.suspends
  | .yield operand => Expr.optionSuspends operand
  | .object _ properties => Property.anySuspends properties
  | .classBody decorators heritage members =>
    Expr.anySuspends decorators || Expr.anySuspends heritage || Member.anySuspends members

/-- Some expression of a list suspends. -/
def Expr.anySuspends : List Expr → Bool
  | [] => false
  | e :: rest => e.suspends || Expr.anySuspends rest

/-- The expression, if there is one, suspends. -/
def Expr.optionSuspends : Option Expr → Bool
  | none => false
  | some e => e.suspends

/-- An `await` occurs in the key or the value of the entry. -/
def Property.suspends : Property → Bool
  | .field key value => key.suspends || value.suspends
  | .spread e => e.suspends

/-- Some entry of a list suspends. -/
def Property.anySuspends : List Property → Bool
  | [] => false
  | p :: rest => p.suspends || Property.anySuspends rest

/-- Only a computed key is evaluated. -/
def Key.suspends : Key → Bool
  | .computed e => e.suspends
  | .word _ | .string _ | .numeric _ | .privateName _ => false

/-- An `await` occurs in the part of a class element that is evaluated with the class. -/
def Member.suspends : Member → Bool
  | .decorator e => e.suspends
  | .method key _ _ => key.suspends
  | .field key value => key.suspends || Expr.optionSuspends value
  | .staticBlock body => Stmt.anySuspends body

/-- Some element of a class body suspends. -/
def Member.anySuspends : List Member → Bool
  | [] => false
  | m :: rest => m.suspends || Member.anySuspends rest

/-- An `await` occurs in the statement outside every nested function. -/
def Stmt.suspends : Stmt → Bool
  | .expression e => e.suspends
  | .declaration bindings => Expr.anySuspends bindings
  | .control _ heads bodies => Expr.anySuspends heads || Stmt.anySuspends bodies

/-- Some statement of a list suspends. -/
def Stmt.anySuspends : List Stmt → Bool
  | [] => false
  | s :: rest => s.suspends || Stmt.anySuspends rest

end

end FileRoutes.Script
