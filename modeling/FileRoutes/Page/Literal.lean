import FileRoutes.Json.Basic
import FileRoutes.Script.Tree

/-!
# Literal values

Some expressions have a value that is plain from their spelling: strings, truth values, numbers,
`null`, and arrays and objects of these. Everything else is left to the running page.

* `Expr.literal?`: the value of such an expression.
-/

namespace FileRoutes.Script

mutual

/-- The value an expression spells out. -/
def Expr.literal? : Expr → Option Json
  | .string value => some (.string value)
  | .boolean value => some (.bool value)
  | .null => some .null
  | .number value => (Number.ofMagnitude? value).map .number
  | .array elements => (Expr.literals? elements).map .array
  | .object _ properties => (Property.literals? [] properties).map .object
  | .parenthesized e => e.literal?
  | _ => none

/-- The values a list of expressions spells out. -/
def Expr.literals? : List Expr → Option (List Json)
  | [] => some []
  | e :: rest =>
    match e.literal?, Expr.literals? rest with
    | some value, some values => some (value :: values)
    | _, _ => none

/-- The members a list of entries spells out, after the members already known; of several entries
with one key the last counts. -/
def Property.literals? (known : List (String × Json)) :
    List Property → Option (List (String × Json))
  | [] => some known
  | .spread _ :: _ => none
  | .field key value :: rest =>
    match key.readable?, value.literal? with
    | some name, some value => Property.literals? (Json.insertMember name value known) rest
    | _, _ => none

end

end FileRoutes.Script
