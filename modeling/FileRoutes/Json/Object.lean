import FileRoutes.Json.Bag

/-!
# Writing and reading objects

* `Json.ofFields`: an object of the members that are present.
* `Json.texts?`, `Json.bag?`: an array of strings, and an object, read back.
* `Json.optional?`: a member that may be missing or `null`.
-/

namespace FileRoutes.Json

/-- The object of the members that are present. -/
def ofFields (fields : List (String × Option Json)) : Json :=
  (Bag.ofMembers (fields.filterMap fun field => field.2.map fun value => (field.1, value))).toJson

/-- A text, or `null`. -/
def ofText? : Option String → Json
  | some text => .string text
  | none => .null

/-- The strings of an array of strings. -/
def texts? : Json → Option (List String)
  | .array items => strings? items
  | _ => none

/-- The members of an object. -/
def bag? : Json → Option Bag
  | .object members => some (.ofMembers members)
  | _ => none

/-- A member that may be missing or `null`, and otherwise has to be readable. -/
def optional? {α : Type} (read : Json → Option α) : (member : Option Json) → Option (Option α)
  | none | some .null => some none
  | some value => (read value).map some

/-- A member that may be missing, with the value that stands for it then. -/
def withDefault? {α : Type} (default : α) (read : Json → Option α) :
    (member : Option Json) → Option α
  | none => some default
  | some value => read value

/-- A list as a member, left out if it is empty. -/
def unlessEmpty (texts : List String) : Option Json :=
  if texts.isEmpty then none else some (.ofStrings texts)

/-- A bag as a member, left out if it is empty. -/
def unlessEmptyBag (bag : Bag) : Option Json := if bag.isEmpty then none else some bag.toJson

end FileRoutes.Json
