import FileRoutes.Json.Bag
import FileRoutes.Page.MetaKey

/-!
# Fields of route records

A field of a route record is either known when the routes are built or left to the metadata module
of the page.

* `Field`: a value, or the key to ask the module for with a value to fall back on.
* `Field.resolve`: the value of a field, given what the module loaded.
-/

namespace FileRoutes

/-- A field of a route record. -/
inductive Field where
  | static (value : Json)
  | deferred (key : MetaKey) (fallback : Option Json)
  deriving DecidableEq, Repr

namespace Field

/-- The value of a field that is known already. -/
def static? : Field → Option Json
  | .static value => some value
  | .deferred _ _ => none

/-- The field is left to the metadata module. -/
def isDeferred : Field → Bool
  | .static _ => false
  | .deferred _ _ => true

/-- The entries of a loaded object that belong to the free-form bag: those whose keys are not read
by name. -/
def freeForm (loaded : Bag) : List (String × Json) :=
  loaded.members.filter fun entry => (MetaKey.allowListed? entry.1).isNone

/-- The bag of a value: the members of an object, nothing otherwise. -/
def bagOf : Option Json → Bag
  | some (.object members) => .ofMembers members
  | _ => .empty

/-- The value of a field, given the object its module loaded. A loaded `null` counts as missing. The
free-form bag is the fallback with the free-form entries laid over it; an empty bag is no value. -/
def resolve (field : Field) (loaded : Bag) : Option Json :=
  match field with
  | .static value => some value
  | .deferred .bag fallback =>
    let bag := (bagOf fallback).extendWith (freeForm loaded)
    if bag.isEmpty then none else some bag.toJson
  | .deferred key fallback =>
    match loaded.get? key.label with
    | some .null | none => fallback
    | some value => some value

end Field

end FileRoutes
