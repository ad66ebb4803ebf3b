import FileRoutes.Json.Bag
import FileRoutes.Page.MetaKey

/-!
# Page metadata

What is known of a page's metadata without running the page.

* `PageMeta`: the values of the keys, the free-form bag, and which keys only the running page knows.
* `PageMeta.value?`: the known value of a key.
* `PageMeta.toObject`: the known part of the object the page declares.
* `PageMeta.assign?`: gives a key a literal value, if the literal has a shape the key takes.
* `MetaCall`: how the pages of a project declare their metadata.
-/

namespace FileRoutes

/-- How pages declare metadata: the name of the call, and the keys that are read besides the
allow-listed ones. -/
structure MetaCall where
  name : String := "definePageMeta"
  extraKeys : List String := []
  deriving DecidableEq, Repr, Inhabited

/-- Metadata of a page. The keys in `dynamic` have values that are known at run time only;
`definition` is the object literal as it stands in the page. -/
structure PageMeta where
  name : Option String := none
  path : Option String := none
  props : Option Json := none
  aliases : Option (List String) := none
  redirect : Option Json := none
  bag : Bag := .empty
  dynamic : KeySet := .empty
  definition : Option String := none
  deriving DecidableEq, Repr, Inhabited

namespace PageMeta

/-- The value of a key is known at run time only. -/
def isDynamic (m : PageMeta) (key : MetaKey) : Bool := m.dynamic.contains key

/-- The value of a key, if it is known; an empty bag is no value. -/
def value? (m : PageMeta) : MetaKey → Option Json
  | .name => m.name.map .string
  | .path => m.path.map .string
  | .props => m.props
  | .aliases => m.aliases.map Json.ofStrings
  | .redirect => m.redirect
  | .bag => if m.bag.isEmpty then none else some m.bag.toJson

/-- The known members of the object the page declares: the values of the allow-listed keys, with
the bag laid over them. -/
def toObject (m : PageMeta) : Bag :=
  (MetaKey.allowList.foldl (fun object key =>
    match m.value? key with
    | some value => object.insert key.label value
    | none => object) Bag.empty).extend m.bag

/-- Forgets the value of a key. -/
def clear (m : PageMeta) : MetaKey → PageMeta
  | .name => { m with name := none }
  | .path => { m with path := none }
  | .props => { m with props := none }
  | .aliases => { m with aliases := none }
  | .redirect => { m with redirect := none }
  | .bag => { m with bag := .empty }

/-- Gives a key a literal value. A name and a path are strings, an alias is a string or an array of
strings, props and a redirect are anything. -/
def assign? (m : PageMeta) : MetaKey → Json → Option PageMeta
  | .name, .string text => some { m with name := some text }
  | .path, .string text => some { m with path := some text }
  | .aliases, .string text => some { m with aliases := some [text] }
  | .aliases, .array items =>
    (Json.strings? items).map fun texts => { m with aliases := some texts }
  | .redirect, value => some { m with redirect := some value }
  | .props, value => some { m with props := some value }
  | _, _ => none

end PageMeta

end FileRoutes
