import FileRoutes.Json.Object
import FileRoutes.Page.Meta

/-!
# Page metadata as JSON

* `PageMeta.toJson`, `PageMeta.ofJson?`: metadata as a document and back. Empty and missing members
  are left out; the definition is not part of the document.
-/

namespace FileRoutes.PageMeta

/-- The metadata as a document. -/
def toJson (m : PageMeta) : Json :=
  .ofFields
    [("name", m.name.map .string),
      ("path", m.path.map .string),
      ("props", m.props),
      ("alias", m.aliases.map .ofStrings),
      ("redirect", m.redirect),
      ("meta", Json.unlessEmptyBag m.bag),
      ("dynamic_keys", Json.unlessEmpty (m.dynamic.toList.map MetaKey.label))]

/-- The set of the keys in an array of names. -/
def keySet? (value : Json) : Option KeySet :=
  (value.texts?.bind fun names => names.mapM MetaKey.ofLabel?).map KeySet.ofList

/-- The metadata of a document. A `null` member is missing, except for the bag and the dynamic
keys, where it is refused. -/
def ofJson? : Json → Option PageMeta
  | .object members => do
    let member (name : String) : Option Json := members.lookup name
    return {
      name := ← Json.optional? Json.text? (member "name")
      path := ← Json.optional? Json.text? (member "path")
      props := ← Json.optional? some (member "props")
      aliases := ← Json.optional? Json.texts? (member "alias")
      redirect := ← Json.optional? some (member "redirect")
      bag := ← Json.withDefault? .empty Json.bag? (member "meta")
      dynamic := ← Json.withDefault? .empty keySet? (member "dynamic_keys") }
  | _ => none

end FileRoutes.PageMeta
