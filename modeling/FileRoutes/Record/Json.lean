import FileRoutes.Json.Object
import FileRoutes.Record.Normalize

/-!
# Route records as JSON

* `Field.toJson`, `MetaModule.toJson`, `Forest.recordsToJson`: fields, modules and records as
  documents. What is missing is left out, as is an empty list of children.
-/

namespace FileRoutes

/-- A field as a document. -/
def Field.toJson : Field → Json
  | .static value => .ofFields [("kind", some (.string "static")), ("value", some value)]
  | .deferred key fallback =>
    .ofFields
      [("kind", some (.string "deferred")), ("key", some (.string key.label)),
        ("fallback", fallback)]

/-- A metadata module as a document. -/
def MetaModule.toJson (module : MetaModule) : Json :=
  .ofFields
    [("id", some (.string module.id)),
      ("file", some (.string module.file.text)),
      ("code", some (.string module.code))]

/-- The members of a record, without its children. -/
def Record.fields (record : Record) : List (String × Option Json) :=
  [("name", record.name.map Field.toJson),
    ("path", some record.path.toJson),
    ("file", record.file.map fun file => .string file.text),
    ("mode", some (.string record.mode.label)),
    ("props", record.props.map Field.toJson),
    ("alias", record.aliases.map Field.toJson),
    ("redirect", record.redirect.map Field.toJson),
    ("meta", record.bag.map Field.toJson),
    ("module", record.module.map MetaModule.toJson)]

mutual

/-- A tree of records as a document. -/
def Tree.recordToJson : Tree Record → Json
  | .node record children =>
    let items := Forest.recordsToJson children
    .ofFields (record.fields ++ [("children", if items.isEmpty then none else some (.array items))])

/-- A forest of records as a list of documents. -/
def Forest.recordsToJson : Forest Record → List Json
  | [] => []
  | t :: ts => t.recordToJson :: Forest.recordsToJson ts

end

end FileRoutes
