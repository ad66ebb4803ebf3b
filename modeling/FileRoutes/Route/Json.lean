import FileRoutes.Json.Object
import FileRoutes.Route.Basic

/-!
# Route forests as JSON

* `Forest.routesToJson`, `Forest.routesOfJson?`: a forest of routes as a document and back. Names
  and files are written as `null` where they are missing, empty bags and lists are left out.
-/

namespace FileRoutes

/-- The members of a route, without its children. -/
def Route.fields (route : Route) : List (String × Option Json) :=
  [("name", some (.ofText? route.name)),
    ("path", some (.string route.path)),
    ("file", some (.ofText? (route.file.map FilePath.text))),
    ("mode", some (.string route.mode.label)),
    ("meta", Json.unlessEmptyBag route.bag),
    ("alias", Json.unlessEmpty route.aliases),
    ("redirect", route.redirect),
    ("props", route.props)]

mutual

/-- A tree of routes as a document. -/
def Tree.routeToJson : Tree Route → Json
  | .node route children =>
    .ofFields (route.fields ++ [("children", some (.array (Forest.routesToJson children)))])

/-- A forest of routes as a list of documents. -/
def Forest.routesToJson : Forest Route → List Json
  | [] => []
  | t :: ts => t.routeToJson :: Forest.routesToJson ts

end

/-- A route of the members of a document. Path and mode are required. -/
def Route.ofMembers? (members : List (String × Json)) : Option Route := do
  let member (name : String) : Option Json := members.lookup name
  return {
    name := ← Json.optional? Json.text? (member "name")
    path := ← (← member "path").text?
    file := (← Json.optional? Json.text? (member "file")).map FilePath.mk
    mode := ← Mode.ofLabel? (← (← member "mode").text?)
    bag := ← Json.withDefault? .empty Json.bag? (member "meta")
    aliases := ← Json.withDefault? [] Json.texts? (member "alias")
    redirect := ← Json.optional? some (member "redirect")
    props := ← Json.optional? some (member "props") }

mutual

/-- A tree of routes of a document. -/
def Tree.routeOfJson? : Json → Option (Tree Route)
  | .object members =>
    match Route.ofMembers? members, Forest.childrenOfMembers? members with
    | some route, some children => some (.node route children)
    | _, _ => none
  | _ => none

/-- The children among the members of a document. -/
def Forest.childrenOfMembers? : List (String × Json) → Option (Forest Route)
  | [] => none
  | (key, .array items) :: rest =>
    if key = "children" then Forest.routesOfJson? items else Forest.childrenOfMembers? rest
  | (key, _) :: rest => if key = "children" then none else Forest.childrenOfMembers? rest

/-- A forest of routes of a list of documents. -/
def Forest.routesOfJson? : List Json → Option (Forest Route)
  | [] => some []
  | item :: rest =>
    match Tree.routeOfJson? item, Forest.routesOfJson? rest with
    | some t, some ts => some (t :: ts)
    | _, _ => none

end

end FileRoutes
