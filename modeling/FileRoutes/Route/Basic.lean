import FileRoutes.FilePath
import FileRoutes.Page.Meta
import FileRoutes.Route.Mode
import FileRoutes.Route.Tree
import FileRoutes.Route.Url

/-!
# Routes

A project's routes form a forest. The path of a root is absolute, the path of any other route is
relative to its parent.

* `Route`: a route by itself.
* `Route.declared?`: the value a route has for a key of page metadata.
* `Route.walk`: the routes of a forest in preorder, each with its full path.
* `Route.nodeByName?`, `Route.findByName?`: the first route with a name, with the routes below it and
  by itself.
* `Route.same`: routes that differ in the spelling of their files at most.
-/

namespace FileRoutes

/-- A route: its own values, without its children. -/
structure Route where
  name : Option String := none
  path : String := ""
  file : Option FilePath := none
  mode : Mode := .all
  bag : Bag := .empty
  aliases : List String := []
  redirect : Option Json := none
  props : Option Json := none
  deriving DecidableEq, Repr, Inhabited

namespace Route

/-- The value a route has for a key. The path is always there; an empty alias list and an empty bag
are no values. -/
def declared? (route : Route) : MetaKey → Option Json
  | .name => route.name.map .string
  | .path => some (.string route.path)
  | .props => route.props
  | .aliases => if route.aliases.isEmpty then none else some (.ofStrings route.aliases)
  | .redirect => route.redirect
  | .bag => if route.bag.isEmpty then none else some route.bag.toJson

/-- The full path of a route, from that of its parent; the parent of a root has the path `""`. -/
def fullPath (parent : String) (route : Route) : String := Url.full [parent, route.path]

/-- The routes in preorder, each with its full path. -/
def walk (forest : Forest Route) : List (String × Route) := Forest.walk fullPath "" forest

/-- The route has a name. -/
def hasName (name : String) (route : Route) : Bool := route.name == some name

/-- The first route in preorder with a name, and the routes below it. -/
def nodeByName? (forest : Forest Route) (name : String) : Option (Tree Route) :=
  Forest.find? (hasName name) forest

/-- The first route in preorder with a name. -/
def findByName? (forest : Forest Route) (name : String) : Option Route :=
  (nodeByName? forest name).map Tree.label

/-- Two optional paths are both missing, or spellings of one path. -/
def sameFile : Option FilePath → Option FilePath → Bool
  | none, none => true
  | some a, some b => decide (a.Same b)
  | _, _ => false

/-- The routes differ in the spelling of their files at most. -/
def same (a b : Route) : Bool :=
  sameFile a.file b.file && { a with file := none } == { b with file := none }

end Route

end FileRoutes
