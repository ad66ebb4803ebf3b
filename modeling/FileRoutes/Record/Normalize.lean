import FileRoutes.Page.Extractor
import FileRoutes.Record.Field
import FileRoutes.Record.Module
import FileRoutes.Route.Basic

/-!
# Route records

A route and the metadata of its page are brought together in two steps.

* `augment`: the routes with the values their pages declare.
* `normalize`: the record of each route. With `override`, what a page declares wins over its route;
  without, only what a route lacks is looked up in its page.
* `Record.field?`: the field of a record for a key.
-/

namespace FileRoutes

/-! ## Augmentation -/

/-- The route with the values a page declares. Of two entries of the bag with one key, that of the
route is kept. -/
def Route.augment (route : Route) (found : PageMeta) : Route :=
  { route with
    name := found.name.or route.name
    path := found.path.getD route.path
    props := found.props.or route.props
    aliases := found.aliases.getD route.aliases
    redirect := found.redirect.or route.redirect
    bag := if found.bag.isEmpty then route.bag else found.bag.extend route.bag }

/-- The metadata of the page of a route. -/
def Route.found? (route : Route) (metas : Metas) : Option PageMeta := route.file.bind metas.get?

/-- The routes with the values their pages declare. -/
def augment (metas : Metas) (forest : Forest Route) : Forest Route :=
  Forest.map (fun route => ((route.found? metas).map route.augment).getD route) forest

/-! ## Records -/

/-- What is known of a route: its fields and its module, without its children. -/
structure Record where
  name : Option Field
  path : Field
  file : Option FilePath
  mode : Mode
  props : Option Field
  aliases : Option Field
  redirect : Option Field
  bag : Option Field
  module : Option MetaModule
  deriving DecidableEq, Repr

namespace Record

/-- The field of a record for a key. -/
def field? (record : Record) : MetaKey → Option Field
  | .name => record.name
  | .path => some record.path
  | .props => record.props
  | .aliases => record.aliases
  | .redirect => record.redirect
  | .bag => record.bag

/-- The name of a record, if it is known already. -/
def staticName? (record : Record) : Option String :=
  (record.name.bind Field.static?).bind Json.text?

/-- The path of a record, if it is known already. -/
def staticPath? (record : Record) : Option String := record.path.static?.bind Json.text?

/-- The records differ in the spelling of their files at most. -/
def same (a b : Record) : Bool :=
  let sameModule := match a.module, b.module with
    | none, none => true
    | some m, some n => m.same n
    | _, _ => false
  Route.sameFile a.file b.file && sameModule &&
    { a with file := none, module := none } == { b with file := none, module := none }

end Record

/-- The value of a route for a key with the value of its page laid over it. Bags are merged, of
other values the page's counts. -/
def layOver (found declared : Option Json) : MetaKey → Option Json
  | .bag =>
    match found, declared with
    | some (.object extracted), some (.object bag) =>
      some ((Bag.ofMembers bag).extendWith extracted).toJson
    | _, _ => found.or declared
  | _ => found.or declared

/-- The field of a route for a key. With `override`, a key that only the running page knows is
deferred, and otherwise the page's value counts. Without, the route's own value counts, and what it
lacks is deferred if the page has it. -/
def Route.field? (override : Bool) (found : Option PageMeta) (route : Route) (key : MetaKey) :
    Option Field :=
  let dynamic := found.any fun m => m.isDynamic key
  let value := found.bind fun m => m.value? key
  let declared := route.declared? key
  if override then
    if dynamic then some (.deferred key declared) else (layOver value declared key).map .static
  else
    match declared with
    | some value => some (.static value)
    | none => if dynamic || value.isSome then some (.deferred key value) else none

/-- The record of a route. -/
def Route.record (override : Bool) (metas : Metas) (route : Route) : Record :=
  let found := route.found? metas
  let field := route.field? override found
  { name := field .name
    path := (field .path).getD (.static (.string route.path))
    file := route.file
    mode := route.mode
    props := field .props
    aliases := field .aliases
    redirect := field .redirect
    bag := field .bag
    module := route.file.map fun file => .ofPage file found }

/-- The records of a forest of routes. -/
def normalize (override : Bool) (metas : Metas) (forest : Forest Route) : Forest Record :=
  Forest.map (Route.record override metas) forest

end FileRoutes
