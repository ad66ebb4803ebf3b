import FileRoutes.Diagnostics
import FileRoutes.Page.Extractor
import FileRoutes.Route.Basic
import FileRoutes.Route.FileName
import FileRoutes.Segment.Compile
import FileRoutes.Segment.Tokenize

/-!
# The route forest of page files

Each page file becomes a route. A file becomes a child of the page whose name and path are those of
its own first segments, if there is one; shorter paths are placed first, so that a page stands
before the pages under it.

* `Part`: what a segment adds to the name and the path of a route.
* `place`: puts a route into a forest, following its parts.
* `Route.finalizeName`: a name as it is used, from the segments it was built of.
* `finish`: names and paths in their final form.
* `duplicateNames`: the warnings of the routes whose name and mode occurred before.
* `buildForest`: the forest of a list of files, with its diagnostics.
-/

namespace FileRoutes

/-- What a segment adds to a route: to its name, and to its path. -/
structure Part where
  label : String
  path : String
  deriving DecidableEq, Repr

/-- What the segments of a file add, in order. Segments of group labels alone add nothing, but they
count as following segments. -/
def Part.ofSegments : List Segment.Tokens → List Part
  | [] => []
  | segment :: rest =>
    if Segment.transparent segment.tokens then ofSegments rest
    else
      ⟨Segment.label segment.tokens, Segment.compile segment.tokens (!rest.isEmpty)⟩ ::
        ofSegments rest

/-- The name of a route with one more label. -/
def extendName (name label : String) : String := if name = "" then label else name ++ "/" ++ label

/-- The path of a route with one more part. The index page has the path of its directory, which is
a bare slash at the top. -/
def extendPath (path : String) (part : Part) : String :=
  if part.label = Url.indexWord then if path = "" then "/" else path else Url.join path part.path

/-- The full form of a path with one more part, by which a page is known to the pages under it. -/
def layoutPath (path : String) (part : Part) : String :=
  Url.leadingSlash (Url.join path (Url.collapseIndex part.path))

/-- The route is the page of a name and a path. -/
def Route.isLayout (name path : String) (route : Route) : Bool :=
  route.name == some name && route.path == path

/-- Puts a route into a forest. The name and the path are built part by part; where they are those
of a route already there, the rest goes among its children, with a new path. -/
def place (route : Route) : (name path : String) → List Part → Forest Route → Forest Route
  | name, path, [], forest => forest ++ [.node { route with name := some name, path } []]
  | name, path, part :: parts, forest =>
    let name := extendName name part.label
    match forest.findIdx? fun t => t.label.isLayout name (layoutPath path part) with
    | some i => forest.modify i fun t => .node t.label (place route name "" parts t.children)
    | none => place route name (extendPath path part) parts forest

/-! ## Final form -/

/-- A name as it is used: without the index at its end, and with dashes between its labels. -/
def Route.finalizeName (raw : String) : String :=
  let name := (Text.stripSuffix? ('/' :: Url.indexWord.toList) raw.toList).getD raw.toList
  String.ofList (name.map fun c => if c = '/' then '-' else c)

/-- The name of a route in its final form; an empty name is none. -/
def Route.finalName (route : Route) : Option String :=
  (route.name.map Route.finalizeName).filter (· ≠ "")

/-- The path of a child without its leading slash. -/
def relativePath (path : String) : String :=
  ((Text.stripPrefix? ['/'] path.toList).map String.ofList).getD path

/-- The path of a root, which is never empty. -/
def rootPath (path : String) : String := if path = "" then "/" else path

/-- The final form of a route with children in final form: a child at the path of its parent is the
parent's own view, so the parent has no name. -/
def Route.finish (path : String → String) (route : Route) (children : List Route) : Route :=
  { route with
    name := if children.any fun child => child.path == "" then none else route.finalName
    path := path route.path }

/-- A tree at the top of the forest, with names and paths in their final form. -/
def finishRoot (t : Tree Route) : Tree Route :=
  let children := Forest.mapUp (Route.finish relativePath) t.children
  .node (t.label.finish rootPath (List.map Tree.label children)) children

/-- Names and paths in their final form. -/
def finish (forest : Forest Route) : Forest Route :=
  List.map finishRoot forest

/-! ## Duplicate names -/

/-- The route has the given name and mode. -/
def Route.carries (name : String) (mode : Mode) (route : Route) : Bool :=
  route.name == some name && route.mode == mode

/-- The first route with a name and a mode, other than the one at a position. -/
def otherCarrier? (routes : List Route) (position : Nat) (name : String) (mode : Mode) :
    Option Route :=
  (routes.zipIdx.find? fun entry => entry.2 != position && entry.1.carries name mode).map Prod.fst

/-- A warning for each route whose name and mode were seen before, with the first other one of all
`routes` that has them. Each of the routes that are looked at comes with its position. -/
def nameWarnings (routes : List Route) (seen : List (String × Mode)) :
    List (Route × Nat) → List Warning
  | [] => []
  | (route, position) :: rest =>
    match route.name with
    | none => nameWarnings routes seen rest
    | some name =>
      if seen.contains (name, route.mode) then
        let existing := otherCarrier? routes position name route.mode
        .duplicateName name route.mode route.file (existing.bind Route.file) ::
          nameWarnings routes seen rest
      else nameWarnings routes ((name, route.mode) :: seen) rest

/-- The warnings of a forest: one for each node whose name and mode an earlier one has, too. -/
def duplicateNames (forest : Forest Route) : List Warning :=
  let routes := Forest.preorder forest
  nameWarnings routes [] routes.zipIdx

/-! ## Building -/

/-- The segments of a file in tokens, or the first error in them. -/
def tokenizeAll : List String → Except Segment.Error (List Segment.Tokens)
  | [] => .ok []
  | segment :: rest => do
    let tokens ← Segment.tokenize segment
    return tokens :: (← tokenizeAll rest)

/-- The warnings of a file: one for each character left out of a segment. -/
def ignoredWarnings (file : FilePath) (segments : List String) (tokens : List Segment.Tokens) :
    List Warning :=
  (segments.zip tokens).flatMap fun (segment, tokens) =>
    tokens.ignored.map (.ignoredCharacter file segment)

/-- Puts a file into the forest. A file with a malformed segment leaves the forest as it is. -/
def insertFile (serverComponents : Bool) (state : Forest Route × Diagnostics) (page : PageFile) :
    Forest Route × Diagnostics :=
  let (segments, mode) := FileName.segments serverComponents page.relative
  match tokenizeAll segments with
  | .ok tokens =>
    (place { file := some page.file, mode } "" "" (Part.ofSegments tokens) state.1,
      state.2.warnAll (ignoredWarnings page.file segments tokens))
  | .error error => (state.1, state.2.fileError page.file (.segment error))

/-- Files with shorter paths first, in bytes, and otherwise in the order given. -/
def byLength (pages : List PageFile) : List PageFile :=
  pages.mergeSort fun a b => a.relative.utf8ByteSize ≤ b.relative.utf8ByteSize

/-- The route forest of a list of files, with its diagnostics. -/
def buildForest (serverComponents : Bool) (pages : List PageFile) : Forest Route × Diagnostics :=
  let (placed, diagnostics) := (byLength pages).foldl (insertFile serverComponents) ([], {})
  let forest := finish placed
  (forest, diagnostics.warnAll (duplicateNames forest))

end FileRoutes
