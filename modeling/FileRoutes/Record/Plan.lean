import FileRoutes.Record.Normalize
import FileRoutes.Segment.Percent

/-!
# Plans over route records

* `prerenderPaths`: the full paths that can be rendered ahead of time.
* `routeNames`: the names that are known already.
-/

namespace FileRoutes

mutual

/-- The full paths of a tree below `parent` that are known and belong to a page without parameters.
Nothing is known below a record whose path is not. -/
def Tree.staticPaths (parent : String) : Tree Record → List String
  | .node record children =>
    match record.staticPath? with
    | none => []
    | some path =>
      let full := Url.full [parent, path]
      let here := if record.file.isSome && !Segment.hasParam full then [full] else []
      here ++ Forest.staticPaths full children

/-- The full paths of a forest below `parent` that are known and belong to a page without
parameters. -/
def Forest.staticPaths (parent : String) : Forest Record → List String
  | [] => []
  | t :: ts => t.staticPaths parent ++ Forest.staticPaths parent ts

end

/-- A list with only the first of equal texts. -/
def distinctTexts : List String → List String
  | [] => []
  | text :: rest => text :: (distinctTexts rest).filter (· ≠ text)

/-- The full paths that can be rendered ahead of time, with plain colons, in preorder and each
once. -/
def prerenderPaths (records : Forest Record) : List String :=
  distinctTexts ((Forest.staticPaths "" records).map Segment.unescapeColons)

/-- The names that are known already, in preorder. -/
def routeNames (records : Forest Record) : List String :=
  (Forest.preorder records).filterMap Record.staticName?

end FileRoutes
