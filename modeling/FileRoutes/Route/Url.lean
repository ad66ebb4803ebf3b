import FileRoutes.Text.Split

/-!
# Joining route paths

* `Url.join`: a path under another one, with exactly one slash between them.
* `Url.full`: the path from the root through the paths of a route's ancestors.
* `Url.collapseIndex`: the path of a directory in place of the path of its index page.
* `Url.hasDoubledSlash`: whether two slashes stand side by side.
-/

namespace FileRoutes.Url

/-- Joins two paths with one slash; an empty path and a bare slash add nothing. -/
def joinChars (base input : List Char) : List Char :=
  if input = [] ∨ input = ['/'] then base
  else if base = [] then input
  else base ++ (if base.getLast? = some '/' then [] else ['/']) ++ input.dropWhile (· == '/')

/-- Joins two paths with one slash; an empty path and a bare slash add nothing. -/
def join (base input : String) : String := String.ofList (joinChars base.toList input.toList)

/-- The path with a slash in front, unless it has one. -/
def leadingSlashChars (path : List Char) : List Char :=
  if path.head? = some '/' then path else '/' :: path

/-- The path with a slash in front, unless it has one. -/
def leadingSlash (path : String) : String := String.ofList (leadingSlashChars path.toList)

/-- The word that names the index page of a directory. -/
def indexWord : String := "index"

/-- A path that ends in `index` without that word and the slash before it, but with a final
slash. -/
def collapseIndexChars (path : List Char) : List Char :=
  match Text.stripSuffix? indexWord.toList path with
  | some rest => (Text.stripSuffix? ['/'] rest).getD rest ++ ['/']
  | none => path

/-- A path that ends in `index` without that word and the slash before it, but with a final
slash. -/
def collapseIndex (path : String) : String := String.ofList (collapseIndexChars path.toList)

/-- The path through a list of paths, each relative to the one before. -/
def full (parts : List String) : String := leadingSlash (parts.foldl join "")

/-- Two slashes stand side by side. -/
def hasDoubledSlash (path : String) : Bool := Text.occursIn ['/', '/'] path.toList

end FileRoutes.Url
