import FileRoutes.Text.Split
import FileRoutes.Route.Mode

/-!
# Names of page files

The path of a page file under the page directory spells its route: directories and the file name are
segments, `.client` or `.server` before the extension is the mode.

* `FileName.stripExtension`: the path without the extension of the file name.
* `FileName.segments`: the segments and the mode of a path.
-/

namespace FileRoutes.FileName

/-- The directory part with its slash, and the file name. -/
def splitDirectory (path : List Char) : List Char × List Char :=
  match Text.splitLast? '/' path with
  | some (directory, name) => (directory ++ ['/'], name)
  | none => ([], path)

/-- The path without the extension of the file name. A dot at the start of the name begins no
extension. -/
def stripExtension (path : List Char) : List Char :=
  let (directory, name) := splitDirectory path
  match Text.splitLast? '.' name with
  | some (base, _) => if base.isEmpty then path else directory ++ base
  | none => path

/-- The mark of server pages at the end of a file name. -/
def serverMark : List Char := ".server".toList

/-- The mark of client pages at the end of a file name. -/
def clientMark : List Char := ".client".toList

/-- The last segment without the mark of its mode, and the mode. Where server pages have no mode of
their own, their mark is taken off all the same. -/
def splitMode (serverComponents : Bool) (name : List Char) : List Char × Mode :=
  match Text.stripSuffix? serverMark name, Text.stripSuffix? clientMark name with
  | some base, _ => (base, if serverComponents then .server else .all)
  | none, some base => (base, .client)
  | none, none => (name, .all)

/-- The segments of a path, and its mode. -/
def segmentChars (serverComponents : Bool) (path : List Char) : List (List Char) × Mode :=
  let pieces := Text.splitOn '/' (stripExtension path)
  let (last, mode) := splitMode serverComponents (pieces.getLast?.getD [])
  (pieces.dropLast ++ [last], mode)

/-- The segments of a path as texts, and its mode. -/
def segments (serverComponents : Bool) (path : String) : List String × Mode :=
  let (pieces, mode) := segmentChars serverComponents path.toList
  (pieces.map String.ofList, mode)

end FileRoutes.FileName
