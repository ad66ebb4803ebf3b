import FileRoutes.Page.Error

/-!
# Page files

A `Disk` is a tree of files and directories. An absolute path starts at its root, a relative one in
the working directory. There are no links.

* `Disk.entry?`: what stands at a location.
* `Disk.locationOf`: the location that a path spells, whatever stands there.
* `Disk.find`: the location that a path leads to. `Disk.locate` follows it piece by piece, and each
  piece needs a directory to start from.
* `Disk.read`: the text of the file a path leads to; `Disk.readAt` is the text at a location.
* `Disk.write`, `Disk.remove`: the disk after a change.
-/

namespace FileRoutes

/-- The names that lead from the root to a file or directory. -/
abbrev Location := List (List Char)

/-- Where a component leads from a location. Nothing is above the root. -/
def FilePath.Component.follow (location : Location) : FilePath.Component → Location
  | .root => []
  | .current => location
  | .parent => location.dropLast
  | .normal name => location ++ [name]

/-- What stands at a location: a file that can be read, a file that cannot, or a directory, which may
be empty. -/
inductive Entry where
  | file (bytes : List UInt8)
  | unreadable (cause : String)
  | directory
  deriving DecidableEq, Repr

/-- The working directory, and what stands below the root: nothing but that directory on a new disk. Of
two entries for one location the first one counts. -/
structure Disk where
  working : Location := ["work".toList]
  entries : List (Location × Entry) := [(working, .directory)]
  deriving Repr, Inhabited

namespace Disk

/-- What stands at a location. The root is a directory. -/
def entry? (disk : Disk) (location : Location) : Option Entry :=
  if location = [] then some .directory else disk.entries.lookup location

/-- The location that a path spells. -/
def locationOf (disk : Disk) (file : FilePath) : Location :=
  file.components.foldl FilePath.Component.follow disk.working

/-- Where a piece of a path leads from a location: an empty piece and a dot stay there. -/
def next (location : Location) (piece : List Char) : Location :=
  match FilePath.Component.ofPiece? piece with
  | some component => component.follow location
  | none => location

/-- Follows the pieces of a path from a location. -/
def locate (disk : Disk) : (location : Location) → (pieces : List (List Char)) →
    Except ReadFailure Location
  | location, [] => .ok location
  | location, piece :: rest =>
    match disk.entry? location with
    | some .directory => disk.locate (next location piece) rest
    | some _ => .error .notDirectory
    | none => .error .notFound

/-- Where the pieces of a path start: at the root if there is nothing before the first slash. -/
def origin (disk : Disk) (pieces : List (List Char)) : Location :=
  if pieces.head? = some [] then [] else disk.working

/-- The location that a path leads to. The path `""` leads nowhere. -/
def find (disk : Disk) (file : FilePath) : Except ReadFailure Location :=
  let pieces := Text.splitOn '/' file.text.toList
  if file.text = "" then .error .notFound else disk.locate (disk.origin pieces) pieces

/-- The text that bytes encode. -/
def decode (bytes : List UInt8) : Except ReadFailure String :=
  match String.fromUTF8? ⟨bytes.toArray⟩ with
  | some text => .ok text
  | none => .error .notText

/-- The text of the file at a location. -/
def readAt (disk : Disk) (location : Location) : Except ReadFailure String :=
  match disk.entry? location with
  | some (.file bytes) => decode bytes
  | some (.unreadable cause) => .error (.other cause)
  | some .directory => .error .isDirectory
  | none => .error .notFound

/-- The text of the file a path leads to. -/
def read (disk : Disk) (file : FilePath) : Except ReadFailure String :=
  disk.find file >>= disk.readAt

/-- The disk after removing a file. -/
def remove (disk : Disk) (path : String) : Disk :=
  { disk with entries := disk.entries.filter fun entry => entry.1 ≠ disk.locationOf ⟨path⟩ }

/-- The disk after writing a file. The directories above it are made where nothing stands. -/
def write (disk : Disk) (path : String) (content : List UInt8) : Disk :=
  let location := disk.locationOf ⟨path⟩
  let above := (List.range location.length).map fun depth => (location.take depth, Entry.directory)
  { disk with entries := (location, .file content) :: (disk.remove path).entries ++ above }

end Disk

end FileRoutes
