import FileRoutes.Text.Split

/-!
# File paths

A `FilePath` keeps its spelling, but what it denotes is decided by its components: repeated and
trailing slashes do not count, nor does a single dot anywhere but at the start.

* `FilePath.components`: the components of a path.
* `FilePath.Same`: two spellings of one path.
* `FilePath.extension?`: the extension of the last component.
-/

namespace FileRoutes

/-- A path as it was spelled. -/
structure FilePath where
  text : String
  deriving DecidableEq, Repr, Inhabited

namespace FilePath

/-- The parts a path consists of. -/
inductive Component where
  | root
  | current
  | parent
  | normal (name : List Char)
  deriving DecidableEq, Repr

/-- The component of a piece between slashes; an empty piece and a dot are none. -/
def Component.ofPiece? : List Char → Option Component
  | [] => none
  | ['.'] => none
  | ['.', '.'] => some .parent
  | name => some (.normal name)

/-- The components of a path. The path `""` has none. -/
def components (path : FilePath) : List Component :=
  match Text.splitOn '/' path.text.toList with
  | [[]] => []
  | [] :: rest => .root :: rest.filterMap Component.ofPiece?
  | ['.'] :: rest => .current :: rest.filterMap Component.ofPiece?
  | pieces => pieces.filterMap Component.ofPiece?

/-- Both spellings have the same components. -/
def Same (a b : FilePath) : Prop := a.components = b.components

instance (a b : FilePath) : Decidable (a.Same b) :=
  inferInstanceAs (Decidable (a.components = b.components))

@[refl] theorem Same.refl (a : FilePath) : a.Same a := Eq.refl a.components

theorem Same.symm {a b : FilePath} (h : a.Same b) : b.Same a := Eq.symm h

theorem Same.trans {a b c : FilePath} (h : a.Same b) (h' : b.Same c) : a.Same c := Eq.trans h h'

/-- The extension of a file name: what follows its last dot, unless that is its first character. -/
def extensionOf? (name : List Char) : Option (List Char) :=
  match Text.splitLast? '.' name with
  | some (_ :: _, after) => some after
  | some ([], _) => none
  | none => none

/-- The extension of the last component, if that is a name. -/
def extension? (path : FilePath) : Option String :=
  match path.components.getLast? with
  | some (.normal name) => (extensionOf? name).map String.ofList
  | _ => none

theorem extension?_congr {a b : FilePath} (h : a.Same b) : a.extension? = b.extension? := by
  unfold extension?
  rw [h]

end FilePath

end FileRoutes
