import FileRoutes.Page.Disk

/-!
# Reading page files

What a path leads to is decided by its components. A spelling with more dots and slashes than another
one may fail to lead anywhere, but where both spellings can be read they give the same text.

* `Disk.passed`, `Disk.passedBy`: the locations that a path passes before the one it spells.
* `Disk.locate_eq_ok_iff`, `Disk.find_eq_ok_iff`: a path leads to the location it spells, and does so
  exactly if it passes directories only.
* `Disk.read_eq_ok_iff`: the text of a file is that of the location its path leads to.
* `Disk.read_eq_of_same`: two spellings of one path give the same text.
* `Disk.absolute`, `Disk.read_absolute`: every file is read by its absolute path.
-/

namespace FileRoutes.Disk

open FilePath (Component)

variable {disk : Disk} {location result : Location} {a b file : FilePath} {text other : String}

/-! ## Following a path -/

/-- The locations that the pieces of a path pass before the one they spell. -/
def passed (location : Location) : (pieces : List (List Char)) → List Location
  | [] => []
  | piece :: rest => location :: passed (next location piece) rest

/-- The locations that a path passes before the one it spells. -/
def passedBy (disk : Disk) (file : FilePath) : List Location :=
  let pieces := Text.splitOn '/' file.text.toList
  passed (disk.origin pieces) pieces

/-- **Pieces lead to the location they spell, and do so exactly through directories.** -/
theorem locate_eq_ok_iff : ∀ {pieces : List (List Char)} {location : Location},
    disk.locate location pieces = .ok result ↔
      pieces.foldl next location = result ∧
        ∀ other ∈ passed location pieces, disk.entry? other = some .directory
  | [], location => by simp [locate, passed]
  | piece :: rest, location => by
    rw [locate, List.foldl_cons, passed, List.forall_mem_cons]
    split
    · rename_i directory
      rw [locate_eq_ok_iff]
      simp [directory]
    · rename_i entry other stands
      have blocked : disk.entry? location ≠ some .directory := fun directory =>
        other (Option.some.inj (stands.symm.trans directory))
      simp [blocked]
    · rename_i missing
      simp [missing]

/-- Following pieces is following their components. -/
theorem foldl_next (pieces : List (List Char)) (location : Location) :
    pieces.foldl next location =
      (pieces.filterMap Component.ofPiece?).foldl Component.follow location := by
  rw [List.foldl_filterMap]
  congr 1
  funext location piece
  unfold next
  cases Component.ofPiece? piece <;> rfl

/-- The pieces of a path spell the location that its components spell. -/
theorem foldl_next_origin (named : file.text ≠ "") :
    (Text.splitOn '/' file.text.toList).foldl next
        (disk.origin (Text.splitOn '/' file.text.toList)) = disk.locationOf file := by
  have named : Text.splitOn '/' file.text.toList ≠ [[]] := by
    rwa [ne_eq, Text.splitOn_eq_nil_singleton_iff, String.toList_eq_nil_iff]
  unfold locationOf FilePath.components
  generalize Text.splitOn '/' file.text.toList = pieces at named ⊢
  rw [foldl_next]
  split
  · contradiction
  · rfl
  · rfl
  · rename_i absolute _
    have relative : pieces.head? ≠ some [] := by
      intro first
      obtain ⟨rest, split⟩ := List.head?_eq_some_iff.1 first
      exact absolute rest split
    rw [origin, if_neg relative]

/-- **A path leads to the location it spells, and does so exactly through directories.** -/
theorem find_eq_ok_iff : disk.find file = .ok location ↔
    file.text ≠ "" ∧ disk.locationOf file = location ∧
      ∀ other ∈ disk.passedBy file, disk.entry? other = some .directory := by
  unfold find
  by_cases named : file.text = ""
  · simp [named]
  · rw [if_neg named, locate_eq_ok_iff, foldl_next_origin named]
    simp [named, passedBy]

/-! ## Reading -/

/-- A text is read exactly if it stands where the path leads. -/
theorem read_eq_ok_iff : disk.read file = .ok text ↔
    ∃ location, disk.find file = .ok location ∧ disk.readAt location = .ok text := by
  unfold read
  cases disk.find file with
  | error failure => simp [bind, Except.bind]
  | ok location => simp [bind, Except.bind]

/-- **A text that is read stands at the location that the path spells.** -/
theorem read_spec (h : disk.read file = .ok text) : disk.readAt (disk.locationOf file) = .ok text := by
  obtain ⟨location, found, stands⟩ := read_eq_ok_iff.1 h
  rw [(find_eq_ok_iff.1 found).2.1]
  exact stands

/-- **Two spellings of one path that can be read give the same text.** -/
theorem read_eq_of_same (same : a.Same b) (ha : disk.read a = .ok text)
    (hb : disk.read b = .ok other) : text = other := by
  have here := read_spec ha
  unfold locationOf at here
  rw [same] at here
  exact Except.ok.inj (here.symm.trans (read_spec hb))

/-! ## Absolute paths -/

/-- The absolute path of a location below the root. -/
def absolute (location : Location) : FilePath :=
  ⟨String.ofList (['/'].intercalate ([] :: location))⟩

/-- A name that a file or directory can have: it is no step of a path, and has no slash in it. -/
def IsName (name : List Char) : Prop :=
  Component.ofPiece? name = some (.normal name) ∧ '/' ∉ name

theorem next_of_isName {name : List Char} (h : IsName name) (location : Location) :
    next location name = location ++ [name] := by
  unfold next
  rw [h.1]
  rfl

theorem foldl_next_of_isName :
    ∀ {names : List (List Char)} (location : Location), (∀ name ∈ names, IsName name) →
      names.foldl next location = location ++ names
  | [], location, _ => (List.append_nil location).symm
  | name :: rest, location, h => by
    rw [List.forall_mem_cons] at h
    rw [List.foldl_cons, next_of_isName h.1, foldl_next_of_isName _ h.2, List.append_assoc,
      List.singleton_append]

/-- Names pass the locations above the one that they spell. -/
theorem above_of_mem_passed :
    ∀ {names : List (List Char)} {location : Location}, (∀ name ∈ names, IsName name) →
      ∀ other ∈ passed location names, other <+: location ++ names ∧ other ≠ location ++ names
  | name :: rest, location, h, other, hm => by
    rw [List.forall_mem_cons] at h
    rw [passed, List.mem_cons] at hm
    rcases hm with rfl | hm
    · simp
    · rw [next_of_isName h.1] at hm
      simpa using above_of_mem_passed h.2 other hm

/-- The absolute path of a location leads there, if the locations above it are directories. -/
theorem find_absolute (below : location ≠ []) (names : ∀ name ∈ location, IsName name)
    (above : ∀ other, other <+: location → other ≠ location →
      disk.entry? other = some .directory) : disk.find (absolute location) = .ok location := by
  have pieces : Text.splitOn '/' (absolute location).text.toList = [] :: location := by
    unfold absolute
    rw [String.toList_ofList]
    refine Text.splitOn_intercalate (List.cons_ne_nil _ _) (List.forall_mem_cons.2 ⟨?_, ?_⟩)
    · exact List.not_mem_nil
    · exact fun name hn => (names name hn).2
  have named : (absolute location).text ≠ "" := by
    intro empty
    rw [empty] at pieces
    exact below (List.cons.inj pieces).2.symm
  refine find_eq_ok_iff.2 ⟨named, ?_, ?_⟩
  · rw [← foldl_next_origin named, pieces]
    exact foldl_next_of_isName [] names
  · unfold passedBy
    simp only [pieces]
    intro other hm
    rcases List.mem_cons.1 hm with rfl | hm
    · rfl
    · obtain ⟨up, apart⟩ := above_of_mem_passed names other hm
      exact above other up apart

/-- **Every file is read by its absolute path**, if directories lead to it. -/
theorem read_absolute (below : location ≠ []) (names : ∀ name ∈ location, IsName name)
    (above : ∀ other, other <+: location → other ≠ location →
      disk.entry? other = some .directory) : disk.read (absolute location) = disk.readAt location := by
  unfold read
  rw [find_absolute below names above]
  rfl

/-- A file below the root is read by its absolute path, and from the working directory. -/
example :
    let disk := ({} : Disk).write "/app/a.ts" "x".toUTF8.toList
    (disk.read ⟨"/app//./a.ts"⟩).toOption = some "x" ∧
      (disk.read ⟨"../app/a.ts"⟩).toOption = some "x" := by
  decide +kernel

end FileRoutes.Disk
