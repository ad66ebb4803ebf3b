import FileRoutes.Proofs.Page.Batch
import FileRoutes.Proofs.Page.Reading
import Mathlib.Data.List.Basic

/-!
# Changing one file

When one file on disk changes, is added or is removed, every path leads where it led before. Only the
paths that lead to that file read differently, and only their pages declare something else.

* `Disk.DifferAt`: two disks that differ in one file at most.
* `Disk.DifferAt.find_eq_ok_iff`, `Disk.DifferAt.read_eq_ok_iff`: paths lead to the same locations on
  both disks, and to the same texts, the changed file apart.
* `Extractor.known?_of_differAt`: what a page that is not the changed file is known to declare.
* `Extractor.metas_freshReport_eq`, `Extractor.get?_freshReport_congr`: the metas of a batch.
-/

namespace FileRoutes

namespace Disk

variable {disk a b : Disk} {location result : Location} {file : FilePath} {text : String}

/-- The disks differ in the file at a location at most, which may be missing on either of them. It is a
directory on neither. -/
structure DifferAt (location : Location) (a b : Disk) : Prop where
  working : a.working = b.working
  elsewhere : ∀ other, other ≠ location → a.entry? other = b.entry? other
  leaf : a.entry? location ≠ some .directory ∧ b.entry? location ≠ some .directory

theorem DifferAt.symm (h : DifferAt location a b) : DifferAt location b a where
  working := h.working.symm
  elsewhere other hne := (h.elsewhere other hne).symm
  leaf := h.leaf.symm

/-! ## Removing a file -/

/-- What is filtered out by its location is not found, and all else is found as before. -/
theorem lookup_filter_ne (removed location : Location) :
    ∀ entries : List (Location × Entry),
      (entries.filter fun entry => entry.1 ≠ removed).lookup location =
        if location = removed then none else entries.lookup location
  | [] => by simp
  | (other, stands) :: rest => by
    have ih := lookup_filter_ne removed location rest
    by_cases gone : other = removed
    · rw [List.filter_cons_of_neg (by simpa using gone), ih, List.lookup_cons]
      split
      · rfl
      · rename_i kept
        rw [beq_eq_false_iff_ne.2 (gone ▸ kept)]
    · rw [List.filter_cons_of_pos (by simpa using gone), List.lookup_cons, List.lookup_cons, ih]
      by_cases here : location = other
      · subst here
        simp [gone]
      · simp [beq_eq_false_iff_ne.2 here]

theorem entry?_remove (disk : Disk) (path : String) (named : location ≠ []) :
    entry? (disk.remove path) location =
      if location = disk.locationOf ⟨path⟩ then none else disk.entry? location := by
  unfold entry? remove
  rw [if_neg named, if_neg named, lookup_filter_ne]

/-- Removing a file changes the disk in that file. -/
theorem differAt_remove {path : String}
    (leaf : disk.entry? (disk.locationOf ⟨path⟩) ≠ some .directory) :
    DifferAt (disk.locationOf ⟨path⟩) disk (disk.remove path) := by
  have named : disk.locationOf ⟨path⟩ ≠ [] := by
    intro root
    rw [root] at leaf
    exact leaf rfl
  refine ⟨rfl, fun other hne => ?_, leaf, ?_⟩
  · by_cases root : other = []
    · rw [root]
      rfl
    · rw [entry?_remove disk path root, if_neg hne]
  · rw [entry?_remove disk path named, if_pos rfl]
    simp

/-! ## Paths on both disks -/

/-- The changed file is no directory, so the directories of one disk are those of the other. -/
theorem DifferAt.directory (h : DifferAt location a b)
    (directory : a.entry? result = some .directory) : b.entry? result = some .directory := by
  have apart : result ≠ location := by
    rintro rfl
    exact h.leaf.1 directory
  rw [← h.elsewhere result apart]
  exact directory

/-- Where a path leads on one disk, it leads on the other: it passes directories only. -/
theorem DifferAt.find_of_find (h : DifferAt location a b) (found : a.find file = .ok result) :
    b.find file = .ok result := by
  obtain ⟨named, spelled, directories⟩ := find_eq_ok_iff.1 found
  refine find_eq_ok_iff.2 ⟨named, ?_, ?_⟩
  · unfold locationOf at spelled ⊢
    rw [← h.working]
    exact spelled
  · unfold passedBy origin at directories ⊢
    rw [← h.working]
    exact fun other passed => h.directory (directories other passed)

/-- **A path leads to the same location on both disks.** -/
theorem DifferAt.find_eq_ok_iff (h : DifferAt location a b) :
    a.find file = .ok result ↔ b.find file = .ok result :=
  ⟨h.find_of_find, h.symm.find_of_find⟩

/-- **A path that does not lead to the changed file leads to the same text on both disks.** -/
theorem DifferAt.read_eq_ok_iff (h : DifferAt location a b) (apart : a.find file ≠ .ok location) :
    a.read file = .ok text ↔ b.read file = .ok text := by
  rw [Disk.read_eq_ok_iff, Disk.read_eq_ok_iff]
  refine exists_congr fun result => ?_
  rw [← h.find_eq_ok_iff]
  refine and_congr_right fun found => ?_
  have ne : result ≠ location := by
    rintro rfl
    exact apart found
  unfold readAt
  rw [h.elsewhere result ne]

end Disk

/-! ## Extraction -/

namespace Extractor

variable {call : MetaCall} {a b : Disk} {location : Location} {file : FilePath}
  {pages : List PageFile}

/-- If the page leads to the location, it is not known to declare anything: it cannot be read or
parsed, is malformed, or has no call. -/
def Silent (call : MetaCall) (location : Location) (disk : Disk) (file : FilePath) : Prop :=
  disk.find file = .ok location → ∀ m, freshOutcome call disk file ≠ .ok (some m)

theorem silent_iff {disk : Disk} : Silent call location disk file ↔
    ((disk.find file).toOption = some location →
      (freshOutcome call disk file).toOption.join = none) := by
  unfold Silent
  cases disk.find file with
  | error failure => simp [Except.toOption]
  | ok found => rcases freshOutcome call disk file with error | _ | m <;> simp [Except.toOption]

instance (disk : Disk) : Decidable (Silent call location disk file) :=
  decidable_of_iff _ silent_iff.symm

/-- Why a page declares nothing makes no difference. -/
theorem known?_eq_none {file : FilePath} {outcome : Outcome} (h : ∀ m, outcome ≠ .ok (some m)) :
    outcome.known? file = none := by
  rcases outcome with error | _ | m
  · rfl
  · rfl
  · exact absurd rfl (h m)

/-- **A page that is not the changed file is known to declare the same on both disks.** -/
theorem known?_of_differAt (h : Disk.DifferAt location a b) (apart : a.find file ≠ .ok location) :
    (freshOutcome call a file).known? file = (freshOutcome call b file).known? file := by
  unfold freshOutcome
  cases hr : a.read file with
  | ok text => rw [(h.read_eq_ok_iff apart).1 hr]
  | error failure =>
    cases hs : b.read file with
    | error failure' => rfl
    | ok text =>
      rw [(h.read_eq_ok_iff apart).2 hs] at hr
      cases hr

/-- A page is known to declare the same on both disks if the changed file is known to declare nothing
on either of them. -/
theorem known?_of_silent (h : Disk.DifferAt location a b) (sa : Silent call location a file)
    (sb : Silent call location b file) :
    (freshOutcome call a file).known? file = (freshOutcome call b file).known? file := by
  by_cases found : a.find file = .ok location
  · rw [known?_eq_none (sa found), known?_eq_none (sb (h.find_eq_ok_iff.1 found))]
  · exact known?_of_differAt h found

/-! ## Batches -/

/-- The metas of a batch are the same if the changed file is known to declare nothing. -/
theorem metas_freshReport_eq (h : Disk.DifferAt location a b)
    (sa : ∀ page ∈ pages, Silent call location a page.file)
    (sb : ∀ page ∈ pages, Silent call location b page.file) :
    (freshReport call a pages).metas = (freshReport call b pages).metas := by
  rw [freshReport_eq, freshReport_eq]
  refine List.filterMap_congr fun file hf => ?_
  obtain ⟨page, hm, rfl⟩ := List.mem_map.1 (mem_of_mem_distinctFiles hf)
  exact known?_of_silent h (sa page hm) (sb page hm)

/-- A file has the same metadata if no page that spells its path leads to the changed file. -/
theorem get?_freshReport_congr (h : Disk.DifferAt location a b)
    (apart : ∀ page ∈ pages, page.file.Same file → a.find page.file ≠ .ok location) :
    (freshReport call a pages).metas.get? file = (freshReport call b pages).metas.get? file := by
  rw [freshReport_eq, freshReport_eq]
  refine Metas.get?_filterMap_congr file fun first hf same => ?_
  obtain ⟨page, hm, rfl⟩ := List.mem_map.1 (mem_of_mem_distinctFiles hf)
  exact known?_of_differAt h (apart page hm same)

end Extractor

end FileRoutes
