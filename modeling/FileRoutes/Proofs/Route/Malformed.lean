import FileRoutes.Proofs.Route.Duplicates
import FileRoutes.Proofs.Route.Nodes
import FileRoutes.Proofs.Route.Order

/-!
# Malformed pages

A page with a malformed segment drops itself only: it is reported and left out, and neither the forest
nor the warnings are other than if it had not been listed.

* `PageFile.fault?`: the error in the first malformed segment of a page. A page is accepted if there
  is none (`PageFile.accepted_eq_isNone`).
* `insertFile_fst_of_rejected`, `errors_insertFile`: what one page changes, and what it is reported
  with.
* `foldl_insertFile_filter`, `errors_buildForest`: the forest and the errors of a list of pages.
* `buildForest_filter_accepted`: the forest, the warnings and the errors of a build.
-/

namespace FileRoutes

variable {serverComponents : Bool}

/-! ## Faults of pages -/

/-- The error in a segment, if it is malformed. -/
def Segment.fault? (segment : String) : Option Segment.Error :=
  match Segment.tokenize segment with
  | .ok _ => none
  | .error error => some error

/-- The error in the first malformed segment of a page, if there is one. -/
def PageFile.fault? (page : PageFile) : Option Segment.Error :=
  (FileName.segments true page.relative).1.findSome? Segment.fault?

example : PageFile.fault? ⟨"a/[]/()/b.vue", ⟨"b.vue"⟩⟩ = some (.emptyParam "[]") := by
  decide +kernel

/-- Reading segments ends at the first malformed one. -/
theorem tokenizeAll_eq_error_iff {error : Segment.Error} :
    ∀ {segments : List String},
      tokenizeAll segments = .error error ↔ segments.findSome? Segment.fault? = some error
  | [] => by simp [tokenizeAll]
  | segment :: rest => by
    have ih : tokenizeAll rest = .error error ↔ rest.findSome? Segment.fault? = some error :=
      tokenizeAll_eq_error_iff
    rw [tokenizeAll, List.findSome?_cons, Segment.fault?]
    cases Segment.tokenize segment with
    | error fault => simp [bind, Except.bind]
    | ok tokens =>
      rw [← ih]
      cases tokenizeAll rest with
      | error fault => simp [bind, Except.bind]
      | ok others => simp [bind, Except.bind, pure, Except.pure]

namespace PageFile

/-- What becomes of the segments of a page: the error of its fault, or tokens for each of them. -/
theorem fault?_spec (serverComponents : Bool) (page : PageFile) :
    match tokenizeAll (FileName.segments serverComponents page.relative).1 with
    | .ok _ => page.fault? = none
    | .error error => page.fault? = some error := by
  rw [FileName.segments_fst]
  unfold fault?
  cases read : tokenizeAll (FileName.segments true page.relative).1 with
  | error error => exact tokenizeAll_eq_error_iff.1 read
  | ok found =>
    rw [Option.eq_none_iff_forall_ne_some]
    intro error fault
    rw [tokenizeAll_eq_error_iff.2 fault] at read
    cases read

/-- A page is accepted if it has no fault. -/
theorem accepted_eq_isNone (page : PageFile) : page.accepted = page.fault?.isNone := by
  have spec := page.fault?_spec true
  unfold accepted
  split at spec
  · rename_i found read
    rw [read, spec]
    rfl
  · rename_i error read
    rw [read, spec]
    rfl

theorem exists_error_of_rejected (serverComponents : Bool) {page : PageFile}
    (h : page.accepted = false) :
    ∃ error, tokenizeAll (FileName.segments serverComponents page.relative).1 = .error error := by
  unfold accepted at h
  rw [FileName.segments_fst]
  cases read : tokenizeAll (FileName.segments true page.relative).1 with
  | error error => exact ⟨error, rfl⟩
  | ok found =>
    rw [read] at h
    cases h

/-- What a page is reported with, if it has a fault. -/
def rejection? (page : PageFile) : Option FileError :=
  page.fault?.map fun error => ⟨page.file, .segment error⟩

theorem isSome_rejection? (page : PageFile) : page.rejection?.isSome = !page.accepted := by
  unfold rejection?
  rw [Option.isSome_map, accepted_eq_isNone, Option.not_isNone]

end PageFile

/-! ## Inserting pages -/

theorem Diagnostics.errors_warnAll (d : Diagnostics) (warnings : List Warning) :
    (d.warnAll warnings).errors = d.errors := by
  unfold Diagnostics.errors warnAll
  rw [List.filterMap_append, List.filterMap_map]
  have none : warnings.filterMap (fun _ => (none : Option FileError)) = [] :=
    List.filterMap_eq_nil_iff.2 fun _ _ => rfl
  exact (congrArg _ none).trans (List.append_nil _)

theorem Diagnostics.errors_fileError (d : Diagnostics) (file : FilePath) (problem : Problem) :
    (d.fileError file problem).errors = d.errors ++ [⟨file, problem⟩] := by
  unfold Diagnostics.errors fileError
  rw [List.filterMap_append]
  rfl

/-- A page that is not accepted leaves the forest as it is. -/
theorem insertFile_fst_of_rejected {page : PageFile} (h : page.accepted = false)
    (state : Forest Route × Diagnostics) :
    (insertFile serverComponents state page).1 = state.1 := by
  obtain ⟨error, read⟩ := PageFile.exists_error_of_rejected serverComponents h
  unfold insertFile
  simp only [read]

/-- What a page does to the forest does not depend on what was reported before. -/
theorem insertFile_fst_congr {state other : Forest Route × Diagnostics} (h : state.1 = other.1)
    (page : PageFile) :
    (insertFile serverComponents state page).1 = (insertFile serverComponents other page).1 := by
  unfold insertFile
  simp only [h]
  split <;> rfl

/-- **A page that is not accepted is reported**, with its fault. -/
theorem errors_insertFile (state : Forest Route × Diagnostics) (page : PageFile) :
    (insertFile serverComponents state page).2.errors =
      state.2.errors ++ page.rejection?.toList := by
  have spec := page.fault?_spec serverComponents
  unfold insertFile PageFile.rejection?
  simp only
  split
  · rename_i found read
    rw [read] at spec
    rw [Diagnostics.errors_warnAll, spec]
    exact (List.append_nil _).symm
  · rename_i error read
    rw [read] at spec
    rw [Diagnostics.errors_fileError, spec]
    rfl

/-- **Pages that are not accepted leave the forest as it is**, wherever they stand in the list. -/
theorem foldl_insertFile_filter :
    ∀ (pages : List PageFile) {state other : Forest Route × Diagnostics}, state.1 = other.1 →
      (pages.foldl (insertFile serverComponents) state).1 =
        ((pages.filter PageFile.accepted).foldl (insertFile serverComponents) other).1
  | [], _, _, h => h
  | page :: rest, state, other, h => by
    cases accepted : page.accepted with
    | true =>
      rw [List.filter_cons_of_pos accepted]
      exact foldl_insertFile_filter rest (insertFile_fst_congr h page)
    | false =>
      rw [List.filter_cons_of_neg (Bool.eq_false_iff.1 accepted)]
      exact foldl_insertFile_filter rest ((insertFile_fst_of_rejected accepted state).trans h)

theorem errors_foldl_insertFile :
    ∀ (pages : List PageFile) (state : Forest Route × Diagnostics),
      (pages.foldl (insertFile serverComponents) state).2.errors =
        state.2.errors ++ pages.filterMap PageFile.rejection?
  | [], _ => (List.append_nil _).symm
  | page :: rest, state => by
    rw [List.foldl_cons, errors_foldl_insertFile rest, errors_insertFile, List.filterMap_cons,
      List.append_assoc]
    cases page.rejection? <;> rfl

/-- A page that is not accepted is warned of nothing. -/
theorem PageFile.ignored_of_rejected {page : PageFile} (h : page.accepted = false) :
    page.ignored serverComponents = [] := by
  obtain ⟨error, read⟩ := exists_error_of_rejected serverComponents h
  unfold ignored
  simp only [read]

/-! ## Builds -/

/-- **The errors of a build** are those of its pages, shorter paths first. -/
theorem errors_buildForest (serverComponents : Bool) (pages : List PageFile) :
    (buildForest serverComponents pages).2.errors =
      (byLength pages).filterMap PageFile.rejection? := by
  show Diagnostics.errors (Diagnostics.warnAll _ _) = _
  rw [Diagnostics.errors_warnAll, errors_foldl_insertFile]
  rfl

theorem flatMap_ignored_filter (pages : List PageFile) :
    (pages.filter PageFile.accepted).flatMap (PageFile.ignored serverComponents) =
      pages.flatMap (PageFile.ignored serverComponents) := by
  induction pages with
  | nil => rfl
  | cons page rest ih =>
    cases accepted : page.accepted with
    | true =>
      rw [List.filter_cons_of_pos accepted, List.flatMap_cons, List.flatMap_cons, ih]
    | false =>
      rw [List.filter_cons_of_neg (Bool.eq_false_iff.1 accepted), List.flatMap_cons,
        page.ignored_of_rejected accepted, List.nil_append, ih]

/-- **A malformed page drops itself only.** The forest and the warnings of a list of files are those of
the files among them whose segments are all well-formed. Each of the others is reported once, with the
error in its first malformed segment, in the stable order of the lengths of their paths. -/
theorem buildForest_filter_accepted (serverComponents : Bool) (pages : List PageFile) :
    let whole := buildForest serverComponents pages
    let sound := buildForest serverComponents (pages.filter PageFile.accepted)
    whole.1 = sound.1 ∧ whole.2.warnings = sound.2.warnings ∧
      ∃ rejected, StableOrder PageFile.length (pages.filter fun page => !page.accepted) rejected ∧
        List.Forall₂ (fun error page => ∃ fault, page.fault? = some fault ∧
          error = ⟨page.file, .segment fault⟩) whole.2.errors rejected := by
  intro whole sound
  have forest : whole.1 = sound.1 := by
    show finish _ = finish _
    rw [byLength_filter]
    exact congrArg finish (foldl_insertFile_filter (byLength pages) rfl)
  refine ⟨forest, ?warnings, (byLength pages).filter fun page => !page.accepted,
    (stableOrder_byLength pages).filter _, ?errors⟩
  case warnings =>
    rw [warnings_buildForest, warnings_buildForest, byLength_filter, flatMap_ignored_filter, forest]
  case errors =>
    have reported := forall₂_filterMap PageFile.rejection? (byLength pages)
    simp only [PageFile.isSome_rejection?] at reported
    rw [errors_buildForest]
    refine reported.imp fun error page rejected => ?_
    obtain ⟨fault, found, rfl⟩ := Option.map_eq_some_iff.1 rejected
    exact ⟨fault, found, rfl⟩

end FileRoutes
