import FileRoutes.Proofs.Page.Faithful

/-!
# Batches of pages

A batch of pages reads each file once, under the first of its spellings. What the report holds for a
file is what its first spelling gives.

* `exists_mem_distinctFiles`, `pairwise_distinctFiles`: each file has one spelling in the batch.
* `Report.foldl_add`, `Extractor.freshReport_eq`: the entries of a report.
* `Metas.get?_filterMap_cons`: the metadata of a file, by the first file of a batch.
* `Extractor.get?_freshReport`: the metadata of a file that did not fail.
-/

namespace FileRoutes

variable {call : MetaCall} {disk : Disk} {file first : FilePath} {found : Option PageMeta}

/-! ## One spelling of each file -/

theorem exists_mem_distinctFiles :
    ∀ {files : List FilePath}, file ∈ files → ∃ first ∈ distinctFiles files, first.Same file
  | other :: rest, h => by
    unfold distinctFiles
    by_cases hs : other.Same file
    · exact ⟨other, List.mem_cons_self, hs⟩
    · rcases List.mem_cons.1 h with rfl | h
      · exact absurd (FilePath.Same.refl _) hs
      · obtain ⟨first, hm, hf⟩ := exists_mem_distinctFiles h
        refine ⟨first, List.mem_cons_of_mem _ (List.mem_filter.2 ⟨hm, ?_⟩), hf⟩
        simpa using fun hother : other.Same first => hs (hother.trans hf)

theorem mem_of_mem_distinctFiles :
    ∀ {files : List FilePath}, file ∈ distinctFiles files → file ∈ files
  | other :: rest, h => by
    unfold distinctFiles at h
    rcases List.mem_cons.1 h with rfl | h
    · exact List.mem_cons_self
    · exact List.mem_cons_of_mem _ (mem_of_mem_distinctFiles (List.mem_filter.1 h).1)

theorem pairwise_distinctFiles :
    ∀ files : List FilePath, (distinctFiles files).Pairwise fun a b => ¬a.Same b
  | [] => List.Pairwise.nil
  | file :: rest => by
    unfold distinctFiles
    refine List.pairwise_cons.2 ⟨fun other hm => ?_, (pairwise_distinctFiles rest).filter _⟩
    simpa using (List.mem_filter.1 hm).2

/-! ## Reports -/

/-- The entry of a file among the metas, if it declares anything. -/
def Outcome.known? (file : FilePath) : Outcome → Option (FilePath × PageMeta)
  | .ok (some found) => some (file, found)
  | .ok none | .error _ => none

/-- The entry of a file among the failures, if it fails. -/
def Outcome.failed? (file : FilePath) : Outcome → Option (FilePath × ExtractionError)
  | .ok _ => none
  | .error error => some (file, error)

/-- The report of several files, entry by entry. -/
theorem Report.foldl_add (outcome : FilePath → Outcome) :
    ∀ (files : List FilePath) (report : Report),
      files.foldl (fun report file => report.add file (outcome file)) report =
        { metas := report.metas ++ files.filterMap fun file => (outcome file).known? file
          failures := report.failures ++ files.filterMap fun file => (outcome file).failed? file
          filesRead := report.filesRead }
  | [], report => by simp
  | file :: rest, report => by
    rw [List.foldl_cons, Report.foldl_add outcome rest, List.filterMap_cons, List.filterMap_cons]
    rcases ho : outcome file with error | _ | found
    · simp [add, Outcome.known?, Outcome.failed?]
    · rfl
    · simp [add, Outcome.known?, Outcome.failed?]

/-- The report of a batch: each file under its first spelling, with what it gives. -/
theorem Extractor.freshReport_eq (call : MetaCall) (disk : Disk) (pages : List PageFile) :
    freshReport call disk pages =
      { metas := (distinctFiles (pages.map PageFile.file)).filterMap fun file =>
          (freshOutcome call disk file).known? file
        failures := (distinctFiles (pages.map PageFile.file)).filterMap fun file =>
          (freshOutcome call disk file).failed? file
        filesRead := (distinctFiles (pages.map PageFile.file)).length } := by
  unfold freshReport
  rw [Report.foldl_add]
  rfl

/-- The first file of a list gives the metadata of its own path. -/
theorem Metas.get?_filterMap_cons (outcome : FilePath → Outcome) (first file : FilePath)
    (rest : List FilePath) :
    Metas.get? ((first :: rest).filterMap fun file => (outcome file).known? file) file =
      (if first.Same file then ((outcome first).known? first).map Prod.snd else none).or
        (Metas.get? (rest.filterMap fun file => (outcome file).known? file) file) := by
  rw [List.filterMap_cons]
  rcases outcome first with error | _ | found
  · simp [Outcome.known?]
  · simp [Outcome.known?]
  · unfold Metas.get?
    by_cases hs : first.Same file <;> simp [Outcome.known?, hs]

/-- Files whose spellings are those of other paths have no entry. -/
theorem Metas.get?_filterMap_eq_none (outcome : FilePath → Outcome) (file : FilePath) :
    ∀ {files : List FilePath}, (∀ other ∈ files, ¬other.Same file) →
      Metas.get? (files.filterMap fun file => (outcome file).known? file) file = none
  | [], _ => rfl
  | other :: rest, h => by
    have ih := Metas.get?_filterMap_eq_none outcome file fun b hb => h b (List.mem_cons_of_mem _ hb)
    rw [get?_filterMap_cons, if_neg (h other List.mem_cons_self), ih, Option.or_none]

/-- The entry of a file is what its one spelling gives. -/
theorem Metas.get?_filterMap (outcome : FilePath → Outcome) (hs : first.Same file)
    (ho : outcome first = .ok found) :
    ∀ {files : List FilePath}, files.Pairwise (fun a b => ¬a.Same b) → first ∈ files →
      Metas.get? (files.filterMap fun file => (outcome file).known? file) file = found
  | other :: rest, distinct, hm => by
    obtain ⟨apart, distinct⟩ := List.pairwise_cons.1 distinct
    rw [get?_filterMap_cons]
    rcases List.mem_cons.1 hm with rfl | hm
    · have absent := Metas.get?_filterMap_eq_none outcome file fun b hb hbs =>
        apart b hb (hs.trans hbs.symm)
      rw [if_pos hs, absent, Option.or_none, ho]
      cases found <;> rfl
    · have hne : ¬other.Same file := fun h => apart first hm (h.trans hs.symm)
      rw [if_neg hne, Option.none_or, Metas.get?_filterMap outcome hs ho distinct hm]

/-- The metadata of a file depends on the outcomes of its spellings only. -/
theorem Metas.get?_filterMap_congr {one other : FilePath → Outcome} (file : FilePath) :
    ∀ {files : List FilePath},
      (∀ first ∈ files, first.Same file → (one first).known? first = (other first).known? first) →
      Metas.get? (files.filterMap fun first => (one first).known? first) file =
        Metas.get? (files.filterMap fun first => (other first).known? first) file
  | [], _ => rfl
  | first :: rest, h => by
    rw [List.forall_mem_cons] at h
    obtain ⟨here, further⟩ := h
    rw [get?_filterMap_cons, get?_filterMap_cons, Metas.get?_filterMap_congr file further]
    by_cases same : first.Same file
    · rw [here same]
    · rw [if_neg same, if_neg same]

/-- **A file of a batch that did not fail is reported as it was read**, under one of its spellings. -/
theorem Extractor.get?_freshReport {pages : List PageFile} {page : PageFile} (hm : page ∈ pages)
    (hs : page.file.Same file)
    (sound : ∀ failure ∈ (freshReport call disk pages).failures, ¬failure.1.Same file) :
    ∃ first source, first.Same file ∧ disk.read first = .ok source ∧
      FileRoutes.extract call first source = .ok ((freshReport call disk pages).metas.get? file) := by
  obtain ⟨first, hfirst, hsame⟩ := exists_mem_distinctFiles (List.mem_map_of_mem hm)
  replace hsame := hsame.trans hs
  cases ho : freshOutcome call disk first with
  | error error =>
    refine absurd hsame (sound (first, error) ?_)
    rw [freshReport_eq]
    exact List.mem_filterMap.2 ⟨first, hfirst, by rw [ho]; rfl⟩
  | ok found =>
    have entry : (freshReport call disk pages).metas.get? file = found := by
      rw [freshReport_eq]
      exact Metas.get?_filterMap (freshOutcome call disk) hsame ho (pairwise_distinctFiles _) hfirst
    unfold freshOutcome at ho
    cases hr : disk.read first with
    | error failure => simp [hr] at ho
    | ok source => exact ⟨first, source, hsame, hr, by rw [entry]; simpa [hr] using ho⟩

end FileRoutes
