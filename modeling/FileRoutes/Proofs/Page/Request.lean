import FileRoutes.Proofs.Page.Batch

/-!
# Requests to an extractor

An extractor is asked for the metadata of texts, of files and of batches of files, and is told to
forget a file, in any order; the disk may change in any way from one request to the next.

* `Request`, `Answer`: what an extractor can be asked for, and what it answers.
* `Request.fresh`: the answer by extraction alone, without a cache.
* `Extractor.answers`: the answers to a list of requests. `answer_spec` says that one answer is the
  fresh one and leaves a sound extractor behind, `answers_spec` says it of a list.
* `Cache.contains_get`, `Cache.contains_insert`, `Cache.contains_invalidate`: whether a file has an
  entry after an operation.
* `Extractor.answers_eq_map_fresh`: the cache does not show in any answer.
-/

namespace FileRoutes

variable {call : MetaCall} {a b file : FilePath}

/-! ## Requests -/

/-- What an extractor can be asked for. Files are read from the disk as it is at that moment. -/
inductive Request where
  | text (source : String) (file : FilePath)
  | file (disk : Disk) (file : FilePath)
  | batch (disk : Disk) (pages : List PageFile)
  | forget (file : FilePath)

/-- What an extractor answers. -/
inductive Answer where
  | outcome (outcome : Outcome)
  | report (report : Report)
  | done

/-- The answer by extraction alone. A batch has its metas and its failures in the order of its
distinct files. -/
def Request.fresh (call : MetaCall) : Request → Answer
  | .text source file => .outcome (extract call file source)
  | .file disk file => .outcome (Extractor.freshOutcome call disk file)
  | .batch disk pages =>
    let files := distinctFiles (pages.map PageFile.file)
    .report
      { metas := files.filterMap fun file => (Extractor.freshOutcome call disk file).known? file
        failures := files.filterMap fun file => (Extractor.freshOutcome call disk file).failed? file
        filesRead := files.length }
  | .forget _ => .done

/-! ## Entries -/

namespace Cache

variable {cache : Cache}

/-- Two spellings of one path have the same entry. -/
theorem contains_congr (h : a.Same b) : cache.contains a = cache.contains b := by
  have same : ∀ entry : CacheEntry, entry.file.Same a ↔ entry.file.Same b :=
    fun entry => ⟨fun ha => ha.trans h, fun hb => hb.trans h.symm⟩
  unfold contains find?
  simp only [same]

theorem contains_invalidate (cache : Cache) (file : FilePath) :
    (cache.invalidate file).contains file = false := by
  unfold contains find? invalidate
  rw [List.find?_filter]
  simp

theorem contains_insert (cache : Cache) (file : FilePath) (text : String)
    (found : Option PageMeta) : (cache.insert file text found).contains file = true := by
  have spelled : (((cache.find? file).map CacheEntry.file).getD file).Same file := by
    cases hf : cache.find? file with
    | none => exact .refl file
    | some entry => exact (find?_spec hf).2
  unfold contains find? insert
  simp [spelled]

/-- Asking for a text leaves the file an entry exactly if it is answered. -/
theorem contains_get (cache : Cache) (file : FilePath) (text : String) :
    (cache.get file text).2.contains file = (cache.get file text).1.isSome := by
  unfold get
  split
  · rename_i entry hf
    split
    · show (cache.find? file).isSome = true
      rw [hf]
      rfl
    · exact contains_invalidate cache file
  · rename_i hf
    show (cache.find? file).isSome = false
    rw [hf]
    rfl

end Cache

/-! ## Answers -/

namespace Extractor

variable {x : Extractor}

/-- The answer to a request. -/
def answer (x : Extractor) : Request → Answer × Extractor
  | .text source file => (.outcome (x.extract source file).1, (x.extract source file).2)
  | .file disk file => (.outcome (x.extractFile disk file).1, (x.extractFile disk file).2)
  | .batch disk pages => (.report (x.extractFiles disk pages).1, (x.extractFiles disk pages).2)
  | .forget file => (.done, { x with cache := x.cache.invalidate file })

/-- The answers to a list of requests, one after the other. -/
def answers (x : Extractor) : List Request → List Answer × Extractor
  | [] => ([], x)
  | request :: rest =>
    ((x.answer request).1 :: ((x.answer request).2.answers rest).1,
      ((x.answer request).2.answers rest).2)

/-- A text that is asked for has an entry afterwards exactly if it could be extracted. -/
theorem contains_extract (x : Extractor) (source : String) (file : FilePath) :
    (x.extract source file).2.cache.contains file = (x.extract source file).1.isOk := by
  have asked := x.cache.contains_get file source
  unfold extract
  split
  · rename_i found cache hg
    rw [hg] at asked
    exact asked
  · rename_i cache hg
    rw [hg] at asked
    split
    · exact cache.contains_insert file source _
    · exact asked

/-- A file that is asked for has an entry afterwards exactly if it could be extracted. -/
theorem contains_extractFile (x : Extractor) (disk : Disk) (file : FilePath) :
    (x.extractFile disk file).2.cache.contains file = (x.extractFile disk file).1.isOk := by
  unfold extractFile
  split
  · exact x.contains_extract _ file
  · exact x.cache.contains_invalidate file

/-- **One answer is the fresh one**, and leaves a sound extractor behind. -/
theorem answer_spec (h : x.SoundFor call) (request : Request) :
    (x.answer request).1 = request.fresh call ∧ (x.answer request).2.SoundFor call := by
  cases request with
  | text source file =>
    obtain ⟨fresh, sound⟩ := extract_spec h source file
    exact ⟨congrArg Answer.outcome fresh, sound⟩
  | file disk file =>
    obtain ⟨fresh, sound⟩ := extractFile_spec h disk file
    exact ⟨congrArg Answer.outcome fresh, sound⟩
  | batch disk pages =>
    obtain ⟨fresh, sound⟩ := extractFiles_spec h disk pages
    exact ⟨congrArg Answer.report (fresh.trans (freshReport_eq call disk pages)), sound⟩
  | forget file => exact ⟨rfl, h.call_eq, h.faithful.invalidate file⟩

theorem answers_spec :
    ∀ (requests : List Request) (x : Extractor), x.SoundFor call →
      (x.answers requests).1 = requests.map (Request.fresh call) ∧
        (x.answers requests).2.SoundFor call
  | [], _, h => ⟨rfl, h⟩
  | request :: rest, x, h => by
    obtain ⟨fresh, sound⟩ := answer_spec h request
    obtain ⟨others, sound'⟩ := answers_spec rest (x.answer request).2 sound
    refine ⟨?_, sound'⟩
    rw [List.map_cons, ← fresh, ← others]
    rfl

/-- **The cache does not show in any answer.** Whatever a new extractor is asked for, and whatever
changes on disk in between, each answer is the one that extraction gives without a cache. At every
point of such a run each entry of the cache holds what extracting its text gives for its path, and
once a text or a file is extracted, the cache has an entry for its path, in whatever spelling, exactly
if the extraction succeeded. -/
theorem answers_eq_map_fresh (call : MetaCall) (requests : List Request) :
    let x := (answers { call } requests).2
    (answers { call } requests).1 = requests.map (Request.fresh call) ∧
      x.call = call ∧
      (∀ entry ∈ x.cache.entries,
        FileRoutes.extract call entry.file entry.text = .ok entry.found) ∧
      ∀ file spelling, spelling.Same file →
        (∀ source, (x.extract source file).2.cache.contains spelling =
          (x.extract source file).1.isOk) ∧
        ∀ disk, (x.extractFile disk file).2.cache.contains spelling =
          (x.extractFile disk file).1.isOk := by
  intro x
  obtain ⟨fresh, sound⟩ := answers_spec requests { call } (soundFor_new call)
  refine ⟨fresh, sound.call_eq, sound.faithful, fun file spelling same => ⟨?_, ?_⟩⟩
  · intro source
    rw [Cache.contains_congr same, contains_extract]
  · intro disk
    rw [Cache.contains_congr same, contains_extractFile]

end Extractor

end FileRoutes
