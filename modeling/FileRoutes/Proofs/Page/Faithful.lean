import FileRoutes.Page.Extractor
import FileRoutes.Proofs.Page.Search

/-!
# Extraction through the cache

What an extractor answers from its cache is what extracting anew gives. The invariant is that every
entry of the cache holds the metadata of its own text; it says nothing of the spelling of a path,
because a successful extraction depends on the extension of the path only.

* `Cache.Faithful`: every entry is the result of extracting its text.
* `Extractor.SoundFor`: an extractor for the given calls, with a faithful cache.
* `Extractor.extract_spec`, `Extractor.extractFile_spec`, `Extractor.extractFiles_spec`: one
  extraction, one file and several files give what `extract`, `Extractor.freshOutcome` and
  `Extractor.freshReport` give without a cache, and leave a sound extractor behind.
-/

namespace FileRoutes

variable {call : MetaCall} {a b file : FilePath} {source text : String} {found : Option PageMeta}

/-! ## Extraction and the spelling of a path -/

theorem SourceKind.ofFile?_congr (h : a.Same b) :
    SourceKind.ofFile? a = SourceKind.ofFile? b := by
  unfold SourceKind.ofFile?
  rw [FilePath.extension?_congr h]

theorem sightings_congr (h : a.Same b) (parse : Script.Dialect → String → Option Script.Program)
    (name source : String) :
    sightings parse name a source = sightings parse name b source := by
  unfold sightings
  rw [SourceKind.ofFile?_congr h]

/-- Only the errors of a search name the file. -/
theorem settle_ok_congr (a b : FilePath) {seen : List Sighting}
    (h : settle call a 0 none seen = .ok found) : settle call b 0 none seen = .ok found := by
  cases found with
  | none => exact settle_eq_none_iff.2 (settle_eq_none_iff.1 h)
  | some m => exact settle_eq_some_iff.2 (settle_eq_some_iff.1 h)

/-- Two spellings of one path have the same metadata. -/
theorem extract_ok_congr (h : a.Same b) (ha : extract call a source = .ok found) :
    extract call b source = .ok found := by
  unfold extract extractWith at ha ⊢
  rw [← sightings_congr h]
  exact settle_ok_congr a b ha

/-! ## The cache -/

namespace Cache

variable {cache : Cache} {entry : CacheEntry}

/-- Every entry holds what extracting its text gives. -/
def Faithful (call : MetaCall) (cache : Cache) : Prop :=
  ∀ entry ∈ cache.entries, FileRoutes.extract call entry.file entry.text = .ok entry.found

theorem faithful_empty (call : MetaCall) : Faithful call {} := by
  intro entry hm
  cases hm

theorem find?_spec (h : cache.find? file = some entry) :
    entry ∈ cache.entries ∧ entry.file.Same file := by
  unfold find? at h
  exact ⟨List.mem_of_find?_eq_some h, by simpa using List.find?_some h⟩

theorem Faithful.invalidate (h : cache.Faithful call) (file : FilePath) :
    (cache.invalidate file).Faithful call := by
  intro entry hm
  exact h entry (List.mem_filter.1 hm).1

theorem Faithful.insert (h : cache.Faithful call) (hx : extract call file text = .ok found) :
    (cache.insert file text found).Faithful call := by
  unfold Cache.insert
  intro entry hm
  rcases List.mem_cons.1 hm with rfl | hm
  · -- the entry keeps an older spelling of the path, which makes no difference to its metadata
    cases hf : cache.find? file with
    | none => simpa using hx
    | some old =>
      have hs := (find?_spec hf).2
      simpa using extract_ok_congr hs.symm hx
  · exact h.invalidate file entry hm

/-- An answer of a faithful cache is the metadata of exactly that text. -/
theorem Faithful.get_fst (h : cache.Faithful call) (hg : (cache.get file text).1 = some found) :
    extract call file text = .ok found := by
  unfold Cache.get at hg
  split at hg
  · rename_i entry hf
    obtain ⟨hm, hs⟩ := find?_spec hf
    split at hg
    · rename_i ht
      subst ht
      cases hg
      exact extract_ok_congr hs (h entry hm)
    · cases hg
  · cases hg

theorem Faithful.get_snd (h : cache.Faithful call) (file : FilePath) (text : String) :
    (cache.get file text).2.Faithful call := by
  unfold Cache.get
  split
  · split
    · exact h
    · exact h.invalidate file
  · exact h

end Cache

/-! ## Extractors -/

namespace Extractor

variable {x : Extractor} {disk : Disk}

/-- An extractor of pages that declare metadata by the given call, with a faithful cache. -/
structure SoundFor (call : MetaCall) (x : Extractor) : Prop where
  call_eq : x.call = call
  faithful : x.cache.Faithful call

theorem soundFor_new (call : MetaCall) : SoundFor call { call := call } :=
  ⟨rfl, Cache.faithful_empty call⟩

/-- What a file on disk declares, without a cache. -/
def freshOutcome (call : MetaCall) (disk : Disk) (file : FilePath) : Outcome :=
  match disk.read file with
  | .ok source => FileRoutes.extract call file source
  | .error failure => .error (.read file failure)

/-- What several files declare, without a cache. -/
def freshReport (call : MetaCall) (disk : Disk) (files : List PageFile) : Report :=
  let distinct := distinctFiles (files.map PageFile.file)
  distinct.foldl (fun report file => report.add file (freshOutcome call disk file))
    { filesRead := distinct.length }

/-- **A hit gives what a miss would compute**, and either way the extractor stays sound. -/
theorem extract_spec (h : x.SoundFor call) (source : String) (file : FilePath) :
    (x.extract source file).1 = FileRoutes.extract call file source ∧
      (x.extract source file).2.SoundFor call := by
  obtain ⟨rfl, faithful⟩ := h
  have kept := faithful.get_snd file source
  unfold Extractor.extract
  split
  · rename_i found cache hg
    rw [hg] at kept
    have hit : FileRoutes.extract x.call file source = .ok found := faithful.get_fst (by rw [hg])
    exact ⟨hit.symm, rfl, kept⟩
  · rename_i cache hg
    rw [hg] at kept
    split
    · rename_i found hx
      exact ⟨hx.symm, rfl, kept.insert hx⟩
    · rename_i error hx
      exact ⟨hx.symm, rfl, kept⟩

theorem extractFile_spec (h : x.SoundFor call) (disk : Disk) (file : FilePath) :
    (x.extractFile disk file).1 = freshOutcome call disk file ∧
      (x.extractFile disk file).2.SoundFor call := by
  unfold Extractor.extractFile freshOutcome
  cases disk.read file with
  | ok source => exact extract_spec h source file
  | error failure => exact ⟨rfl, h.call_eq, h.faithful.invalidate file⟩

/-- One more file: the report grows by the fresh outcome. -/
theorem extractStep_spec (h : x.SoundFor call) (disk : Disk) (report : Report) (file : FilePath) :
    (extractStep disk (report, x) file).1 = report.add file (freshOutcome call disk file) ∧
      (extractStep disk (report, x) file).2.SoundFor call := by
  obtain ⟨hr, hs⟩ := extractFile_spec h disk file
  unfold extractStep
  exact ⟨by rw [← hr], hs⟩

theorem foldl_extractStep_spec (disk : Disk) :
    ∀ (files : List FilePath) (report : Report) (x : Extractor), x.SoundFor call →
      (files.foldl (extractStep disk) (report, x)).1 =
          files.foldl (fun report file => report.add file (freshOutcome call disk file)) report ∧
        (files.foldl (extractStep disk) (report, x)).2.SoundFor call
  | [], _, _, h => ⟨rfl, h⟩
  | file :: rest, report, x, h => by
    obtain ⟨hr, hs⟩ := extractStep_spec h disk report file
    obtain ⟨ih, hx⟩ := foldl_extractStep_spec disk rest
      (report.add file (freshOutcome call disk file)) (extractStep disk (report, x) file).2 hs
    rw [List.foldl_cons, List.foldl_cons, ← ih]
    rw [← hr] at hx ⊢
    exact ⟨rfl, hx⟩

/-- **A batch gives the report of fresh extractions**, whatever the cache holds. -/
theorem extractFiles_spec (h : x.SoundFor call) (disk : Disk) (files : List PageFile) :
    (x.extractFiles disk files).1 = freshReport call disk files ∧
      (x.extractFiles disk files).2.SoundFor call := by
  unfold extractFiles freshReport
  exact foldl_extractStep_spec disk _ _ x h

end Extractor

end FileRoutes
