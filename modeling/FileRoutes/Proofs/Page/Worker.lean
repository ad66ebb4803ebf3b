import FileRoutes.Proofs.Page.Batch
import Mathlib

/-!
# Workers

A worker takes one file of a batch: it reads the file, asks the cache, drops an outdated entry,
extracts and stores. Each access to the cache is a step of its own, for between two steps of one
worker the others may do anything.

* `Cache.entriesOf`: the entries of one path. What is done to one path leaves the others alone.
* `Stage`, `Stage.next`: how far a worker is with its file, and its next step.
* `Stage.effect`: what is left of the work comes to, given the entries of the path of the file.
* `Stage.next_spec`: one step counts towards the effect, and concerns one path only.
* `Extractor.extractFile_outcome`: the outcome of the whole work is that of `Extractor.extractFile`.
-/

namespace FileRoutes

variable {call : MetaCall} {disk : Disk} {file other : FilePath} {source : String} {cache : Cache}

/-! ## The entries of one path -/

namespace Cache

/-- The entries of one path. -/
def entriesOf (cache : Cache) (file : FilePath) : List CacheEntry :=
  cache.entries.filter fun entry => entry.file.Same file

/-- How often the cache answered, and how often it did not. -/
def counts (cache : Cache) : Nat × Nat := (cache.hits, cache.misses)

/-- Drops the entry of a file, unless it is for the given text. -/
def evict (cache : Cache) (file : FilePath) (text : String) : Cache :=
  if (cache.find? file).any fun entry => entry.text ≠ text then cache.invalidate file else cache

theorem find?_eq_head? (cache : Cache) (file : FilePath) :
    cache.find? file = (cache.entriesOf file).head? := List.head?_filter.symm

theorem entriesOf_congr (same : file.Same other) : cache.entriesOf file = cache.entriesOf other := by
  unfold entriesOf
  refine List.filter_congr fun entry _ => ?_
  have either : entry.file.Same file ↔ entry.file.Same other :=
    ⟨fun h => h.trans same, fun h => h.trans same.symm⟩
  simp only [either]

theorem entriesOf_invalidate (cache : Cache) (file : FilePath) :
    (cache.invalidate file).entriesOf file = [] := by
  unfold entriesOf invalidate
  rw [List.filter_filter]
  simp

theorem entriesOf_invalidate_of_apart (cache : Cache) (apart : ¬file.Same other) :
    (cache.invalidate file).entriesOf other = cache.entriesOf other := by
  unfold entriesOf invalidate
  rw [List.filter_filter]
  refine List.filter_congr fun entry _ => ?_
  by_cases here : entry.file.Same other
  · have elsewhere : ¬entry.file.Same file := fun h => apart (h.symm.trans here)
    simp [here, elsewhere]
  · simp [here]

/-- The spelling under which an entry of a path is set. -/
def spelling (own : List CacheEntry) (file : FilePath) : FilePath :=
  (own.head?.map CacheEntry.file).getD file

theorem spelling_same (cache : Cache) (file : FilePath) :
    (spelling (cache.entriesOf file) file).Same file := by
  unfold spelling
  cases h : (cache.entriesOf file).head? with
  | none => exact .refl file
  | some entry =>
    have own := List.mem_of_mem_head? h
    simpa using (List.mem_filter.1 own).2

theorem entriesOf_insert (cache : Cache) (file : FilePath) (text : String)
    (found : Option PageMeta) :
    (cache.insert file text found).entriesOf file =
      [⟨spelling (cache.entriesOf file) file, text, found⟩] := by
  have own := cache.spelling_same file
  have rest := cache.entriesOf_invalidate file
  unfold spelling at own ⊢
  unfold insert
  rw [find?_eq_head?]
  unfold entriesOf at rest own ⊢
  rw [List.filter_cons_of_pos (by simpa using own), rest]

theorem entriesOf_insert_of_apart (cache : Cache) (text : String) (found : Option PageMeta)
    (apart : ¬file.Same other) :
    (cache.insert file text found).entriesOf other = cache.entriesOf other := by
  have own := cache.spelling_same file
  have rest := cache.entriesOf_invalidate_of_apart apart
  unfold spelling at own
  unfold insert
  rw [find?_eq_head?]
  unfold entriesOf at rest own ⊢
  rw [List.filter_cons_of_neg, rest]
  simpa using fun h => apart (own.symm.trans h)

theorem counts_evict (cache : Cache) (file : FilePath) (text : String) :
    (cache.evict file text).counts = cache.counts := by
  unfold evict
  split
  · rfl
  · rfl

theorem entriesOf_evict (cache : Cache) (file : FilePath) (text : String) :
    (cache.evict file text).entriesOf file =
      if (cache.entriesOf file).head?.any fun entry => entry.text ≠ text then []
      else cache.entriesOf file := by
  unfold evict
  rw [find?_eq_head?]
  split
  · exact cache.entriesOf_invalidate file
  · rfl

theorem entriesOf_evict_of_apart (cache : Cache) (text : String) (apart : ¬file.Same other) :
    (cache.evict file text).entriesOf other = cache.entriesOf other := by
  unfold evict
  split
  · exact cache.entriesOf_invalidate_of_apart apart
  · rfl

/-- Two caches with the same entries of each path have the same entries. -/
theorem entries_perm {a b : Cache} (h : ∀ file, a.entriesOf file = b.entriesOf file) :
    a.entries.Perm b.entries := by
  rw [List.perm_iff_count]
  intro entry
  have counted (cache : Cache) :
      cache.entries.count entry = (cache.entriesOf entry.file).count entry := by
    unfold entriesOf
    rw [List.count_filter (by simp [FilePath.Same.refl])]
  rw [counted a, counted b, h]

end Cache

/-! ## Stages -/

/-- How far a worker is with a file. -/
inductive Stage where
  | waiting
  | asking (source : String)
  | evicting (source : String)
  | extracting (source : String)
  | storing (source : String) (found : Option PageMeta)
  | forgetting (failure : ReadFailure)
  | done (outcome : Outcome)

/-- What is left of the work on a file comes to: its outcome, the entries of its path in the end, and
how often the cache answers and does not. -/
structure Effect where
  outcome : Outcome
  entries : List CacheEntry
  counts : Nat × Nat

/-- The effect with what was counted before. -/
def Effect.after (effect : Effect) (counts : Nat × Nat) : Effect :=
  { effect with counts := counts + effect.counts }

theorem Effect.after_zero (effect : Effect) : effect.after 0 = effect := by
  unfold Effect.after
  simp

namespace Stage

/-- The next step of the work on a file. -/
def next (call : MetaCall) (disk : Disk) (file : FilePath) (cache : Cache) :
    Stage → Option (Stage × Cache)
  | .waiting =>
    match disk.read file with
    | .ok source => some (.asking source, cache)
    | .error failure => some (.forgetting failure, cache)
  | .asking source =>
    match cache.find? file with
    | some entry =>
      if entry.text = source then some (.done (.ok entry.found), cache.recordHit)
      else some (.evicting source, cache)
    | none => some (.extracting source, cache.recordMiss)
  | .evicting source => some (.extracting source, (cache.evict file source).recordMiss)
  | .extracting source =>
    match FileRoutes.extract call file source with
    | .ok found => some (.storing source found, cache)
    | .error error => some (.done (.error error), cache)
  | .storing source found => some (.done (.ok found), cache.insert file source found)
  | .forgetting failure => some (.done (.error (.read file failure)), cache.invalidate file)
  | .done _ => none

/-- The number of steps that may be left. -/
def rank : Stage → Nat
  | .waiting => 5
  | .asking _ => 4
  | .evicting _ => 3
  | .extracting _ => 2
  | .storing _ _ => 1
  | .forgetting _ => 1
  | .done _ => 0

/-- The effect of what is left of the work on a file, given the entries of its path. -/
def effect (call : MetaCall) (disk : Disk) (file : FilePath) (own : List CacheEntry) :
    Stage → Effect
  | .waiting =>
    match disk.read file with
    | .ok source => effect call disk file own (.asking source)
    | .error failure => effect call disk file own (.forgetting failure)
  | .asking source =>
    match own.head? with
    | some entry =>
      if entry.text = source then ⟨.ok entry.found, own, (1, 0)⟩
      else effect call disk file own (.evicting source)
    | none => (effect call disk file own (.extracting source)).after (0, 1)
  | .evicting source =>
    let kept := if own.head?.any fun entry => entry.text ≠ source then [] else own
    (effect call disk file kept (.extracting source)).after (0, 1)
  | .extracting source =>
    match FileRoutes.extract call file source with
    | .ok found => effect call disk file own (.storing source found)
    | .error error => ⟨.error error, own, 0⟩
  | .storing source found => ⟨.ok found, [⟨Cache.spelling own file, source, found⟩], 0⟩
  | .forgetting failure => ⟨.error (.read file failure), [], 0⟩
  | .done outcome => ⟨outcome, own, 0⟩
  termination_by stage => stage.rank
  decreasing_by all_goals simp [rank]

/-- From one stage and cache to another: fewer steps are left, what was counted counts towards the
effect, and other paths keep their entries. -/
structure Advances (call : MetaCall) (disk : Disk) (file : FilePath) (cache : Cache) (stage : Stage)
    (left : Cache) (after : Stage) : Prop where
  rank_lt : after.rank < stage.rank
  effect_eq : ∃ counts, left.counts = cache.counts + counts ∧
    stage.effect call disk file (cache.entriesOf file) =
      (after.effect call disk file (left.entriesOf file)).after counts
  apart : ∀ other, ¬file.Same other → left.entriesOf other = cache.entriesOf other

variable {stage after : Stage} {left : Cache}

/-- A step that leaves the cache alone. -/
theorem Advances.silent (lt : after.rank < stage.rank)
    (effect_eq : stage.effect call disk file (cache.entriesOf file) =
      after.effect call disk file (cache.entriesOf file)) :
    Advances call disk file cache stage cache after := by
  refine ⟨lt, ⟨0, rfl, ?_⟩, fun _ _ => rfl⟩
  rw [effect_eq, Effect.after_zero]

/-- **A step of a worker counts towards the effect of its work**, and what it does to the cache
concerns the path of its file only. -/
theorem next_spec (h : stage.next call disk file cache = some (after, left)) :
    Advances call disk file cache stage left after := by
  cases stage with
  | waiting =>
    simp only [next] at h
    split at h
    all_goals
      rename_i hr
      cases h
      refine .silent (by simp [rank]) ?_
      rw [effect, hr]
  | asking source =>
    simp only [next] at h
    split at h
    · rename_i entry hf
      rw [Cache.find?_eq_head?] at hf
      split at h
      · rename_i ht
        cases h
        refine ⟨by simp [rank], ⟨(1, 0), rfl, ?_⟩, fun _ _ => rfl⟩
        rw [effect, hf]
        simp only [if_pos ht]
        rw [effect]
        rfl
      · rename_i ht
        cases h
        refine .silent (by simp [rank]) ?_
        rw [effect, hf]
        simp only [if_neg ht]
    · rename_i hf
      rw [Cache.find?_eq_head?] at hf
      cases h
      refine ⟨by simp [rank], ⟨(0, 1), rfl, ?_⟩, fun _ _ => rfl⟩
      rw [effect, hf]
      rfl
  | evicting source =>
    cases h
    refine ⟨by simp [rank], ⟨(0, 1), ?_, ?_⟩, fun other apart => ?_⟩
    · exact congrArg (· + (0, 1)) (cache.counts_evict file source)
    · rw [effect, ← Cache.entriesOf_evict]
      rfl
    · exact cache.entriesOf_evict_of_apart source apart
  | extracting source =>
    simp only [next] at h
    split at h
    · rename_i found hx
      cases h
      refine .silent (by simp [rank]) ?_
      rw [effect, hx]
    · rename_i error hx
      cases h
      refine .silent (by simp [rank]) ?_
      rw [effect, effect, hx]
  | storing source found =>
    cases h
    refine ⟨by simp [rank], ⟨0, rfl, ?_⟩, fun other apart => ?_⟩
    · rw [effect, effect, Cache.entriesOf_insert]
      rfl
    · exact cache.entriesOf_insert_of_apart source found apart
  | forgetting failure =>
    cases h
    refine ⟨by simp [rank], ⟨0, rfl, ?_⟩, fun other apart => ?_⟩
    · rw [effect, effect, Cache.entriesOf_invalidate]
      rfl
    · exact cache.entriesOf_invalidate_of_apart apart
  | done outcome => cases h

theorem exists_next (call : MetaCall) (disk : Disk) (file : FilePath) (cache : Cache)
    (left : ∀ outcome, stage ≠ .done outcome) :
    ∃ result, stage.next call disk file cache = some result := by
  cases stage with
  | waiting => simp only [next]; split <;> exact ⟨_, rfl⟩
  | asking source =>
    simp only [next]
    split
    · split <;> exact ⟨_, rfl⟩
    · exact ⟨_, rfl⟩
  | evicting source => exact ⟨_, rfl⟩
  | extracting source => simp only [next]; split <;> exact ⟨_, rfl⟩
  | storing source found => exact ⟨_, rfl⟩
  | forgetting failure => exact ⟨_, rfl⟩
  | done outcome => exact absurd rfl (left outcome)

/-! ## A worker alone -/

/-- The steps of a worker while all others rest. -/
def Leads (call : MetaCall) (disk : Disk) (file : FilePath) : Stage × Cache → Stage × Cache → Prop :=
  Relation.ReflTransGen fun a b => a.1.next call disk file a.2 = some b

/-- A worker alone takes one step and goes on. -/
theorem Leads.step {a b : Stage × Cache} (h : stage.next call disk file cache = some a)
    (further : Leads call disk file a b) : Leads call disk file (stage, cache) b :=
  Relation.ReflTransGen.head h further

theorem Leads.outcome_eq {a b : Stage × Cache} (leads : Leads call disk file a b) :
    (a.1.effect call disk file (a.2.entriesOf file)).outcome =
      (b.1.effect call disk file (b.2.entriesOf file)).outcome := by
  induction leads with
  | refl => rfl
  | tail _ step ih =>
    obtain ⟨counts, -, effect_eq⟩ := (next_spec step).effect_eq
    rw [ih, effect_eq]
    rfl

end Stage

namespace Extractor

/-- A worker that extracts and stores does what is left of `Extractor.extract` after a miss. -/
theorem leads_extracting (x : Extractor) (disk : Disk) (cache : Cache) (source : String)
    (file : FilePath) :
    let result : Outcome × Extractor :=
      match FileRoutes.extract x.call file source with
      | .ok found => (.ok found, { x with cache := cache.insert file source found })
      | .error error => (.error error, { x with cache })
    Stage.Leads x.call disk file (.extracting source, cache) (.done result.1, result.2.cache) := by
  cases hx : FileRoutes.extract x.call file source with
  | ok found =>
    refine .step (a := (.storing source found, cache)) (by simp only [Stage.next, hx]) ?_
    exact .step rfl .refl
  | error error => exact .step (by simp only [Stage.next, hx]) .refl

theorem extract_leads (x : Extractor) (disk : Disk) (source : String) (file : FilePath) :
    Stage.Leads x.call disk file (.asking source, x.cache)
      (.done (x.extract source file).1, (x.extract source file).2.cache) := by
  have missed cache := leads_extracting x disk cache source file
  unfold Extractor.extract Cache.get
  cases hf : x.cache.find? file with
  | none =>
    refine .step (a := (.extracting source, x.cache.recordMiss)) ?_ (missed _)
    simp only [Stage.next, hf]
  | some entry =>
    by_cases ht : entry.text = source
    · simp only [if_pos ht]
      exact .step (by simp only [Stage.next, hf, if_pos ht]) .refl
    · have stale : x.cache.evict file source = x.cache.invalidate file := by
        unfold Cache.evict
        simp [hf, ht]
      simp only [if_neg ht]
      refine .step (a := (.evicting source, x.cache)) ?_ ?_
      · simp only [Stage.next, hf, if_neg ht]
      · refine .step (a := (.extracting source, (x.cache.invalidate file).recordMiss)) ?_ (missed _)
        rw [← stale]
        rfl

/-- **A worker alone does what `Extractor.extractFile` does.** -/
theorem extractFile_leads (x : Extractor) (disk : Disk) (file : FilePath) :
    Stage.Leads x.call disk file (.waiting, x.cache)
      (.done (x.extractFile disk file).1, (x.extractFile disk file).2.cache) := by
  unfold extractFile
  cases hr : disk.read file with
  | ok source =>
    refine .step (a := (.asking source, x.cache)) (by simp only [Stage.next, hr]) ?_
    exact extract_leads x disk source file
  | error failure =>
    refine .step (a := (.forgetting failure, x.cache)) (by simp only [Stage.next, hr]) ?_
    exact .step rfl .refl

/-- The outcome of a file is the same for all caches that have the same entries of its path. -/
theorem extractFile_outcome (x : Extractor) (disk : Disk) (file : FilePath) :
    (x.extractFile disk file).1 =
      (Stage.waiting.effect x.call disk file (x.cache.entriesOf file)).outcome := by
  rw [(extractFile_leads x disk file).outcome_eq, Stage.effect]

end Extractor

end FileRoutes
