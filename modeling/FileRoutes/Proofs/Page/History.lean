import FileRoutes.Proofs.Page.Request
import FileRoutes.Proofs.Page.Worker

/-!
# Histories of a cache

What a cache answers is known from what was done with it: an answer is what was stored last for the
path, as long as it was stored with exactly the text and no question for another text came between.

* `Cache.Use`, `Cache.run`, `Cache.replies`: what is done with a cache, the cache after a list of uses,
  and the answers to the questions among them.
* `Cache.Use.Ends`, `Cache.Holds`: what ends a result, and what a history has stored and not ended.
* `Cache.get_use_of_ends`, `Cache.get_use_of_not_ends`: one use decides what is answered for a path and
  a text, or leaves it as it was; `Cache.get_run_eq_some_iff` says it of a history.
* `Cache.find?_use_of_apart`: one use leaves the entries of other paths alone.
* `Cache.counts_get`, `Cache.counts_run`: what is counted at one use, and in a history.
* `Cache.history_decides`: the history of a cache decides its answers, its entries and its counts.
-/

namespace FileRoutes.Cache

variable {cache : Cache} {file other : FilePath} {text : String} {found : Option PageMeta}

/-! ## Uses -/

/-- What can be done with a cache. -/
inductive Use where
  | get (file : FilePath) (text : String)
  | insert (file : FilePath) (text : String) (found : Option PageMeta)
  | invalidate (file : FilePath)

/-- The path that a use concerns. -/
def Use.path : Use → FilePath
  | .get file _ => file
  | .insert file _ _ => file
  | .invalidate file => file

/-- The cache after a use. -/
def use (cache : Cache) : Use → Cache
  | .get file text => (cache.get file text).2
  | .insert file text found => cache.insert file text found
  | .invalidate file => cache.invalidate file

/-- The cache after a list of uses, one after the other. -/
def run (cache : Cache) (uses : List Use) : Cache := uses.foldl use cache

/-- The answers to the questions among a list of uses, in order. -/
def replies (cache : Cache) : List Use → List (Option (Option PageMeta))
  | [] => []
  | .get file text :: rest => (cache.get file text).1 :: (cache.get file text).2.replies rest
  | .insert file text found :: rest => (cache.insert file text found).replies rest
  | .invalidate file :: rest => (cache.invalidate file).replies rest

/-- The use ends what is held for a text of a path: it sets the entry of the path, drops it, or asks
for another text. -/
def Use.Ends (file : FilePath) (text : String) : Use → Prop
  | .get other asked => other.Same file ∧ asked ≠ text
  | .insert other _ _ => other.Same file
  | .invalidate other => other.Same file

instance (file : FilePath) (text : String) : DecidablePred (Use.Ends file text)
  | .get other asked => inferInstanceAs (Decidable (other.Same file ∧ asked ≠ text))
  | .insert other _ _ => inferInstanceAs (Decidable (other.Same file))
  | .invalidate other => inferInstanceAs (Decidable (other.Same file))

/-- What a use that ends a result leaves to be answered in its place. -/
def Use.leaves? (text : String) : Use → Option (Option PageMeta)
  | .insert _ stored found => if stored = text then some found else none
  | .get _ _ => none
  | .invalidate _ => none

/-- The history has an insertion of the result for the path with exactly the text, and after it no
other insertion for the path, no invalidation of it and no question for another text of it. -/
def Holds (uses : List Use) (file : FilePath) (text : String) (found : Option PageMeta) : Prop :=
  ∃ before spelling after, uses = before ++ .insert spelling text found :: after ∧
    spelling.Same file ∧ ∀ use ∈ after, ¬use.Ends file text

@[simp] theorem use_get (cache : Cache) (file : FilePath) (text : String) :
    cache.use (.get file text) = (cache.get file text).2 := rfl

@[simp] theorem use_insert (cache : Cache) (file : FilePath) (text : String)
    (found : Option PageMeta) :
    cache.use (.insert file text found) = cache.insert file text found := rfl

@[simp] theorem use_invalidate (cache : Cache) (file : FilePath) :
    cache.use (.invalidate file) = cache.invalidate file := rfl

theorem run_concat (cache : Cache) (uses : List Use) (last : Use) :
    cache.run (uses ++ [last]) = (cache.run uses).use last := by
  unfold run
  rw [List.foldl_append, List.foldl_cons, List.foldl_nil]

/-! ## Entries after a use -/

theorem find?_invalidate (cache : Cache) (same : file.Same other) :
    (cache.invalidate file).find? other = none := by
  rw [find?_eq_head?, ← entriesOf_congr same, entriesOf_invalidate]
  rfl

theorem find?_invalidate_of_apart (cache : Cache) (apart : ¬file.Same other) :
    (cache.invalidate file).find? other = cache.find? other := by
  rw [find?_eq_head?, find?_eq_head?, entriesOf_invalidate_of_apart cache apart]

theorem find?_insert (cache : Cache) (text : String) (found : Option PageMeta)
    (same : file.Same other) :
    (cache.insert file text found).find? other =
      some ⟨spelling (cache.entriesOf file) file, text, found⟩ := by
  rw [find?_eq_head?, ← entriesOf_congr same, entriesOf_insert]
  rfl

/-- Asking for a text of a path keeps its entry if it is for that text. -/
theorem find?_get (cache : Cache) (text : String) (same : file.Same other) :
    (cache.get file text).2.find? other = (cache.find? other).filter (·.text = text) := by
  have asked : cache.find? file = cache.find? other := by
    rw [find?_eq_head?, find?_eq_head?, entriesOf_congr same]
  unfold get
  rw [asked]
  split
  · rename_i entry known
    rw [known]
    split
    · rename_i current
      rw [Option.filter_some, if_pos (decide_eq_true current)]
      exact known
    · rename_i outdated
      rw [Option.filter_some, if_neg (mt of_decide_eq_true outdated)]
      exact cache.find?_invalidate same
  · rename_i unknown
    rw [unknown]
    exact unknown

/-- **One use leaves the entries of other paths alone.** -/
theorem find?_use_of_apart (cache : Cache) (use : Use) (apart : ¬use.path.Same other) :
    (cache.use use).find? other = cache.find? other := by
  cases use with
  | get file text =>
    rw [use_get]
    unfold get
    split
    · split
      · rfl
      · exact cache.find?_invalidate_of_apart apart
    · rfl
  | insert file text found =>
    rw [find?_eq_head?, find?_eq_head?]
    exact congrArg List.head? (cache.entriesOf_insert_of_apart text found apart)
  | invalidate file => exact cache.find?_invalidate_of_apart apart

/-! ## Answers after a use -/

/-- A cache answers with the entry of the path if it is for the text. -/
theorem get_fst (cache : Cache) (file : FilePath) (text : String) :
    (cache.get file text).1 = ((cache.find? file).filter (·.text = text)).map CacheEntry.found := by
  unfold get
  split
  · rename_i entry known
    rw [known]
    split
    · rename_i current
      rw [Option.filter_some, if_pos (decide_eq_true current)]
      rfl
    · rename_i outdated
      rw [Option.filter_some, if_neg (mt of_decide_eq_true outdated)]
      rfl
  · rename_i unknown
    rw [unknown]
    rfl

/-- **A use that ends what is held decides the answer.** -/
theorem get_use_of_ends {use : Use} (ends : use.Ends file text) :
    ((cache.use use).get file text).1 = use.leaves? text := by
  rw [get_fst]
  cases use with
  | get other asked =>
    obtain ⟨same, differs⟩ := ends
    rw [use_get, cache.find?_get asked same]
    cases cache.find? file with
    | none => rfl
    | some entry => grind [Use.leaves?]
  | insert other stored found =>
    rw [use_insert, cache.find?_insert stored found ends, Option.filter_some]
    unfold Use.leaves?
    by_cases told : stored = text
    · simp [told]
    · simp [told]
  | invalidate other =>
    rw [use_invalidate, cache.find?_invalidate ends]
    rfl

/-- **Any other use leaves the answer as it was.** -/
theorem get_use_of_not_ends {use : Use} (kept : ¬use.Ends file text) :
    ((cache.use use).get file text).1 = (cache.get file text).1 := by
  rw [get_fst, get_fst]
  by_cases same : use.path.Same file
  · cases use with
    | get other asked =>
      have current : asked = text := by
        by_contra differs
        exact kept ⟨same, differs⟩
      have same : other.Same file := same
      rw [use_get, cache.find?_get asked same, current, Option.filter_filter]
      simp only [Bool.and_self]
    | insert other stored found => exact absurd same kept
    | invalidate other => exact absurd same kept
  · rw [cache.find?_use_of_apart use same]

/-! ## Histories -/

theorem holds_concat_of_ends {uses : List Use} {last : Use} (ends : last.Ends file text) :
    Holds (uses ++ [last]) file text found ↔ last.leaves? text = some found := by
  constructor
  · rintro ⟨before, spelling, after, split, -, kept⟩
    rcases List.eq_nil_or_concat' after with rfl | ⟨init, final, rfl⟩
    · obtain rfl := List.singleton_inj.1 (List.append_inj' split rfl).2
      exact if_pos rfl
    · -- the last use would be one that ends nothing
      rw [← List.cons_append, ← List.append_assoc] at split
      obtain rfl := List.singleton_inj.1 (List.append_inj' split rfl).2
      exact absurd ends (kept last (List.mem_append_right _ List.mem_cons_self))
  · intro left
    cases last with
    | get other asked => cases left
    | invalidate other => cases left
    | insert other stored told =>
      obtain ⟨rfl, told⟩ := Option.ite_none_right_eq_some.1 left
      cases told
      exact ⟨uses, other, [], rfl, ends, fun _ h => absurd h List.not_mem_nil⟩

theorem holds_concat_of_not_ends {uses : List Use} {last : Use} (kept : ¬last.Ends file text) :
    Holds (uses ++ [last]) file text found ↔ Holds uses file text found := by
  constructor
  · rintro ⟨before, spelling, after, split, same, rest⟩
    rcases List.eq_nil_or_concat' after with rfl | ⟨init, final, rfl⟩
    · obtain rfl := List.singleton_inj.1 (List.append_inj' split rfl).2
      exact absurd same kept
    · rw [← List.cons_append, ← List.append_assoc] at split
      obtain ⟨rfl, -⟩ := List.append_inj' split rfl
      exact ⟨before, spelling, init, rfl, same, fun use hm => rest use (List.mem_append_left _ hm)⟩
  · rintro ⟨before, spelling, after, rfl, same, rest⟩
    refine ⟨before, spelling, after ++ [last], by simp, same, ?_⟩
    exact List.forall_mem_append.2 ⟨rest, List.forall_mem_singleton.2 kept⟩

/-- **A cache answers what its history holds.** -/
theorem get_run_eq_some_iff (uses : List Use) :
    ((run {} uses).get file text).1 = some found ↔ Holds uses file text found := by
  induction uses using List.reverseRecOn with
  | nil =>
    constructor
    · intro answer
      cases answer
    · rintro ⟨before, spelling, after, split, -⟩
      simp at split
  | append_singleton uses last ih =>
    rw [run_concat]
    by_cases ends : last.Ends file text
    · rw [get_use_of_ends ends, holds_concat_of_ends ends]
    · rw [get_use_of_not_ends ends, holds_concat_of_not_ends ends]
      exact ih

/-! ## Counts -/

/-- A question is counted by its answer. -/
theorem counts_get (cache : Cache) (file : FilePath) (text : String) :
    (cache.get file text).2.hits = cache.hits + [(cache.get file text).1].countP Option.isSome ∧
      (cache.get file text).2.misses =
        cache.misses + [(cache.get file text).1].countP Option.isNone := by
  unfold get
  split
  · split
    · exact ⟨rfl, rfl⟩
    · exact ⟨rfl, rfl⟩
  · exact ⟨rfl, rfl⟩

/-- **A history counts its answers**: those with a result, and those without. -/
theorem counts_run :
    ∀ (uses : List Use) (cache : Cache),
      (cache.run uses).hits = cache.hits + (cache.replies uses).countP Option.isSome ∧
        (cache.run uses).misses = cache.misses + (cache.replies uses).countP Option.isNone
  | [], _ => ⟨rfl, rfl⟩
  | .get file text :: rest, cache => by
    obtain ⟨hit, missed⟩ := cache.counts_get file text
    obtain ⟨hits, misses⟩ := counts_run rest (cache.get file text).2
    have further : cache.run (.get file text :: rest) = (cache.get file text).2.run rest := rfl
    have answers : cache.replies (.get file text :: rest) =
        [(cache.get file text).1] ++ (cache.get file text).2.replies rest := rfl
    rw [further, answers, List.countP_append, List.countP_append, hits, misses, hit, missed]
    exact ⟨Nat.add_assoc _ _ _, Nat.add_assoc _ _ _⟩
  | .insert file text found :: rest, cache => counts_run rest (cache.insert file text found)
  | .invalidate file :: rest, cache => counts_run rest (cache.invalidate file)

/-! ## What a history decides -/

/-- **The history of a cache decides what it answers.** After any list of uses of a new cache, a
question for a text of a path is answered with a result exactly if the history holds that result: it
was stored for the path, in whatever spelling, with exactly that text, and since then nothing was
stored for the path, the path was not invalidated, and no other text of it was asked for. If the
history holds none, nothing is answered, and the path has no entry afterwards. What is stored for a
path does not change by any use that concerns another path. A stored absence is an answer like any
other and counts as one: over the whole history, hits are the questions that were answered with a
result, and misses are the others. -/
theorem history_decides (uses : List Use) :
    let cache := run {} uses
    (∀ file text,
      (∀ found, (cache.get file text).1 = some found ↔ Holds uses file text found) ∧
      ((∀ found, ¬Holds uses file text found) →
        (cache.get file text).1 = none ∧
          ∀ spelling, spelling.Same file → (cache.get file text).2.contains spelling = false) ∧
      (Holds uses file text none →
        (cache.get file text).1 = some none ∧
          (cache.get file text).2.hits = cache.hits + 1)) ∧
    (∀ (use : Use) other, ¬use.path.Same other →
      (cache.use use).find? other = cache.find? other) ∧
    cache.hits = (replies {} uses).countP Option.isSome ∧
    cache.misses = (replies {} uses).countP Option.isNone := by
  intro cache
  refine ⟨fun file text => ⟨fun found => get_run_eq_some_iff uses, fun nothing => ?_,
    fun absent => ?_⟩, fun use other => cache.find?_use_of_apart use, ?_⟩
  · have unanswered : (cache.get file text).1 = none :=
      Option.eq_none_iff_forall_ne_some.2 fun found answer =>
        nothing found ((get_run_eq_some_iff uses).1 answer)
    refine ⟨unanswered, fun spelling same => ?_⟩
    rw [contains_congr same, contains_get, unanswered]
    rfl
  · have answer : (cache.get file text).1 = some none := (get_run_eq_some_iff uses).2 absent
    refine ⟨answer, ?_⟩
    rw [(counts_get cache file text).1, answer]
    rfl
  · obtain ⟨hits, misses⟩ := counts_run uses {}
    exact ⟨hits.trans (Nat.zero_add _), misses.trans (Nat.zero_add _)⟩

/-- An absence is stored for one page; another page is asked for, and so is the first one under
another spelling. -/
theorem history_decides_absence :
    let uses : List Use := [.insert ⟨"p//a.vue"⟩ "t" none, .get ⟨"p/b.vue"⟩ "s",
      .get ⟨"p/a.vue"⟩ "t"]
    let cache := run {} uses
    (Holds uses ⟨"p/./a.vue"⟩ "t" none ∧ (cache.get ⟨"p/./a.vue"⟩ "t").1 = some none) ∧
    ((∀ found, ¬Holds uses ⟨"p/./a.vue"⟩ "u" found) ∧
      FilePath.Same ⟨"p/a.vue/"⟩ ⟨"p/./a.vue"⟩ ∧
      (cache.get ⟨"p/./a.vue"⟩ "u").2.contains ⟨"p/a.vue/"⟩ = false) ∧
    (¬(Use.invalidate ⟨"p/b.vue"⟩).path.Same ⟨"p/a.vue"⟩ ∧
      (cache.invalidate ⟨"p/b.vue"⟩).find? ⟨"p/a.vue"⟩ = cache.find? ⟨"p/a.vue"⟩) ∧
    cache.hits = 1 ∧ cache.misses = 1 := by
  intro uses cache
  obtain ⟨answers, apart, hits, misses⟩ := history_decides uses
  have stored : Holds uses ⟨"p/./a.vue"⟩ "t" none :=
    ⟨[], ⟨"p//a.vue"⟩, _, rfl, by decide, by decide⟩
  have unknown : ∀ found, ¬Holds uses ⟨"p/./a.vue"⟩ "u" found := by
    rintro found ⟨before, spelling, after, split, -⟩
    have told : Use.insert spelling "u" found ∈ uses := by simp [split]
    simp [uses] at told
  have spelled : FilePath.Same ⟨"p/a.vue/"⟩ ⟨"p/./a.vue"⟩ := by decide
  have elsewhere : ¬(Use.invalidate ⟨"p/b.vue"⟩).path.Same ⟨"p/a.vue"⟩ := by decide
  exact ⟨⟨stored, ((answers _ _).2.2 stored).1⟩,
    ⟨unknown, spelled, ((answers _ _).2.1 unknown).2 _ spelled⟩,
    ⟨elsewhere, apart _ _ elsewhere⟩, hits, misses⟩

end FileRoutes.Cache
