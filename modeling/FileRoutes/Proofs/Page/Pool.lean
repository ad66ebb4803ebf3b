import FileRoutes.Proofs.Page.Worker

/-!
# Batches on several workers

The files of a batch are handed out to a bounded number of workers, which share the cache. What a
batch comes to does not depend on who takes a step when: each worker keeps to the entries of its own
path, and no two files of a batch are of one path.

* `filter_distinctFiles`, `length_distinctFiles`, `pairwise_findIdx_distinctFiles`: which files of a
  list are kept, how many, and in what order.
* `Pool`, `Pool.Step`: a batch under way, and one step of one of its workers.
* `Pool.prospect`: what a batch under way will come to. One step keeps it (`Pool.Step.prospect_eq`),
  and so does a run (`Pool.Reaches.prospect_eq`).
* `Pool.Finished.report_eq`, `Pool.Finished.entriesOf_eq`: what a finished batch has come to.
* `Pool.exists_finished`: no batch gets stuck.
* `Pool.reaches_extractFiles`: `Extractor.extractFiles` is one of the runs of a batch.
* `Pool.extractFiles_of_reaches`: all runs of a batch give the same report and the same cache.
-/

namespace FileRoutes

variable {call : MetaCall} {disk : Disk} {file : FilePath} {workers : Nat}

/-! ## The distinct files of a list -/

/-- Of the spellings of a path the first one is kept. -/
theorem filter_distinctFiles (file : FilePath) :
    ∀ files : List FilePath, (distinctFiles files).filter (fun other => other.Same file) =
      (files.find? fun other => other.Same file).toList
  | [] => rfl
  | first :: rest => by
    have ih := filter_distinctFiles file rest
    unfold distinctFiles
    rw [List.filter_cons, List.filter_filter, List.find?_cons]
    by_cases same : first.Same file
    · have further : (distinctFiles rest).filter (fun other =>
          decide (other.Same file) && !decide (first.Same other)) = [] := by
        rw [List.filter_eq_nil_iff]
        intro other _ h
        simp only [Bool.and_eq_true, decide_eq_true_eq, Bool.not_eq_true',
          decide_eq_false_iff_not] at h
        exact h.2 (same.trans h.1.symm)
      simp [same, further]
    · have further : (distinctFiles rest).filter (fun other =>
          decide (other.Same file) && !decide (first.Same other)) =
            (distinctFiles rest).filter fun other => other.Same file := by
        refine List.filter_congr fun other _ => ?_
        by_cases here : other.Same file
        · have apart : ¬first.Same other := fun h => same (h.trans here)
          simp [here, apart]
        · simp [here]
      simp [same, further, ih]

/-- As many files are kept as there are paths. -/
theorem length_distinctFiles (files : List FilePath) :
    (distinctFiles files).length = (files.map FilePath.components).toFinset.card := by
  have nodup : ((distinctFiles files).map FilePath.components).Nodup :=
    List.pairwise_map.2 (pairwise_distinctFiles files)
  have paths : ((distinctFiles files).map FilePath.components).toFinset =
      (files.map FilePath.components).toFinset := by
    ext path
    simp only [List.mem_toFinset, List.mem_map]
    constructor
    · rintro ⟨file, kept, rfl⟩
      exact ⟨file, mem_of_mem_distinctFiles kept, rfl⟩
    · rintro ⟨file, listed, rfl⟩
      exact exists_mem_distinctFiles listed
  rw [← paths, List.toFinset_card_of_nodup nodup, List.length_map]

/-- The files are kept in the order in which their paths occur first. -/
theorem pairwise_findIdx_distinctFiles :
    ∀ files : List FilePath, (distinctFiles files).Pairwise fun a b =>
      (files.findIdx fun other => other.Same a) < files.findIdx fun other => other.Same b
  | [] => List.Pairwise.nil
  | first :: rest => by
    have ih := pairwise_findIdx_distinctFiles rest
    unfold distinctFiles
    rw [List.pairwise_cons]
    have later {other : FilePath}
        (h : other ∈ (distinctFiles rest).filter fun other => !decide (first.Same other)) :
        ¬first.Same other := by
      simpa using (List.mem_filter.1 h).2
    constructor
    · intro other h
      rw [List.findIdx_cons, List.findIdx_cons]
      simp [later h, FilePath.Same.refl]
    · refine (ih.filter _).imp_of_mem fun ha hb lt => ?_
      rw [List.findIdx_cons, List.findIdx_cons]
      simpa [later ha, later hb] using lt

/-! ## Reports by path -/

theorem Outcome.known?_fst {outcome : Outcome} {entry : FilePath × PageMeta}
    (h : outcome.known? file = some entry) : entry.1 = file := by
  unfold known? at h
  split at h
  · cases h
    rfl
  · cases h
  · cases h

theorem Outcome.failed?_fst {outcome : Outcome} {entry : FilePath × ExtractionError}
    (h : outcome.failed? file = some entry) : entry.1 = file := by
  unfold failed? at h
  split at h
  · cases h
  · cases h
    rfl

/-- What a report says of a path is what is said of the spelling that is kept. -/
theorem filter_filterMap_distinctFiles {α : Type} (found? : FilePath → Option (FilePath × α))
    (spelled : ∀ file entry, found? file = some entry → entry.1 = file) (file : FilePath)
    (files : List FilePath) :
    ((distinctFiles files).filterMap found?).filter (fun entry => entry.1.Same file) =
      ((files.find? fun other => other.Same file).bind found?).toList := by
  have spelling : ∀ other, (found? other).filter (fun entry => decide (entry.1.Same file)) =
      if decide (other.Same file) = true then found? other else none := by
    intro other
    cases h : found? other with
    | none => simp
    | some entry => rw [← spelled other entry h]; simp [Option.filter]
  have kept := filter_distinctFiles file files
  rw [List.filter_filterMap]
  simp only [spelling]
  rw [← List.filterMap_filter, kept]
  cases files.find? fun other => other.Same file with
  | none => rfl
  | some first => cases h : found? first <;> simp [h]

/-- One file of a batch, and how far its worker is. -/
structure Job where
  file : FilePath
  stage : Stage

/-- A worker is taken up with the file. -/
def Job.isBusy (job : Job) : Bool :=
  match job.stage with
  | .waiting | .done _ => false
  | _ => true

/-- What is left of the work on the file comes to. -/
def Job.effect (call : MetaCall) (disk : Disk) (cache : Cache) (job : Job) : Effect :=
  job.stage.effect call disk job.file (cache.entriesOf job.file)

/-- A batch under way: the cache, and the files of the batch in their order. -/
structure Pool where
  cache : Cache
  jobs : List Job

/-- The report with the outcome of one more file, if its worker is done. -/
def Report.note (report : Report) (job : Job) : Report :=
  match job.stage with
  | .done outcome => report.add job.file outcome
  | _ => report

namespace Pool

/-- The number of workers that are taken up. -/
def busy (pool : Pool) : Nat := pool.jobs.countP Job.isBusy

/-- A batch of which nothing is done yet. -/
def start (x : Extractor) (pages : List PageFile) : Pool :=
  ⟨x.cache, (distinctFiles (pages.map PageFile.file)).map fun file => ⟨file, .waiting⟩⟩

/-- One step of one worker. A file is taken up only if a worker is free. -/
inductive Step (call : MetaCall) (disk : Disk) (workers : Nat) (pool : Pool) : Pool → Prop where
  | work (before after : List Job) (file : FilePath) (stage next : Stage) (cache : Cache)
      (found : pool.jobs = before ++ ⟨file, stage⟩ :: after)
      (free : stage = .waiting → pool.busy < max workers 1)
      (step : stage.next call disk file pool.cache = some (next, cache)) :
      Step call disk workers pool ⟨cache, before ++ ⟨file, next⟩ :: after⟩

/-- Any number of steps, in any order. -/
def Reaches (call : MetaCall) (disk : Disk) (workers : Nat) : Pool → Pool → Prop :=
  Relation.ReflTransGen (Step call disk workers)

/-- All files are done. -/
def Finished (pool : Pool) : Prop := ∀ job ∈ pool.jobs, ∃ outcome, job.stage = .done outcome

/-- The report of a batch: its files in order, whatever the order in which they were done. -/
def report (pool : Pool) : Report :=
  pool.jobs.foldl Report.note { filesRead := pool.jobs.length }

/-! ## What a batch will come to -/

/-- What a batch comes to: the outcome of each file, the entries of each path, and how often the cache
answered and did not. -/
structure Prospect where
  outcomes : List (FilePath × Outcome)
  entries : FilePath → List CacheEntry
  counts : Nat × Nat

/-- The files of a batch with what is left of their work, each as if its worker were alone. -/
def effects (call : MetaCall) (disk : Disk) (pool : Pool) : List (FilePath × Effect) :=
  pool.jobs.map fun job => (job.file, job.effect call disk pool.cache)

/-- What a batch under way will come to if each worker goes on as if it were alone. -/
def prospect (call : MetaCall) (disk : Disk) (pool : Pool) : Prospect :=
  { outcomes := (pool.effects call disk).map fun entry => (entry.1, entry.2.outcome)
    entries := fun file =>
      match (pool.effects call disk).find? fun entry => entry.1.Same file with
      | some entry => entry.2.entries
      | none => pool.cache.entriesOf file
    counts := pool.cache.counts +
      ((pool.effects call disk).map fun entry => entry.2.counts).sum }

/-- No two files of the batch are of one path. -/
def Distinct (pool : Pool) : Prop := (pool.jobs.map Job.file).Pairwise fun a b => ¬a.Same b

variable {pool next : Pool}

/-- What is counted in a step is taken off the effect of one file, and no other effect is touched. -/
theorem Step.effects_eq (step : Step call disk workers pool next) (distinct : pool.Distinct) :
    ∃ before after file effect counts,
      pool.effects call disk = before ++ (file, Effect.after effect counts) :: after ∧
        next.effects call disk = before ++ (file, effect) :: after ∧
        next.cache.counts = pool.cache.counts + counts ∧
        ∀ other, ¬file.Same other → next.cache.entriesOf other = pool.cache.entriesOf other := by
  obtain ⟨before, after, file, stage, stage', cache, found, -, step⟩ := step
  obtain ⟨-, ⟨counts, counted, effect_eq⟩, apart⟩ := Stage.next_spec step
  unfold Distinct at distinct
  rw [found, List.map_append, List.map_cons, List.pairwise_append, List.pairwise_cons] at distinct
  obtain ⟨-, ⟨later, -⟩, earlier⟩ := distinct
  have frame : ∀ job ∈ before ++ after,
      job.effect call disk cache = job.effect call disk pool.cache := by
    intro job h
    unfold Job.effect
    rw [apart job.file fun same => ?_]
    rcases List.mem_append.1 h with h | h
    · exact earlier _ (List.mem_map_of_mem h) _ List.mem_cons_self same.symm
    · exact later _ (List.mem_map_of_mem h) same
  refine ⟨before.map fun job => (job.file, job.effect call disk pool.cache),
    after.map fun job => (job.file, job.effect call disk pool.cache), file,
    stage'.effect call disk file (cache.entriesOf file), counts, ?_, ?_, counted, apart⟩
  · unfold effects
    rw [found, List.map_append, List.map_cons, ← effect_eq]
    rfl
  · unfold effects
    rw [List.map_append, List.map_cons]
    congr 1
    · exact List.map_congr_left fun job h => by rw [frame job (List.mem_append_left _ h)]
    · congr 1
      exact List.map_congr_left fun job h => by rw [frame job (List.mem_append_right _ h)]

/-- **A step of a worker changes nothing about what the batch will come to.** -/
theorem Step.prospect_eq (step : Step call disk workers pool next) (distinct : pool.Distinct) :
    next.prospect call disk = pool.prospect call disk := by
  obtain ⟨before, after, file, effect, counts, effects, further, counted, apart⟩ :=
    step.effects_eq distinct
  unfold prospect
  rw [effects, further, counted]
  simp only [Prospect.mk.injEq, List.map_append, List.map_cons, List.find?_append, List.find?_cons,
    List.sum_append, List.sum_cons]
  refine ⟨rfl, ?_, ?_⟩
  · funext other
    cases before.find? fun entry => entry.1.Same other with
    | some entry => rfl
    | none =>
      by_cases here : file.Same other
      · simp only [here, decide_true, Option.none_or]
        rfl
      · simp only [here, decide_false, Option.none_or]
        cases after.find? fun entry => entry.1.Same other with
        | some entry => rfl
        | none => exact apart other here
  · unfold Effect.after
    simp only [add_assoc, add_left_comm]

theorem Step.files_eq (step : Step call disk workers pool next) :
    next.jobs.map Job.file = pool.jobs.map Job.file := by
  obtain ⟨before, after, file, stage, stage', cache, found, -, -⟩ := step
  rw [found, List.map_append, List.map_append, List.map_cons, List.map_cons]

/-- **Whatever the workers do, the batch will come to the same.** -/
theorem Reaches.prospect_eq (run : Reaches call disk workers pool next) (distinct : pool.Distinct) :
    next.prospect call disk = pool.prospect call disk ∧
      next.jobs.map Job.file = pool.jobs.map Job.file := by
  induction run with
  | refl => exact ⟨rfl, rfl⟩
  | @tail middle last _ step ih =>
    obtain ⟨prospect_eq, files_eq⟩ := ih
    have still : middle.Distinct := by
      unfold Distinct
      rw [files_eq]
      exact distinct
    exact ⟨(step.prospect_eq still).trans prospect_eq, step.files_eq.trans files_eq⟩

theorem distinct_start (x : Extractor) (pages : List PageFile) : (start x pages).Distinct := by
  unfold Distinct start
  rw [List.map_map]
  exact (List.map_id _).symm ▸ pairwise_distinctFiles _

/-! ## What a finished batch has come to -/

theorem Finished.effect_eq (finished : pool.Finished) (call : MetaCall) (disk : Disk) {job : Job}
    (h : job ∈ pool.jobs) :
    ∃ outcome, job.stage = .done outcome ∧
      job.effect call disk pool.cache = ⟨outcome, pool.cache.entriesOf job.file, 0⟩ := by
  obtain ⟨outcome, hd⟩ := finished job h
  refine ⟨outcome, hd, ?_⟩
  unfold Job.effect
  rw [hd, Stage.effect]

/-- The report of a finished batch holds what each file comes to. -/
theorem Finished.report_eq (finished : pool.Finished) (call : MetaCall) (disk : Disk) :
    pool.report = (pool.prospect call disk).outcomes.foldl (fun report entry =>
      report.add entry.1 entry.2) { filesRead := pool.jobs.length } := by
  unfold report prospect effects
  rw [List.map_map, List.foldl_map]
  refine List.foldl_ext _ _ _ fun report job h => ?_
  obtain ⟨outcome, hd, he⟩ := finished.effect_eq call disk h
  unfold Report.note
  simp only [Function.comp_apply, hd, he]

theorem Finished.entriesOf_eq (finished : pool.Finished) (call : MetaCall) (disk : Disk)
    (file : FilePath) : pool.cache.entriesOf file = (pool.prospect call disk).entries file := by
  unfold prospect effects
  simp only [List.find?_map, Function.comp_def]
  cases hf : pool.jobs.find? fun job => job.file.Same file with
  | none => rfl
  | some job =>
    have same : job.file.Same file := by simpa using List.find?_some hf
    obtain ⟨outcome, -, he⟩ := finished.effect_eq call disk (List.mem_of_find?_eq_some hf)
    simp only [Option.map_some, he]
    exact (Cache.entriesOf_congr same).symm

theorem Finished.counts_eq (finished : pool.Finished) (call : MetaCall) (disk : Disk) :
    pool.cache.counts = (pool.prospect call disk).counts := by
  have rest : ((pool.effects call disk).map fun entry => entry.2.counts).sum = 0 := by
    refine List.sum_eq_zero fun counts h => ?_
    unfold effects at h
    rw [List.map_map] at h
    obtain ⟨job, hm, rfl⟩ := List.mem_map.1 h
    obtain ⟨outcome, -, he⟩ := finished.effect_eq call disk hm
    simp only [Function.comp_apply, he]
  unfold prospect
  rw [rest, add_zero]

/-! ## Every batch can be finished -/

/-- The number of steps that may be left. -/
def rank (pool : Pool) : Nat := (pool.jobs.map fun job => job.stage.rank).sum

theorem Step.rank_lt (step : Step call disk workers pool next) : next.rank < pool.rank := by
  obtain ⟨before, after, file, stage, stage', cache, found, -, step⟩ := step
  have lt := (Stage.next_spec step).rank_lt
  unfold rank
  rw [found]
  simp only [List.map_append, List.map_cons, List.sum_append, List.sum_cons]
  omega

/-- A batch that is not finished can take a step: a worker that is taken up can go on, and if none is,
one is free. -/
theorem exists_step (call : MetaCall) (disk : Disk) (workers : Nat) (unfinished : ¬pool.Finished) :
    ∃ next, Step call disk workers pool next := by
  have going {job : Job} (h : job ∈ pool.jobs) (left : ∀ outcome, job.stage ≠ .done outcome)
      (free : job.stage = .waiting → pool.busy < max workers 1) :
      ∃ next, Step call disk workers pool next := by
    obtain ⟨before, after, found⟩ := List.append_of_mem h
    obtain ⟨⟨stage, cache⟩, step⟩ :=
      Stage.exists_next call disk job.file pool.cache left
    exact ⟨_, .work before after job.file job.stage stage cache found free step⟩
  by_cases busy : ∃ job ∈ pool.jobs, job.isBusy = true
  · obtain ⟨job, h, busy⟩ := busy
    unfold Job.isBusy at busy
    refine going h (fun outcome hd => ?_) fun hw => ?_
    · simp [hd] at busy
    · simp [hw] at busy
  · have idle : pool.busy = 0 := by
      unfold Pool.busy
      rw [List.countP_eq_zero]
      intro job h
      exact fun hb => busy ⟨job, h, hb⟩
    unfold Finished at unfinished
    push Not at unfinished
    obtain ⟨job, h, left⟩ := unfinished
    exact going h left fun _ => by omega

/-- **No batch gets stuck**: whatever has been done so far, the rest can be done. -/
theorem exists_finished (call : MetaCall) (disk : Disk) (workers : Nat) (pool : Pool) :
    ∃ last, Reaches call disk workers pool last ∧ last.Finished := by
  by_cases finished : pool.Finished
  · exact ⟨pool, .refl, finished⟩
  · obtain ⟨next, step⟩ := exists_step call disk workers finished
    have lt := step.rank_lt
    obtain ⟨last, run, finished⟩ := exists_finished call disk workers next
    exact ⟨last, .head step run, finished⟩
termination_by pool.rank

/-! ## One file after the other -/

/-- While all others rest, the batch goes along with one worker. -/
theorem reaches_of_leads (workers : Nat) {before after : List Job} {a b : Stage × Cache}
    (idle : (before ++ after).countP Job.isBusy = 0) (leads : Stage.Leads call disk file a b) :
    Reaches call disk workers ⟨a.2, before ++ ⟨file, a.1⟩ :: after⟩
      ⟨b.2, before ++ ⟨file, b.1⟩ :: after⟩ := by
  induction leads with
  | refl => exact .refl
  | @tail c d _ step ih =>
    refine ih.tail (.work before after file c.1 d.1 d.2 rfl (fun hw => ?_) step)
    unfold Pool.busy
    rw [hw, List.countP_append, List.countP_cons_of_neg (by simp [Job.isBusy]),
      ← List.countP_append, idle]
    omega

theorem extractFile_call (x : Extractor) (disk : Disk) (file : FilePath) :
    (x.extractFile disk file).2.call = x.call := by
  unfold Extractor.extractFile
  split
  · unfold Extractor.extract
    split
    · rfl
    · split <;> rfl
  · rfl

/-- Taking one file after the other is a run of the batch. -/
theorem reaches_foldl_extractStep (workers : Nat) (disk : Disk) :
    ∀ (files : List FilePath) (before : List Job) (report : Report) (x : Extractor),
      (∀ job ∈ before, ∃ outcome, job.stage = .done outcome) →
      ∃ jobs : List Job, (∀ job ∈ jobs, ∃ outcome, job.stage = .done outcome) ∧
        Reaches x.call disk workers ⟨x.cache, before ++ files.map fun file => (⟨file, .waiting⟩ : Job)⟩
          ⟨(files.foldl (Extractor.extractStep disk) (report, x)).2.cache, before ++ jobs⟩ ∧
        (files.foldl (Extractor.extractStep disk) (report, x)).1 = jobs.foldl Report.note report
  | [], before, report, x, _ => ⟨[], by simp, .refl, rfl⟩
  | file :: rest, before, report, x, done => by
    have leads := Extractor.extractFile_leads x disk file
    have kept := extractFile_call x disk file
    generalize hx : x.extractFile disk file = result at leads kept
    obtain ⟨outcome, x'⟩ := result
    have idle : (before ++ rest.map fun file => (⟨file, .waiting⟩ : Job)).countP Job.isBusy = 0 := by
      rw [List.countP_eq_zero]
      intro job h
      rcases List.mem_append.1 h with h | h
      · obtain ⟨outcome, hd⟩ := done job h
        simp [Job.isBusy, hd]
      · obtain ⟨file, -, rfl⟩ := List.mem_map.1 h
        simp [Job.isBusy]
    have first := reaches_of_leads workers idle leads
    obtain ⟨jobs, finished, further, reported⟩ :=
      reaches_foldl_extractStep workers disk rest (before ++ [⟨file, .done outcome⟩])
        (report.add file outcome) x' (by
          intro job h
          rcases List.mem_append.1 h with h | h
          · exact done job h
          · exact ⟨outcome, by rw [List.mem_singleton.1 h]⟩)
    refine ⟨⟨file, .done outcome⟩ :: jobs, ?_, ?_, ?_⟩
    · exact List.forall_mem_cons.2 ⟨⟨outcome, rfl⟩, finished⟩
    · rw [kept] at further
      simp only [List.append_assoc, List.singleton_append] at further
      refine .trans first ?_
      rw [List.foldl_cons, Extractor.extractStep, hx]
      exact further
    · rw [List.foldl_cons, List.foldl_cons, Extractor.extractStep, hx]
      exact reported

/-- **A batch on any number of workers can be finished as `Extractor.extractFiles` does it.** -/
theorem reaches_extractFiles (x : Extractor) (disk : Disk) (pages : List PageFile) (workers : Nat) :
    ∃ last, Reaches x.call disk workers (start x pages) last ∧ last.Finished ∧
      last.report = (x.extractFiles disk pages).1 ∧
      last.cache = (x.extractFiles disk pages).2.cache := by
  obtain ⟨jobs, finished, run, reported⟩ := reaches_foldl_extractStep workers disk
    (distinctFiles (pages.map PageFile.file)) []
    { filesRead := (distinctFiles (pages.map PageFile.file)).length } x (by simp)
  refine ⟨⟨(x.extractFiles disk pages).2.cache, jobs⟩, run, finished, ?_, rfl⟩
  have files := congrArg List.length (Reaches.prospect_eq run (distinct_start x pages)).2
  simp only [List.nil_append, List.length_map] at files
  unfold Extractor.extractFiles
  rw [reported, ← files]
  rfl

/-- Two finished runs of a batch have come to the same. -/
theorem Finished.unique {one other : Pool} (distinct : pool.Distinct)
    (run : Reaches call disk workers pool one) (finished : one.Finished)
    (run' : Reaches call disk workers pool other) (finished' : other.Finished) :
    one.report = other.report ∧ (∀ file, one.cache.entriesOf file = other.cache.entriesOf file) ∧
      one.cache.counts = other.cache.counts := by
  obtain ⟨prospect_eq, files⟩ := run.prospect_eq distinct
  obtain ⟨prospect_eq', files'⟩ := run'.prospect_eq distinct
  have same := prospect_eq.trans prospect_eq'.symm
  have length := congrArg List.length (files.trans files'.symm)
  simp only [List.length_map] at length
  refine ⟨?_, fun file => ?_, ?_⟩
  · rw [finished.report_eq call disk, finished'.report_eq call disk, same, length]
  · rw [finished.entriesOf_eq call disk, finished'.entriesOf_eq call disk, same]
  · rw [finished.counts_eq call disk, finished'.counts_eq call disk, same]

theorem outcomes_start (x : Extractor) (disk : Disk) (pages : List PageFile) :
    ((start x pages).prospect x.call disk).outcomes =
      (distinctFiles (pages.map PageFile.file)).map fun file =>
        (file, (x.extractFile disk file).1) := by
  unfold prospect effects start Job.effect
  rw [List.map_map, List.map_map]
  refine List.map_congr_left fun file _ => ?_
  simp only [Function.comp_apply, Extractor.extractFile_outcome]

/-- The report of a finished batch: each file with the outcome that it has by itself. -/
theorem Finished.report_start {x : Extractor} {pages : List PageFile}
    (run : Reaches x.call disk workers (start x pages) pool) (finished : pool.Finished) :
    pool.report =
      { metas := (distinctFiles (pages.map PageFile.file)).filterMap fun file =>
          (x.extractFile disk file).1.known? file
        failures := (distinctFiles (pages.map PageFile.file)).filterMap fun file =>
          (x.extractFile disk file).1.failed? file
        filesRead := (distinctFiles (pages.map PageFile.file)).length } := by
  obtain ⟨prospect_eq, files_eq⟩ := run.prospect_eq (distinct_start x pages)
  have length := congrArg List.length files_eq
  simp only [List.length_map, start] at length
  rw [finished.report_eq x.call disk, prospect_eq, outcomes_start, List.foldl_map,
    Report.foldl_add fun file => (x.extractFile disk file).1, length]
  rfl

/-- **The result of a batch does not depend on its workers.** Whatever steps the workers of a batch
have taken, they can bring it to an end; and in the end the report is that of
`Extractor.extractFiles`, the cache has the same entries and has counted the same. The report counts
the paths of the files; it holds each path under its first spelling, among the metadata or among the
failures or, for a page that declares nothing, in neither; and it lists the failures in the order in
which their paths occur first. -/
theorem extractFiles_of_reaches {x : Extractor} {pages : List PageFile}
    (run : Reaches x.call disk workers (start x pages) pool) :
    (∃ last, Reaches x.call disk workers pool last ∧ last.Finished) ∧
      (pool.Finished →
        pool.report = (x.extractFiles disk pages).1 ∧
        pool.cache.entries.Perm (x.extractFiles disk pages).2.cache.entries ∧
        (∀ file, pool.cache.find? file = (x.extractFiles disk pages).2.cache.find? file) ∧
        pool.cache.hits = (x.extractFiles disk pages).2.cache.hits ∧
        pool.cache.misses = (x.extractFiles disk pages).2.cache.misses ∧
        pool.report.filesRead = (pages.map fun page => page.file.components).toFinset.card ∧
        (∀ file,
          let first? := (pages.map PageFile.file).find? fun other => other.Same file
          pool.report.metas.filter (fun entry => entry.1.Same file) =
              (first?.bind fun first => (x.extractFile disk first).1.known? first).toList ∧
            pool.report.failures.filter (fun entry => entry.1.Same file) =
              (first?.bind fun first => (x.extractFile disk first).1.failed? first).toList) ∧
        pool.report.failures.Pairwise fun a b =>
          ((pages.map PageFile.file).findIdx fun other => other.Same a.1) <
            (pages.map PageFile.file).findIdx fun other => other.Same b.1) := by
  refine ⟨exists_finished x.call disk workers pool, fun finished => ?_⟩
  obtain ⟨last, run', finished', reported, left⟩ := reaches_extractFiles x disk pages workers
  obtain ⟨report_eq, entries_eq, counts_eq⟩ :=
    finished.unique (distinct_start x pages) run run' finished'
  rw [left] at entries_eq counts_eq
  refine ⟨report_eq.trans reported, Cache.entries_perm entries_eq, fun file => ?_,
    congrArg Prod.fst counts_eq, congrArg Prod.snd counts_eq, ?_, fun file => ⟨?_, ?_⟩, ?_⟩
  · rw [Cache.find?_eq_head?, Cache.find?_eq_head?, entries_eq file]
  · rw [finished.report_start run, length_distinctFiles, List.map_map]
    rfl
  · rw [finished.report_start run]
    exact filter_filterMap_distinctFiles _ (fun file entry => Outcome.known?_fst) file _
  · rw [finished.report_start run]
    exact filter_filterMap_distinctFiles _ (fun file entry => Outcome.failed?_fst) file _
  · rw [finished.report_start run, List.pairwise_filterMap]
    refine (pairwise_findIdx_distinctFiles _).imp fun lt a ha b hb => ?_
    rw [Outcome.failed?_fst ha, Outcome.failed?_fst hb]
    exact lt

/-- Two workers take turns on a page that the cache knows and on a missing one. -/
theorem extractFiles_of_reaches_turns :
    let a : FilePath := ⟨"/app/pages/a.vue"⟩
    let b : FilePath := ⟨"/app/pages/b.vue"⟩
    let x : Extractor := { cache := { entries := [⟨a, "x", none⟩] } }
    let disk := ({} : Disk).write a.text "x".toUTF8.data.toList
    let pages : List PageFile :=
      [⟨"a.vue", a⟩, ⟨"b.vue", b⟩, ⟨"a.vue", ⟨"/app/pages/a.vue/"⟩⟩]
    ∃ pool, Reaches x.call disk 2 (start x pages) pool ∧ pool.Finished ∧
      pool.report = (x.extractFiles disk pages).1 ∧
      pool.report = { failures := [(b, .read b .notFound)], filesRead := 2 } := by
  intro a b x disk pages
  have known : disk.read a = .ok "x" := by decide +kernel
  have missing : disk.read b = .error .notFound := by decide +kernel
  have distinct : distinctFiles (pages.map PageFile.file) = [a, b] := by decide +kernel
  have waiting : (start x pages).jobs = [⟨a, .waiting⟩, ⟨b, .waiting⟩] := by
    rw [start, distinct, List.map_cons, List.map_singleton]
  have kept : x.cache.invalidate b = x.cache := by decide +kernel
  have held : x.cache.find? a = some ⟨a, "x", none⟩ := by decide +kernel
  have first : Step x.call disk 2 (start x pages)
      ⟨x.cache, [⟨a, .waiting⟩, ⟨b, .forgetting .notFound⟩]⟩ := by
    refine .work [⟨a, .waiting⟩] [] b .waiting _ _ waiting (fun _ => by decide) ?_
    simp only [Stage.next, missing]
    rfl
  have second : Step x.call disk 2 ⟨x.cache, [⟨a, .waiting⟩, ⟨b, .forgetting .notFound⟩]⟩
      ⟨x.cache, [⟨a, .asking "x"⟩, ⟨b, .forgetting .notFound⟩]⟩ := by
    refine .work [] [⟨b, .forgetting .notFound⟩] a .waiting _ _ rfl (fun _ => by decide) ?_
    simp only [Stage.next, known]
  have third : Step x.call disk 2 ⟨x.cache, [⟨a, .asking "x"⟩, ⟨b, .forgetting .notFound⟩]⟩
      ⟨x.cache, [⟨a, .asking "x"⟩, ⟨b, .done (.error (.read b .notFound))⟩]⟩ := by
    refine .work [⟨a, .asking "x"⟩] [] b (.forgetting .notFound) _ _ rfl (by simp) ?_
    simp only [Stage.next, kept]
  have fourth : Step x.call disk 2
      ⟨x.cache, [⟨a, .asking "x"⟩, ⟨b, .done (.error (.read b .notFound))⟩]⟩
      ⟨x.cache.recordHit, [⟨a, .done (.ok none)⟩, ⟨b, .done (.error (.read b .notFound))⟩]⟩ := by
    refine .work [] [⟨b, .done (.error (.read b .notFound))⟩] a (.asking "x") _ _ rfl (by simp) ?_
    simp only [Stage.next, held]
    rfl
  have run := (((Relation.ReflTransGen.single first).tail second).tail third).tail fourth
  have finished : Finished
      ⟨x.cache.recordHit, [⟨a, .done (.ok none)⟩, ⟨b, .done (.error (.read b .notFound))⟩]⟩ := by
    simp [Finished]
  exact ⟨_, run, finished, ((extractFiles_of_reaches run).2 finished).1, rfl⟩

end Pool

end FileRoutes
