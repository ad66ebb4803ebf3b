import FileRoutes.Proofs.Page.Faithful
import FileRoutes.Service
import Mathlib.Logic.Relation

/-!
# Uses of a service

A service is used by starting and finishing rebuilds and by loading metadata modules, in any order:
a rebuild may be started while another one is not finished, as an edit of the routes does that uses
the service itself. No use changes the options or the loader, and the extractor of the service stays
sound.

* `Service.Step`, `Service.Leads`: one use, and any number of them.
* `Service.Sound`: the extractor is sound for the options. `Service.Leads.sound` carries this through
  every sequence of uses.
* `Service.freshDraft`: what the first half of a rebuild makes of options, a disk and a list of
  pages; `Service.start_fst` says that a sound service makes nothing else.
* `Service.tryRebuildWith_eq`: a rebuild fails if its workers do not start, and takes a generation.
-/

namespace FileRoutes.Service

variable {service later : Service} {disk : Disk} {pages : List PageFile}

/-- One use of a service. -/
inductive Step (service : Service) : Service → Prop where
  | start (disk : Disk) (pages : List PageFile) : Step service (service.start disk pages).2
  | finish (draft : Draft) (forest : Forest Route) : Step service (service.finish draft forest).2
  | load (disk : Disk) (module : MetaModule) : Step service (service.load disk module).2

/-- Any number of uses lead from one state of a service to another. -/
def Leads : Service → Service → Prop := Relation.ReflTransGen Step

/-- The extractor of the service is sound for its options. -/
def Sound (service : Service) : Prop := service.extractor.SoundFor service.options.metaCall

/-! ## The first half of a rebuild -/

/-- The metadata of the pages on a disk, with the failures among the diagnostics. -/
def freshScan (options : Options) (disk : Disk) (pages : List PageFile)
    (diagnostics : Diagnostics) : Metas × Diagnostics :=
  if options.scanMeta then
    let report := Extractor.freshReport options.metaCall disk pages
    (report.metas, report.failures.foldl
      (fun d failure => d.fileError failure.1 (.extraction failure.2)) diagnostics)
  else ([], diagnostics)

/-- The draft of a rebuild: nothing of it depends on earlier rebuilds but its generation. -/
def freshDraft (options : Options) (disk : Disk) (pages : List PageFile) (generation : Nat) :
    Draft :=
  let built := buildForest options.serverComponents pages
  let scanned := freshScan options disk pages built.2
  { generation, forest := augment scanned.1 built.1, metas := scanned.1, diagnostics := scanned.2 }

theorem scan_spec (h : service.Sound) (disk : Disk) (pages : List PageFile)
    (diagnostics : Diagnostics) :
    ((service.scan disk pages diagnostics).1, (service.scan disk pages diagnostics).2.1) =
        freshScan service.options disk pages diagnostics ∧
      (service.scan disk pages diagnostics).2.2.SoundFor service.options.metaCall := by
  obtain ⟨hr, hs⟩ := Extractor.extractFiles_spec h disk pages
  unfold scan freshScan
  split
  · exact ⟨by rw [← hr], hs⟩
  · exact ⟨rfl, h⟩

/-- A sound service drafts what a fresh one drafts. -/
theorem start_fst (h : service.Sound) (disk : Disk) (pages : List PageFile) :
    (service.start disk pages).1 =
      freshDraft service.options disk pages (service.generation + 1) := by
  have hs := (scan_spec h disk pages (buildForest service.options.serverComponents pages).2).1
  simp only [start, freshDraft, ← hs]

@[simp] theorem start_options (service : Service) (disk : Disk) (pages : List PageFile) :
    (service.start disk pages).2.options = service.options := rfl

@[simp] theorem start_loader (service : Service) (disk : Disk) (pages : List PageFile) :
    (service.start disk pages).2.loader = service.loader := rfl

@[simp] theorem start_generation (service : Service) (disk : Disk) (pages : List PageFile) :
    (service.start disk pages).2.generation = service.generation + 1 := rfl

theorem start_sound (h : service.Sound) (disk : Disk) (pages : List PageFile) :
    (service.start disk pages).2.Sound :=
  (scan_spec h disk pages (buildForest service.options.serverComponents pages).2).2

/-! ## The second half of a rebuild, and loading -/

/-- Finishing a rebuild changes at most which build is the current one. -/
theorem finish_snd (service : Service) (draft : Draft) (forest : Forest Route) :
    ∃ current, (service.finish draft forest).2 = { service with current } := by
  unfold finish
  simp only
  split
  · exact ⟨_, rfl⟩
  · exact ⟨service.current, rfl⟩

/-- Loading a module changes at most the extractor. -/
theorem load_snd (service : Service) (disk : Disk) (module : MetaModule) :
    ∃ extractor, (service.load disk module).2 = { service with extractor } := by
  unfold load
  split
  · exact ⟨service.extractor, rfl⟩
  · exact ⟨_, rfl⟩

theorem load_sound (h : service.Sound) (disk : Disk) (module : MetaModule) :
    (service.load disk module).2.Sound := by
  unfold load
  split
  · exact h
  · exact (Extractor.extractFile_spec h disk module.file).2

/-! ## Sequences of uses -/

/-- A new service is sound and has the given options and loader. -/
theorem new_spec {options : Options} {loader : Loader} (h : new options loader = .ok service) :
    service = { options, loader, extractor := { call := options.metaCall } } := by
  unfold new at h
  cases hv : options.validate with
  | error e => simp [hv, bind, Except.bind] at h
  | ok _ =>
    simp only [hv, bind, Except.bind, pure, Except.pure, Except.ok.injEq] at h
    exact h.symm

theorem new_sound {options : Options} {loader : Loader} (h : new options loader = .ok service) :
    service.Sound := by
  rw [new_spec h]
  exact Extractor.soundFor_new _

theorem Step.same_setup (h : Step service later) :
    later.options = service.options ∧ later.loader = service.loader := by
  cases h with
  | start disk pages => exact ⟨rfl, rfl⟩
  | finish draft forest =>
    obtain ⟨current, hc⟩ := finish_snd service draft forest
    rw [hc]
    exact ⟨rfl, rfl⟩
  | load disk module =>
    obtain ⟨extractor, hx⟩ := load_snd service disk module
    rw [hx]
    exact ⟨rfl, rfl⟩

theorem Step.sound (h : Step service later) (hs : service.Sound) : later.Sound := by
  cases h with
  | start disk pages => exact start_sound hs disk pages
  | finish draft forest =>
    obtain ⟨current, hc⟩ := finish_snd service draft forest
    rw [hc]
    exact hs
  | load disk module => exact load_sound hs disk module

/-- No use changes the options or the loader. -/
theorem Leads.same_setup (h : Leads service later) :
    later.options = service.options ∧ later.loader = service.loader := by
  induction h with
  | refl => exact ⟨rfl, rfl⟩
  | tail _ step ih => exact ⟨step.same_setup.1.trans ih.1, step.same_setup.2.trans ih.2⟩

/-- **Every state that uses lead to is sound** if the first one is. -/
theorem Leads.sound (h : Leads service later) (hs : service.Sound) : later.Sound := by
  induction h with
  | refl => exact hs
  | tail _ step ih => exact step.sound ih

/-- A rebuild around any edit of the routes is a sequence of uses. -/
theorem rebuildWith_leads (disk : Disk) (pages : List PageFile)
    {hook : Forest Route → Service → Forest Route × Service}
    (uses : ∀ forest state, Leads state (hook forest state).2) :
    Leads service (service.rebuildWith disk pages hook).2 :=
  (Relation.ReflTransGen.single (Step.start disk pages)).trans
    ((uses _ _).tail (Step.finish _ _))

/-- **A rebuild fails exactly if it needs workers that do not start.** It has taken a generation then,
and the service is the same in everything else, the current build included. -/
theorem tryRebuildWith_eq (service : Service) (fault : Option String) (disk : Disk)
    (pages : List PageFile) (hook : Forest Route → Service → Forest Route × Service) :
    (∃ cause, fault = some cause ∧ service.options.scanMeta = true ∧
      service.tryRebuildWith fault disk pages hook =
        (.error (.workerPool cause), { service with generation := service.generation + 1 })) ∨
    ((service.options.scanMeta = true → fault = none) ∧
      service.tryRebuildWith fault disk pages hook =
        (.ok (service.rebuildWith disk pages hook).1, (service.rebuildWith disk pages hook).2)) := by
  unfold tryRebuildWith Extractor.tryExtractFiles
  cases scans : service.options.scanMeta with
  | false => exact .inr ⟨nofun, rfl⟩
  | true =>
    cases fault with
    | none => exact .inr ⟨fun _ => rfl, rfl⟩
    | some cause => exact .inl ⟨cause, rfl, rfl, rfl⟩

/-- To take a generation and nothing else is to start a rebuild of no pages. -/
theorem start_nil (service : Service) (disk : Disk) :
    (service.start disk []).2 = { service with generation := service.generation + 1 } := by
  unfold start scan
  simp only
  split <;> rfl

/-- A rebuild is a sequence of uses, also if it fails. -/
theorem tryRebuildWith_leads (fault : Option String) (disk : Disk) (pages : List PageFile)
    {hook : Forest Route → Service → Forest Route × Service}
    (uses : ∀ forest state, Leads state (hook forest state).2) :
    Leads service (service.tryRebuildWith fault disk pages hook).2 := by
  rcases service.tryRebuildWith_eq fault disk pages hook with ⟨_, _, _, failed⟩ | ⟨_, rebuilt⟩
  · rw [failed]
    exact service.start_nil disk ▸ .single (.start disk [])
  · rw [rebuilt]
    exact rebuildWith_leads disk pages uses

end FileRoutes.Service
