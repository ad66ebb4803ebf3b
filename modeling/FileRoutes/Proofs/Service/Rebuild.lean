import FileRoutes.Proofs.Route.Duplicates
import FileRoutes.Proofs.Service.Use

/-!
# Rebuilding

A rebuild depends on the options, the list of pages and the disk, and on nothing that happened
before.

* `Service.Derives`: what ties the parts of a build together; `rebuild_derives` says that of every rebuild.
* `Service.builds`: the builds of a run of rebuilds; the disk may have changed in any way from one
  to the next.
* `Service.rebuild_fst`: a sound service builds what a fresh one builds, under its own generation.
* `Service.builds_eq_mapIdx`: the builds of a run are those of fresh services, numbered.
-/

namespace FileRoutes.Service

variable {service fresh : Service}

/-! ## One rebuild -/

theorem warnings_foldl_fileError :
    ∀ (failures : List (FilePath × ExtractionError)) (d : Diagnostics),
      (failures.foldl (fun d failure => d.fileError failure.1 (.extraction failure.2)) d).warnings =
        d.warnings
  | [], _ => rfl
  | failure :: rest, d => by
    rw [List.foldl_cons, warnings_foldl_fileError rest, Diagnostics.warnings_fileError]

/-- Failed extractions are errors, so a scan adds no warnings. -/
theorem warnings_scan (service : Service) (disk : Disk) (pages : List PageFile)
    (diagnostics : Diagnostics) :
    (service.scan disk pages diagnostics).2.1.warnings = diagnostics.warnings := by
  unfold scan
  split
  · exact warnings_foldl_fileError _ diagnostics
  · rfl

/-- What ties the parts of a build together: the routes are those of the page files with the values of
the metas, the records are made from both, and the warnings are those of the page files alone. -/
structure Derives (service : Service) (pages : List PageFile) (build : Build) : Prop where
  generation : build.generation = service.generation + 1
  forest : build.forest = augment build.metas (buildForest service.options.serverComponents pages).1
  records : build.records = normalize service.options.overrideMeta build.metas build.forest
  warnings : build.diagnostics.warnings =
    (buildForest service.options.serverComponents pages).2.warnings

/-- **The parts of a build are tied together**, whatever the service was used for before. -/
theorem rebuild_derives (service : Service) (disk : Disk) (pages : List PageFile) :
    service.Derives pages (service.rebuild disk pages).1 where
  generation := rfl
  forest := rfl
  records := rfl
  warnings := service.warnings_scan disk pages _

/-! ## Runs of rebuilds -/

/-- The builds of a run of rebuilds, each from the disk as it is then and a list of pages. -/
def builds (service : Service) : List (Disk × List PageFile) → List Build
  | [] => []
  | (disk, pages) :: rest =>
    (service.rebuild disk pages).1 :: (service.rebuild disk pages).2.builds rest

theorem rebuild_fst (h : service.Sound) (disk : Disk) (pages : List PageFile) :
    (service.rebuild disk pages).1 =
      ((service.start disk pages).2.finish
        (freshDraft service.options disk pages (service.generation + 1))
        (freshDraft service.options disk pages (service.generation + 1)).forest).1 := by
  unfold rebuild rebuildWith
  simp only [start_fst h]

/-- The metas of a rebuild: those of a batch without a cache, if metadata is scanned. -/
theorem rebuild_metas (h : service.Sound) (disk : Disk) (pages : List PageFile) :
    (service.rebuild disk pages).1.metas =
      if service.options.scanMeta then
        (Extractor.freshReport service.options.metaCall disk pages).metas
      else [] := by
  rw [rebuild_fst h]
  show (freshScan _ _ _ _).1 = _
  unfold freshScan
  split <;> rfl

/-- Two sound services with the same options build the same from the same files, but for the
generation. -/
theorem rebuild_fst_eq (h : service.Sound) (hf : fresh.Sound)
    (options : service.options = fresh.options) (disk : Disk) (pages : List PageFile) :
    (service.rebuild disk pages).1 =
      { (fresh.rebuild disk pages).1 with generation := service.generation + 1 } := by
  rw [rebuild_fst h, rebuild_fst hf]
  simp only [finish, freshDraft, start_options, options]

theorem rebuild_leads (service : Service) (disk : Disk) (pages : List PageFile) :
    Leads service (service.rebuild disk pages).2 :=
  rebuildWith_leads disk pages fun _ _ => .refl

theorem rebuild_generation (service : Service) (disk : Disk) (pages : List PageFile) :
    (service.rebuild disk pages).2.generation = service.generation + 1 := by
  unfold rebuild rebuildWith
  obtain ⟨current, hc⟩ := finish_snd (service.start disk pages).2 (service.start disk pages).1
    (service.start disk pages).1.forest
  rw [hc]
  rfl

theorem builds_eq (hf : fresh.Sound) :
    ∀ (run : List (Disk × List PageFile)) (service : Service), service.Sound →
      service.options = fresh.options →
      service.builds run = run.mapIdx fun i visit =>
        { (fresh.rebuild visit.1 visit.2).1 with generation := service.generation + i + 1 }
  | [], _, _, _ => rfl
  | (disk, pages) :: rest, service, h, options => by
    have after := rebuild_leads service disk pages
    have ih := builds_eq hf rest (service.rebuild disk pages).2 (after.sound h)
      (after.same_setup.1.trans options)
    unfold builds
    rw [List.mapIdx_cons, rebuild_fst_eq h hf options, ih, rebuild_generation]
    simp only [Nat.add_zero, Nat.add_assoc, Nat.add_comm 1]

/-- **No rebuild shows what came before it.** In every run of rebuilds on a new service, the disk
and the pages changing in any way between them, each build is the one that a service made anew with
the same options gives for the same pages and disk; only its generation counts on. -/
theorem builds_eq_mapIdx {options : Options} {loader : Loader}
    (h : new options loader = .ok fresh) (run : List (Disk × List PageFile)) :
    fresh.builds run = run.mapIdx fun i visit =>
      { (fresh.rebuild visit.1 visit.2).1 with generation := i + 1 } := by
  have sound := new_sound h
  have start : fresh.generation = 0 := by rw [new_spec h]
  rw [builds_eq sound run fresh sound rfl]
  simp only [start, Nat.zero_add]

/-- A page is written, edited while it is asked for under another spelling, and removed; the first two
builds have metadata of it. -/
theorem builds_of_edited_page :
    let path := "/app/pages/a.ts"
    let disk := ({} : Disk).write path "definePageMeta(\x7b name: 'a' \x7d)".toUTF8.toList
    let edited := disk.write path "definePageMeta(\x7b name: 'b' \x7d)".toUTF8.toList
    let removed := edited.remove path
    let pages : List PageFile := [⟨"a.ts", ⟨path⟩⟩]
    let respelled : List PageFile := [⟨"a.ts", ⟨"/app//pages/a.ts"⟩⟩]
    ∃ fresh, new {} .source = .ok fresh ∧
      (fresh.builds [(disk, pages), (edited, respelled), (removed, pages)]).map
        (fun build => build.metas.length) = [1, 1, 0] ∧
      fresh.builds [(disk, pages), (edited, respelled), (removed, pages)] =
        [{ (fresh.rebuild disk pages).1 with generation := 1 },
          { (fresh.rebuild edited respelled).1 with generation := 2 },
          { (fresh.rebuild removed pages).1 with generation := 3 }] := by
  intro path disk edited removed pages respelled
  have valid : new {} .source = .ok { extractor := { call := Options.metaCall {} } } := rfl
  exact ⟨_, valid, by decide +kernel, builds_eq_mapIdx valid _⟩

end FileRoutes.Service
