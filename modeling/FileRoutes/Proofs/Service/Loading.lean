import FileRoutes.Proofs.Page.Batch
import FileRoutes.Proofs.Page.Reading
import FileRoutes.Proofs.Record.Resolve
import FileRoutes.Proofs.Route.Forest
import FileRoutes.Proofs.Service.Use

/-!
# Loading metadata modules

A record whose page has not changed shows what its module loads: the fields that were known at the
rebuild and those that are left to the module agree with the page's own declaration.

* `Build.Within`, `Diagnostics.Extracted`: the files of a build are given pages, and extraction from a
  file did not fail.
* `Service.found?_freshScan`: the metadata a route finds is what its file declares.
* `Service.load_fst`: what loading gives as long as the file can be read.
* `Service.rebuildWith_shows`: loading succeeds, and the record shows every loaded member.
-/

namespace FileRoutes

/-! ## Pages of a build -/

/-- No extraction from the file failed. -/
def Diagnostics.Extracted (d : Diagnostics) (file : FilePath) : Prop :=
  ∀ failure ∈ d.errors, ∀ error, failure.problem = .extraction error → ¬failure.file.Same file

/-- Every file of a route is one of the given pages. -/
def Build.Within (build : Build) (pages : List PageFile) : Prop :=
  ∀ route ∈ Forest.preorder build.forest, ∀ file, route.file = some file →
    ∃ page ∈ pages, page.file.Same file

/-- The record of a page shows every member of what loading its module gives. -/
theorem Route.shows_loaded {call : MetaCall} {metas : Metas} {route : Route} {file : FilePath}
    {text : String} (hf : route.file = some file)
    (hx : extract call file text = .ok (metas.get? file))
    {name : String} {value : Json}
    (hv : (((metas.get? file).map PageMeta.toObject).getD .empty).get? name = some value) :
    (route.record true metas).Shows (((metas.get? file).map PageMeta.toObject).getD .empty) name
      value := by
  cases hm : metas.get? file with
  | none => simp [hm] at hv
  | some m =>
    rw [hm] at hx hv
    refine Route.shows_record (tidy_of_extractWith hx) ?_ hv
    unfold Route.found?
    rw [hf, Option.bind_some, hm]

namespace Service

variable {service fresh later : Service} {options : Options} {disk : Disk} {pages : List PageFile}
  {file : FilePath} {text : String} {error : ExtractionError} {found : Option PageMeta}

/-! ## Errors of a scan -/

theorem mem_foldl_fileError (first : FilePath) :
    ∀ (failures : List (FilePath × ExtractionError)) (d : Diagnostics),
      (⟨first, .extraction error⟩ ∈ d.errors ∨ (first, error) ∈ failures) →
        ⟨first, .extraction error⟩ ∈
          (failures.foldl (fun d failure => d.fileError failure.1 (.extraction failure.2)) d).errors
  | [], d, h => by simpa using h
  | failure :: rest, d, h => by
    rw [List.foldl_cons]
    refine mem_foldl_fileError first rest _ ?_
    rcases h with h | h
    · left
      simpa [Diagnostics.errors, Diagnostics.fileError] using Or.inl h
    · rcases List.mem_cons.1 h with rfl | h
      · left
        simp [Diagnostics.errors, Diagnostics.fileError]
      · exact Or.inr h

/-- **What a route finds is what its file declares**, unless extraction from the file failed: the
file is read under the first of its spellings, which makes no difference. -/
theorem found?_freshScan (scans : options.scanMeta = true) {page : PageFile} (hm : page ∈ pages)
    (hs : page.file.Same file) (hr : disk.read file = .ok text) {diagnostics : Diagnostics}
    (extracted : (freshScan options disk pages diagnostics).2.Extracted file) :
    extract options.metaCall file text =
      .ok ((freshScan options disk pages diagnostics).1.get? file) := by
  unfold freshScan at extracted ⊢
  rw [if_pos scans] at extracted ⊢
  obtain ⟨first, source, hsame, hread, hx⟩ := Extractor.get?_freshReport hm hs
    fun failure hf => extracted _ (mem_foldl_fileError _ _ _ (Or.inr hf)) failure.2 rfl
  rw [Disk.read_eq_of_same hsame hread hr] at hx
  exact extract_ok_congr hsame hx

/-! ## Builds and loads -/

/-- The metadata and the records of a rebuild around an edit of the routes. -/
theorem rebuildWith_fst (h : service.Sound) (disk : Disk) (pages : List PageFile)
    {hook : Forest Route → Service → Forest Route × Service}
    (uses : ∀ forest state, Leads state (hook forest state).2) {build : Build}
    (hb : (service.rebuildWith disk pages hook).1 = build) :
    build.records = normalize service.options.overrideMeta build.metas build.forest ∧
      ∃ diagnostics, (build.metas, build.diagnostics) =
        freshScan service.options disk pages diagnostics := by
  have same : (hook (service.start disk pages).1.forest (service.start disk pages).2).2.options =
      service.options := (uses _ _).same_setup.1
  subst hb
  unfold rebuildWith finish
  simp only [same]
  rw [start_fst h]
  exact ⟨trivial, (buildForest service.options.serverComponents pages).2, rfl⟩

/-- Loading gives the object that the page declares, as the page is now. -/
theorem load_fst (h : service.Sound) (loader : service.loader = .source) (module : MetaModule)
    (hr : disk.read module.file = .ok text)
    (hx : extract service.options.metaCall module.file text = .ok found) :
    (service.load disk module).1 = .ok ((found.map PageMeta.toObject).getD .empty) := by
  have fresh := (Extractor.extractFile_spec h disk module.file).1
  unfold Extractor.freshOutcome at fresh
  simp only [hr, hx] at fresh
  unfold load
  rw [loader]
  simp [fresh, Except.map]

/-! ## Records and their modules -/

/-- **A page's own declaration always wins.** Let a service with valid options, which scans metadata
and lets it override, and which loads modules from the pages, be rebuilt around any edit of the
routes that stays within the given pages. Whatever the service is used for afterwards: if a page
still reads as it did and its extraction did not fail, then loading the module of its record
succeeds, and the record resolved against the loaded object shows every member of that object. -/
theorem rebuildWith_shows (valid : new options .source = .ok fresh)
    (scans : options.scanMeta = true) (overrides : options.overrideMeta = true)
    (before : Leads fresh service) {hook : Forest Route → Service → Forest Route × Service}
    (uses : ∀ forest state, Leads state (hook forest state).2)
    (within : (service.rebuildWith disk pages hook).1.Within pages)
    (after : Leads (service.rebuildWith disk pages hook).2 later) {disk' : Disk} {record : Record}
    (hm : record ∈ Forest.preorder (service.rebuildWith disk pages hook).1.records)
    (hf : record.file = some file) (hr : disk.read file = .ok text)
    (unchanged : disk'.read file = .ok text)
    (extracted : (service.rebuildWith disk pages hook).1.diagnostics.Extracted file) :
    ∃ module loaded, record.module = some module ∧ (later.load disk' module).1 = .ok loaded ∧
      ∀ name value, loaded.get? name = some value → record.Shows loaded name value := by
  have setup : service.options = options ∧ service.loader = .source := by
    have made := new_spec valid
    rw [before.same_setup.1, before.same_setup.2, made]
    exact ⟨rfl, rfl⟩
  have sound := before.sound (new_sound valid)
  have leads : Leads service later := (rebuildWith_leads disk pages uses).trans after
  generalize hb : (service.rebuildWith disk pages hook).1 = build at within hm extracted
  obtain ⟨records, diagnostics, scanned⟩ := rebuildWith_fst sound disk pages uses hb
  obtain ⟨metas_eq, diagnostics_eq⟩ := Prod.ext_iff.1 scanned
  rw [setup.1] at records metas_eq diagnostics_eq
  -- the record is that of a route, whose page was scanned
  rw [records, overrides] at hm
  unfold normalize at hm
  rw [Forest.preorder_map] at hm
  obtain ⟨route, hroute, rfl⟩ := List.mem_map.1 hm
  obtain ⟨page, hpage, hs⟩ := within route hroute file hf
  have hx : extract options.metaCall file text = .ok (build.metas.get? file) := by
    simp only at metas_eq diagnostics_eq
    rw [metas_eq]
    exact found?_freshScan scans hpage hs hr (diagnostics_eq ▸ extracted)
  have hmodule : (route.record true build.metas).module =
      some (.ofPage file (route.found? build.metas)) := by
    unfold Route.record
    rw [show route.file = some file from hf]
    rfl
  -- the module is loaded from the same page
  have hload := load_fst (leads.sound sound) (leads.same_setup.2.trans setup.2)
    (.ofPage file (route.found? build.metas)) unchanged
    ((leads.same_setup.1.trans setup.1) ▸ hx)
  exact ⟨_, _, hmodule, hload, fun name value hv => Route.shows_loaded hf hx hv⟩

/-- An edit that renames every route does not show where the page declares a name. -/
theorem rebuildWith_shows_renamed :
    let text := "definePageMeta(\x7b name: 'home', layout: 'wide' \x7d)"
    let file : FilePath := ⟨"/app/pages/a.ts"⟩
    let disk := ({} : Disk).write file.text text.toUTF8.toList
    let pages : List PageFile := [⟨"a.ts", file⟩]
    let rename (forest : Forest Route) (state : Service) : Forest Route × Service :=
      (Forest.map (fun route => { route with name := some "renamed" }) forest, state)
    ∃ fresh, new {} .source = .ok fresh ∧
      ∃ record ∈ Forest.preorder (fresh.rebuildWith disk pages rename).1.records,
        ∃ module loaded, record.module = some module ∧
          ((fresh.rebuildWith disk pages rename).2.load disk module).1 = .ok loaded ∧
          ∀ name value, loaded.get? name = some value → record.Shows loaded name value := by
  intro text file disk pages rename
  have valid : new {} .source = .ok { extractor := { call := Options.metaCall {} } } := rfl
  have read : disk.read file = .ok text := by
    have known : (disk.read file).toOption = some text := by decide +kernel
    cases hr : disk.read file with
    | error failure => simp [hr, Except.toOption] at known
    | ok found => simpa [hr, Except.toOption] using known
  have uses : ∀ forest state, Leads state (rename forest state).2 := fun _ _ => .refl
  let start : Service := { extractor := { call := Options.metaCall {} } }
  obtain ⟨files, errors, record, hm, hf⟩ :
      (∀ route ∈ Forest.preorder (start.rebuildWith disk pages rename).1.forest,
        route.file = some file) ∧
      (start.rebuildWith disk pages rename).1.diagnostics.errors = [] ∧
      ∃ record ∈ Forest.preorder (start.rebuildWith disk pages rename).1.records,
        record.file = some file := by decide +kernel
  refine ⟨_, valid, record, hm, ?_⟩
  refine rebuildWith_shows valid rfl rfl .refl uses (fun route hr file hfile => ?_) .refl
    hm hf read read (fun failure hm => ?_)
  · refine ⟨_, List.mem_singleton_self _, ?_⟩
    cases (files route hr).symm.trans hfile
    rfl
  · rw [errors] at hm
    cases hm

end Service

end FileRoutes
