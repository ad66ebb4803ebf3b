import FileRoutes.Proofs.Page.Change
import FileRoutes.Proofs.Record.Resolve
import FileRoutes.Proofs.Route.Forest
import FileRoutes.Proofs.Service.Rebuild

/-!
# Isolation of pages

What a page contains shows in its own routes only. Two rebuilds from disks that differ in one file
agree on every route whose path does not lead to that file; and as long as the file declares
nothing, for whatever reason, they agree on all but the errors.

* `PageFile.Apart`: no page that spells the path of a route leads to the file.
* `Forest.forall₂_augment`, `Forest.forall₂_normalize`: routes and records of two collections of metas
  agree wherever the metas do.
* `Service.rebuild_isolated`: the two rebuilds.
-/

namespace FileRoutes

variable {a b : Disk} {location : Location} {pages : List PageFile}

/-- No page that spells the path leads to the location. -/
def PageFile.Apart (pages : List PageFile) (location : Location) (disk : Disk)
    (path : Option FilePath) : Prop :=
  ∀ file, path = some file → ∀ page ∈ pages, page.file.Same file →
    disk.find page.file ≠ .ok location

/-- A path that spells another location is apart from it. -/
theorem PageFile.apart_of_locationOf_ne {path : Option FilePath}
    (h : ∀ file, path = some file → a.locationOf file ≠ location) :
    PageFile.Apart pages location a path := by
  intro file hf page _ same found
  refine h file hf ?_
  unfold Disk.locationOf
  rw [← same]
  exact (Disk.find_eq_ok_iff.1 found).2.1

/-! ## Routes and records of two collections of metas -/

section

variable {one other : Metas} {apart : Option FilePath → Prop}

/-- Routes have the same values of their pages wherever two collections of metas agree. -/
theorem Forest.forall₂_augment (forest : Forest Route)
    (h : ∀ route : Route, apart route.file → route.found? one = route.found? other) :
    Forest.Forall₂ (fun r s => r.file = s.file ∧ (apart r.file → r = s))
      (augment one forest) (augment other forest) := by
  rw [augment_eq_map, augment_eq_map]
  refine Forest.forall₂_map forest fun route _ => ⟨by simp, fun ha => ?_⟩
  rw [Route.file_augmented] at ha
  unfold Route.augmented
  rw [h route ha]

/-- The records of these routes agree there, too. -/
theorem Forest.forall₂_normalize (override : Bool) (forest : Forest Route)
    (h : ∀ route : Route, apart route.file → route.found? one = route.found? other) :
    Forest.Forall₂ (fun r s => r.file = s.file ∧ (apart r.file → r = s))
      (normalize override one (augment one forest))
      (normalize override other (augment other forest)) := by
  unfold normalize
  rw [augment_eq_map, augment_eq_map, Forest.map_map, Forest.map_map]
  refine Forest.forall₂_map forest fun route _ => ⟨?_, fun ha => ?_⟩
  · show (route.augmented one).file = (route.augmented other).file
    rw [Route.file_augmented, Route.file_augmented]
  · have at_route : apart (route.augmented one).file := ha
    rw [Route.file_augmented] at at_route
    have same := h route at_route
    have routes : route.augmented one = route.augmented other := by
      unfold Route.augmented
      rw [same]
    have found : (route.augmented other).found? one = (route.augmented other).found? other := by
      rw [Route.found?_augmented, Route.found?_augmented, same]
    show (route.augmented one).record override one = (route.augmented other).record override other
    rw [routes]
    unfold Route.record
    rw [found]

end

/-! ## Two rebuilds -/

namespace Service

variable {fresh : Service} {options : Options} {loader : Loader}

/-- **Page contents do not leak between routes.** Rebuild a new service from two disks that differ in
one file, which may be missing, unreadable or malformed on either of them. The routes have the same
shape and, position by position, the same file; where no page that spells this file leads to the
changed one, the routes are equal, and so are the records. And if no page that leads to the changed
file is known to declare anything, on either disk, then the builds differ in their errors at most. -/
theorem rebuild_isolated (valid : new options loader = .ok fresh)
    (h : Disk.DifferAt location a b) :
    let one := (fresh.rebuild a pages).1
    let other := (fresh.rebuild b pages).1
    Forest.Forall₂
        (fun r s => r.file = s.file ∧ (PageFile.Apart pages location a r.file → r = s))
        one.forest other.forest ∧
      Forest.Forall₂
        (fun r s => r.file = s.file ∧ (PageFile.Apart pages location a r.file → r = s))
        one.records other.records ∧
      ((∀ page ∈ pages, Extractor.Silent options.metaCall location a page.file) →
        (∀ page ∈ pages, Extractor.Silent options.metaCall location b page.file) →
        one = { other with diagnostics := one.diagnostics } ∧
          one.diagnostics.warnings = other.diagnostics.warnings) := by
  intro one other
  have sound := new_sound valid
  have same_options : fresh.options = options := by rw [new_spec valid]
  have made : fresh.Derives pages one := fresh.rebuild_derives a pages
  have made' : fresh.Derives pages other := fresh.rebuild_derives b pages
  have metas : one.metas = _ := rebuild_metas sound a pages
  have metas' : other.metas = _ := rebuild_metas sound b pages
  rw [same_options] at metas metas'
  -- every difference between the builds goes through what their routes find among the metas
  have agree (route : Route) (apart : PageFile.Apart pages location a route.file) :
      route.found? one.metas = route.found? other.metas := by
    unfold Route.found?
    cases hf : route.file with
    | none => rfl
    | some file =>
      rw [Option.bind_some, Option.bind_some, metas, metas']
      split
      · exact Extractor.get?_freshReport_congr h (apart file hf)
      · rfl
  refine ⟨?_, ?_, fun sa sb => ?_⟩
  · rw [made.forest, made'.forest]
    exact Forest.forall₂_augment _ agree
  · rw [made.records, made'.records, made.forest, made'.forest]
    exact Forest.forall₂_normalize _ _ agree
  · have same : one.metas = other.metas := by
      rw [metas, metas']
      split
      · exact Extractor.metas_freshReport_eq h sa sb
      · rfl
    have same_forest : one.forest = other.forest := by
      rw [made.forest, made'.forest, same]
    have same_records : one.records = other.records := by
      rw [made.records, made'.records, same, same_forest]
    refine ⟨?_, made.warnings.trans made'.warnings.symm⟩
    rw [Build.mk.injEq]
    exact ⟨made.generation.trans made'.generation.symm, same_forest, same_records, same, rfl⟩

/-- A page that awaits inside its call is removed: the other page does not see any of it. -/
theorem rebuild_isolated_removed :
    let text := "definePageMeta(\x7b name: await title() \x7d)"
    let disk := (({} : Disk).write "/app/pages/a.ts" text.toUTF8.toList).write "/app/pages/b.ts"
      "definePageMeta(\x7b name: 'b' \x7d)".toUTF8.toList
    let pages : List PageFile := [⟨"a.ts", ⟨"/app/pages/a.ts"⟩⟩, ⟨"b.ts", ⟨"/app/pages/b.ts"⟩⟩]
    ∃ fresh, new {} .source = .ok fresh ∧
      let one := (fresh.rebuild disk pages).1
      let other := (fresh.rebuild (disk.remove "/app/pages/a.ts") pages).1
      one.metas.length = 1 ∧ one = { other with diagnostics := one.diagnostics } ∧
        one.diagnostics.warnings = other.diagnostics.warnings := by
  intro text disk pages
  have valid : new {} .source = .ok { extractor := { call := Options.metaCall {} } } := rfl
  have change : Disk.DifferAt (disk.locationOf ⟨"/app/pages/a.ts"⟩) disk
      (disk.remove "/app/pages/a.ts") :=
    Disk.differAt_remove (by decide +kernel)
  have silent : ∀ page ∈ pages,
      Extractor.Silent (Options.metaCall {}) (disk.locationOf ⟨"/app/pages/a.ts"⟩) disk
        page.file := by
    decide +kernel
  have silent' : ∀ page ∈ pages,
      Extractor.Silent (Options.metaCall {}) (disk.locationOf ⟨"/app/pages/a.ts"⟩)
        (disk.remove "/app/pages/a.ts") page.file := by
    decide +kernel
  obtain ⟨same, warnings⟩ := (rebuild_isolated valid change).2.2 silent silent'
  exact ⟨_, valid, by decide +kernel, same, warnings⟩

end Service

end FileRoutes
