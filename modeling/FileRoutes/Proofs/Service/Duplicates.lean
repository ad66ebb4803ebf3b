import FileRoutes.Proofs.Record.Resolve
import FileRoutes.Proofs.Route.Forest
import FileRoutes.Proofs.Service.Rebuild

/-!
# Duplicate names of a rebuild

A rebuild compares names when the forest is built from the page files. The names that pages declare
come later, and are compared with nothing.

* `Route.keepsName`: the page of a route declares no name.
* `Service.reports_rebuild_iff`: the names and modes that a rebuild warns of.
* `Service.not_forall_reports_rebuild`: two pages that declare one name go unnoticed.
-/

namespace FileRoutes

/-- The page of the route declares no name. -/
def Route.keepsName (metas : Metas) (route : Route) : Bool :=
  ((route.found? metas).bind PageMeta.name).isNone

/-- A route whose page declares no name has the name of its file. -/
theorem Route.carries_augmented {name : String} {mode : Mode} {metas : Metas} {route : Route}
    (keeps : route.keepsName metas = true) :
    (route.augmented metas).carries name mode = route.carries name mode := by
  unfold keepsName at keeps
  unfold augmented carries
  cases hm : route.found? metas with
  | none => rfl
  | some m =>
    rw [hm, Option.bind_some, Option.isNone_iff_eq_none] at keeps
    rw [Option.map_some, Option.getD_some]
    unfold augment
    rw [keeps, Option.none_or]

namespace Service

/-- **Which duplicate names a rebuild warns of.** The routes of a build are those of the page files
with the values of their pages, but a name and a mode are warned of exactly if two nodes have them as
the forest comes from the page files. So two routes of the build with one name and one mode are warned
of whenever their pages declare no name. -/
theorem reports_rebuild_iff (service : Service) (disk : Disk) (pages : List PageFile)
    (name : String) (mode : Mode) :
    let build := (service.rebuild disk pages).1
    let built := (buildForest service.options.serverComponents pages).1
    build.forest = augment build.metas built ∧
      ((∃ warning ∈ build.diagnostics.warnings, warning.Reports name mode) ↔
        2 ≤ (Forest.preorder built).countP (Route.carries name mode)) ∧
      (2 ≤ (Forest.preorder build.forest).countP (fun route =>
          route.carries name mode && route.keepsName build.metas) →
        ∃ warning ∈ build.diagnostics.warnings, warning.Reports name mode) := by
  intro build built
  have made : service.Derives pages build := service.rebuild_derives disk pages
  have reports : (∃ warning ∈ build.diagnostics.warnings, warning.Reports name mode) ↔
      2 ≤ (Forest.preorder built).countP (Route.carries name mode) := by
    rw [made.warnings]
    exact reports_buildForest_iff service.options.serverComponents pages
  refine ⟨made.forest, reports, fun two => reports.2 (Nat.le_trans two ?_)⟩
  rw [made.forest, augment_eq_map, Forest.preorder_map, List.countP_map]
  refine List.countP_mono_left fun route _ both => ?_
  obtain ⟨carries, keeps⟩ := Bool.and_eq_true_iff.1 both
  have keeps_route : route.keepsName build.metas = true := by
    unfold Route.keepsName at keeps ⊢
    rw [Route.found?_augmented] at keeps
    exact keeps
  rw [Route.carries_augmented keeps_route] at carries
  exact carries

/-- Two pages that declare one name have it in the build, and nothing is warned of. -/
theorem not_forall_reports_rebuild :
    ¬∀ (service : Service) (disk : Disk) (pages : List PageFile) (name : String) (mode : Mode),
      2 ≤ (Forest.preorder (service.rebuild disk pages).1.forest).countP (Route.carries name mode) →
        ∃ warning ∈ (service.rebuild disk pages).1.diagnostics.warnings,
          warning.Reports name mode := by
  intro h
  let text := "definePageMeta(\x7b name: 'x' \x7d)".toUTF8.toList
  let disk := (({} : Disk).write "a.ts" text).write "b.ts" text
  let pages : List PageFile := [⟨"a.ts", ⟨"a.ts"⟩⟩, ⟨"b.ts", ⟨"b.ts"⟩⟩]
  let service : Service := { extractor := { call := Options.metaCall {} } }
  -- sorting does not reduce, but the two pages are in order already
  have sorted : byLength pages = pages := List.mergeSort_of_pairwise (by decide)
  have sound : service.Sound := Extractor.soundFor_new _
  have made := service.rebuild_derives disk pages
  have two : 2 ≤ (Forest.preorder (service.rebuild disk pages).1.forest).countP
      (Route.carries "x" .all) := by
    rw [made.forest, rebuild_metas sound]
    unfold buildForest
    rw [sorted]
    decide +kernel
  have silent : (service.rebuild disk pages).1.diagnostics.warnings = [] := by
    rw [made.warnings]
    unfold buildForest
    rw [sorted]
    decide +kernel
  obtain ⟨warning, hm, -⟩ := h service disk pages "x" .all two
  rw [silent] at hm
  cases hm

end Service

end FileRoutes
