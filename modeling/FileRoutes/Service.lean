import FileRoutes.Record.Plan
import FileRoutes.Route.Build

/-!
# Route service

A `Service` keeps the routes of a project up to date: each rebuild starts from the list of page
files, and the newest build is the current one.

* `Service.start`: the first half of a rebuild, up to the routes with the values of their pages.
* `Service.finish`: the second half, with routes that may have been edited. The build becomes the
  current one unless another rebuild has started in the meantime.
* `Service.rebuildWith`: both halves around an edit of the routes; `Service.tryRebuildWith` fails if the
  workers that scan the pages cannot be started.
* `Service.load`: the object that a metadata module exports.
-/

namespace FileRoutes

/-- Everything a rebuild produced. -/
structure Build where
  generation : Nat
  forest : Forest Route
  records : Forest Record
  metas : Metas
  diagnostics : Diagnostics

namespace Build

/-- The full paths that can be rendered ahead of time. -/
def prerenderPaths (build : Build) : List String := FileRoutes.prerenderPaths build.records

/-- The names that are known already. -/
def routeNames (build : Build) : List String := FileRoutes.routeNames build.records

end Build

/-- A rebuild between its two halves. -/
structure Draft where
  generation : Nat
  forest : Forest Route
  metas : Metas
  diagnostics : Diagnostics

/-- How metadata modules are loaded: by extracting from the page again, or by other means. -/
inductive Loader where
  | source
  | custom (load : MetaModule → Bag)

/-- A service: its options, its results so far, the number of rebuilds started, and the current
build. The number is unbounded: that a machine word starts again at zero after `2 ^ 64` rebuilds is
left out. -/
structure Service where
  options : Options := {}
  loader : Loader := .source
  extractor : Extractor := {}
  generation : Nat := 0
  current : Option Build := none

/-- The metas of two builds are the same: each file of one has the same metadata in the other. -/
def Metas.same (a b : Metas) : Bool :=
  a.length == b.length && a.all fun entry => b.get? entry.1 == some entry.2

namespace Service

/-- A service with valid options. -/
def new (options : Options) (loader : Loader) : Except Options.Error Service := do
  options.validate
  return { options, loader, extractor := { call := options.metaCall } }

/-- The metadata of the page files, with the failures among the diagnostics. -/
def scan (service : Service) (disk : Disk) (pages : List PageFile) (diagnostics : Diagnostics) :
    Metas × Diagnostics × Extractor :=
  if service.options.scanMeta then
    let (report, extractor) := service.extractor.extractFiles disk pages
    let diagnostics := report.failures.foldl
      (fun d failure => d.fileError failure.1 (.extraction failure.2)) diagnostics
    (report.metas, diagnostics, extractor)
  else ([], diagnostics, service.extractor)

/-- Starts a rebuild, which takes the next generation. -/
def start (service : Service) (disk : Disk) (pages : List PageFile) : Draft × Service :=
  let generation := service.generation + 1
  let (forest, diagnostics) := buildForest service.options.serverComponents pages
  let (metas, diagnostics, extractor) := service.scan disk pages diagnostics
  ({ generation, forest := augment metas forest, metas, diagnostics },
    { service with generation, extractor })

/-- No rebuild has started since the one of a generation. -/
def isLatest (service : Service) (generation : Nat) : Bool := service.generation == generation

/-- Finishes a rebuild with the given routes. -/
def finish (service : Service) (draft : Draft) (forest : Forest Route) : Build × Service :=
  let build : Build :=
    { generation := draft.generation
      forest
      records := normalize service.options.overrideMeta draft.metas forest
      metas := draft.metas
      diagnostics := draft.diagnostics }
  let published := { service with current := some build }
  (build, if service.isLatest draft.generation then published else service)

/-- Rebuilds all routes; `hook` may edit them, and use the service, before the records are made. -/
def rebuildWith (service : Service) (disk : Disk) (pages : List PageFile)
    (hook : Forest Route → Service → Forest Route × Service) : Build × Service :=
  let (draft, service) := service.start disk pages
  let (forest, service) := hook draft.forest service
  service.finish draft forest

/-- Rebuilds all routes where the workers that scan the pages may have a reason not to start. A rebuild
that fails for it keeps the generation it has taken. -/
def tryRebuildWith (service : Service) (fault : Option String) (disk : Disk) (pages : List PageFile)
    (hook : Forest Route → Service → Forest Route × Service) :
    Except ExtractionError Build × Service :=
  match service.options.scanMeta, service.extractor.tryExtractFiles fault disk pages with
  | true, (.error error, extractor) =>
    (.error error, { service with generation := service.generation + 1, extractor })
  -- the first half of the rebuild extracts the same report
  | _, _ => (.ok (service.rebuildWith disk pages hook).1, (service.rebuildWith disk pages hook).2)

/-- Rebuilds all routes. -/
def rebuild (service : Service) (disk : Disk) (pages : List PageFile) : Build × Service :=
  service.rebuildWith disk pages Prod.mk

/-- The log of finishing a rebuild. -/
def finishLog (service : Service) (draft : Draft) : List Event :=
  if service.isLatest draft.generation then []
  else
    [{ level := .debug
       message := "superseded rebuild was not published"
       fields := [("generation", .count draft.generation)] }]

/-- The object a metadata module exports. -/
def load (service : Service) (disk : Disk) (module : MetaModule) :
    Except ExtractionError Bag × Service :=
  match service.loader with
  | .custom load => (.ok (load module), service)
  | .source =>
    let (outcome, extractor) := service.extractor.extractFile disk module.file
    let loaded := outcome.map fun found => (found.map PageMeta.toObject).getD .empty
    (loaded, { service with extractor })

/-- The log of loading a metadata module. -/
def loadLog (service : Service) (disk : Disk) (module : MetaModule) : List Event :=
  match service.loader with
  | .custom _ => []
  | .source => service.extractor.extractFileLog disk module.file

end Service

end FileRoutes
