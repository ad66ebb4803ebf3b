import FileRoutes.Page.Cache
import FileRoutes.Page.Disk
import FileRoutes.Page.Extract

/-!
# Extractors

An `Extractor` extracts the metadata of pages and remembers the results.

* `Extractor.extract`: the metadata of a text.
* `Extractor.extractFile`: the metadata of a file on disk.
* `Extractor.extractFiles`: the metadata of several files, as a `Report`; `Extractor.tryExtractFiles`
  fails if the workers that extract them cannot be started.

Only results are remembered, never errors; a file that cannot be read is forgotten.
-/

namespace FileRoutes

/-- A page file: its path under the page directory, and its path on disk. -/
structure PageFile where
  relative : String
  file : FilePath
  deriving DecidableEq, Repr

/-- Metadata by file, in the order of extraction; each file once, under one spelling. -/
abbrev Metas := List (FilePath × PageMeta)

/-- The metadata of a file, paths being compared by components. -/
def Metas.get? (metas : Metas) (file : FilePath) : Option PageMeta :=
  (metas.find? fun entry => entry.1.Same file).map Prod.snd

/-- Sets the metadata of a file. A file that has metadata keeps its spelling. -/
def Metas.insert (metas : Metas) (file : FilePath) (found : PageMeta) : Metas :=
  match metas with
  | [] => [(file, found)]
  | entry :: rest =>
    if entry.1.Same file then (entry.1, found) :: rest else entry :: Metas.insert rest file found

/-- The files without those that an earlier one is the same as. -/
def distinctFiles : List FilePath → List FilePath
  | [] => []
  | file :: rest => file :: (distinctFiles rest).filter fun other => !decide (file.Same other)

/-- How pages declare metadata, and the results so far. -/
structure Extractor where
  call : MetaCall := {}
  cache : Cache := {}
  deriving DecidableEq, Repr, Inhabited

/-- The result of extracting several files. -/
structure Report where
  metas : Metas := []
  failures : List (FilePath × ExtractionError) := []
  filesRead : Nat := 0
  deriving DecidableEq, Repr, Inhabited

/-- What a page declares, or why that cannot be told. -/
abbrev Outcome := Except ExtractionError (Option PageMeta)

/-- The report with the outcome of one more file. -/
def Report.add (report : Report) (file : FilePath) : Outcome → Report
  | .ok (some found) => { report with metas := report.metas ++ [(file, found)] }
  | .ok none => report
  | .error error => { report with failures := report.failures ++ [(file, error)] }

namespace Extractor

/-- The metadata of a text of a file. -/
def extract (x : Extractor) (source : String) (file : FilePath) : Outcome × Extractor :=
  match x.cache.get file source with
  | (some found, cache) => (.ok found, { x with cache })
  | (none, cache) =>
    match FileRoutes.extract x.call file source with
    | .ok found => (.ok found, { x with cache := cache.insert file source found })
    | .error error => (.error error, { x with cache })

/-- The log of extracting from a text: nothing is logged when the result is remembered. -/
def extractLog (x : Extractor) (source : String) (file : FilePath) : List Event :=
  match (x.cache.get file source).1 with
  | some _ => []
  | none => extractEvents x.call file source

/-- The metadata of a file on disk. -/
def extractFile (x : Extractor) (disk : Disk) (file : FilePath) : Outcome × Extractor :=
  match disk.read file with
  | .ok source => x.extract source file
  | .error failure => (.error (.read file failure), { x with cache := x.cache.invalidate file })

/-- The log of extracting a file. -/
def extractFileLog (x : Extractor) (disk : Disk) (file : FilePath) : List Event :=
  match disk.read file with
  | .ok source => x.extractLog source file
  | .error _ => []

/-- Extracts one more file. -/
def extractStep (disk : Disk) (state : Report × Extractor) (file : FilePath) : Report × Extractor :=
  let (outcome, x) := state.2.extractFile disk file
  (state.1.add file outcome, x)

/-- The metadata of several files, each read once. -/
def extractFiles (x : Extractor) (disk : Disk) (files : List PageFile) : Report × Extractor :=
  let distinct := distinctFiles (files.map PageFile.file)
  distinct.foldl (extractStep disk) ({ filesRead := distinct.length }, x)

/-- The metadata of several files, by workers that may have a reason not to start. Then no file is
read. -/
def tryExtractFiles (x : Extractor) (fault : Option String) (disk : Disk) (files : List PageFile) :
    Except ExtractionError Report × Extractor :=
  match fault with
  | some cause => (.error (.workerPool cause), x)
  | none => (.ok (x.extractFiles disk files).1, (x.extractFiles disk files).2)

end Extractor

end FileRoutes
