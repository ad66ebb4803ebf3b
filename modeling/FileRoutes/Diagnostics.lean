import FileRoutes.Event
import FileRoutes.Options
import FileRoutes.Page.Error
import FileRoutes.Route.Mode
import FileRoutes.Segment.Token

/-!
# Diagnostics

What a build has to say about pages without failing: warnings, and errors of single files. They are
kept in the order in which they arise.

* `Warning`, `Problem`: what can be found, each with its text.
* `Diagnostics.warnings`, `Diagnostics.errors`: the findings of each kind.
* `Diagnostics.events`: the findings as they stand in the log.
-/

namespace FileRoutes

/-- Something that is probably not meant. -/
inductive Warning where
  /-- The route of `file` has the name and the mode of an earlier route, that of `existing`. -/
  | duplicateName (name : String) (mode : Mode) (file existing : Option FilePath)
  | ignoredCharacter (file : FilePath) (segment : String) (character : Char)
  deriving DecidableEq, Repr

/-- The warning in words. -/
def Warning.message : Warning → String
  | .duplicateName name _ file existing =>
    let name := ExtractionError.quoted name
    let file := ExtractionError.quoted ((file.map FilePath.text).getD "<virtual>")
    match existing with
    | some existing =>
      let existing := ExtractionError.quoted existing.text
      s!"route name {name} generated for {file} is the same as {existing}"
    | none => s!"route name {name} generated for {file} is a duplicate"
  | .ignoredCharacter file segment character =>
    let segment := ExtractionError.quoted segment
    let file := ExtractionError.quoted file.text
    s!"'{character}' is not allowed in a dynamic route parameter and has been ignored; " ++
      s!"consider renaming {segment} in {file}"

/-- Why a file does not become a route, or not one with its metadata. -/
inductive Problem where
  | segment (error : Segment.Error)
  | extraction (error : ExtractionError)
  | options (error : Options.Error)
  deriving DecidableEq, Repr

namespace Problem

/-- The problem in words. -/
def message : Problem → String
  | .segment error => error.message
  | .extraction error => error.message
  | .options error => error.message

/-- The writer of the page has to know. -/
def isHard : Problem → Bool
  | .extraction error => error.isHard
  | .segment _ | .options _ => false

end Problem

/-- A problem of one file. -/
structure FileError where
  file : FilePath
  problem : Problem
  deriving DecidableEq, Repr

/-- What was found. -/
inductive Finding where
  | warning (warning : Warning)
  | error (error : FileError)
  deriving DecidableEq, Repr

/-- The finding as it stands in the log. -/
def Finding.event : Finding → Event
  | .warning w => { level := .warn, message := w.message }
  | .error ⟨file, problem⟩ =>
    { level := if problem.isHard then .error else .warn
      message := problem.message
      fields := [("file", .text file.text)] }

/-- The findings of a build, in the order in which they arose. -/
structure Diagnostics where
  findings : List Finding := []
  deriving DecidableEq, Repr, Inhabited

namespace Diagnostics

/-- Adds a warning. -/
def warn (d : Diagnostics) (warning : Warning) : Diagnostics :=
  { findings := d.findings ++ [.warning warning] }

/-- Adds a list of warnings. -/
def warnAll (d : Diagnostics) (warnings : List Warning) : Diagnostics :=
  { findings := d.findings ++ warnings.map .warning }

/-- Adds a problem of a file. -/
def fileError (d : Diagnostics) (file : FilePath) (problem : Problem) : Diagnostics :=
  { findings := d.findings ++ [.error ⟨file, problem⟩] }

/-- The warnings among the findings. -/
def warnings (d : Diagnostics) : List Warning :=
  d.findings.filterMap fun
    | .warning w => some w
    | .error _ => none

/-- The file errors among the findings. -/
def errors (d : Diagnostics) : List FileError :=
  d.findings.filterMap fun
    | .warning _ => none
    | .error e => some e

/-- The file errors that the writers of the pages have to know. -/
def hardErrors (d : Diagnostics) : List FileError :=
  d.errors.filter fun error => error.problem.isHard

/-- Some file error is hard. -/
def hasHardErrors (d : Diagnostics) : Bool := d.errors.any fun error => error.problem.isHard

/-- Nothing was found. -/
def isEmpty (d : Diagnostics) : Bool := d.findings.isEmpty

/-- The findings as they stand in the log. -/
def events (d : Diagnostics) : List Event := d.findings.map Finding.event

end Diagnostics

end FileRoutes
