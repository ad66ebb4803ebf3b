import FileRoutes.FilePath

/-!
# Extraction errors

* `ReadFailure`: why a file cannot be read.
* `CallFault`: what is wrong with the metadata call of a page.
* `ExtractionError`: why a page's metadata cannot be extracted, with `ExtractionError.message`.
* `ExtractionError.isHard`: the page cannot behave as it declares.
-/

namespace FileRoutes

/-- Why a file cannot be read. -/
inductive ReadFailure where
  | notFound
  | notDirectory
  | isDirectory
  | notText
  | other (cause : String)
  deriving DecidableEq, Repr

/-- The failure in words. -/
def ReadFailure.message : ReadFailure → String
  | .notFound => "No such file or directory (os error 2)"
  | .notDirectory => "Not a directory (os error 20)"
  | .isDirectory => "Is a directory (os error 21)"
  | .notText => "stream did not contain valid UTF-8"
  | .other cause => cause

/-- What is wrong with the metadata call of a page. -/
inductive CallFault where
  | multipleCalls (count : Nat)
  | argumentCount (count : Nat)
  | notObjectLiteral
  | spreadArgument
  | unsupportedCallee
  | suspends
  deriving DecidableEq, Repr

/-- Why the metadata of a page cannot be extracted. -/
inductive ExtractionError where
  | read (file : FilePath) (failure : ReadFailure)
  | unreadableScript (file : FilePath)
  | call (name : String) (file : FilePath) (fault : CallFault)
  | workerPool (cause : String)
  deriving DecidableEq, Repr

namespace ExtractionError

/-- The word in which a suspension shows. -/
def suspension : String := "await"

/-- A name as it stands in messages. -/
def quoted (name : String) : String := "`" ++ name ++ "`"

/-- The error in words. -/
def message : ExtractionError → String
  | .read file failure => s!"failed to read '{file.text}': {failure.message}"
  | .unreadableScript file => s!"failed to parse script in '{file.text}'"
  | .call name file fault =>
    let name := quoted name
    let file := file.text
    match fault with
    | .multipleCalls count =>
      s!"{name} is called {count} times in '{file}'; expected a single top-level call"
    | .argumentCount count =>
      s!"{name} must be called with exactly one argument in '{file}' (got {count})"
    | .notObjectLiteral => s!"{name} must be called with an object literal in '{file}'"
    | .spreadArgument => s!"{name} cannot take a spread argument in '{file}'"
    | .unsupportedCallee => s!"{name} must be called by its bare identifier in '{file}'"
    | .suspends => s!"{quoted suspension} is not allowed inside {name} in '{file}'"
  | .workerPool cause => s!"failed to start extraction workers: {cause}"

/-- The page cannot behave as it declares: its call suspends. -/
def isHard : ExtractionError → Bool
  | .call _ _ .suspends => true
  | _ => false

end ExtractionError

end FileRoutes
