/-!
# Log events

Operations report what a reader of the log should know as a list of events, in the order in which
they happen.
-/

namespace FileRoutes

/-- How urgent an event is. -/
inductive Level where
  | debug | warn | error
  deriving DecidableEq, Repr, Inhabited

/-- The name of a level as it stands in a log. -/
def Level.label : Level → String
  | .debug => "DEBUG"
  | .warn => "WARN"
  | .error => "ERROR"

/-- What a named field of an event holds. -/
inductive FieldContent where
  | text (value : String)
  | count (value : Nat)
  deriving DecidableEq, Repr

/-- One entry of the log. -/
structure Event where
  level : Level
  message : String
  fields : List (String × FieldContent) := []
  deriving DecidableEq, Repr

end FileRoutes
