/-!
# Route modes

A page is rendered everywhere, in the browser only or on the server only.
-/

namespace FileRoutes

/-- Where a route is rendered. -/
inductive Mode where
  | all | client | server
  deriving DecidableEq, Repr, Inhabited

namespace Mode

/-- The name of a mode. -/
def label : Mode → String
  | .all => "all"
  | .client => "client"
  | .server => "server"

/-- The mode of a name. -/
def ofLabel? (label : String) : Option Mode :=
  [Mode.all, .client, .server].find? fun mode => mode.label == label

theorem ofLabel?_label (mode : Mode) : ofLabel? mode.label = some mode := by cases mode <;> rfl

end Mode

end FileRoutes
