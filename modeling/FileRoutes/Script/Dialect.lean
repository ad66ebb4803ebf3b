/-!
# Script dialects

A page's script is an ECMAScript module, possibly with type annotations (TypeScript) and possibly
with embedded markup (JSX). A `Dialect` says which of the two a block may use.
-/

namespace FileRoutes.Script

/-- The four combinations of type annotations and embedded markup. -/
inductive Dialect where
  | js | jsx | ts | tsx
  deriving DecidableEq, Repr, Inhabited

namespace Dialect

/-- The short name of a dialect, which is also a file extension. -/
def label : Dialect → String
  | .js => "js"
  | .jsx => "jsx"
  | .ts => "ts"
  | .tsx => "tsx"

/-- Type annotations and declarations are part of the language. -/
def hasTypes : Dialect → Bool
  | .ts | .tsx => true
  | .js | .jsx => false

/-- Markup elements are expressions. -/
def hasMarkup : Dialect → Bool
  | .jsx | .tsx => true
  | .js | .ts => false

end Dialect

end FileRoutes.Script
