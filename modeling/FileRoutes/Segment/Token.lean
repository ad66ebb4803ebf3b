/-!
# Segments of page paths

A page path such as `blog/[slug]` consists of segments; a segment is a sequence of tokens: literal
text, parameters in square brackets, and group labels in parentheses, which leave no trace in the
route.

* `Segment.Token`: a token, by its kind and its text.
* `Segment.Tokens`: the tokens of a segment together with the characters left out of its parameters.
* `Segment.Error`: why a segment is malformed, with `Segment.Error.message`.
-/

namespace FileRoutes.Segment

/-- The five kinds of token. -/
inductive Kind where
  | static | dynamic | optional | catchall | group
  deriving DecidableEq, Repr, Inhabited

namespace Kind

/-- The name of a kind. -/
def label : Kind → String
  | .static => "static"
  | .dynamic => "dynamic"
  | .optional => "optional"
  | .catchall => "catchall"
  | .group => "group"

/-- All kinds. -/
def all : List Kind := [.static, .dynamic, .optional, .catchall, .group]

/-- The kind of a name. -/
def ofLabel? (label : String) : Option Kind := all.find? fun kind => kind.label == label

/-- The kinds that stand for a route parameter. -/
def isParam : Kind → Bool
  | .dynamic | .optional | .catchall => true
  | .static | .group => false

end Kind

/-- A piece of a segment: literal text, the name of a parameter or the label of a group. -/
structure Token where
  kind : Kind
  value : String
  deriving DecidableEq, Repr, Inhabited

namespace Token

/-- The token stands for a route parameter. -/
def isParam (token : Token) : Bool := token.kind.isParam

/-- The token is the label of a group. -/
def isGroup (token : Token) : Bool := token.kind == .group

end Token

/-- A list of tokens adds nothing to paths and names: it has group labels only. -/
def transparent (tokens : List Token) : Bool := tokens.all Token.isGroup

/-- The part of a route name that tokens stand for; group labels add nothing. -/
def label (tokens : List Token) : String :=
  String.join ((tokens.filter fun token => !token.isGroup).map Token.value)

/-- The tokens of a segment, and the characters that were left out of its parameters. -/
structure Tokens where
  tokens : List Token
  ignored : List Char
  deriving DecidableEq, Repr, Inhabited

/-- Why a segment has no tokens. -/
inductive Error where
  | emptyParam (segment : String)
  | emptyGroup (segment : String)
  | unfinishedParam (segment name : String)
  | catchallNotAlone (segment name : String)
  deriving DecidableEq, Repr

/-- The error in words. -/
def Error.message : Error → String
  | .emptyParam segment => s!"empty param in segment '{segment}'"
  | .emptyGroup segment => s!"empty group in segment '{segment}'"
  | .unfinishedParam segment name => s!"unfinished param \"{name}\" in segment '{segment}'"
  | .catchallNotAlone segment name =>
    s!"catchall param '{name}' must be the only param in segment '{segment}'"

end FileRoutes.Segment
