import FileRoutes.Segment.Token
import FileRoutes.Segment.Percent

/-!
# Segments as route paths

* `Segment.compile`: the tokens of a segment as a piece of a route path, which starts with a slash.

A parameter is a colon, its name and a mark of its kind. A catchall that is followed by another
segment matches within one segment only, so that it cannot take the text of the following ones.
-/

namespace FileRoutes.Segment

/-- What a token adds to the route path. -/
def Token.fragment (followed : Bool) (token : Token) : String :=
  match token.kind with
  | .static => encodeStatic token.value
  | .dynamic => ":" ++ token.value ++ "()"
  | .optional => ":" ++ token.value ++ "?"
  | .catchall => ":" ++ token.value ++ (if followed then "([^/]*)*" else "(.*)*")
  | .group => ""

/-- The route path of a segment; `followed` says whether another segment comes after it. -/
def compile (tokens : List Token) (followed : Bool) : String :=
  "/" ++ String.join (tokens.map (Token.fragment followed))

end FileRoutes.Segment
