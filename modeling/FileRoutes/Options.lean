import FileRoutes.Json.Basic
import FileRoutes.Page.Meta

/-!
# Options

* `Options`: how a project reads its pages, with defaults.
* `Options.validate`: the first thing wrong with options, if any; `Options.Error.message` says it.
* `Options.ofJson?`: options of a JSON document.
-/

namespace FileRoutes

/-- How pages are read. `overrideMeta` lets a page's declaration win over values of its route,
`scanMeta` has declarations read at all, `serverComponents` gives server pages a mode of their own,
and `concurrency` bounds the number of pages that are read at a time. -/
structure Options where
  reservedName : String := "definePageMeta"
  extraKeys : List String := []
  overrideMeta : Bool := true
  scanMeta : Bool := true
  serverComponents : Bool := true
  concurrency : Nat := 8
  deriving DecidableEq, Repr, Inhabited

namespace Options

/-- What can be wrong with options. -/
inductive Error where
  | invalidReservedName (name : String)
  | invalidExtraKey (key : String)
  | shadowsAllowList (key : String)
  | duplicateExtraKey (key : String)
  | invalidConcurrency (provided : Nat)
  deriving DecidableEq, Repr

/-- The error in words. -/
def Error.message : Error → String
  | .invalidReservedName name => s!"reserved call name '{name}' is not a valid identifier"
  | .invalidExtraKey key => s!"extra extraction key '{key}' is not a valid identifier"
  | .shadowsAllowList key => s!"extra extraction key '{key}' is already extracted by default"
  | .duplicateExtraKey key => s!"extra extraction key '{key}' is listed more than once"
  | .invalidConcurrency provided =>
    s!"extract_concurrency must be at least 1 (got {provided})"

/-- A letter, an underscore or a dollar sign. -/
def startsIdentifier (c : Char) : Bool := c.isAlpha || c == '_' || c == '$'

/-- The text is an ASCII identifier. -/
def isIdentifier (text : String) : Bool :=
  match text.toList with
  | [] => false
  | c :: rest => startsIdentifier c && rest.all fun c => startsIdentifier c || c.isDigit

/-- The first thing wrong with a list of extra keys that follow the keys in `earlier`. -/
def checkExtraKeys (earlier : List String) : List String → Except Error Unit
  | [] => .ok ()
  | key :: rest =>
    if !isIdentifier key then .error (.invalidExtraKey key)
    else if (MetaKey.allowListed? key).isSome then .error (.shadowsAllowList key)
    else if earlier.contains key then .error (.duplicateExtraKey key)
    else checkExtraKeys (key :: earlier) rest

/-- The first thing wrong with options: the reserved name, then the extra keys, then the
concurrency. -/
def validate (options : Options) : Except Error Unit := do
  if !isIdentifier options.reservedName then throw (.invalidReservedName options.reservedName)
  checkExtraKeys [] options.extraKeys
  if options.concurrency = 0 then throw (.invalidConcurrency 0)

/-- How the pages declare metadata. -/
def metaCall (options : Options) : MetaCall := ⟨options.reservedName, options.extraKeys⟩

/-- Options that are valid, or what is wrong with them. -/
def build (options : Options) : Except Error Options := do
  options.validate
  return options

/-! ## JSON -/

/-- The names of the options in a document, in their order. -/
def memberNames : List String :=
  ["reserved_name", "extra_extraction_keys", "override_meta", "scan_meta", "server_components",
    "extract_concurrency"]

/-- Sets an option by its name. A value of another shape is refused, as is a count that does not fit
64 bits; an unknown name has no effect. -/
def set? (options : Options) (name : String) (value : Json) : Option Options :=
  if name = "reserved_name" then
    match value with
    | .string text => some { options with reservedName := text }
    | _ => none
  else if name = "extra_extraction_keys" then
    match value with
    | .array items => (Json.strings? items).map fun keys => { options with extraKeys := keys }
    | _ => none
  else if name = "override_meta" then
    match value with
    | .bool flag => some { options with overrideMeta := flag }
    | _ => none
  else if name = "scan_meta" then
    match value with
    | .bool flag => some { options with scanMeta := flag }
    | _ => none
  else if name = "server_components" then
    match value with
    | .bool flag => some { options with serverComponents := flag }
    | _ => none
  else if name = "extract_concurrency" then
    match value with
    | .number (.int n) =>
      if 0 ≤ n ∧ n.toNat < UInt64.size then some { options with concurrency := n.toNat } else none
    | _ => none
  else some options

/-- Sets options by their names, one after the other. -/
def setAll? (options : Options) (settings : List (String × Json)) : Option Options :=
  settings.foldlM (fun options setting => options.set? setting.1 setting.2) options

/-- The options of a document: an object by name, or an array by position. What is missing has its
default. -/
def ofJson? : Json → Option Options
  | .object members => setAll? {} members
  | .array items =>
    if items.length ≤ memberNames.length then setAll? {} (memberNames.zip items) else none
  | _ => none

/-- The options as a document. -/
def toJson (options : Options) : Json :=
  .object
    [("extra_extraction_keys", .ofStrings options.extraKeys),
      ("extract_concurrency", .number (.int options.concurrency)),
      ("override_meta", .bool options.overrideMeta),
      ("reserved_name", .string options.reservedName),
      ("scan_meta", .bool options.scanMeta),
      ("server_components", .bool options.serverComponents)]

end Options

end FileRoutes
