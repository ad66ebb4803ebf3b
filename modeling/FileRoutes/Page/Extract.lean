import FileRoutes.Event
import FileRoutes.Page.Error
import FileRoutes.Page.Literal
import FileRoutes.Page.Meta
import FileRoutes.Page.Source
import FileRoutes.Script.Parse
import FileRoutes.Script.Suspension

/-!
# Extraction of page metadata

A page declares its metadata by one top-level call of a reserved name with an object literal. The
metadata is read off the literal; nothing of the page is run.

* `Sighting`: what the scripts of a page hold that matters, in source order: a script that is none,
  or a call that involves the reserved name.
* `PageMeta.ofProperties`: the metadata of an object literal, property by property.
* `objectArgument`: the object literal of a call, or what is wrong with the call.
* `settle`: the metadata of a page, given its sightings.
* `extractWith`: the metadata of a page, on top of a reader of scripts; `extract` uses
  `Script.parse`.
* `extractEvents`: the log of an extraction, which names the values that were skipped.
-/

namespace FileRoutes

open Script

/-! ## Object literals -/

namespace PageMeta

/-- Takes account of a property with a key that is read by name. -/
def readAllowed (m : PageMeta) (key : MetaKey) (value : Option Json) : PageMeta :=
  match value.bind (m.assign? key) with
  | some m => { m with dynamic := m.dynamic.erase key }
  | none => { m.clear key with dynamic := m.dynamic.insert key }

/-- Takes account of a property with any other key: a literal goes to the bag. The bag is complete
only if the key is an extra one and the value a literal. -/
def readOther (m : PageMeta) (key : String) (value : Option Json) (extra : Bool) : PageMeta :=
  let m := match value with
    | some value => { m with bag := m.bag.insert key value }
    | none => m
  if extra ∧ value.isSome then m else { m with dynamic := m.dynamic.insert .bag }

/-- Takes account of one property of the object literal. -/
def readProperty (call : MetaCall) (m : PageMeta) : Property → PageMeta
  | .spread _ => { m with dynamic := m.dynamic.insert .bag }
  | .field key value =>
    match key.readable? with
    | none => { m with dynamic := m.dynamic.insert .bag }
    | some name =>
      match MetaKey.allowListed? name with
      | some key => m.readAllowed key value.literal?
      | none => m.readOther name value.literal? (call.extraKeys.contains name)

/-- The metadata of an object literal: its properties from left to right. -/
def ofProperties (call : MetaCall) (definition : String) (properties : List Property) : PageMeta :=
  properties.foldl (readProperty call) { definition := some definition }

end PageMeta

/-- Why the value of a property is left to the running page. -/
inductive Skip where
  | allowed (key : MetaKey)
  | extra (key : String)
  deriving DecidableEq, Repr

/-- The skip as a log event. -/
def Skip.event (file : FilePath) : Skip → Event
  | .allowed key =>
    { level := .debug
      message := "skipping extraction of " ++ ExtractionError.quoted key.label ++
        " metadata as it is not statically resolvable"
      fields := [("key", .text key.label), ("file", .text file.text)] }
  | .extra key =>
    { level := .debug
      message := "extra key is not statically resolvable"
      fields := [("key", .text key), ("file", .text file.text)] }

/-- The skip of a property, if its key is one that is asked for and its value does not fit. -/
def skip? (call : MetaCall) : Property → Option Skip
  | .spread _ => none
  | .field key value =>
    match key.readable? with
    | none => none
    | some name =>
      match MetaKey.allowListed? name with
      | some key =>
        if (value.literal?.bind (({} : PageMeta).assign? key)).isSome then none
        else some (.allowed key)
      | none =>
        if call.extraKeys.contains name ∧ value.literal?.isNone then some (.extra name) else none

/-! ## Calls -/

/-- The object literal of a call: its place and its properties. -/
def objectArgument : (arguments : List Expr) → Except CallFault (Span × List Property)
  | [.object span properties] =>
    if Property.anySuspends properties then .error .suspends else .ok (span, properties)
  | [.spread _] => .error .spreadArgument
  | [_] => .error .notObjectLiteral
  | arguments => .error (.argumentCount arguments.length)

/-- What matters of a page's scripts: a script that cannot be read, a call of a member of the
reserved name, or a call of the reserved name itself in a script with the given code. -/
inductive Sighting where
  | unreadable
  | indirect
  | direct (code : String) (arguments : List Expr)

/-- What a callee makes of a call. -/
def sightingOfCall? (name code : String) (arguments : List Expr) : (callee : Expr) → Option Sighting
  | .identifier callee => if callee = name then some (.direct code arguments) else none
  | .member _ property => if property = name then some .indirect else none
  | .index _ (.string property) => if property = name then some .indirect else none
  | _ => none

/-- What matters of a top-level statement: it has to be a call and nothing more. -/
def sighting? (name code : String) : Stmt → Option Sighting
  | .expression (.call callee arguments) => sightingOfCall? name code arguments callee
  | _ => none

/-- A text holds the reserved name. -/
def mentions (name text : String) : Bool := Text.occursIn name.toList text.toList

/-- What matters of one script. A script that does not mention the reserved name is not read. -/
def ScriptBlock.sightings (parse : Dialect → String → Option Program) (name : String)
    (block : ScriptBlock) : List Sighting :=
  if mentions name block.code then
    match parse block.dialect block.code with
    | some program => program.filterMap (sighting? name block.code)
    | none => [.unreadable]
  else []

/-- What matters of a page, in source order. -/
def sightings (parse : Dialect → String → Option Program) (name : String) (file : FilePath)
    (source : String) : List Sighting :=
  match SourceKind.ofFile? file with
  | some kind =>
    if mentions name source then (kind.blocks source).flatMap (ScriptBlock.sightings parse name)
    else []
  | none => []

/-- The metadata of a page by its sightings, after `calls` direct calls of which the first gave
`found`. Only the first call is looked into. -/
def settle (call : MetaCall) (file : FilePath) :
    (calls : Nat) → (found : Option PageMeta) → List Sighting →
      Except ExtractionError (Option PageMeta)
  | calls, found, [] =>
    if 2 ≤ calls then .error (.call call.name file (.multipleCalls calls)) else .ok found
  | _, _, .unreadable :: _ => .error (.unreadableScript file)
  | _, _, .indirect :: _ => .error (.call call.name file .unsupportedCallee)
  | 0, _, .direct code arguments :: rest =>
    match objectArgument arguments with
    | .error fault => .error (.call call.name file fault)
    | .ok (span, properties) =>
      settle call file 1 (some (.ofProperties call (span.slice code) properties)) rest
  | calls + 1, found, .direct _ _ :: rest => settle call file (calls + 2) found rest

/-! ## Pages -/

/-- The metadata of a page, `none` if it declares none, on top of a reader of scripts. -/
def extractWith (parse : Dialect → String → Option Program) (call : MetaCall) (file : FilePath)
    (source : String) : Except ExtractionError (Option PageMeta) :=
  settle call file 0 none (sightings parse call.name file source)

/-- The metadata of a page, `none` if it declares none. -/
def extract (call : MetaCall) (file : FilePath) (source : String) :
    Except ExtractionError (Option PageMeta) :=
  extractWith parse call file source

/-- The values that are skipped in a page: those of its first call, if nothing else comes first. -/
def skips (parse : Dialect → String → Option Program) (call : MetaCall) (file : FilePath)
    (source : String) : List Skip :=
  match sightings parse call.name file source with
  | .direct _ arguments :: _ =>
    match objectArgument arguments with
    | .ok (_, properties) => properties.filterMap (skip? call)
    | .error _ => []
  | _ => []

/-- The log of an extraction. -/
def extractEvents (call : MetaCall) (file : FilePath) (source : String) : List Event :=
  (skips parse call file source).map (Skip.event file)

end FileRoutes
