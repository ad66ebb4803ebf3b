import FileRoutes.FilePath
import FileRoutes.Script.Dialect

/-!
# Page sources

A page is a script, or a single-file component: markup in which `<script>` elements hold the
scripts.

* `SourceKind.ofFile?`: the kind of a page, by its extension.
* `SourceKind.blocks`: the scripts of a page.
* `Component.elements`: the script elements of a component, each with its attributes and its
  content. An element starts at `<script`, in any case; its start tag ends at the first `>` outside
  quotes, and its content at the first `</script`.
* `Component.language?`: the value of the `lang` attribute.
-/

namespace FileRoutes

/-- A script of a page. -/
structure ScriptBlock where
  dialect : Script.Dialect
  code : String
  deriving DecidableEq, Repr

/-- How a page carries its scripts. -/
inductive SourceKind where
  | component
  | script (dialect : Script.Dialect)
  deriving DecidableEq, Repr

/-- The short name of a kind. -/
def SourceKind.label : SourceKind → String
  | .component => "sfc"
  | .script dialect => dialect.label

/-- The kind of the pages with an extension. -/
def SourceKind.ofExtension? (extension : String) : Option SourceKind :=
  if extension = "vue" then some .component
  else if ["js", "mjs", "cjs"].contains extension then some (.script .js)
  else if extension = "jsx" then some (.script .jsx)
  else if ["ts", "mts", "cts"].contains extension then some (.script .ts)
  else if extension = "tsx" then some (.script .tsx)
  else none

/-- The kind of a page. -/
def SourceKind.ofFile? (file : FilePath) : Option SourceKind :=
  file.extension?.bind SourceKind.ofExtension?

namespace Component

/-- A letter without its case. The long s is a variant of `s`. -/
def foldCase (c : Char) : Char := if c = 'ſ' then 's' else c.toLower

/-- What follows the start of a tag, in any case. -/
def stripTag? : (tag text : List Char) → Option (List Char)
  | [], text => some text
  | _ :: _, [] => none
  | t :: tag, c :: text => if t = foldCase c then stripTag? tag text else none

/-- The start of a script element. -/
def opening : List Char := "<script".toList

/-- The start of the end of a script element. -/
def closing : List Char := "</script".toList

/-- The parts before and after the first `>` outside quotes; `quote` is the quote the text starts
in. -/
def splitTag? : (quote : Option Char) → List Char → Option (List Char × List Char)
  | _, [] => none
  | none, c :: rest =>
    if c = '>' then some ([], rest)
    else (splitTag? (if c = '"' ∨ c = '\'' then some c else none) rest).map fun (before, after) =>
      (c :: before, after)
  | some q, c :: rest =>
    (splitTag? (if c = q then none else some q) rest).map fun (before, after) =>
      (c :: before, after)

/-- What follows the first `>`. -/
def afterTag? : List Char → Option (List Char)
  | [] => none
  | c :: rest => if c = '>' then some rest else afterTag? rest

/-- The content before the first end tag, and what follows that tag. -/
def splitContent? : List Char → Option (List Char × List Char)
  | [] => none
  | c :: rest =>
    match stripTag? closing (c :: rest) with
    | some after => (afterTag? after).map fun after => ([], after)
    | none => (splitContent? rest).map fun (content, after) => (c :: content, after)

/-- A script element: its attributes, its content, and the text after it. -/
structure Element where
  attributes : List Char
  content : List Char
  deriving DecidableEq, Repr

/-- The script element at the start of a text, and what follows it. -/
def element? (text : List Char) : Option (Element × List Char) := do
  let inside ← stripTag? opening text
  let (attributes, body) ← splitTag? none inside
  let (content, after) ← splitContent? body
  return (⟨attributes, content⟩, after)

theorem length_of_stripTag? {tag text rest : List Char} (h : stripTag? tag text = some rest) :
    rest.length ≤ text.length := by
  induction tag generalizing text with
  | nil => simp [stripTag?] at h; simp [h]
  | cons t tag ih =>
    cases text with
    | nil => simp [stripTag?] at h
    | cons c text =>
      simp only [stripTag?] at h
      split at h
      · have := ih h
        simp only [List.length_cons]
        omega
      · simp at h

theorem length_of_splitTag? {quote : Option Char} {text before after : List Char}
    (h : splitTag? quote text = some (before, after)) : after.length < text.length := by
  induction text generalizing quote before with
  | nil => simp [splitTag?] at h
  | cons c rest ih =>
    cases quote with
    | none =>
      simp only [splitTag?] at h
      split at h
      · obtain ⟨-, rfl⟩ := Prod.mk.inj (Option.some.inj h)
        simp
      · obtain ⟨⟨b, a⟩, hb, he⟩ := Option.map_eq_some_iff.1 h
        obtain ⟨-, rfl⟩ := Prod.mk.inj he
        exact Nat.lt_succ_of_lt (ih hb)
    | some q =>
      simp only [splitTag?] at h
      obtain ⟨⟨b, a⟩, hb, he⟩ := Option.map_eq_some_iff.1 h
      obtain ⟨-, rfl⟩ := Prod.mk.inj he
      exact Nat.lt_succ_of_lt (ih hb)

theorem length_of_afterTag? {text after : List Char} (h : afterTag? text = some after) :
    after.length < text.length := by
  induction text with
  | nil => simp [afterTag?] at h
  | cons c rest ih =>
    simp only [afterTag?] at h
    split at h
    · obtain rfl := Option.some.inj h
      simp
    · exact Nat.lt_succ_of_lt (ih h)

theorem length_of_splitContent? {text content after : List Char}
    (h : splitContent? text = some (content, after)) : after.length < text.length := by
  induction text generalizing content with
  | nil => simp [splitContent?] at h
  | cons c rest ih =>
    simp only [splitContent?] at h
    split at h
    · next inside hs =>
      obtain ⟨a, ha, he⟩ := Option.map_eq_some_iff.1 h
      obtain ⟨-, rfl⟩ := Prod.mk.inj he
      exact Nat.lt_of_lt_of_le (length_of_afterTag? ha) (length_of_stripTag? hs)
    · obtain ⟨⟨b, a⟩, hb, he⟩ := Option.map_eq_some_iff.1 h
      obtain ⟨-, rfl⟩ := Prod.mk.inj he
      exact Nat.lt_succ_of_lt (ih hb)

theorem length_of_element? {text after : List Char} {e : Element}
    (h : element? text = some (e, after)) : after.length < text.length := by
  simp only [element?, Option.bind_eq_bind, Option.bind_eq_some_iff] at h
  obtain ⟨inside, hi, ⟨attributes, body⟩, hb, ⟨content, rest⟩, hc, he⟩ := h
  obtain ⟨-, rfl⟩ := Prod.mk.inj (Option.some.inj he)
  have hi := length_of_stripTag? hi
  have hb := length_of_splitTag? hb
  have hc := length_of_splitContent? hc
  simp only at hb hc ⊢
  omega

/-- The script elements of a component, from left to right. -/
def elements (text : List Char) : List Element :=
  match text with
  | [] => []
  | c :: rest =>
    match _h : element? (c :: rest) with
    | some (e, after) => e :: elements after
    | none => elements rest
termination_by text.length
decreasing_by
  · exact length_of_element? _h
  · simp

/-- The letters of the value after `lang`: an equals sign, possibly a quote, and letters, with
blanks around the sign. -/
def languageValue? (text : List Char) : Option (List Char) := do
  let rest ← Text.stripPrefix? ['='] (text.dropWhile Unicode.isWhiteSpace)
  let rest := rest.dropWhile Unicode.isWhiteSpace
  let rest := match rest with
    | c :: inside => if c = '"' ∨ c = '\'' then inside else rest
    | [] => rest
  let letters := rest.takeWhile Char.isAlpha
  if letters.isEmpty then none else some letters

/-- The value of the first `lang` that starts a word; `previous` is the character before the
text. -/
def language? : (previous : Option Char) → List Char → Option (List Char)
  | _, [] => none
  | previous, c :: rest =>
    let here := if previous.any Unicode.isWord then none
      else (Text.stripPrefix? "lang".toList (c :: rest)).bind languageValue?
    here.or (language? (some c) rest)

/-- The dialect of a script element: the one with markup if the language says so. -/
def dialect (attributes : List Char) : Script.Dialect :=
  match language? none attributes with
  | some letters =>
    if ["tsx", "jsx"].contains (String.ofList (letters.map Char.toLower)) then .tsx else .ts
  | none => .ts

/-- The script of an element, if it is not blank. -/
def Element.block? (e : Element) : Option ScriptBlock :=
  let code := Text.trim e.content
  if code.isEmpty then none else some ⟨dialect e.attributes, String.ofList code⟩

end Component

/-- The scripts of a page. -/
def SourceKind.blocks (kind : SourceKind) (source : String) : List ScriptBlock :=
  match kind with
  | .script dialect => [⟨dialect, source⟩]
  | .component => (Component.elements source.toList).filterMap Component.Element.block?

end FileRoutes
