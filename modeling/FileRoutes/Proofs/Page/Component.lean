import Mathlib.Data.List.DropRight
import FileRoutes.Page.Source

/-!
# Script elements of a component

A component is filler with script elements in it. What `Component.elements` makes of such a text is
said piece by piece, with the rest of the text left open: filler is passed over, a start tag is read up
to its `>`, a content up to its end tag.

* `Component.Attributes`: the attributes of a start tag, in which a `>` stands inside quotes only.
* `Component.Holds`: a text holds a tag, in any case.
* `Component.render`: filler and elements, one after the other.
* `Component.elements_render`: the elements of such a text are those it was made of.
* `blocks_render`: its scripts are the contents that are not blank, trimmed, each in the language of its
  own attributes.
* `SourceKind.infix_of_mem_blocks`: whatever the text, each script is a part of it.
-/

namespace FileRoutes

/-! ## Texts in texts -/

namespace Text

theorem isSome_stripPrefix?_iff {beginning text : List Char} :
    (stripPrefix? beginning text).isSome = true ↔ beginning <+: text := by
  rw [Option.isSome_iff_exists]
  constructor
  · rintro ⟨rest, h⟩
    exact ⟨rest, (stripPrefix?_eq_some_iff.1 h).symm⟩
  · rintro ⟨rest, rfl⟩
    exact ⟨rest, stripPrefix?_append beginning rest⟩

theorem occursIn_eq_true_iff {needle : List Char} :
    ∀ {text : List Char}, occursIn needle text = true ↔ needle <:+: text
  | [] => by simp [occursIn]
  | c :: rest => by
    rw [occursIn, Bool.or_eq_true, isSome_stripPrefix?_iff, occursIn_eq_true_iff, List.infix_cons_iff]

theorem trim_infix (text : List Char) : trim text <:+: text :=
  (List.rdropWhile_prefix Unicode.isWhiteSpace (text.dropWhile Unicode.isWhiteSpace)).isInfix.trans
    (List.dropWhile_suffix Unicode.isWhiteSpace).isInfix

theorem trim_eq_nil_iff {text : List Char} :
    trim text = [] ↔ ∀ c ∈ text, Unicode.isWhiteSpace c = true := by
  constructor
  · intro h
    have blank := List.rdropWhile_eq_nil_iff.1 h
    refine List.dropWhile_eq_nil_iff.1 (Decidable.byContradiction fun some => ?_)
    have first := List.head_dropWhile_not Unicode.isWhiteSpace some
    rw [blank _ (List.head_mem some)] at first
    cases first
  · intro blank
    unfold trim
    rw [List.dropWhile_eq_nil_iff.2 blank]
    rfl

end Text

namespace Component

variable {tag text rest after attributes : List Char}

/-! ## Tags -/

/-- A text holds a tag, in any case. -/
def Holds (tag text : List Char) : Prop := tag <:+: text.map foldCase

instance : Decidable (Holds tag text) := inferInstanceAs (Decidable (tag <:+: text.map foldCase))

theorem stripTag?_eq_some_iff :
    stripTag? tag text = some rest ↔
      ∃ spelled, text = spelled ++ rest ∧ spelled.map foldCase = tag := by
  induction tag generalizing text with
  | nil => simp [stripTag?]
  | cons t tag ih =>
    cases text with
    | nil => simp [stripTag?]
    | cons c text =>
      unfold stripTag?
      split
      · rename_i same
        rw [ih]
        constructor
        · rintro ⟨spelled, rfl, rfl⟩
          exact ⟨c :: spelled, rfl, by rw [List.map_cons, same]⟩
        · rintro ⟨spelled, split, fold⟩
          cases spelled with
          | nil => cases fold
          | cons s spelled =>
            obtain ⟨rfl, rfl⟩ := List.cons.inj split
            exact ⟨spelled, rfl, (List.cons.inj fold).2⟩
      · rename_i differ
        refine iff_of_false (Option.some_ne_none rest).symm ?_
        rintro ⟨spelled, split, fold⟩
        cases spelled with
        | nil => cases fold
        | cons s spelled =>
          obtain ⟨rfl, rfl⟩ := List.cons.inj split
          exact differ (List.cons.inj fold).1.symm

theorem stripTag?_append (spelled : text.map foldCase = tag) (rest : List Char) :
    stripTag? tag (text ++ rest) = some rest :=
  stripTag?_eq_some_iff.2 ⟨text, rfl, spelled⟩

/-- No tag starts in a text that does not hold it, whatever follows: a tag that started there would reach
into what follows, but that starts with a mark that stands at the start of tags only. -/
theorem stripTag?_append_eq_none {name : List Char} (plain : '<' ∉ name)
    (absent : ¬Holds ('<' :: name) text) (some : text ≠ []) (next : ∀ c ∈ rest.head?, c = '<') :
    stripTag? ('<' :: name) (text ++ rest) = none := by
  rw [Option.eq_none_iff_forall_ne_some]
  intro after h
  obtain ⟨spelled, split, fold⟩ := stripTag?_eq_some_iff.1 h
  rcases List.append_eq_append_iff.1 split with ⟨beyond, rfl, hrest⟩ | ⟨left, rfl, -⟩
  · cases beyond with
    | nil =>
      rw [List.append_nil] at fold
      have whole : '<' :: name <:+: text.map foldCase := fold ▸ List.infix_rfl
      exact absent whole
    | cons c beyond =>
      obtain rfl := next c (by rw [hrest]; rfl)
      cases text with
      | nil => exact some rfl
      | cons t text =>
        have name_eq : text.map foldCase ++ '<' :: beyond.map foldCase = name := by
          simpa [foldCase] using (List.cons.inj fold).2
        exact plain (name_eq ▸ List.mem_append_right _ List.mem_cons_self)
  · apply absent
    rw [Holds, List.map_append, fold]
    exact (List.prefix_append _ _).isInfix

theorem Holds.cons {c : Char} (h : Holds tag text) : Holds tag (c :: text) :=
  h.trans (List.suffix_cons (foldCase c) (text.map foldCase)).isInfix

/-! ## Start tags -/

/-- The attributes of a start tag: characters other than `>` and quotes, and quoted texts. -/
inductive Attributes : List Char → Prop where
  | nil : Attributes []
  | plain (c : Char) (rest : List Char) : c ≠ '>' → c ≠ '"' → c ≠ '\'' → Attributes rest →
      Attributes (c :: rest)
  | quoted (q : Char) (text rest : List Char) : q = '"' ∨ q = '\'' → q ∉ text → Attributes rest →
      Attributes (q :: (text ++ q :: rest))

/-- A quoted text is passed over up to its end. -/
theorem splitTag?_quoted {q : Char} :
    ∀ {text : List Char}, q ∉ text → ∀ rest : List Char,
      splitTag? (some q) (text ++ q :: rest) =
        (splitTag? none rest).map fun (before, after) => (text ++ q :: before, after)
  | [], _, rest => by simp [splitTag?]
  | c :: text, h, rest => by
    obtain ⟨differ, h⟩ := not_or.1 (mt List.mem_cons.2 h)
    rw [List.cons_append, splitTag?, if_neg (Ne.symm differ), splitTag?_quoted h, Option.map_map]
    rfl

/-- **A start tag is read up to its `>`.** -/
theorem splitTag?_attributes (h : Attributes attributes) (rest : List Char) :
    splitTag? none (attributes ++ '>' :: rest) = some (attributes, rest) := by
  induction h with
  | nil => rfl
  | plain c more greater double single _ ih =>
    rw [List.cons_append, splitTag?, if_neg greater, if_neg (by simp [double, single]), ih]
    rfl
  | quoted q text more quote inside _ ih =>
    have greater : q ≠ '>' := by rcases quote with rfl | rfl <;> decide
    rw [List.cons_append, List.append_assoc, List.cons_append, splitTag?, if_neg greater,
      if_pos quote, splitTag?_quoted inside, ih]
    rfl

/-- What is read of a start tag are attributes; inside a quoted text, it is the rest of the text and then
attributes. -/
theorem attributes_of_splitTag? :
    ∀ {quote : Option Char} {text before : List Char},
      splitTag? quote text = some (before, after) →
        match quote with
        | none => Attributes before
        | some q => ∃ inside more, before = inside ++ q :: more ∧ q ∉ inside ∧ Attributes more
  | none, c :: rest, before, h => by
    rw [splitTag?] at h
    split at h
    · cases h
      exact .nil
    · rename_i greater
      obtain ⟨⟨b, a⟩, hb, he⟩ := Option.map_eq_some_iff.1 h
      cases he
      have read := attributes_of_splitTag? hb
      by_cases quote : c = '"' ∨ c = '\''
      · rw [if_pos quote] at read
        obtain ⟨inside, more, rfl, absent, attributes⟩ := read
        exact .quoted c inside more quote absent attributes
      · rw [if_neg quote] at read
        obtain ⟨double, single⟩ := not_or.1 quote
        exact .plain c b greater double single read
  | some q, c :: rest, before, h => by
    rw [splitTag?] at h
    obtain ⟨⟨b, a⟩, hb, he⟩ := Option.map_eq_some_iff.1 h
    cases he
    have read := attributes_of_splitTag? hb
    by_cases ends : c = q
    · subst ends
      rw [if_pos rfl] at read
      exact ⟨[], b, rfl, List.not_mem_nil, read⟩
    · rw [if_neg ends] at read
      obtain ⟨inside, more, rfl, absent, attributes⟩ := read
      exact ⟨c :: inside, more, rfl, by simp [absent, Ne.symm ends], attributes⟩

/-- Attributes are what is read of them before a `>`. -/
theorem attributes_iff :
    Attributes attributes ↔ splitTag? none (attributes ++ ['>']) = some (attributes, []) :=
  ⟨fun h => splitTag?_attributes h [], fun h => attributes_of_splitTag? h⟩

instance : Decidable (Attributes attributes) := decidable_of_iff _ attributes_iff.symm

/-! ## Contents -/

theorem closing_eq : closing = '<' :: "/script".toList := rfl

theorem splitContent?_of_stripTag? (h : stripTag? closing text = some after) :
    splitContent? text = (afterTag? after).map fun rest => ([], rest) := by
  cases text with
  | nil => cases h
  | cons c rest => simp only [splitContent?, h]

/-- **A content is read up to its end tag.** -/
theorem splitContent?_content (rest : List Char) :
    ∀ {content : List Char}, ¬Holds closing content →
      splitContent? (content ++ (closing ++ '>' :: rest)) = some (content, rest)
  | [], _ => by
    have closed : stripTag? closing (closing ++ '>' :: rest) = some ('>' :: rest) :=
      stripTag?_append (by decide) _
    rw [List.nil_append, splitContent?_of_stripTag? closed]
    rfl
  | c :: content, absent => by
    have inside : stripTag? closing (c :: content ++ (closing ++ '>' :: rest)) = none := by
      refine stripTag?_append_eq_none (by decide) absent (List.cons_ne_nil c content) ?_
      rw [closing_eq]
      simp
    rw [List.cons_append] at inside ⊢
    rw [splitContent?, inside]
    simp only [splitContent?_content rest fun h => absent h.cons]
    rfl

/-! ## Elements -/

theorem elements_of_element? {e : Element} (h : element? text = some (e, after)) :
    elements text = e :: elements after := by
  cases text with
  | nil => cases h
  | cons c rest =>
    rw [elements]
    split
    · rename_i found
      rw [h] at found
      cases found
      rfl
    · rename_i none
      rw [h] at none
      cases none

theorem elements_cons_of_none {c : Char} (h : element? (c :: rest) = none) :
    elements (c :: rest) = elements rest := by
  rw [elements]
  split
  · rename_i some
    rw [h] at some
    cases some
  · rfl

/-- Filler is passed over. -/
theorem elements_filler (next : ∀ c ∈ rest.head?, c = '<') :
    ∀ {filler : List Char}, ¬Holds opening filler → elements (filler ++ rest) = elements rest
  | [], _ => rfl
  | c :: filler, absent => by
    have outside : stripTag? opening (c :: filler ++ rest) = none :=
      stripTag?_append_eq_none (by decide) absent (List.cons_ne_nil c filler) next
    rw [List.cons_append] at outside ⊢
    rw [elements_cons_of_none (by rw [element?, outside]; rfl)]
    exact elements_filler next fun h => absent h.cons

/-- An element as it is written. -/
def Element.render (e : Element) : List Char :=
  opening ++ e.attributes ++ '>' :: e.content ++ closing ++ ['>']

/-- An element can be read back: its attributes are those of one tag, and its content does not end
early. -/
structure Element.Legible (e : Element) : Prop where
  attributes : Attributes e.attributes
  content : ¬Holds closing e.content

instance (e : Element) : Decidable e.Legible :=
  decidable_of_iff (Attributes e.attributes ∧ ¬Holds closing e.content)
    ⟨fun h => ⟨h.1, h.2⟩, fun h => ⟨h.attributes, h.content⟩⟩

/-- Filler, then elements with more filler after each. -/
def render (filler : List Char) : List (Element × List Char) → List Char
  | [] => filler
  | (e, next) :: scripts => filler ++ e.render ++ render next scripts

/-- **An element is read back.** -/
theorem element?_render {e : Element} (h : e.Legible) (rest : List Char) :
    element? (e.render ++ rest) = some (e, rest) := by
  have spelled : e.render ++ rest =
      opening ++ (e.attributes ++ '>' :: (e.content ++ (closing ++ '>' :: rest))) := by
    simp [Element.render]
  have opened : stripTag? opening (e.render ++ rest) =
      some (e.attributes ++ '>' :: (e.content ++ (closing ++ '>' :: rest))) := by
    rw [spelled]
    exact stripTag?_append (by decide) _
  rw [element?, opened]
  simp only [Option.bind_eq_bind, Option.bind_some, splitTag?_attributes h.attributes,
    splitContent?_content rest h.content]
  rfl

/-- **The elements of a text are those it was made of.** -/
theorem elements_render :
    ∀ {filler : List Char} {scripts : List (Element × List Char)},
      (∀ s ∈ scripts, s.1.Legible) →
        (∀ text ∈ filler :: scripts.map Prod.snd, ¬Holds opening text) →
          elements (render filler scripts) = scripts.map Prod.fst
  | filler, [], _, clear => by
    have passed : elements (filler ++ []) = elements [] :=
      elements_filler (by simp) (clear filler List.mem_cons_self)
    rw [List.append_nil] at passed
    rw [render, passed, elements]
    rfl
  | filler, (e, next) :: scripts, legible, clear => by
    have starts : ∀ c ∈ (e.render ++ render next scripts).head?, c = '<' := by
      intro c hc
      exact (Option.some.inj hc).symm
    rw [render, List.append_assoc, elements_filler starts (clear filler List.mem_cons_self),
      elements_of_element? (element?_render (legible _ List.mem_cons_self) _),
      elements_render (fun s hs => legible s (List.mem_cons_of_mem _ hs))
        fun text ht => clear text (List.mem_cons_of_mem _ ht)]
    rfl

/-! ## Parts of a text -/

theorem suffix_of_stripTag? (h : stripTag? tag text = some rest) : rest <:+ text := by
  obtain ⟨spelled, rfl, -⟩ := stripTag?_eq_some_iff.1 h
  exact List.suffix_append spelled rest

theorem suffix_of_splitTag? :
    ∀ {quote : Option Char} {text before after : List Char},
      splitTag? quote text = some (before, after) → after <:+ text
  | none, c :: rest, before, after, h => by
    rw [splitTag?] at h
    split at h
    · cases h
      exact List.suffix_cons c rest
    · obtain ⟨⟨b, a⟩, hb, he⟩ := Option.map_eq_some_iff.1 h
      cases he
      exact (suffix_of_splitTag? hb).trans (List.suffix_cons c rest)
  | some q, c :: rest, before, after, h => by
    rw [splitTag?] at h
    obtain ⟨⟨b, a⟩, hb, he⟩ := Option.map_eq_some_iff.1 h
    cases he
    exact (suffix_of_splitTag? hb).trans (List.suffix_cons c rest)

theorem suffix_of_afterTag? :
    ∀ {text : List Char}, afterTag? text = some after → after <:+ text
  | c :: rest, h => by
    rw [afterTag?] at h
    split at h
    · exact Option.some.inj h ▸ List.suffix_cons c rest
    · exact (suffix_of_afterTag? h).trans (List.suffix_cons c rest)

/-- A content stands at the start of the text it is read from, and what follows it at the end. -/
theorem parts_of_splitContent? :
    ∀ {text content : List Char}, splitContent? text = some (content, after) →
      content <+: text ∧ after <:+ text
  | c :: rest, content, h => by
    rw [splitContent?] at h
    split at h
    · rename_i inside hs
      obtain ⟨a, ha, he⟩ := Option.map_eq_some_iff.1 h
      cases he
      exact ⟨List.nil_prefix, (suffix_of_afterTag? ha).trans (suffix_of_stripTag? hs)⟩
    · obtain ⟨⟨b, a⟩, hb, he⟩ := Option.map_eq_some_iff.1 h
      cases he
      obtain ⟨hcontent, hafter⟩ := parts_of_splitContent? hb
      exact ⟨List.cons_prefix_cons.2 ⟨rfl, hcontent⟩, hafter.trans (List.suffix_cons c rest)⟩

theorem parts_of_element? {e : Element} (h : element? text = some (e, after)) :
    e.content <:+: text ∧ after <:+ text := by
  simp only [element?, Option.bind_eq_bind, Option.bind_eq_some_iff] at h
  obtain ⟨inside, hi, ⟨attributes, body⟩, hb, ⟨content, rest⟩, hc, he⟩ := h
  cases he
  have below : body <:+ text := (suffix_of_splitTag? hb).trans (suffix_of_stripTag? hi)
  obtain ⟨hcontent, hafter⟩ := parts_of_splitContent? hc
  exact ⟨hcontent.isInfix.trans below.isInfix, hafter.trans below⟩

/-- The content of each element is a part of the text. -/
theorem infix_of_mem_elements {e : Element} (h : e ∈ elements text) : e.content <:+: text := by
  fun_induction elements text with
  | case1 => cases h
  | case2 c rest e' after found ih =>
    obtain ⟨hcontent, hafter⟩ := parts_of_element? found
    rcases List.mem_cons.1 h with rfl | h
    · exact hcontent
    · exact (ih h).trans hafter.isInfix
  | case3 c rest none ih => exact (ih h).trans (List.suffix_cons c rest).isInfix

/-- The script of an element: its content, if that is not blank. -/
theorem Element.block?_eq (e : Element) :
    e.block? = if e.content.all Unicode.isWhiteSpace then none
      else some ⟨dialect e.attributes, String.ofList (Text.trim e.content)⟩ := by
  have blank : (Text.trim e.content).isEmpty = e.content.all Unicode.isWhiteSpace := by
    rw [Bool.eq_iff_iff, List.isEmpty_iff, Text.trim_eq_nil_iff, List.all_eq_true]
  rw [Element.block?, blank]

end Component

/-! ## Scripts -/

/-- **The scripts of a component are read back from the text it was made of.** Let a text be made of
elements with filler before, between and after them. The attributes of an element are characters other
than `>` and quotes and quoted texts, no content holds an end tag of a script, and no filler holds a
start of one. Then the scripts of the text are, in order, the contents that are not blank, each without
the white space at its ends and in the language that its own attributes give it. -/
theorem blocks_render {filler : List Char} {scripts : List (Component.Element × List Char)}
    (legible : ∀ s ∈ scripts, s.1.Legible)
    (clear : ∀ text ∈ filler :: scripts.map Prod.snd, ¬Component.Holds Component.opening text) :
    SourceKind.component.blocks (String.ofList (Component.render filler scripts)) =
      ((scripts.map Prod.fst).filter fun e => !e.content.all Unicode.isWhiteSpace).map fun e =>
        ⟨Component.dialect e.attributes, String.ofList (Text.trim e.content)⟩ := by
  rw [SourceKind.blocks, String.toList_ofList, Component.elements_render legible clear]
  generalize scripts.map Prod.fst = elements
  rw [← List.filterMap_eq_map, List.filterMap_filter]
  refine List.filterMap_congr fun e _ => ?_
  rw [Component.Element.block?_eq]
  cases e.content.all Unicode.isWhiteSpace <;> rfl

/-- A quoted `>` and half of an end tag are no obstacle, and a blank script is left out. -/
theorem blocks_render_quoted :
    let scripts : List (Component.Element × List Char) :=
      [(⟨" lang='tsx' generic='A<b>'".toList, "\n f('</scrip') ".toList⟩, "\n<p/>".toList),
        (⟨" setup".toList, "\n ".toList⟩, "".toList), (⟨[], "g()".toList⟩, "<scrip".toList)]
    (∀ s ∈ scripts, s.1.Legible) ∧
      (∀ text ∈ [] :: scripts.map Prod.snd, ¬Component.Holds Component.opening text) ∧
      SourceKind.component.blocks (String.ofList (Component.render [] scripts)) =
        [⟨.tsx, "f('</scrip')"⟩, ⟨.ts, "g()"⟩] := by
  intro scripts
  have legible : ∀ s ∈ scripts, s.1.Legible := by decide +kernel
  have clear : ∀ text ∈ [] :: scripts.map Prod.snd, ¬Component.Holds Component.opening text := by
    decide +kernel
  exact ⟨legible, clear, (blocks_render legible clear).trans (by decide +kernel)⟩

/-- **Each script of a page is a part of the page.** -/
theorem SourceKind.infix_of_mem_blocks {kind : SourceKind} {source : String} {block : ScriptBlock}
    (h : block ∈ kind.blocks source) : block.code.toList <:+: source.toList := by
  cases kind with
  | script dialect =>
    cases List.mem_singleton.1 h
    exact List.infix_rfl
  | component =>
    obtain ⟨e, he, hb⟩ := List.mem_filterMap.1 h
    rw [Component.Element.block?_eq] at hb
    split at hb
    · cases hb
    · cases hb
      rw [String.toList_ofList]
      exact (Text.trim_infix e.content).trans (Component.infix_of_mem_elements he)

end FileRoutes
