import FileRoutes.Proofs.Route.FileNames
import FileRoutes.Proofs.Route.Layout
import FileRoutes.Proofs.Route.Nodes

/-!
# Pages under a page

A page under the directory that another page is named after becomes a child of that page.

* `FileName.segments_spell_under`, `FileName.spell_shorter`: the path of a page under another one has
  its segments, and more characters.
* `Segment.compile_followed`: what is compiled for a segment that others follow. Only a catchall
  becomes another text.
* `Part.ofSegments_append`, `Part.finds_iff`: a page finds another that has the labels of its first
  parts, if the paths agree.
* `PageFile.Under`: a page under the directory that another page is named after; `Under.exists_parts`
  compares their parts.
* `nested_buildForest`: the forest of the two.
* `PageFile.TakesIn`, `not_takesIn`: names that do not take in the pages under them.
-/

namespace FileRoutes

/-! ## Spelled file names -/

namespace FileName

/-- The directories of a page under another one are among its segments. -/
theorem segments_spell_under (serverComponents : Bool) {front more : List String}
    {extension : String} (slashless : ∀ segment ∈ front ++ more, '/' ∉ segment.toList)
    (slash : '/' ∉ extension.toList) (dot : '.' ∉ extension.toList) (under : more ≠ []) :
    ∃ rest, rest ≠ [] ∧
      (segments serverComponents (spell (front ++ more) extension)).1 = front ++ rest := by
  obtain ⟨directories, name, rfl⟩ : ∃ directories name, more = directories ++ [name] :=
    ⟨_, _, (List.dropLast_append_getLast under).symm⟩
  rw [← List.append_assoc] at slashless ⊢
  obtain ⟨above, below⟩ := List.forall_mem_append.1 slashless
  obtain ⟨base, spelled, -⟩ := segments_spell serverComponents above
    (below name (List.mem_singleton_self name)) slash dot
  exact ⟨directories ++ [base], by simp, by rw [spelled, List.append_assoc]⟩

/-- The path of a page under another one is longer. -/
theorem spell_shorter {front more : List String} (last extension : String) (under : more ≠ []) :
    (spell (front ++ [last]) extension).utf8ByteSize <
      (spell (front ++ last :: more) extension).utf8ByteSize := by
  obtain ⟨directories, name, rfl⟩ : ∃ directories name, more = directories ++ [name] :=
    ⟨_, _, (List.dropLast_append_getLast under).symm⟩
  let stem := above (front.map String.toList) ++ last.toList
  let rest := '/' :: (above (directories.map String.toList) ++ name.toList)
  have upper : spell (front ++ [last]) extension =
      String.ofList stem ++ String.ofList ('.' :: extension.toList) := by
    apply String.toList_injective
    rw [toList_spell]
    simp [stem]
  have lower : spell (front ++ last :: (directories ++ [name])) extension =
      String.ofList stem ++ String.ofList rest ++ String.ofList ('.' :: extension.toList) := by
    apply String.toList_injective
    have regroup : front ++ last :: (directories ++ [name]) =
        (front ++ last :: directories) ++ [name] := by simp
    rw [regroup, toList_spell]
    simp [stem, rest, above]
  have filled : (String.ofList rest).utf8ByteSize ≠ 0 := by
    rw [Ne, String.utf8ByteSize_eq_zero_iff, ← String.toList_eq_nil_iff]
    simp [rest]
  rw [upper, lower, String.utf8ByteSize_append, String.utf8ByteSize_append,
    String.utf8ByteSize_append]
  omega

end FileName

namespace Segment

/-- A catchall is three characters longer if another segment follows. -/
theorem length_piece_followed :
    ∀ tokens : List Token, (piece tokens true).length =
      (piece tokens false).length + 3 * tokens.countP fun token => token.kind = .catchall
  | [] => rfl
  | token :: rest => by
    have ih := length_piece_followed rest
    unfold piece at ih ⊢
    obtain ⟨kind, value⟩ := token
    rw [List.flatMap_cons, List.flatMap_cons, List.length_append, List.length_append, ih,
      List.countP_cons]
    cases kind <;> simp [Token.fragment]
    all_goals omega

/-- A segment without a catchall is the same whatever follows. -/
theorem compile_followed {tokens : List Token}
    (narrow : ∀ token ∈ tokens, token.kind ≠ .catchall) :
    compile tokens true = compile tokens false := by
  unfold compile
  refine congrArg (fun fragments => "/" ++ String.join fragments) (List.map_congr_left ?_)
  rintro ⟨kind, value⟩ hm
  cases kind with
  | catchall => exact absurd rfl (narrow _ hm)
  | _ => rfl

end Segment

/-! ## Parts of a page and of a page under it -/

namespace Part

/-- What a segment that is not transparent adds to a route. -/
def ofTokens (tokens : List Segment.Token) (followed : Bool) : Part :=
  ⟨Segment.label tokens, Segment.compile tokens followed⟩

theorem piece_ofTokens (tokens : List Segment.Token) (followed : Bool) :
    (ofTokens tokens followed).piece = Segment.piece tokens followed := by
  unfold piece ofTokens
  rw [Segment.toList_compile]
  rfl

/-- Segments that are followed by another one have parts that do not depend on what follows. -/
theorem ofSegments_append (front : List Segment.Tokens) :
    ∃ parts, ∀ segment rest, ofSegments (front ++ segment :: rest) =
      parts ++ ofSegments (segment :: rest) := by
  induction front with
  | nil => exact ⟨[], fun _ _ => rfl⟩
  | cons first front ih =>
    obtain ⟨parts, further⟩ := ih
    by_cases trace : Segment.transparent first.tokens = true
    · refine ⟨parts, fun segment rest => ?_⟩
      rw [List.cons_append, ofSegments, if_pos trace, further]
    · refine ⟨ofTokens first.tokens true :: parts, fun segment rest => ?_⟩
      have more : (!(front ++ segment :: rest).isEmpty) = true := by simp
      rw [List.cons_append, ofSegments, if_neg trace, further, more]
      rfl

/-- A page finds one that has the labels of its first parts if it asks for its path. -/
theorem finds_iff {front more : List Part} {last part : Part} (label : last.label = part.label) :
    Finds (front ++ [last]) (front ++ part :: more) ↔
      rawPath (front ++ [last]) = layoutPath (rawPath front) part := by
  constructor
  · rintro ⟨init, other, rest, split, labels, asked⟩
    have length := congrArg List.length labels
    simp only [List.map_append, List.length_append, List.length_map, List.length_singleton] at length
    obtain ⟨rfl, tail⟩ := List.append_inj split (by omega)
    obtain ⟨rfl, -⟩ := List.cons.inj tail
    exact asked
  · intro asked
    exact ⟨front, part, more, rfl, by simp [label], asked⟩

end Part

/-! ## Two pages -/

theorem tokenizeAll_append_iff {rest : List String} :
    ∀ {front : List String} {found : List Segment.Tokens},
      tokenizeAll (front ++ rest) = .ok found ↔
        ∃ a b, tokenizeAll front = .ok a ∧ tokenizeAll rest = .ok b ∧ found = a ++ b
  | [], found => by simp [tokenizeAll]
  | segment :: front, found => by
    rw [List.cons_append, tokenizeAll_cons_iff]
    constructor
    · rintro ⟨tokens, others, ht, ho, rfl⟩
      obtain ⟨a, b, ha, hb, rfl⟩ := tokenizeAll_append_iff.1 ho
      exact ⟨tokens :: a, b, tokenizeAll_cons_iff.2 ⟨tokens, a, ht, ha, rfl⟩, hb, rfl⟩
    · rintro ⟨a, b, ha, hb, rfl⟩
      obtain ⟨tokens, others, ht, ho, rfl⟩ := tokenizeAll_cons_iff.1 ha
      exact ⟨tokens, others ++ b, ht, tokenizeAll_append_iff.2 ⟨others, b, ho, hb, rfl⟩, rfl⟩

/-- A page has the parts of its segments. -/
theorem PageFile.parts?_eq {serverComponents : Bool} {page : PageFile} {segments : List String}
    {found : List Segment.Tokens}
    (spelled : (FileName.segments serverComponents page.relative).1 = segments)
    (read : tokenizeAll segments = .ok found) :
    page.parts? serverComponents = some (Part.ofSegments found) := by
  unfold PageFile.parts?
  rw [spelled, read]
  rfl

/-- Two page files with one extension: the upper one has the segments of `front` and `last`, which has
no mark of a mode, and the lower one further segments under them. -/
structure PageFile.Under (front : List String) (last : String) (more : List String)
    (extension : String) (upper lower : PageFile) : Prop where
  upper_eq : upper.relative = FileName.spell (front ++ [last]) extension
  lower_eq : lower.relative = FileName.spell (front ++ [last] ++ more) extension
  more_ne : more ≠ []
  slashless : ∀ segment ∈ front ++ [last] ++ more, '/' ∉ segment.toList
  plain : ∀ mark ∈ [FileName.serverMark, FileName.clientMark], ¬mark <:+ last.toList
  slash : '/' ∉ extension.toList
  dot : '.' ∉ extension.toList

variable {serverComponents : Bool} {upper lower : PageFile} {front more : List String}
  {last extension : String} {tokens : Segment.Tokens}

/-- The segments of both files. -/
theorem PageFile.Under.segments (h : Under front last more extension upper lower) (filled : last ≠ "")
    (serverComponents : Bool) :
    (FileName.segments serverComponents upper.relative).1 = front ++ [last] ∧
      ∃ rest, rest ≠ [] ∧
        (FileName.segments serverComponents lower.relative).1 = front ++ last :: rest := by
  obtain ⟨above, -⟩ := List.forall_mem_append.1 h.slashless
  obtain ⟨hfront, hlast⟩ := List.forall_mem_append.1 above
  obtain ⟨base, spelled, kept⟩ := FileName.segments_spell serverComponents hfront
    (hlast last (List.mem_singleton_self last)) h.slash h.dot
  obtain ⟨rest, further, spelled'⟩ :=
    FileName.segments_spell_under serverComponents h.slashless h.slash h.dot h.more_ne
  obtain rfl := kept filled h.plain
  refine ⟨by rw [h.upper_eq, spelled], rest, further, ?_⟩
  rw [h.lower_eq, spelled', List.append_assoc, List.singleton_append]

/-- **The parts of a page and those of a page under it** are the same up to the last segment of the
upper page, which is followed by another one in the lower page. -/
theorem PageFile.Under.exists_parts (h : Under front last more extension upper lower)
    (accepted : lower.accepted = true) (read : Segment.tokenize last = .ok tokens)
    (trace : Segment.transparent tokens.tokens = false) (serverComponents : Bool) :
    ∃ init further,
      upper.parts? serverComponents = some (init ++ [Part.ofTokens tokens.tokens false]) ∧
      lower.parts? serverComponents = some (init ++ Part.ofTokens tokens.tokens true :: further) := by
  have filled : last ≠ "" := by
    rintro rfl
    have none : Segment.tokenize "" = .ok ⟨[], []⟩ := rfl
    obtain rfl := Except.ok.inj (none.symm.trans read)
    cases trace
  obtain ⟨hu, rest, below, hl⟩ := h.segments filled serverComponents
  have readable : ∃ found, tokenizeAll (front ++ last :: rest) = .ok found := by
    unfold PageFile.accepted at accepted
    rw [← FileName.segments_fst serverComponents, hl] at accepted
    cases hf : tokenizeAll (front ++ last :: rest) with
    | error error => simp [hf, Except.isOk, Except.toBool] at accepted
    | ok found => exact ⟨found, rfl⟩
  obtain ⟨found, all⟩ := readable
  obtain ⟨above, _, hfront, hrest, rfl⟩ := tokenizeAll_append_iff.1 all
  obtain ⟨tokens', others, hlast, hothers, rfl⟩ := tokenizeAll_cons_iff.1 hrest
  obtain rfl : tokens = tokens' := Except.ok.inj (read.symm.trans hlast)
  have alone : tokenizeAll [last] = .ok [tokens] :=
    tokenizeAll_cons_iff.2 ⟨tokens, [], read, rfl, rfl⟩
  have hupper : tokenizeAll (front ++ [last]) = .ok (above ++ [tokens]) :=
    tokenizeAll_append_iff.2 ⟨above, [tokens], hfront, alone, rfl⟩
  have followed : (!others.isEmpty) = true := by
    cases others with
    | cons _ _ => rfl
    | nil =>
      obtain ⟨next, rest, rfl⟩ := List.exists_cons_of_ne_nil below
      obtain ⟨_, _, _, _, absent⟩ := tokenizeAll_cons_iff.1 hothers
      cases absent
  obtain ⟨init, parts⟩ := Part.ofSegments_append above
  refine ⟨init, Part.ofSegments others, ?_, ?_⟩
  · rw [PageFile.parts?_eq hu hupper, parts, Part.ofSegments, if_neg (by simp [trace])]
    rfl
  · rw [PageFile.parts?_eq hl all, parts, Part.ofSegments, if_neg (by simp [trace]), followed]
    rfl

/-- **A page under the directory that a page is named after becomes its only child**, if the last
segment of the upper page holds no catchall and its route path does not end in the word that names
index pages. With a catchall the two pages stand side by side, for the lower page has a narrower
pattern in its place. -/
theorem nested_buildForest {pages : List PageFile} (both : pages.Perm [upper, lower])
    (h : PageFile.Under front last more extension upper lower) (accepted : lower.accepted = true)
    (read : Segment.tokenize last = .ok tokens)
    (trace : Segment.transparent tokens.tokens = false)
    (named : Segment.label tokens.tokens ≠ Url.indexWord) :
    ((∀ token ∈ tokens.tokens, token.kind ≠ .catchall) →
        ¬Url.indexWord.toList <:+ (Segment.compile tokens.tokens false).toList →
        Forest.Nested upper lower (buildForest serverComponents pages).1) ∧
      ((∃ token ∈ tokens.tokens, token.kind = .catchall) →
        Forest.Beside upper lower (buildForest serverComponents pages).1) := by
  have shorter : upper.relative.utf8ByteSize < lower.relative.utf8ByteSize := by
    rw [h.upper_eq, h.lower_eq, List.append_assoc, List.singleton_append]
    exact FileName.spell_shorter last extension h.more_ne
  obtain ⟨init, further, parts, parts'⟩ := h.exists_parts accepted read trace serverComponents
  obtain ⟨nested, beside⟩ := buildForest_pair (byLength_of_shorter both shorter) parts parts'
  have sound := upper.sound_parts parts
  have sound' := Part.sound_upTo (lower.sound_parts parts')
  have hinit : ∀ p ∈ init, p.Sound := (List.forall_mem_append.1 sound).1
  have finds : Part.Finds (init ++ [Part.ofTokens tokens.tokens false])
      (init ++ Part.ofTokens tokens.tokens true :: further) ↔ _ := Part.finds_iff rfl
  constructor
  · intro narrow ends
    apply nested
    have same : Part.ofTokens tokens.tokens true = Part.ofTokens tokens.tokens false := by
      unfold Part.ofTokens
      rw [Segment.compile_followed narrow]
    rw [finds, same]
    symm
    rw [Part.layoutPath_eq_rawPath_iff hinit (sound _ (by simp))]
    exact .inr ⟨named, ends⟩
  · rintro ⟨token, hm, wide⟩
    apply beside
    rw [finds]
    intro same
    -- the paths would have the same pieces, but that of the catchall is longer
    have trail := Part.trail_eq_of_layout sound hinit (sound' _ (by simp))
      (by simp [Part.ofTokens]) same
    rw [Part.trail_append, Part.trail_append, Part.trail_singleton named,
      Part.trail_singleton named] at trail
    have piece := List.singleton_inj.1 (List.append_cancel_left trail)
    rw [Part.piece_ofTokens, Part.piece_ofTokens] at piece
    have length := Segment.length_piece_followed tokens.tokens
    have some_ : 0 < tokens.tokens.countP fun token => token.kind = .catchall :=
      List.countP_pos_iff.2 ⟨token, hm, by simpa using wide⟩
    rw [piece] at length
    omega

/-- A page under a parameter, and one under a catchall. -/
theorem nested_buildForest_slug :
    let page (relative : String) : PageFile := ⟨relative, ⟨relative⟩⟩
    Forest.Nested (page "blog/[slug].vue") (page "blog/[slug]/edit.vue")
        (buildForest true [page "blog/[slug]/edit.vue", page "blog/[slug].vue"]).1 ∧
      Forest.Beside (page "[...slug].vue") (page "[...slug]/edit.vue")
        (buildForest true [page "[...slug].vue", page "[...slug]/edit.vue"]).1 := by
  intro page
  have param : PageFile.Under ["blog"] "[slug]" ["edit"] "vue" (page "blog/[slug].vue")
      (page "blog/[slug]/edit.vue") := by
    constructor <;> decide
  have catchall : PageFile.Under [] "[...slug]" ["edit"] "vue" (page "[...slug].vue")
      (page "[...slug]/edit.vue") := by
    constructor <;> decide
  have read : Segment.tokenize "[slug]" = .ok ⟨[⟨.dynamic, "slug"⟩], []⟩ := by rfl
  have read' : Segment.tokenize "[...slug]" = .ok ⟨[⟨.catchall, "slug"⟩], []⟩ := by rfl
  constructor
  · exact (nested_buildForest (List.Perm.swap _ _ _) param (by decide +kernel) read rfl
      (by decide +kernel)).1 (by decide) (by decide +kernel)
  · exact (nested_buildForest (List.Perm.refl _) catchall (by decide +kernel) read' rfl
      (by decide +kernel)).2 ⟨_, List.mem_singleton_self _, rfl⟩

/-- A page that is named after a directory takes in the pages there that the segments `more` lead to,
wherever the directory is: whenever all segments are well-formed, none is transparent and none of the
upper page is that of an index page. -/
def PageFile.TakesIn (last : String) (more : List String) : Prop :=
  ∀ (serverComponents : Bool) (pages : List PageFile) (upper lower : PageFile)
    (front : List String) (extension : String),
    pages.Perm [upper, lower] → PageFile.Under front last more extension upper lower →
    (∀ segment ∈ front ++ [last], ∃ tokens, Segment.tokenize segment = .ok tokens ∧
      Segment.transparent tokens.tokens = false ∧ Segment.label tokens.tokens ≠ Url.indexWord) →
    (∀ segment ∈ more, ∃ tokens, Segment.tokenize segment = .ok tokens ∧
      Segment.transparent tokens.tokens = false) →
    Forest.Nested upper lower (buildForest serverComponents pages).1

/-- A forest that has another number of roots, or another number of children, is not nested. -/
theorem not_nested_of_counts {pages : List PageFile} {upper lower : PageFile}
    (ordered : pages.Pairwise fun a b => a.relative.utf8ByteSize ≤ b.relative.utf8ByteSize)
    (apart : List.map (fun t : Tree Route => t.children.length)
      (finish (pages.foldl (insertFile serverComponents) ([], {})).1) ≠ [1]) :
    ¬Forest.Nested upper lower (buildForest serverComponents pages).1 := by
  rintro ⟨root, child, nested, -, -⟩
  -- sorting does not reduce, but the pages are in order already
  have sorted : byLength pages = pages := List.mergeSort_of_pairwise (by simpa using ordered)
  unfold buildForest at nested
  rw [sorted] at nested
  exact apart (congrArg (List.map fun t => t.children.length) nested)

/-- A page under a catchall, one under a name that ends in the word of index pages, and one whose last
segment is malformed without the mark of its mode: none of them is the child of the page above. -/
theorem not_takesIn :
    ¬PageFile.TakesIn "[...slug]" ["edit"] ∧ ¬PageFile.TakesIn "reindex" ["edit"] ∧
      ¬PageFile.TakesIn "a" ["[....server"] := by
  let page (relative : String) : PageFile := ⟨relative, ⟨relative⟩⟩
  refine ⟨fun takes => ?catchall, fun takes => ?index, fun takes => ?marked⟩
  case catchall =>
    have nested := takes true [page "[...slug].vue", page "[...slug]/edit.vue"] _ _ [] "vue"
      (List.Perm.refl _) (by constructor <;> decide) (by simpa using ⟨_, rfl, rfl, by decide +kernel⟩)
      (by simpa using ⟨_, rfl, rfl⟩)
    exact not_nested_of_counts (by decide) (by decide +kernel) nested
  case index =>
    have nested := takes true [page "reindex.vue", page "reindex/edit.vue"] _ _ [] "vue"
      (List.Perm.refl _) (by constructor <;> decide) (by simpa using ⟨_, rfl, rfl, by decide +kernel⟩)
      (by simpa using ⟨_, rfl, rfl⟩)
    exact not_nested_of_counts (by decide) (by decide +kernel) nested
  case marked =>
    have nested := takes true [page "a.vue", page "a/[....server.vue"] _ _ [] "vue"
      (List.Perm.refl _) (by constructor <;> decide) (by simpa using ⟨_, rfl, rfl, by decide +kernel⟩)
      (by simpa using ⟨_, rfl, rfl⟩)
    exact not_nested_of_counts (by decide) (by decide +kernel) nested

end FileRoutes
