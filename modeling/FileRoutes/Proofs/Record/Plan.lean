import FileRoutes.Proofs.Route.Nodes
import FileRoutes.Proofs.Segment.Literal
import FileRoutes.Record.Plan

/-!
# Plans of page files

Which pages of a list of files can be rendered ahead of time is known from their file names.

* `FileName.plainUrl?`: the address of a page, if no segment that counts has a parameter.
* `FileName.placed`, `FileName.toList_pathPieces`: the segments of a file in their places, and what
  they add to the path there.
* `FileName.plainUrl?_eq`: the address is read off the full path of the page.
* `Forest.staticPaths_map`: the paths of records are those of the routes they come from.
* `distinctTexts_eq_eraseDups`: leaving out repeated texts keeps the first of each.
* `exists_visited`: the walk through a forest meets every well-formed page, at its full path.
* `prerenderPaths_buildForest`: the planned paths are the addresses of the pages.
-/

namespace FileRoutes

open Url (slashed rooted)

/-! ## Addresses of file names -/

/-- The segment adds a piece to the path: it is neither transparent nor an index. -/
def Segment.contributes (tokens : List Token) : Bool :=
  !transparent tokens && label tokens != Url.indexWord

namespace FileName

/-- The segments that add a piece to the path. -/
def contributing (found : List Segment.Tokens) : List (List Segment.Token) :=
  (found.map Segment.Tokens.tokens).filter Segment.contributes

/-- The address of a page whose segments are well-formed and that has no parameter in a segment that
adds to the path: the percent-encoded texts of these segments, joined with slashes. -/
def plainUrl? (relative : String) : Option String :=
  (tokenizeAll (segments true relative).1).toOption.bind fun found =>
    if (contributing found).any fun tokens => tokens.any Segment.Token.isParam then none
    else some ("/" ++ "/".intercalate ((contributing found).map Segment.plainText))

example : plainUrl? "docs/(a)/time: now/index.vue" = some "/docs/time:%20now" := by decide +kernel

/-- The segments of a file in their places; the segments after one decide whether it counts as
followed. -/
def placed (followed : List Segment.Tokens → Bool) : List Segment.Tokens → List Segment.Placed
  | [] => []
  | segment :: rest => ⟨segment.tokens, followed rest⟩ :: placed followed rest

/-- Another segment comes after. -/
def goesOn (rest : List Segment.Tokens) : Bool := !rest.isEmpty

/-- The segments that add a piece to the path, in their places. -/
def placedContributing (found : List Segment.Tokens) : List Segment.Placed :=
  (placed goesOn found).filter fun segment => Segment.contributes segment.tokens

theorem placedContributing_cons (segment : Segment.Tokens) (rest : List Segment.Tokens) :
    placedContributing (segment :: rest) =
      if Segment.contributes segment.tokens then
        ⟨segment.tokens, goesOn rest⟩ :: placedContributing rest
      else placedContributing rest := by
  unfold placedContributing
  rw [placed, List.filter_cons]

theorem map_tokens_placedContributing :
    ∀ found : List Segment.Tokens,
      (placedContributing found).map Segment.Placed.tokens = contributing found
  | [] => rfl
  | segment :: rest => by
    have ih := map_tokens_placedContributing rest
    unfold contributing at ih ⊢
    rw [placedContributing_cons, List.map_cons, List.filter_cons, ← ih]
    split <;> rfl

/-- The pieces of a path are those of the segments that add to it, in their places. -/
theorem toList_pathPieces :
    ∀ found : List Segment.Tokens,
      (pathPieces found).map String.toList = Segment.pieces (placedContributing found)
  | [] => rfl
  | segment :: rest => by
    have ih := toList_pathPieces rest
    rw [pathPieces, placedContributing_cons]
    split
    · rename_i skipped
      rw [if_neg]
      · exact ih
      · rcases skipped with trace | index
        · simp [Segment.contributes, trace]
        · simp [Segment.contributes, index]
    · rename_i counted
      have written : (relativePath (Segment.compile segment.tokens (goesOn rest))).toList =
          Segment.piece segment.tokens (goesOn rest) := by
        simp [relativePath, Segment.toList_compile, Text.stripPrefix?]
      rw [if_pos (by simpa [Segment.contributes] using counted), List.map_cons, ih]
      exact congrArg (· :: _) written

/-- **The address of a page is read off its full path**: there is one if the path holds no parameter,
and it is the path with plain colons. -/
theorem plainUrl?_eq (relative : String) :
    plainUrl? relative = (fullPath? relative).bind fun full =>
      if Segment.hasParam full then none else some (Segment.unescapeColons full) := by
  unfold plainUrl? fullPath?
  cases tokenizeAll (segments true relative).1 with
  | error e => rfl
  | ok found =>
    have full := toList_join_pieces (pathPieces found)
    rw [toList_pathPieces] at full
    have marks : Segment.hasParam ("/" ++ "/".intercalate (pathPieces found)) =
        (contributing found).any fun tokens => tokens.any Segment.Token.isParam := by
      unfold Segment.hasParam
      rw [full, Segment.marksParam_rooted, map_tokens_placedContributing]
    simp only [Except.toOption, Option.map_some, Option.bind_some, marks]
    split
    · rfl
    · rename_i plain
      refine congrArg some (String.toList_injective ?_)
      unfold Segment.unescapeColons
      rw [← map_tokens_placedContributing] at plain ⊢
      rw [String.toList_ofList, full, toList_join_pieces, List.map_map,
        Segment.unescape_rooted _ (Bool.eq_false_iff.2 plain)]
      rfl

end FileName

theorem PageFile.accepted_of_plainUrl? {page : PageFile} {url : String}
    (h : FileName.plainUrl? page.relative = some url) : page.accepted = true := by
  unfold FileName.plainUrl? at h
  unfold PageFile.accepted
  cases ht : tokenizeAll (FileName.segments true page.relative).1 with
  | error e => simp [ht, Except.toOption] at h
  | ok found => rfl

/-! ## Paths of records -/

theorem Route.staticPath?_record (override : Bool) (route : Route) :
    (route.record override []).staticPath? = some route.path := by
  have none : route.found? [] = none := by
    unfold Route.found?
    cases route.file <;> rfl
  unfold Route.record
  rw [none]
  cases override <;> rfl

/-- The full path of a route, if it belongs to a page without parameters. -/
def Route.planned? (entry : String × Route) : Option String :=
  if entry.2.file.isSome && !Segment.hasParam entry.1 then some entry.1 else none

mutual

theorem Tree.staticPaths_map (override : Bool) (parent : String) :
    ∀ t : Tree Route,
      (t.map (Route.record override [])).staticPaths parent =
        (t.walk Route.fullPath parent).filterMap Route.planned?
  | .node route children => by
    have below := Forest.staticPaths_map override (Route.fullPath parent route) children
    rw [Tree.map, Tree.staticPaths, Route.staticPath?_record, Tree.walk, List.filterMap_cons, ← below]
    by_cases plain : (route.file.isSome && !Segment.hasParam (Route.fullPath parent route)) = true
    · have here : Route.planned? (Route.fullPath parent route, route) =
          some (Route.fullPath parent route) := if_pos plain
      rw [here]
      exact congrArg (· ++ _) (if_pos plain)
    · have here : Route.planned? (Route.fullPath parent route, route) = none := if_neg plain
      rw [here]
      exact congrArg (· ++ _) (if_neg plain)

/-- **The paths of records are those of the routes they come from**, as long as no page declares
anything. -/
theorem Forest.staticPaths_map (override : Bool) (parent : String) :
    ∀ forest : Forest Route,
      Forest.staticPaths parent (Forest.map (Route.record override []) forest) =
        (Forest.walk Route.fullPath parent forest).filterMap Route.planned?
  | [] => rfl
  | t :: ts => by
    have tree := Tree.staticPaths_map override parent t
    have rest := Forest.staticPaths_map override parent ts
    rw [Forest.map, Forest.staticPaths, tree, rest, Forest.walk, List.filterMap_append]

end

/-! ## Texts without repetitions -/

theorem filter_distinctTexts (p : String → Bool) :
    ∀ texts : List String, (distinctTexts texts).filter p = distinctTexts (texts.filter p)
  | [] => rfl
  | text :: rest => by
    have ih := filter_distinctTexts p rest
    rw [distinctTexts]
    by_cases kept : p text = true
    · rw [List.filter_cons_of_pos kept, List.filter_cons_of_pos kept, distinctTexts, ← ih,
        List.filter_filter, List.filter_filter]
      simp only [Bool.and_comm]
    · rw [List.filter_cons_of_neg kept, List.filter_cons_of_neg kept, ← ih, List.filter_filter]
      refine List.filter_congr fun other _ => ?_
      by_cases same : other = text
      · simp [same, kept]
      · simp [same]

/-- Leaving out repeated texts keeps the first of each. -/
theorem distinctTexts_eq_eraseDups (texts : List String) : distinctTexts texts = texts.eraseDups := by
  match texts with
  | [] => rfl
  | text :: rest =>
    have shorter := List.length_filter_le (fun other => other ≠ text) rest
    have others : (fun other => !other == text) = fun other => decide (other ≠ text) := by
      funext other
      rw [decide_not, beq_eq_decide]
    rw [distinctTexts, List.eraseDups_cons, filter_distinctTexts, others,
      distinctTexts_eq_eraseDups (rest.filter _)]
termination_by texts.length
decreasing_by
  exact Nat.lt_succ_of_le shorter

theorem nodup_distinctTexts : ∀ texts : List String, (distinctTexts texts).Nodup
  | [] => List.nodup_nil
  | text :: rest => by
    refine List.nodup_cons.2 ⟨?_, (nodup_distinctTexts rest).filter _⟩
    simp

/-! ## Pages in the walk -/

/-- An entry of the walk belongs to a page: the route has the file of the page, and the full path is
that which its file name spells. -/
structure PageFile.Visited (entry : String × Route) (page : PageFile) : Prop where
  file : entry.2.file = some page.file
  full : FileName.fullPath? page.relative = some entry.1

/-- The entry that a page adds to a forest, in the walk through the forest in its final form. -/
theorem PageFile.fullPath?_of_entry? {serverComponents : Bool} {page : PageFile}
    {spine : List Char × Option FilePath} (h : page.entry? serverComponents = some spine) :
    spine.2 = some page.file ∧
      FileName.fullPath? page.relative = some (String.ofList (rooted spine.1)) := by
  have entry := page.entry?_eq serverComponents
  rw [h, Option.map_some] at entry
  obtain ⟨full, found, same⟩ := Option.map_eq_some_iff.1 entry.symm
  obtain ⟨file, path⟩ := Prod.mk.inj same
  exact ⟨file.symm, found.trans (congrArg some path)⟩

theorem PageFile.isSome_entry? (serverComponents : Bool) (page : PageFile) :
    (page.entry? serverComponents).isSome = page.accepted := by
  unfold PageFile.entry? PageFile.parts? PageFile.accepted
  rw [FileName.segments_fst]
  cases tokenizeAll (FileName.segments true page.relative).1 with
  | error e => rfl
  | ok found => rfl

/-- A page that is met has well-formed segments. -/
theorem PageFile.Visited.exists_found {entry : String × Route} {page : PageFile}
    (h : page.Visited entry) :
    ∃ found, tokenizeAll (FileName.segments true page.relative).1 = .ok found := by
  have full := h.full
  unfold FileName.fullPath? at full
  cases read : tokenizeAll (FileName.segments true page.relative).1 with
  | error e => simp [read, Except.toOption] at full
  | ok found => exact ⟨found, rfl⟩

/-- **The walk through a built forest meets every well-formed page once**, at its own full path. -/
theorem exists_visited (serverComponents : Bool) (pages : List PageFile) :
    ∃ visited : List PageFile,
      List.Forall₂ PageFile.Visited (Route.walk (buildForest serverComponents pages).1) visited ∧
      visited.Perm (pages.filter PageFile.accepted) := by
  obtain ⟨grown, perm⟩ := foldl_insertFile_spec serverComponents (byLength pages) ([], {}) trivial
  have built : (buildForest serverComponents pages).1 =
      finish ((byLength pages).foldl (insertFile serverComponents) ([], {})).1 := rfl
  have walk := walk_finish _ grown
  have sorted : (byLength pages).Perm pages := List.mergeSort_perm pages _
  have none : Route.spines [] [] = [] := rfl
  rw [none, List.append_nil] at perm
  obtain ⟨visited, spines, perm'⟩ := List.perm_comp_forall₂ perm (forall₂_filterMap _ _)
  refine ⟨visited, ?_, ?_⟩
  · have entries := spines.imp fun spine page => PageFile.fullPath?_of_entry?
    have mapped : List.Forall₂ (fun entry (page : PageFile) =>
        entry.1 = some page.file ∧ FileName.fullPath? page.relative = some entry.2)
        ((Route.spines [] _).map fun entry => (entry.2, String.ofList (rooted entry.1))) visited :=
      List.forall₂_map_left_iff.2 entries
    rw [← walk, ← built, List.forall₂_map_left_iff] at mapped
    exact mapped.imp fun entry page h => ⟨h.1, h.2⟩
  · simp only [PageFile.isSome_entry?] at perm'
    exact perm'.trans (sorted.filter _)

/-! ## Planned paths -/

/-- The plan has the address of a page at the entry of the walk that belongs to it. -/
theorem PageFile.Visited.map_planned? {entry : String × Route} {page : PageFile}
    (h : page.Visited entry) :
    (Route.planned? entry).map Segment.unescapeColons = FileName.plainUrl? page.relative := by
  rw [FileName.plainUrl?_eq, h.full, Option.bind_some]
  unfold Route.planned?
  rw [h.file]
  cases Segment.hasParam entry.1 with
  | true => rfl
  | false => rfl

theorem filterMap_visited {entries : List (String × Route)} {visited : List PageFile}
    (h : List.Forall₂ PageFile.Visited entries visited) :
    (entries.filterMap Route.planned?).map Segment.unescapeColons =
      visited.filterMap fun page => FileName.plainUrl? page.relative := by
  rw [List.map_filterMap]
  induction h with
  | nil => rfl
  | cons here rest ih => rw [List.filterMap_cons, List.filterMap_cons, here.map_planned?, ih]

/-- **The planned paths are the addresses of the pages without parameters.** They are those of the
well-formed pages in the order in which the walk through the forest meets these, each address where it
comes first; so none is repeated, no page without parameters is missed, and no other page adds one. -/
theorem prerenderPaths_buildForest (serverComponents override : Bool) (pages : List PageFile) :
    (prerenderPaths (normalize override [] (buildForest serverComponents pages).1)).Nodup ∧
    (∀ url, url ∈ prerenderPaths (normalize override [] (buildForest serverComponents pages).1) ↔
      ∃ page ∈ pages, FileName.plainUrl? page.relative = some url) ∧
    ∃ visited : List PageFile,
      List.Forall₂ PageFile.Visited (Route.walk (buildForest serverComponents pages).1) visited ∧
      visited.Perm (pages.filter PageFile.accepted) ∧
      prerenderPaths (normalize override [] (buildForest serverComponents pages).1) =
        (visited.filterMap fun page => FileName.plainUrl? page.relative).eraseDups := by
  obtain ⟨visited, walk, perm⟩ := exists_visited serverComponents pages
  have planned : prerenderPaths (normalize override [] (buildForest serverComponents pages).1) =
      (visited.filterMap fun page => FileName.plainUrl? page.relative).eraseDups := by
    unfold prerenderPaths normalize
    rw [Forest.staticPaths_map, ← distinctTexts_eq_eraseDups, ← filterMap_visited walk]
    rfl
  refine ⟨nodup_distinctTexts _, fun url => ?_, visited, walk, perm, planned⟩
  rw [planned, List.mem_eraseDups, List.mem_filterMap]
  constructor
  · rintro ⟨page, hm, address⟩
    exact ⟨page, List.mem_of_mem_filter (perm.subset hm), address⟩
  · rintro ⟨page, hm, address⟩
    have accepted := page.accepted_of_plainUrl? address
    exact ⟨page, perm.symm.subset (List.mem_filter.2 ⟨hm, accepted⟩), address⟩

end FileRoutes
