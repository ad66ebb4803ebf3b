import FileRoutes.Proofs.Route.Placing

/-!
# Full paths

The full path of a page is read off the path of its file, whatever other files there are.

* `FileName.fullPath?`: the path that the segments of a file name spell.
* `Route.fullPath_finish`, `Route.fullPath_finishRoot`: the final form of a route hangs at the spine
  of the route.
* `walk_finish`: the walk through a forest in its final form.
* `walk_buildForest`: the full paths of a forest are those of its files; they start with a slash and
  have no doubled slash.
-/

namespace FileRoutes

open Url (Clean slashed rooted joinChars)

variable {parts : List Part} {gs ps : List (List Char)} {route : Route}

/-! ## The path of a file name -/

namespace FileName

/-- The compiled segments of a file without their leading slashes; transparent segments and those
with the label of an index have none. -/
def pathPieces : List Segment.Tokens → List String
  | [] => []
  | segment :: rest =>
    if Segment.transparent segment.tokens ∨ Segment.label segment.tokens = Url.indexWord then
      pathPieces rest
    else relativePath (Segment.compile segment.tokens (!rest.isEmpty)) :: pathPieces rest

/-- The path that the segments of a file spell, if they are well-formed. -/
def fullPath? (relative : String) : Option String :=
  (tokenizeAll (segments true relative).1).toOption.map fun tokens =>
    "/" ++ "/".intercalate (pathPieces tokens)

example : fullPath? "blog/(drafts)/[slug]/index.server.vue" = some "/blog/:slug()" := by
  decide +kernel

/-- The pieces are the trail of the parts of the segments. -/
theorem map_pathPieces :
    ∀ segments : List Segment.Tokens,
      (pathPieces segments).map String.toList = Part.trail (Part.ofSegments segments)
  | [] => rfl
  | segment :: rest => by
    have ih := map_pathPieces rest
    unfold pathPieces Part.ofSegments
    by_cases trace : Segment.transparent segment.tokens = true
    · rw [if_pos (Or.inl trace), if_pos trace]
      exact ih
    · rw [if_neg trace, ← List.singleton_append (l := Part.ofSegments rest), Part.trail_append, ← ih]
      by_cases index : Segment.label segment.tokens = Url.indexWord
      · rw [if_pos (Or.inr index), Part.trail_index index, List.nil_append]
      · have neither : ¬(Segment.transparent segment.tokens = true ∨
            Segment.label segment.tokens = Url.indexWord) := not_or.2 ⟨trace, index⟩
        rw [if_neg neither, Part.trail_singleton index]
        simp [relativePath, Part.piece, Segment.toList_compile, Text.stripPrefix?]

end FileName

theorem slashed_eq_cons_intercalate (p : List Char) :
    ∀ ps : List (List Char), slashed (p :: ps) = '/' :: ['/'].intercalate (p :: ps)
  | [] => by rw [List.intercalate_singleton, Url.slashed_cons, Url.slashed_nil, List.append_nil]
  | q :: ps => by
    have ih := slashed_eq_cons_intercalate q ps
    rw [List.intercalate_cons_cons, Url.slashed_cons, ih, List.append_assoc, List.singleton_append]

/-- Pieces joined with slashes behind a slash are the path of their spine. -/
theorem toList_join_pieces (pieces : List String) :
    ("/" ++ "/".intercalate pieces).toList = rooted (slashed (pieces.map String.toList)) := by
  rw [String.toList_append, String.toList_intercalate]
  cases pieces with
  | nil => rfl
  | cons piece pieces =>
    rw [List.map_cons, slashed_eq_cons_intercalate]
    rfl

/-- The entry of a page file in the walk has the path that its file name spells. -/
theorem PageFile.entry?_eq (serverComponents : Bool) (page : PageFile) :
    (page.entry? serverComponents).map (fun entry =>
        (entry.2, String.ofList (rooted entry.1))) =
      (FileName.fullPath? page.relative).map fun full => (some page.file, full) := by
  unfold PageFile.entry? PageFile.parts? FileName.fullPath?
  rw [FileName.segments_fst]
  cases tokenizeAll (FileName.segments true page.relative).1 with
  | error e => rfl
  | ok tokens =>
    have path : String.ofList (rooted (slashed (Part.trail (Part.ofSegments tokens)))) =
        "/" ++ "/".intercalate (FileName.pathPieces tokens) := by
      rw [← FileName.map_pathPieces, ← toList_join_pieces, String.ofList_toList]
    simp [Except.toOption, path]

/-! ## Final form -/

theorem toList_full (parent path : String) :
    (Url.full [parent, path]).toList =
      Url.leadingSlashChars (joinChars (joinChars [] parent.toList) path.toList) := by
  unfold Url.full Url.leadingSlash
  rw [String.toList_ofList, List.foldl_cons, List.foldl_cons, List.foldl_nil, Part.toList_join,
    Part.toList_join]
  rfl

theorem joinChars_nil_rooted (h : ∀ g ∈ gs, Clean g) :
    joinChars [] (rooted (slashed gs)) = slashed gs := by
  by_cases none : gs = []
  · rw [none]
    rfl
  · rw [Url.rooted_slashed_of_ne_nil none, Url.nil_joinChars (Url.slashed_ne_slash h)]

theorem leadingSlashChars_slashed (ps : List (List Char)) :
    Url.leadingSlashChars (slashed ps) = rooted (slashed ps) := by
  cases ps with
  | nil => rfl
  | cons p ps => rfl

/-- The path of a child without its leading slash: the pieces joined with slashes. -/
theorem toList_relativePath (h : ∀ part ∈ parts, part.Sound) :
    (relativePath (Part.rawPath parts)).toList = (slashed (Part.trail parts)).tail := by
  have raw := Part.toList_rawPath h
  have cut (path : List Char) : (((Text.stripPrefix? ['/'] ('/' :: path)).map String.ofList).getD
      (Part.rawPath parts)).toList = path := by
    have strip : Text.stripPrefix? ['/'] ('/' :: path) = some path :=
      Text.stripPrefix?_append ['/'] path
    rw [strip, Option.map_some, Option.getD_some, String.toList_ofList]
  unfold relativePath
  split at raw
  · rename_i none
    subst none
    rfl
  · rw [raw]
    cases Part.trail parts with
    | nil => exact cut []
    | cons p ps => exact cut (p ++ slashed ps)

namespace Route

/-- **A child in its final form hangs at the spine of its parent.** -/
theorem fullPath_finish (hg : ∀ g ∈ gs, Clean g) (h : ∀ part ∈ parts, part.Sound)
    (path : route.path = Part.rawPath parts) (children : List Route) :
    fullPath (String.ofList (rooted (slashed gs))) (route.finish relativePath children) =
      String.ofList (rooted (hang (slashed gs) route)) := by
  rw [hang_eq _ h path]
  apply String.toList_injective
  have clean := Part.clean_trail h
  have relative := toList_relativePath h
  unfold fullPath
  rw [toList_full, String.toList_ofList, String.toList_ofList, joinChars_nil_rooted hg]
  unfold Route.finish
  rw [path, relative, ← Url.slashed_append, ← leadingSlashChars_slashed]
  cases ht : Part.trail parts with
  | nil => rw [List.append_nil]; rfl
  | cons p ps =>
    rw [ht] at clean
    obtain ⟨hp, hps⟩ := List.forall_mem_cons.1 clean
    have tail : (slashed (p :: ps)).tail = p ++ slashed ps := rfl
    rw [tail]
    by_cases none : gs = []
    · -- at the top the slash that the child has lost is put back in front
      subst none
      have head := Url.head?_append_slashed hp ps
      have input : joinChars (slashed []) (p ++ slashed ps) = p ++ slashed ps :=
        Url.nil_joinChars fun bare => head (bare ▸ rfl)
      rw [input]
      unfold Url.leadingSlashChars
      rw [if_neg head]
      rfl
    · rw [← Url.rooted_slashed_of_ne_nil none, Url.joinChars_relative hg hp hps]

/-- A root in its final form has the path of its spine. -/
theorem fullPath_finishRoot (h : ∀ part ∈ parts, part.Sound)
    (path : route.path = Part.rawPath parts) (children : List Route) :
    fullPath "" (route.finish rootPath children) = String.ofList (rooted (hang [] route)) ∧
      (route.finish rootPath children).path.toList = rooted (slashed (Part.trail parts)) := by
  have raw := Part.toList_rawPath h
  have clean := Part.clean_trail h
  have root : (rootPath (Part.rawPath parts)).toList = rooted (slashed (Part.trail parts)) := by
    unfold rootPath
    split
    · rename_i empty
      rw [empty] at raw
      split at raw
      · rename_i none
        rw [none]
        rfl
      · have head := Url.head?_rooted_slashed (Part.trail parts)
        rw [← raw] at head
        cases head
    · rename_i filled
      rw [raw, if_neg]
      rintro rfl
      exact filled rfl
  unfold Route.finish
  rw [path]
  refine ⟨String.toList_injective ?_, root⟩
  have top : joinChars [] ("" : String).toList = [] := rfl
  rw [hang_eq [] h path]
  unfold fullPath
  rw [toList_full, root, List.nil_append, top, joinChars_nil_rooted clean,
    leadingSlashChars_slashed, String.toList_ofList]

mutual

/-- The walk through a tree in its final form gives the paths of the spines of its routes. -/
theorem walk_mapUp_tree :
    ∀ (t : Tree Route) (labels : List String) (gs : List (List Char)), t.Grown labels →
      (∀ g ∈ gs, Clean g) →
        (Tree.walk fullPath (String.ofList (rooted (slashed gs)))
            (t.mapUp (Route.finish relativePath))).map (fun entry => (entry.2.file, entry.1)) =
          (spines (slashed gs) [t]).map fun entry => (entry.2, String.ofList (rooted entry.1))
  | .node route children, labels, gs, ⟨parts, hparts, _, path, grown⟩, hg => by
    have here := fullPath_finish hg hparts path
      (List.map Tree.label (Forest.mapUp (Route.finish relativePath) children))
    have spine : hang (slashed gs) route = slashed (gs ++ Part.trail parts) := by
      rw [hang_eq _ hparts path, Url.slashed_append]
    have below := walk_mapUp children _ (gs ++ Part.trail parts) grown
      (List.forall_mem_append.2 ⟨hg, Part.clean_trail hparts⟩)
    have alone : spines (slashed gs) [] = [] := rfl
    rw [Tree.mapUp, Tree.walk, here, spine, List.map_cons, below, spines_cons, spine, alone,
      List.append_nil]
    rfl

/-- The walk through a forest in its final form gives the paths of the spines of its routes. -/
theorem walk_mapUp :
    ∀ (forest : Forest Route) (labels : List String) (gs : List (List Char)),
      Forest.Grown labels forest → (∀ g ∈ gs, Clean g) →
        (Forest.walk fullPath (String.ofList (rooted (slashed gs)))
            (Forest.mapUp (Route.finish relativePath) forest)).map
              (fun entry => (entry.2.file, entry.1)) =
          (spines (slashed gs) forest).map fun entry => (entry.2, String.ofList (rooted entry.1))
  | [], _, _, _, _ => rfl
  | t :: ts, labels, gs, ⟨here, rest⟩, hg => by
    have tree := walk_mapUp_tree t labels gs here hg
    have forest := walk_mapUp ts labels gs rest hg
    rw [Forest.mapUp, Forest.walk, List.map_append, tree, forest, ← List.map_append,
      ← spines_append, List.singleton_append]

end

end Route

open Route (hang spines)

/-- **The walk through a forest in its final form** gives the paths of the spines of its routes. -/
theorem walk_finish :
    ∀ forest : Forest Route, Forest.Grown [] forest →
      (Route.walk (finish forest)).map (fun entry => (entry.2.file, entry.1)) =
        (spines [] forest).map fun entry => (entry.2, String.ofList (rooted entry.1))
  | [], _ => rfl
  | .node route children :: ts, ⟨⟨parts, hparts, _, path, grown⟩, rest⟩ => by
    have ih := walk_finish ts rest
    have here := (Route.fullPath_finishRoot hparts path
      (List.map Tree.label (Forest.mapUp (Route.finish relativePath) children))).1
    have spine : hang [] route = slashed (Part.trail parts) := Route.hang_eq [] hparts path
    have below := Route.walk_mapUp children _ (Part.trail parts) grown (Part.clean_trail hparts)
    unfold Route.walk finish at ih ⊢
    rw [List.map_cons, finishRoot, Forest.walk, Tree.walk, List.map_append, List.map_cons, ih]
    simp only [Tree.label, Tree.children] at here ⊢
    rw [here, spine, below, Route.spines_cons, spine, List.map_cons, List.map_append]
    rfl

/-! ## Paths of roots and children -/

mutual

theorem Tree.relative_mapUp :
    ∀ (t : Tree Route) (labels : List String), t.Grown labels →
      ∀ route ∈ (t.mapUp (Route.finish relativePath)).preorder, route.path.toList.head? ≠ some '/'
  | .node route children, labels, ⟨parts, hparts, _, path, grown⟩, found, hm => by
    rw [Tree.mapUp, Tree.preorder] at hm
    rcases List.mem_cons.1 hm with rfl | hm
    · unfold Route.finish
      rw [path, toList_relativePath hparts]
      have clean := Part.clean_trail hparts
      cases ht : Part.trail parts with
      | nil => simp
      | cons p ps => exact Url.head?_append_slashed (clean p (ht ▸ List.mem_cons_self)) ps
    · exact Forest.relative_mapUp children _ grown found hm

/-- No child in its final form has a path that starts with a slash. -/
theorem Forest.relative_mapUp :
    ∀ (forest : Forest Route) (labels : List String), Forest.Grown labels forest →
      ∀ route ∈ Forest.preorder (Forest.mapUp (Route.finish relativePath) forest),
        route.path.toList.head? ≠ some '/'
  | [], _, _, found, hm => absurd hm List.not_mem_nil
  | t :: ts, labels, ⟨here, rest⟩, found, hm => by
    rw [Forest.mapUp, Forest.preorder] at hm
    rcases List.mem_append.1 hm with hm | hm
    · exact Tree.relative_mapUp t labels here found hm
    · exact Forest.relative_mapUp ts labels rest found hm

end

/-- Every root in its final form has a path that starts with a slash, and no child has. -/
theorem finish_paths :
    ∀ forest : Forest Route, Forest.Grown [] forest →
      ∀ t ∈ finish forest, t.label.path.toList.head? = some '/' ∧
        ∀ route ∈ Forest.preorder t.children, route.path.toList.head? ≠ some '/'
  | [], _, t, hm => absurd hm List.not_mem_nil
  | .node route children :: ts, ⟨⟨parts, hparts, _, path, grown⟩, rest⟩, t, hm => by
    rcases List.mem_cons.1 hm with rfl | hm
    · refine ⟨?_, Forest.relative_mapUp children _ grown⟩
      have root := (Route.fullPath_finishRoot hparts path
        (List.map Tree.label (Forest.mapUp (Route.finish relativePath) children))).2
      rw [← Url.head?_rooted_slashed (Part.trail parts), ← root]
      rfl
    · exact finish_paths ts rest t hm

/-! ## Built forests -/

/-- **The full path of a page is that which its file name spells.** In the forest of any list of
files, the walk meets each well-formed file with the path of its own segments, and nothing else. Full
paths start with a slash and have no doubled slash; the paths of roots start with a slash, and those
of children do not. -/
theorem walk_buildForest (serverComponents : Bool) (pages : List PageFile) :
    ((Route.walk (buildForest serverComponents pages).1).map fun entry =>
        (entry.2.file, entry.1)).Perm
      (pages.filterMap fun page =>
        (FileName.fullPath? page.relative).map fun full => (some page.file, full)) ∧
    (∀ entry ∈ Route.walk (buildForest serverComponents pages).1,
      entry.1.toList.head? = some '/' ∧ Url.hasDoubledSlash entry.1 = false) ∧
    (∀ t ∈ (buildForest serverComponents pages).1, t.label.path.toList.head? = some '/' ∧
      ∀ route ∈ Forest.preorder t.children, route.path.toList.head? ≠ some '/') := by
  obtain ⟨grown, perm⟩ := foldl_insertFile_spec serverComponents (byLength pages) ([], {}) trivial
  have built : (buildForest serverComponents pages).1 =
      finish ((byLength pages).foldl (insertFile serverComponents) ([], {})).1 := rfl
  have walk := walk_finish _ grown
  rw [← built] at walk
  have sorted : (byLength pages).Perm pages := List.mergeSort_perm pages _
  have entries := perm.trans (((sorted.filterMap _).append_right _).trans
    (List.Perm.of_eq (List.append_nil _)))
  refine ⟨?_, fun entry hm => ?_, built ▸ finish_paths _ grown⟩
  · rw [walk]
    refine (entries.map _).trans (List.Perm.of_eq ?_)
    rw [List.map_filterMap]
    exact List.filterMap_congr fun page _ => page.entry?_eq serverComponents
  · -- the path of the entry is that of a trail
    have hw := List.mem_map_of_mem (f := fun entry : String × Route => (entry.2.file, entry.1)) hm
    rw [walk] at hw
    obtain ⟨spine, hs, he⟩ := List.mem_map.1 hw
    obtain ⟨page, -, hp⟩ := List.mem_filterMap.1 (entries.subset hs)
    obtain ⟨parts, hparts, rfl⟩ := Option.map_eq_some_iff.1 hp
    have clean := Part.clean_trail (page.sound_parts hparts)
    have full : entry.1 = String.ofList (rooted (slashed (Part.trail parts))) :=
      (Prod.ext_iff.1 he).2.symm
    rw [full, String.toList_ofList]
    exact ⟨Url.head?_rooted_slashed _, Url.hasDoubledSlash_rooted clean⟩

end FileRoutes
