import FileRoutes.Proofs.Route.FullPath
import FileRoutes.Proofs.Route.Growth
import Mathlib.Data.List.Perm.Basic

/-!
# Nodes of page files

Building a forest loses no page and adds none: the trees of the forest, at every depth, are those of
the pages whose segments are well-formed, one for each entry of the list.

* `FileName.labels?`: the labels of the segments that count, which make the name of a page.
* `PageFile.Sprouts`: what a page makes of its route when it is placed. `insertFile_cases` says that
  the forest grows by this route, `foldl_insertFile_sprouts` that inserting a list of pages adds the
  routes of its well-formed entries.
* `PageFile.Stands`: what the tree of a page is in the finished forest, from the page alone but for
  the empty paths among its children.
* `Route.Plain`: a route without values of its own; `plain_buildForest` says that a built route is one.
* `exists_standing_perm`: the trees of a built forest stand for the well-formed entries, one for one.
-/

namespace FileRoutes

/-! ## Pages by themselves -/

namespace FileName

/-- The labels of the segments that are not transparent, if all segments are well-formed. -/
def labels? (relative : String) : Option (List String) :=
  (tokenizeAll (segments true relative).1).toOption.map fun found =>
    (found.filter fun segment => !Segment.transparent segment.tokens).map fun segment =>
      Segment.label segment.tokens

example : labels? "blog/(drafts)/[slug]/index.server.vue" = some ["blog", "slug", "index"] := by
  decide +kernel

end FileName

/-- All segments of the page are well-formed. -/
def PageFile.accepted (page : PageFile) : Bool :=
  (tokenizeAll (FileName.segments true page.relative).1).isOk

/-- The route of a page before it takes its final form: with the file and the mode of the page, and
its labels joined with slashes for a name. -/
structure PageFile.Sprouts (serverComponents : Bool) (route : Route) (page : PageFile) : Prop where
  file : route.file = some page.file
  mode : route.mode = (FileName.segments serverComponents page.relative).2
  name : ∃ labels, FileName.labels? page.relative = some labels ∧
    route.name = some ("/".intercalate labels)

/-- The tree of a page in the finished forest: its root has the file and the mode of the page, and
the name that the labels of the page come to, unless that is empty or a child has an empty path. -/
structure PageFile.Stands (serverComponents : Bool) (t : Tree Route) (page : PageFile) : Prop where
  file : t.label.file = some page.file
  mode : t.label.mode = (FileName.segments serverComponents page.relative).2
  name : ∃ labels, FileName.labels? page.relative = some labels ∧
    t.label.name =
      if Route.finalizeName ("/".intercalate labels) = "" ∨
          ∃ child ∈ t.children, child.label.path = "" then none
      else some (Route.finalizeName ("/".intercalate labels))

/-! ## Names -/

namespace Part

theorem map_label_ofSegments :
    ∀ segments : List Segment.Tokens,
      (ofSegments segments).map label =
        (segments.filter fun segment => !Segment.transparent segment.tokens).map fun segment =>
          Segment.label segment.tokens
  | [] => rfl
  | segment :: rest => by
    have ih := map_label_ofSegments rest
    unfold ofSegments
    split
    · rename_i trace
      rw [List.filter_cons_of_neg (by simp [trace]), ih]
    · rename_i trace
      rw [List.filter_cons_of_pos (by simp [trace]), List.map_cons, List.map_cons, ih]

/-- The name that labels build is their join with slashes. -/
theorem rawName_eq_intercalate {labels : List String} (h : ∀ label ∈ labels, label ≠ "") :
    rawName labels = "/".intercalate labels := by
  apply String.toList_injective
  have spine := slashed_labels h
  cases labels with
  | nil => rfl
  | cons first rest =>
    rw [if_neg (List.cons_ne_nil _ _), List.map_cons, slashed_eq_cons_intercalate] at spine
    rw [String.toList_intercalate, List.map_cons]
    exact (List.cons.inj spine).2.symm

end Part

/-! ## Inserting pages -/

/-- The parts of the segments of a page build the join of its labels. -/
theorem foldl_extendName {segments : List String} {found : List Segment.Tokens}
    (slashless : ∀ segment ∈ segments, '/' ∉ segment.toList)
    (tokens : tokenizeAll segments = .ok found) :
    (Part.ofSegments found).foldl (fun name part => extendName name part.label) "" =
      "/".intercalate ((found.filter fun segment => !Segment.transparent segment.tokens).map
        fun segment => Segment.label segment.tokens) := by
  have sound := Part.sound_ofSegments (tokenizeAll_sound slashless tokens)
  have named : ∀ label ∈ (Part.ofSegments found).map Part.label, label ≠ "" :=
    fun label hl => (Part.forall_mem_map_label sound label hl).1
  rw [← Part.map_label_ofSegments, ← Part.rawName_eq_intercalate named]
  unfold Part.rawName
  rw [List.foldl_map]

/-- **A page makes the forest grow by its route**, or leaves it as it is if a segment is malformed. -/
theorem insertFile_cases (serverComponents : Bool) (page : PageFile)
    (state : Forest Route × Diagnostics) :
    (page.accepted = true ∧ ∃ route, page.Sprouts serverComponents route ∧
        Forest.Grows route state.1 (insertFile serverComponents state page).1) ∨
      (page.accepted = false ∧ (insertFile serverComponents state page).1 = state.1) := by
  have slashless := FileName.slashless_segments serverComponents page.relative
  have same := FileName.segments_fst serverComponents page.relative
  unfold insertFile PageFile.accepted
  simp only
  rw [← same]
  cases tokens : tokenizeAll (FileName.segments serverComponents page.relative).1 with
  | ok found =>
    obtain ⟨path, grows⟩ := place_grows
      { file := some page.file, mode := (FileName.segments serverComponents page.relative).2 }
      (Part.ofSegments found) "" "" state.1
    rw [foldl_extendName slashless tokens] at grows
    refine .inl ⟨rfl, _, ⟨rfl, rfl, _, ?_, rfl⟩, grows⟩
    unfold FileName.labels?
    rw [← same, tokens]
    rfl
  | error error => exact .inr ⟨rfl, rfl⟩

/-- **Inserting a page adds its route**, or nothing if a segment is malformed. -/
theorem insertFile_sprouts (serverComponents : Bool) (page : PageFile)
    (state : Forest Route × Diagnostics) {placed : List PageFile}
    (h : List.Forall₂ (PageFile.Sprouts serverComponents) (Forest.preorder state.1) placed) :
    ∃ placed', List.Forall₂ (PageFile.Sprouts serverComponents)
        (Forest.preorder (insertFile serverComponents state page).1) placed' ∧
      placed'.Perm ([page].filter PageFile.accepted ++ placed) := by
  obtain ⟨accepted, route, sprouts, grows⟩ | ⟨rejected, same⟩ :=
    insertFile_cases serverComponents page state
  · rw [List.filter_cons_of_pos accepted]
    exact List.perm_comp_forall₂ grows.perm (.cons sprouts h)
  · rw [same, List.filter_cons_of_neg (Bool.eq_false_iff.1 rejected)]
    exact ⟨placed, h, List.Perm.refl _⟩

/-- **Inserting pages adds the route of each that is well-formed.** -/
theorem foldl_insertFile_sprouts (serverComponents : Bool) :
    ∀ (pages : List PageFile) (state : Forest Route × Diagnostics) (placed : List PageFile),
      List.Forall₂ (PageFile.Sprouts serverComponents) (Forest.preorder state.1) placed →
        ∃ placed', List.Forall₂ (PageFile.Sprouts serverComponents)
            (Forest.preorder (pages.foldl (insertFile serverComponents) state).1) placed' ∧
          placed'.Perm (pages.filter PageFile.accepted ++ placed)
  | [], state, placed, h => ⟨placed, h, List.Perm.refl _⟩
  | page :: rest, state, placed, h => by
    obtain ⟨more, here, perm⟩ := insertFile_sprouts serverComponents page state h
    obtain ⟨placed', rest_, perm'⟩ := foldl_insertFile_sprouts serverComponents rest _ more here
    refine ⟨placed', rest_, (perm'.trans (perm.append_left _)).trans ?_⟩
    have split : (page :: rest).filter PageFile.accepted =
        [page].filter PageFile.accepted ++ rest.filter PageFile.accepted := by
      rw [← List.filter_append, List.singleton_append]
    rw [split, ← List.append_assoc]
    exact List.perm_append_comm.append_right _

/-! ## Final form -/

/-- The final name of a route, from the children in their final form. -/
theorem Route.name_finish (path : String → String) {route : Route} {raw : String}
    (name : route.name = some raw) (children : List (Tree Route)) :
    (route.finish path (List.map Tree.label children)).name =
      if Route.finalizeName raw = "" ∨ ∃ child ∈ children, child.label.path = "" then none
      else some (Route.finalizeName raw) := by
  unfold Route.finish Route.finalName
  rw [name, Option.map_some]
  by_cases covered : ∃ child ∈ children, child.label.path = ""
  · rw [if_pos (by simpa using covered), if_pos (Or.inr covered)]
  · rw [if_neg (by simpa using covered)]
    by_cases empty : Route.finalizeName raw = ""
    · rw [if_pos (Or.inl empty)]
      simp [Option.filter, empty]
    · rw [if_neg (not_or.2 ⟨empty, covered⟩)]
      simp [Option.filter, empty]

/-- The trees of a forest in its final form, root by root: the label of each is the final form of the
route it was. -/
theorem forall₂_subtrees_finish :
    ∀ forest : Forest Route,
      List.Forall₂ (fun t route => ∃ path,
          t.label = route.finish path (List.map Tree.label t.children))
        (Forest.subtrees (finish forest)) (Forest.preorder forest)
  | [] => .nil
  | .node route children :: rest => by
    have below := Forest.forall₂_subtrees_mapUp (Route.finish relativePath) children
    have ih := forall₂_subtrees_finish rest
    unfold finish at ih ⊢
    rw [List.map_cons, Forest.subtrees, Forest.preorder, finishRoot, Tree.subtrees, Tree.preorder]
    refine List.rel_append (.cons ⟨rootPath, rfl⟩ ?_) ih
    exact below.imp fun t route label => ⟨relativePath, label⟩

theorem PageFile.Sprouts.stands {serverComponents : Bool} {route : Route} {page : PageFile}
    (h : page.Sprouts serverComponents route) {t : Tree Route} {path : String → String}
    (label : t.label = route.finish path (List.map Tree.label t.children)) :
    page.Stands serverComponents t := by
  obtain ⟨labels, found, name⟩ := h.name
  refine ⟨?_, ?_, labels, found, ?_⟩
  · rw [label]
    exact h.file
  · rw [label]
    exact h.mode
  · rw [label]
    exact Route.name_finish path name t.children

theorem forall₂_stands {serverComponents : Bool} :
    ∀ {trees : List (Tree Route)} {routes : List Route} {placed : List PageFile},
      List.Forall₂ (fun t route => ∃ path,
          t.label = route.finish path (List.map Tree.label t.children)) trees routes →
        List.Forall₂ (PageFile.Sprouts serverComponents) routes placed →
          List.Forall₂ (PageFile.Stands serverComponents) trees placed
  | _, _, _, .nil, .nil => .nil
  | _, _, _, .cons ⟨_, label⟩ rest, .cons sprouts more =>
    .cons (sprouts.stands label) (forall₂_stands rest more)

/-! ## Values -/

/-- The route has no values but its name and its path. -/
structure Route.Plain (route : Route) : Prop where
  bag : route.bag = .empty
  aliases : route.aliases = []
  redirect : route.redirect = none
  props : route.props = none

theorem Route.Plain.place {route : Route} (h : route.Plain) (parts : List Part) (name path : String)
    {forest : Forest Route} (others : ∀ r ∈ Forest.preorder forest, r.Plain) :
    ∀ r ∈ Forest.preorder (FileRoutes.place route name path parts forest), r.Plain := by
  intro r hr
  obtain ⟨path', grows⟩ := place_grows route parts name path forest
  rcases List.mem_cons.1 (grows.perm.mem_iff.1 hr) with rfl | hr
  · exact ⟨h.bag, h.aliases, h.redirect, h.props⟩
  · exact others r hr

theorem foldl_insertFile_plain (serverComponents : Bool) :
    ∀ (pages : List PageFile) (state : Forest Route × Diagnostics),
      (∀ r ∈ Forest.preorder state.1, r.Plain) →
        ∀ r ∈ Forest.preorder (pages.foldl (insertFile serverComponents) state).1, r.Plain
  | [], _, h => h
  | page :: rest, state, h => by
    refine foldl_insertFile_plain serverComponents rest _ ?_
    unfold insertFile
    simp only
    split
    · exact Route.Plain.place ⟨rfl, rfl, rfl, rfl⟩ _ _ _ h
    · exact h

/-- **A built route has no values but its name and its path.** -/
theorem plain_buildForest (serverComponents : Bool) (pages : List PageFile) :
    ∀ route ∈ Forest.preorder (buildForest serverComponents pages).1, route.Plain := by
  have placed := foldl_insertFile_plain serverComponents (byLength pages) ([], {})
    fun _ h => absurd h List.not_mem_nil
  intro route hr
  unfold buildForest at hr
  simp only at hr
  rw [← Forest.map_label_subtrees] at hr
  obtain ⟨t, ht, rfl⟩ := List.mem_map.1 hr
  obtain ⟨i, hi, rfl⟩ := List.getElem_of_mem ht
  have matched := forall₂_subtrees_finish
    ((byLength pages).foldl (insertFile serverComponents) ([], {})).1
  obtain ⟨path, label⟩ := matched.get hi (matched.length_eq ▸ hi)
  have plain := placed _ (List.getElem_mem (matched.length_eq ▸ hi))
  rw [List.get_eq_getElem] at label
  rw [label]
  exact ⟨plain.bag, plain.aliases, plain.redirect, plain.props⟩

/-! ## All nodes -/

/-- **Building a forest loses and duplicates nothing.** The trees of the forest, at every depth, and
the well-formed entries of the list correspond one to one, an entry that is listed twice counting
twice. Each tree has the file and the mode of its entry; it has no name if the name of the entry comes
to nothing or a child has an empty path, and that name otherwise. -/
theorem exists_standing_perm (serverComponents : Bool) (pages : List PageFile) :
    ∃ placed : List PageFile,
      List.Forall₂ (PageFile.Stands serverComponents)
        (Forest.subtrees (buildForest serverComponents pages).1) placed ∧
      placed.Perm (pages.filter PageFile.accepted) := by
  obtain ⟨placed, sprouts, perm⟩ :=
    foldl_insertFile_sprouts serverComponents (byLength pages) ([], {}) [] .nil
  have built : (buildForest serverComponents pages).1 =
      finish ((byLength pages).foldl (insertFile serverComponents) ([], {})).1 := rfl
  have sorted : (byLength pages).Perm pages := List.mergeSort_perm pages _
  refine ⟨placed, ?_, ?_⟩
  · rw [built]
    exact forall₂_stands (forall₂_subtrees_finish _) sprouts
  · rw [List.append_nil] at perm
    exact perm.trans (sorted.filter _)

end FileRoutes
