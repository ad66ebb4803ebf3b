import FileRoutes.Proofs.Route.FileNames
import FileRoutes.Proofs.Route.Forest
import FileRoutes.Proofs.Route.Parts

/-!
# Placing routes

A page file adds one route to the forest, at the path that its own parts spell. It may become a child
of another page, but only of one whose name and path are those of its own first parts, so that the
paths of its ancestors and its own add up to the same.

* `Forest.Grown`: every name and every path of a forest is built of parts.
* `Route.hang`: the spine of a route, from that of its parent.
* `Route.hang_of_isLayout`: the page that a route goes below hangs at the spine of the parts taken.
* `place_spec`: placing a route keeps the forest grown, and adds the route with the trail of its parts
  to the walk through it.
* `insertFile_spec`, `foldl_insertFile_spec`: so does inserting files.
-/

namespace FileRoutes

open Url (Clean slashed rooted)

/-! ## Grown forests -/

mutual

/-- The name of a tree has the labels above it and those of its own parts, its path is that of its
own parts, and its children have grown on these labels. -/
def Tree.Grown (labels : List String) : Tree Route → Prop
  | .node route children =>
    ∃ parts : List Part, (∀ part ∈ parts, part.Sound) ∧
      route.name = some (Part.rawName (labels ++ parts.map Part.label)) ∧
        route.path = Part.rawPath parts ∧
          Forest.Grown (labels ++ parts.map Part.label) children

/-- All trees have grown on the labels. -/
def Forest.Grown (labels : List String) : Forest Route → Prop
  | [] => True
  | t :: ts => t.Grown labels ∧ Forest.Grown labels ts

end

theorem Forest.grown_append {labels : List String} :
    ∀ {before after : Forest Route},
      Forest.Grown labels (before ++ after) ↔
        Forest.Grown labels before ∧ Forest.Grown labels after
  | [], after => by simp [Forest.Grown]
  | t :: before, after => by
    rw [List.cons_append, Forest.Grown, Forest.Grown, Forest.grown_append, and_assoc]

/-! ## Spines of routes -/

namespace Route

/-- The spine of a path: a bare slash has none. -/
def spine (path : String) : List Char := if path.toList = ['/'] then [] else path.toList

theorem spine_rawPath {parts : List Part} (h : ∀ part ∈ parts, part.Sound) :
    spine (Part.rawPath parts) = slashed (Part.trail parts) := by
  unfold spine
  rw [Part.toList_rawPath h]
  by_cases none : parts = []
  · subst none
    rfl
  · rw [if_neg none]
    by_cases bare : Part.trail parts = []
    · rw [bare, Url.slashed_nil, Url.rooted_nil, if_pos rfl]
    · rw [Url.rooted_slashed_of_ne_nil bare, if_neg (Url.slashed_ne_slash (Part.clean_trail h))]

/-- The spine of a route, from that of its parent. -/
def hang (given : List Char) (route : Route) : List Char := given ++ spine route.path

theorem hang_eq (given : List Char) {route : Route} {parts : List Part}
    (h : ∀ part ∈ parts, part.Sound) (path : route.path = Part.rawPath parts) :
    hang given route = given ++ slashed (Part.trail parts) := by
  unfold hang
  rw [path, spine_rawPath h]

/-- The routes of a forest in preorder: the spine of each with its file. -/
def spines (given : List Char) (forest : Forest Route) : List (List Char × Option FilePath) :=
  (Forest.walk hang given forest).map fun entry => (entry.1, entry.2.file)

theorem spines_append (given : List Char) (before after : Forest Route) :
    spines given (before ++ after) = spines given before ++ spines given after := by
  unfold spines
  rw [Forest.walk_append, List.map_append]

theorem spines_cons (given : List Char) (route : Route) (children after : Forest Route) :
    spines given (.node route children :: after) =
      (hang given route, route.file) :: (spines (hang given route) children ++
        spines given after) := by
  unfold spines
  rw [Forest.walk, Tree.walk, List.map_append, List.map_cons, List.cons_append]

end Route

open Route (hang spines)

/-! ## Placing a route -/

/-- A route that is added below another one is added to the forest. -/
theorem Route.spines_perm_below {given : List Char} {entry : List Char × Option FilePath}
    {layout : Route} {children grown before after : Forest Route}
    (h : (spines (hang given layout) grown).Perm (entry :: spines (hang given layout) children)) :
    (spines given (before ++ .node layout grown :: after)).Perm
      (entry :: spines given (before ++ .node layout children :: after)) := by
  rw [Route.spines_append, Route.spines_append, Route.spines_cons, Route.spines_cons]
  exact perm_below h

theorem Part.forall_mem_map_label {parts : List Part} (h : ∀ part ∈ parts, part.Sound) :
    ∀ label ∈ parts.map Part.label, label ≠ "" ∧ '/' ∉ label.toList := by
  intro label hl
  obtain ⟨part, hm, rfl⟩ := List.mem_map.1 hl
  exact ⟨(h part hm).label_ne, (h part hm).slashless⟩

theorem Part.forall_mem_labels {labels : List String} {parts : List Part}
    (hlabels : ∀ label ∈ labels, label ≠ "" ∧ '/' ∉ label.toList)
    (hparts : ∀ part ∈ parts, part.Sound) :
    ∀ label ∈ labels ++ parts.map Part.label, label ≠ "" ∧ '/' ∉ label.toList :=
  List.forall_mem_append.2 ⟨hlabels, forall_mem_map_label hparts⟩

/-- **A route that is found for some parts has their labels and hangs at their spine.** -/
theorem Route.hang_of_isLayout (given : List Char) {labels : List String} {done qs : List Part}
    {part : Part} {layout : Route}
    (hlabels : ∀ label ∈ labels, label ≠ "" ∧ '/' ∉ label.toList)
    (hdone : ∀ p ∈ done, p.Sound) (hpart : part.Sound) (hqs : ∀ q ∈ qs, q.Sound)
    (name : layout.name = some (Part.rawName (labels ++ qs.map Part.label)))
    (path : layout.path = Part.rawPath qs)
    (found : layout.isLayout (Part.rawName (labels ++ (done ++ [part]).map Part.label))
      (layoutPath (Part.rawPath done) part) = true) :
    labels ++ qs.map Part.label = labels ++ (done ++ [part]).map Part.label ∧
      hang given layout = given ++ slashed (Part.trail (done ++ [part])) := by
  have hmore : ∀ p ∈ done ++ [part], p.Sound :=
    List.forall_mem_append.2 ⟨hdone, List.forall_mem_singleton.2 hpart⟩
  have same : layout.name = some (Part.rawName (labels ++ (done ++ [part]).map Part.label)) ∧
      layout.path = layoutPath (Part.rawPath done) part := by
    simpa [Route.isLayout] using found
  have taken : labels ++ qs.map Part.label = labels ++ (done ++ [part]).map Part.label := by
    apply Part.rawName_injective (Part.forall_mem_labels hlabels hqs)
      (Part.forall_mem_labels hlabels hmore)
    exact Option.some.inj (name.symm.trans same.1)
  have trail := Part.trail_eq_of_layout hqs hdone hpart (List.append_cancel_left taken)
    (path.symm.trans same.2)
  refine ⟨taken, ?_⟩
  rw [Route.hang_eq given hqs path, trail]

/-- **Placing a route adds it with the trail of its own parts**, wherever it goes: below a route with
the spine `given` whose name has the given labels, after the parts in `done` were taken. -/
theorem place_spec (route : Route) :
    ∀ (parts done : List Part) (labels : List String) (given : List Char) (forest : Forest Route),
      (∀ label ∈ labels, label ≠ "" ∧ '/' ∉ label.toList) → (∀ part ∈ done, part.Sound) →
        (∀ part ∈ parts, part.Sound) → Forest.Grown labels forest →
          Forest.Grown labels (place route (Part.rawName (labels ++ done.map Part.label))
              (Part.rawPath done) parts forest) ∧
            (spines given (place route (Part.rawName (labels ++ done.map Part.label))
              (Part.rawPath done) parts forest)).Perm
              ((given ++ slashed (Part.trail (done ++ parts)), route.file) :: spines given forest)
  | [], done, labels, given, forest, hlabels, hdone, _, grown => by
    unfold place
    refine ⟨Forest.grown_append.2 ⟨grown, ⟨done, hdone, rfl, rfl, trivial⟩, trivial⟩, ?_⟩
    rw [Route.spines_append, Route.spines_cons, List.append_nil, Route.hang_eq given hdone rfl]
    exact List.perm_append_comm
  | part :: parts, done, labels, given, forest, hlabels, hdone, hparts, grown => by
    have hpart := hparts part List.mem_cons_self
    have hrest : ∀ p ∈ parts, p.Sound := fun p hp => hparts p (List.mem_cons_of_mem _ hp)
    have hmore : ∀ p ∈ done ++ [part], p.Sound :=
      List.forall_mem_append.2 ⟨hdone, List.forall_mem_singleton.2 hpart⟩
    have name : extendName (Part.rawName (labels ++ done.map Part.label)) part.label =
        Part.rawName (labels ++ (done ++ [part]).map Part.label) := by
      rw [List.map_append, ← List.append_assoc]
      exact (Part.rawName_append _ _).symm
    have taken : done ++ part :: parts = (done ++ [part]) ++ parts := by simp
    unfold place
    rw [name, taken]
    simp only
    split
    · rename_i i hi
      obtain ⟨before, ⟨layout, children⟩, after, rfl, found, changed⟩ :=
        Forest.exists_of_findIdx? (fun t : Tree Route => .node t.label (place route
          (Part.rawName (labels ++ (done ++ [part]).map Part.label)) "" parts t.children)) hi
      rw [changed]
      obtain ⟨hbefore, ⟨qs, hqs, hname, hpath, hchildren⟩, hafter⟩ := Forest.grown_append.1 grown
      obtain ⟨taken_labels, spine⟩ :=
        Route.hang_of_isLayout given hlabels hdone hpart hqs hname hpath found
      rw [taken_labels] at hchildren
      obtain ⟨grown', perm⟩ := place_spec route parts []
        (labels ++ (done ++ [part]).map Part.label) (hang given layout) children
        (Part.forall_mem_labels hlabels hmore) (fun p hp => absurd hp List.not_mem_nil) hrest
        hchildren
      rw [List.map_nil, List.append_nil] at grown' perm
      refine ⟨Forest.grown_append.2 ⟨hbefore, ⟨qs, hqs, hname, hpath, ?_⟩, hafter⟩, ?_⟩
      · rw [taken_labels]
        exact grown'
      · rw [Part.trail_append, Url.slashed_append, ← List.append_assoc, ← spine]
        exact Route.spines_perm_below perm
    · have path : extendPath (Part.rawPath done) part = Part.rawPath (done ++ [part]) :=
        (Part.rawPath_append done part).symm
      rw [path]
      exact place_spec route parts (done ++ [part]) labels given forest hlabels hmore hrest grown

/-! ## Inserting files -/

theorem tokenizeAll_cons_iff {segment : String} {rest : List String} {found : List Segment.Tokens} :
    tokenizeAll (segment :: rest) = .ok found ↔
      ∃ tokens others, Segment.tokenize segment = .ok tokens ∧ tokenizeAll rest = .ok others ∧
        found = tokens :: others := by
  rw [tokenizeAll]
  cases Segment.tokenize segment with
  | error error => simp [bind, Except.bind]
  | ok tokens =>
    cases tokenizeAll rest with
    | error error => simp [bind, Except.bind]
    | ok others => simp [bind, Except.bind, pure, Except.pure, eq_comm]

theorem tokenizeAll_sound :
    ∀ {segments : List String} {tokens : List Segment.Tokens},
      (∀ segment ∈ segments, '/' ∉ segment.toList) → tokenizeAll segments = .ok tokens →
        ∀ t ∈ tokens, ∀ token ∈ t.tokens, token.Sound
  | [], tokens, _, h, t, ht => by
    cases h
    cases ht
  | segment :: rest, tokens, slashless, h, t, ht => by
    obtain ⟨first, others, hs, hr, rfl⟩ := tokenizeAll_cons_iff.1 h
    obtain ⟨here, further⟩ := List.forall_mem_cons.1 slashless
    rcases List.mem_cons.1 ht with rfl | ht
    · exact Segment.tokenize_sound here hs
    · exact tokenizeAll_sound further hr t ht

/-- The parts of a page file, if its segments are well-formed. -/
def PageFile.parts? (serverComponents : Bool) (page : PageFile) : Option (List Part) :=
  (tokenizeAll (FileName.segments serverComponents page.relative).1).toOption.map Part.ofSegments

theorem PageFile.sound_parts {serverComponents : Bool} {page : PageFile} {parts : List Part}
    (h : page.parts? serverComponents = some parts) : ∀ part ∈ parts, part.Sound := by
  unfold PageFile.parts? at h
  cases ht : tokenizeAll (FileName.segments serverComponents page.relative).1 with
  | error e => simp [ht, Except.toOption] at h
  | ok tokens =>
    simp only [ht, Except.toOption, Option.map_some, Option.some.injEq] at h
    subst h
    exact Part.sound_ofSegments
      (tokenizeAll_sound (FileName.slashless_segments serverComponents page.relative) ht)

/-- The entry of a page file in the walk through the forest, if its segments are well-formed. -/
def PageFile.entry? (serverComponents : Bool) (page : PageFile) :
    Option (List Char × Option FilePath) :=
  (page.parts? serverComponents).map fun parts => (slashed (Part.trail parts), some page.file)

/-- Inserting a file adds its entry, or nothing if a segment is malformed. -/
theorem insertFile_spec (serverComponents : Bool) (page : PageFile)
    (state : Forest Route × Diagnostics) (grown : Forest.Grown [] state.1) :
    Forest.Grown [] (insertFile serverComponents state page).1 ∧
      (spines [] (insertFile serverComponents state page).1).Perm
        ((page.entry? serverComponents).toList ++ spines [] state.1) := by
  have sound := @PageFile.sound_parts serverComponents page
  unfold PageFile.entry?
  unfold PageFile.parts? at sound ⊢
  unfold insertFile
  simp only
  split
  · rename_i tokens ht
    simp only [ht, Except.toOption, Option.map_some, Option.some.injEq, forall_eq'] at sound ⊢
    exact place_spec _ (Part.ofSegments tokens) [] [] [] state.1
      (fun _ h => absurd h List.not_mem_nil) (fun _ h => absurd h List.not_mem_nil) sound grown
  · rename_i error ht
    simp only [ht, Except.toOption, Option.map_none, Option.toList_none, List.nil_append]
    exact ⟨grown, List.Perm.refl _⟩

/-- **Inserting files adds the entry of each**, in whatever order they come. -/
theorem foldl_insertFile_spec (serverComponents : Bool) :
    ∀ (pages : List PageFile) (state : Forest Route × Diagnostics), Forest.Grown [] state.1 →
      Forest.Grown [] (pages.foldl (insertFile serverComponents) state).1 ∧
        (spines [] (pages.foldl (insertFile serverComponents) state).1).Perm
          (pages.filterMap (PageFile.entry? serverComponents) ++ spines [] state.1)
  | [], state, grown => ⟨grown, List.Perm.refl _⟩
  | page :: rest, state, grown => by
    obtain ⟨grown', perm⟩ := insertFile_spec serverComponents page state grown
    obtain ⟨grown'', perm'⟩ := foldl_insertFile_spec serverComponents rest _ grown'
    refine ⟨grown'', (perm'.trans (perm.append_left _)).trans ?_⟩
    rw [List.filterMap_cons]
    cases page.entry? serverComponents with
    | none => exact List.Perm.refl _
    | some entry => exact List.perm_middle

end FileRoutes
