import FileRoutes.Proofs.Route.Layout
import FileRoutes.Proofs.Route.Nodes

/-!
# Forests with their pages

Each node of a forest stands for a page of the list. Which one it is does not show in the forest, but
a forest of pages can be built along with the one of routes.

* `Planted`: a page with its route, and its parts: those taken on the way down to it, and its own.
* `Planted.Hosts`: a page that another one went below when it was placed.
* `Forest.Each`: a property of all nodes, of their children, and of the labels above them.
* `Planted.Raw`: what holds of a node while pages are placed. `exists_place`, `exists_insertFile` and
  `exists_foldl_insertFile` say that placing keeps it, and adds its page to the others.
* `Planted.Settled`: what holds of a node in its final form, by `Planted.Raw.settled`.
* `exists_settled`: the built forest with its pages.
-/

namespace FileRoutes

/-- A page is asked for by a path with a slash in front. -/
theorem layoutPath_ne_empty (path : String) (part : Part) : layoutPath path part ≠ "" := by
  intro empty
  have chars := congrArg String.toList empty
  rw [layoutPath, Url.leadingSlash, String.toList_ofList, Url.leadingSlashChars] at chars
  split at chars
  · rename_i slash
    rw [chars] at slash
    cases slash
  · cases chars

/-- A page in the forest: the parts it took on the way down to it, the parts that are left for its own
name and path, and its route. -/
structure Planted where
  page : PageFile
  taken : List Part
  own : List Part
  route : Route

namespace Planted

/-- The labels of a page, which are those above its children. -/
def labels (p : Planted) : List String := (p.taken ++ p.own).map Part.label

/-- The page `q` went below the page `p`: of the parts it took from there on, the last one asked for
the path of `p`. -/
def Hosts (p q : Planted) : Prop :=
  ∃ init part, q.taken.drop p.taken.length = init ++ [part] ∧
    Part.rawPath p.own = layoutPath (Part.rawPath init) part

/-- A page that hosts others has parts of its own. -/
theorem Hosts.own_ne_nil {p q : Planted} (h : p.Hosts q) : p.own ≠ [] := by
  obtain ⟨init, part, -, asked⟩ := h
  intro none
  rw [none] at asked
  exact layoutPath_ne_empty (Part.rawPath init) part asked.symm

/-- The parts of a page are the right ones, for the labels above it and for its children. -/
structure Fits (serverComponents : Bool) (above : List String) (p : Planted)
    (children : Forest Planted) : Prop where
  parts : p.page.parts? serverComponents = some (p.taken ++ p.own)
  above : p.taken.map Part.label = above
  hosts : ∀ t ∈ children, p.Hosts t.label

end Planted

/-! ## Properties of all nodes -/

mutual

/-- The root has the property below the given labels, and so have the others below the labels of
their parents. -/
def Tree.Each (P : List String → Planted → Forest Planted → Prop) (above : List String) :
    Tree Planted → Prop
  | .node p children => P above p children ∧ Forest.Each P p.labels children

/-- All trees have the property at each node. -/
def Forest.Each (P : List String → Planted → Forest Planted → Prop) (above : List String) :
    Forest Planted → Prop
  | [] => True
  | t :: ts => t.Each P above ∧ Forest.Each P above ts

end

theorem Forest.each_append {P : List String → Planted → Forest Planted → Prop}
    {above : List String} :
    ∀ {before after : Forest Planted},
      Forest.Each P above (before ++ after) ↔
        Forest.Each P above before ∧ Forest.Each P above after
  | [], after => by simp [Forest.Each]
  | t :: before, after => by
    rw [List.cons_append, Forest.Each, Forest.Each, Forest.each_append, and_assoc]

theorem Forest.each_of_mem {P : List String → Planted → Forest Planted → Prop}
    {above : List String} {t : Tree Planted} :
    ∀ {forest : Forest Planted}, Forest.Each P above forest → t ∈ forest → t.Each P above
  | u :: us, ⟨hu, hus⟩, ht => by
    rcases List.mem_cons.1 ht with rfl | ht
    · exact hu
    · exact Forest.each_of_mem hus ht

/-! ## Placing -/

variable {serverComponents : Bool}

/-- What holds of a node while pages are placed: its route has the file and the mode of its page, the
name of its labels and the path of its own parts. -/
structure Planted.Raw (serverComponents : Bool) (above : List String) (p : Planted)
    (children : Forest Planted) : Prop extends p.Fits serverComponents above children where
  file : p.route.file = some p.page.file
  mode : p.route.mode = (FileName.segments serverComponents p.page.relative).2
  name : p.route.name = some (Part.rawName p.labels)
  path : p.route.path = Part.rawPath p.own

/-- The page that a route is put below has the labels of the parts taken. -/
theorem Planted.Raw.labels_eq {above : List String} {p : Planted} {children : Forest Planted}
    {taken : List Part} (h : p.Raw serverComponents above children)
    (sound : ∀ part ∈ taken, part.Sound)
    (named : p.route.name = some (Part.rawName (taken.map Part.label))) :
    p.labels = taken.map Part.label :=
  Part.map_label_eq_of_rawName (p.page.sound_parts h.parts) sound
    (Option.some.inj (h.name.symm.trans named))

/-- **Placing a route with its page** keeps what holds of the nodes, and adds the page to the others.
At the top of the forest stand the same pages as before, but perhaps for the new one. -/
theorem exists_place {page : PageFile} (route : Route) (file : route.file = some page.file)
    (mode : route.mode = (FileName.segments serverComponents page.relative).2) :
    ∀ (parts own done : List Part) (forest : Forest Planted),
      page.parts? serverComponents = some (done ++ own ++ parts) →
      Forest.Each (Planted.Raw serverComponents) (done.map Part.label) forest →
      ∃ planted : Forest Planted,
        Forest.map Planted.route planted =
            place route (Part.rawName ((done ++ own).map Part.label)) (Part.rawPath own) parts
              (Forest.map Planted.route forest) ∧
          Forest.Each (Planted.Raw serverComponents) (done.map Part.label) planted ∧
          ((Forest.preorder planted).map Planted.page).Perm
            (page :: (Forest.preorder forest).map Planted.page) ∧
          ∀ t ∈ planted, t.label.taken = done ∨ ∃ u ∈ forest, u.label = t.label
  | [], own, done, forest, hparts, raw => by
    let p : Planted := ⟨page, done, own, { route with
      name := some (Part.rawName ((done ++ own).map Part.label)), path := Part.rawPath own }⟩
    refine ⟨forest ++ [.node p []], ?_, ?_, ?_, ?_⟩
    · rw [Forest.map_eq, List.map_append, ← Forest.map_eq]
      rfl
    · rw [List.append_nil] at hparts
      exact Forest.each_append.2 ⟨raw, ⟨⟨⟨hparts, rfl, fun _ h => absurd h List.not_mem_nil⟩,
        file, mode, rfl, rfl⟩, trivial⟩, trivial⟩
    · rw [Forest.preorder_append, List.map_append]
      exact List.perm_append_comm
    · intro t ht
      rcases List.mem_append.1 ht with ht | ht
      · exact .inr ⟨t, ht, rfl⟩
      · rw [List.mem_singleton.1 ht]
        exact .inl rfl
  | part :: parts, own, done, forest, hparts, raw => by
    have regroup : done ++ own ++ part :: parts = done ++ (own ++ [part]) ++ parts := by simp
    rw [regroup] at hparts
    have name := Part.extendName_rawName (done ++ own) part
    rw [List.append_assoc] at name
    unfold place
    rw [name]
    simp only
    split
    · rename_i i hi
      obtain ⟨before, p, children, after, rfl, found, changed⟩ := Forest.exists_of_findIdx?_map
        (fun t : Tree Route => .node t.label (place route
          (Part.rawName ((done ++ (own ++ [part])).map Part.label)) "" parts t.children)) hi
      obtain ⟨hbefore, ⟨node, hchildren⟩, hafter⟩ := Forest.each_append.1 raw
      simp only [Tree.label, Route.isLayout, Bool.and_eq_true, beq_iff_eq] at found
      -- the page that is found has the labels of all parts taken so far
      have sound : ∀ q ∈ done ++ (own ++ [part]), q.Sound := fun q hq =>
        page.sound_parts hparts q (List.mem_append_left _ hq)
      have labels := node.labels_eq sound found.1
      have hosts : p.Hosts ⟨page, done ++ (own ++ [part]), [], route⟩ := by
        have length : p.taken.length = done.length := by
          simpa using congrArg List.length node.above
        refine ⟨own, part, ?_, node.path.symm.trans found.2⟩
        rw [length, List.drop_left]
      rw [labels] at hchildren
      obtain ⟨planted, built, grown, perm, tops⟩ := exists_place route file mode parts []
        (done ++ (own ++ [part])) children (by rwa [List.append_nil]) hchildren
      rw [List.append_nil] at built
      refine ⟨before ++ .node p planted :: after, ?_, ?_, ?_, ?_⟩
      · rw [changed, Forest.map_eq, List.map_append, List.map_cons, ← Forest.map_eq, ← Forest.map_eq,
          Tree.map, built]
        rfl
      · refine Forest.each_append.2 ⟨hbefore, ⟨⟨⟨node.parts, node.above, ?_⟩, node.file, node.mode,
          node.name, node.path⟩, ?_⟩, hafter⟩
        · intro t ht
          rcases tops t ht with new | ⟨u, hu, same⟩
          · unfold Planted.Hosts
            rw [new]
            exact hosts
          · rw [← same]
            exact node.hosts u hu
        · rw [labels]
          exact grown
      · rw [Forest.preorder_append, Forest.preorder_append, Forest.preorder, Forest.preorder,
          Tree.preorder, Tree.preorder]
        simp only [List.map_append, List.map_cons, List.cons_append]
        exact perm_below perm
      · intro t ht
        refine .inr ?_
        rcases List.mem_append.1 ht with ht | ht
        · exact ⟨t, List.mem_append_left _ ht, rfl⟩
        · rcases List.mem_cons.1 ht with rfl | ht
          · exact ⟨.node p children, List.mem_append_right _ List.mem_cons_self, rfl⟩
          · exact ⟨t, List.mem_append_right _ (List.mem_cons_of_mem _ ht), rfl⟩
    · rw [← Part.rawPath_append]
      exact exists_place route file mode parts (own ++ [part]) done forest hparts raw

/-! ## Inserting files -/

/-- A page is accepted if it has parts. -/
theorem PageFile.accepted_eq (serverComponents : Bool) (page : PageFile) :
    page.accepted = (page.parts? serverComponents).isSome := by
  unfold accepted parts?
  rw [FileName.segments_fst serverComponents]
  cases tokenizeAll (FileName.segments true page.relative).1 <;> rfl

/-- **Inserting a page adds it**, or nothing if a segment is malformed. -/
theorem exists_insertFile (page : PageFile) (state : Forest Route × Diagnostics)
    {forest : Forest Planted} (shape : Forest.map Planted.route forest = state.1)
    (raw : Forest.Each (Planted.Raw serverComponents) [] forest) :
    ∃ planted : Forest Planted,
      Forest.map Planted.route planted = (insertFile serverComponents state page).1 ∧
        Forest.Each (Planted.Raw serverComponents) [] planted ∧
        ((Forest.preorder planted).map Planted.page).Perm
          ([page].filter PageFile.accepted ++ (Forest.preorder forest).map Planted.page) := by
  have accepted := page.accepted_eq serverComponents
  rw [insertFile_fst]
  cases hparts : page.parts? serverComponents with
  | none =>
    rw [hparts] at accepted
    rw [List.filter_cons_of_neg (by simp [accepted])]
    exact ⟨forest, shape, raw, List.Perm.refl _⟩
  | some parts =>
    rw [hparts] at accepted
    obtain ⟨planted, built, grown, perm, -⟩ :=
      exists_place (page.seed serverComponents) rfl rfl parts [] [] forest hparts raw
    rw [shape] at built
    rw [List.filter_cons_of_pos accepted]
    exact ⟨planted, built, grown, perm⟩

/-- **Inserting pages adds those that are well-formed.** -/
theorem exists_foldl_insertFile (serverComponents : Bool) :
    ∀ (pages : List PageFile) (state : Forest Route × Diagnostics) (forest : Forest Planted),
      Forest.map Planted.route forest = state.1 →
      Forest.Each (Planted.Raw serverComponents) [] forest →
      ∃ planted : Forest Planted,
        Forest.map Planted.route planted =
            (pages.foldl (insertFile serverComponents) state).1 ∧
          Forest.Each (Planted.Raw serverComponents) [] planted ∧
          ((Forest.preorder planted).map Planted.page).Perm
            (pages.filter PageFile.accepted ++ (Forest.preorder forest).map Planted.page)
  | [], state, forest, shape, raw => ⟨forest, shape, raw, List.Perm.refl _⟩
  | page :: rest, state, forest, shape, raw => by
    obtain ⟨more, shape', raw', perm⟩ := exists_insertFile page state shape raw
    obtain ⟨planted, built, grown, perm'⟩ :=
      exists_foldl_insertFile serverComponents rest _ more shape' raw'
    refine ⟨planted, built, grown, (perm'.trans (perm.append_left _)).trans ?_⟩
    have split : (page :: rest).filter PageFile.accepted =
        [page].filter PageFile.accepted ++ rest.filter PageFile.accepted := by
      rw [← List.filter_append, List.singleton_append]
    rw [split, ← List.append_assoc]
    exact List.perm_append_comm.append_right _

/-! ## Final form -/

/-- What holds of a node in its final form: it is the node of its page, and its children that have no
parts of their own have empty paths. -/
structure Planted.Settled (serverComponents : Bool) (above : List String) (p : Planted)
    (children : Forest Planted) : Prop extends p.Fits serverComponents above children where
  stands : p.page.Stands serverComponents (.node p.route (Forest.map Planted.route children))
  bare : ∀ t ∈ children, t.label.own = [] → t.label.route.path = ""

/-- The labels of a page, from its parts. -/
theorem FileName.labels?_eq (serverComponents : Bool) (page : PageFile) :
    FileName.labels? page.relative =
      (page.parts? serverComponents).map (List.map Part.label) := by
  unfold FileName.labels? PageFile.parts?
  rw [FileName.segments_fst serverComponents, Option.map_map]
  refine congrFun (congrArg Option.map (funext fun found => ?_)) _
  exact (Part.map_label_ofSegments found).symm

namespace Planted

variable {above : List String} {p : Planted} {children : Forest Planted}

/-- The final form of a page in the forest is that of its route. -/
def finish (path : String → String) (p : Planted) (children : List Planted) : Planted :=
  { p with route := p.route.finish path (children.map Planted.route) }

/-- A tree of pages at the top of the forest in its final form. -/
def finishRoot (t : Tree Planted) : Tree Planted :=
  let children := Forest.mapUp (finish relativePath) t.children
  .node (t.label.finish rootPath (List.map Tree.label children)) children

theorem map_route_finishRoot (t : Tree Planted) :
    (finishRoot t).map route = FileRoutes.finishRoot (t.map route) := by
  obtain ⟨p, children⟩ := t
  have below : Forest.map route (Forest.mapUp (finish relativePath) children) =
      Forest.mapUp (Route.finish relativePath) (Forest.map route children) :=
    Forest.map_mapUp (fun _ _ => rfl) children
  unfold finishRoot FileRoutes.finishRoot
  simp only [Tree.map, Tree.label, Tree.children, ← below, Forest.map_label_map]
  rfl

theorem map_page_finishRoot (t : Tree Planted) : (finishRoot t).map page = t.map page := by
  obtain ⟨p, children⟩ := t
  have below : Forest.map page (Forest.mapUp (finish relativePath) children) =
      Forest.map page children :=
    Forest.map_mapUp_of_same (f := finish relativePath) (fun _ _ => rfl) children
  unfold finishRoot
  simp only [Tree.map, Tree.label, Tree.children, below]
  rfl

theorem Raw.sprouts (h : p.Raw serverComponents above children) :
    p.page.Sprouts serverComponents p.route := by
  refine ⟨h.file, h.mode, p.labels, ?_, ?_⟩
  · rw [FileName.labels?_eq serverComponents, h.parts]
    rfl
  · have named : ∀ label ∈ p.labels, label ≠ "" := fun label hl =>
      (Part.forall_mem_map_label (p.page.sound_parts h.parts) label hl).1
    rw [h.name, Part.rawName_eq_intercalate named]

/-- **The final form of a node.** -/
theorem Raw.settled (h : p.Raw serverComponents above children)
    (below : ∀ t ∈ children, t.Each (Raw serverComponents) p.labels) (path : String → String) :
    (p.finish path (List.map Tree.label (Forest.mapUp (finish relativePath) children))).Settled
      serverComponents above (Forest.mapUp (finish relativePath) children) := by
  have shown : ∀ u ∈ Forest.mapUp (finish relativePath) children, ∃ t ∈ children,
      u.label.taken = t.label.taken ∧ u.label.own = t.label.own ∧
        u.label.route.path = relativePath t.label.route.path := by
    intro u hu
    rw [Forest.mapUp_eq] at hu
    obtain ⟨t, ht, rfl⟩ := List.mem_map.1 hu
    rw [Tree.label_mapUp]
    exact ⟨t, ht, rfl, rfl, rfl⟩
  refine ⟨⟨h.parts, h.above, ?_⟩, ?_, ?_⟩
  · intro u hu
    obtain ⟨t, ht, taken, -⟩ := shown u hu
    unfold Hosts
    rw [taken]
    exact h.hosts t ht
  · refine h.sprouts.stands (?_ : _ = p.route.finish path _)
    rw [Tree.label, Tree.children, Forest.map_label_map]
    rfl
  · intro u hu none
    obtain ⟨⟨q, more⟩, ht, -, own, hpath⟩ := shown u hu
    have raw := (below _ ht).1.path
    rw [own] at none
    rw [Tree.label] at none hpath
    rw [hpath, raw, none]
    rfl

end Planted

mutual

theorem Tree.settled_mapUp {above : List String} :
    ∀ t : Tree Planted, t.Each (Planted.Raw serverComponents) above →
      (t.mapUp (Planted.finish relativePath)).Each (Planted.Settled serverComponents) above
  | .node p children, ⟨node, below⟩ => by
    rw [Tree.mapUp]
    exact ⟨node.settled (fun t ht => Forest.each_of_mem below ht) relativePath,
      Forest.settled_mapUp children below⟩

/-- The children of a tree settle. -/
theorem Forest.settled_mapUp {above : List String} :
    ∀ forest : Forest Planted, Forest.Each (Planted.Raw serverComponents) above forest →
      Forest.Each (Planted.Settled serverComponents) above
        (Forest.mapUp (Planted.finish relativePath) forest)
  | [], _ => trivial
  | t :: ts, ⟨ht, hts⟩ => by
    rw [Forest.mapUp]
    exact ⟨Tree.settled_mapUp t ht, Forest.settled_mapUp ts hts⟩

end

theorem Forest.settled_finishRoot {above : List String} :
    ∀ forest : Forest Planted, Forest.Each (Planted.Raw serverComponents) above forest →
      Forest.Each (Planted.Settled serverComponents) above (List.map Planted.finishRoot forest)
  | [], _ => trivial
  | .node _ children :: rest, ⟨⟨node, below⟩, hrest⟩ =>
    ⟨⟨node.settled (fun _ ht => Forest.each_of_mem below ht) rootPath,
      Forest.settled_mapUp children below⟩, Forest.settled_finishRoot rest hrest⟩

/-- **The built forest with its pages**: the accepted pages of the list, one for one. -/
theorem exists_settled (serverComponents : Bool) (pages : List PageFile) :
    ∃ forest : Forest Planted,
      Forest.map Planted.route forest = (buildForest serverComponents pages).1 ∧
        Forest.Each (Planted.Settled serverComponents) [] forest ∧
        ((Forest.preorder forest).map Planted.page).Perm (pages.filter PageFile.accepted) := by
  obtain ⟨forest, built, raw, perm⟩ :=
    exists_foldl_insertFile serverComponents (byLength pages) ([], {}) [] rfl trivial
  have sorted : (byLength pages).Perm pages := List.mergeSort_perm pages _
  rw [Forest.preorder, List.map_nil, List.append_nil] at perm
  refine ⟨List.map Planted.finishRoot forest, ?_, Forest.settled_finishRoot forest raw, ?_⟩
  · have roots : Forest.map Planted.route (List.map Planted.finishRoot forest) =
        finish (Forest.map Planted.route forest) := by
      unfold finish
      rw [Forest.map_eq, Forest.map_eq, List.map_map, List.map_map]
      exact List.map_congr_left fun t _ => Planted.map_route_finishRoot t
    rw [roots, built]
    rfl
  · have same : Forest.map Planted.page (List.map Planted.finishRoot forest) =
        Forest.map Planted.page forest := by
      rw [Forest.map_eq, Forest.map_eq, List.map_map]
      exact List.map_congr_left fun t _ => Planted.map_page_finishRoot t
    rw [← Forest.preorder_map, same, Forest.preorder_map]
    exact perm.trans (sorted.filter _)

end FileRoutes
