import FileRoutes.Proofs.Route.Malformed

/-!
# Order of nodes

Pages are placed one after the other, each as the last of its siblings, so the ranks of the pages in
the order of placing tell the order of the nodes. That order is the stable order of the lengths of the
paths, so files with paths of different lengths may change places in the list.

* `Forest.Ordered.map`: ranks after a change of the labels.
* `Ranked`: a page with its rank and its route. `Forest.Numbered` is what holds of a forest of such
  pages; `Forest.Numbered.exists_insertFile` says that one page keeps it, and
  `Forest.Numbered.exists_foldl` that a list of pages does.
* `Forest.map_file_finish`: the final form has the files where they were.
* `buildForest_congr`: lists with one stable order have one build.
* `ordered_buildForest`: the order of the nodes of a built forest.
-/

namespace FileRoutes

variable {α β : Type} {serverComponents : Bool}

/-- Ranks of changed labels are ranks of the labels that they were. -/
theorem Forest.Ordered.map {rank : β → Nat} {f : α → β} {forest : Forest α}
    (h : Forest.Ordered (rank ∘ f) forest) : Forest.Ordered rank (Forest.map f forest) where
  roots := by
    rw [Forest.map_label_map]
    exact List.pairwise_map.2 h.roots
  siblings t ht := by
    rw [Forest.subtrees_map] at ht
    obtain ⟨u, hu, rfl⟩ := List.mem_map.1 ht
    rw [Tree.children_map, ← Forest.map_eq, Forest.map_label_map]
    exact List.pairwise_map.2 (h.siblings u hu)
  descendants t ht a ha := by
    rw [Forest.subtrees_map] at ht
    obtain ⟨u, hu, rfl⟩ := List.mem_map.1 ht
    rw [Tree.children_map, ← Forest.map_eq, Forest.preorder_map] at ha
    obtain ⟨b, hb, rfl⟩ := List.mem_map.1 ha
    rw [Tree.label_map]
    exact h.descendants u hu b hb

/-! ## Placing -/

/-- A page in the forest, with its rank in the order of placing, and its route. -/
structure Ranked where
  page : PageFile
  rank : Nat
  route : Route

/-- The page and its rank. -/
def Ranked.entry (r : Ranked) : PageFile × Nat := (r.page, r.rank)

/-- What holds of a forest after pages have been placed: its nodes are these pages, with the ranks
that they have in the list. -/
structure Forest.Numbered (serverComponents : Bool) (placed : List PageFile)
    (forest : Forest Ranked) : Prop where
  sprouts : ∀ r ∈ Forest.preorder forest, r.page.Sprouts serverComponents r.route
  entries : ((Forest.preorder forest).map Ranked.entry).Perm placed.zipIdx
  ordered : Forest.Ordered Ranked.rank forest

namespace Forest.Numbered

variable {placed : List PageFile} {forest : Forest Ranked}

theorem rank_lt (h : Forest.Numbered serverComponents placed forest) {r : Ranked}
    (hr : r ∈ Forest.preorder forest) : r.rank < placed.length := by
  have listed : r.entry ∈ placed.zipIdx := h.entries.subset (List.mem_map_of_mem hr)
  have bound := List.snd_lt_of_mem_zipIdx listed
  rwa [Nat.add_zero] at bound

/-- **Inserting a page gives it the next rank**, which is higher than those of the others. -/
theorem exists_insertFile (h : Forest.Numbered serverComponents placed forest) {page : PageFile}
    (accepted : page.accepted = true) {state : Forest Route × Diagnostics}
    (shape : Forest.map Ranked.route forest = state.1) :
    ∃ grown, Forest.map Ranked.route grown = (insertFile serverComponents state page).1 ∧
      Forest.Numbered serverComponents (placed ++ [page]) grown := by
  obtain ⟨-, route, sprouts, grows⟩ | ⟨rejected, -⟩ := insertFile_cases serverComponents page state
  · let next : Ranked := ⟨page, placed.length, route⟩
    rw [← shape] at grows
    obtain ⟨grown, built, grows⟩ := Forest.Grows.exists_map (a := next) (f := Ranked.route) grows
    refine ⟨grown, built, fun r hr => ?_, ?_, grows.ordered h.ordered fun r hr => h.rank_lt hr⟩
    · rcases List.mem_cons.1 (grows.perm.subset hr) with rfl | hr
      · exact sprouts
      · exact h.sprouts r hr
    · rw [List.zipIdx_append]
      refine (grows.perm.map Ranked.entry).trans ?_
      refine (h.entries.cons _).trans ?_
      simpa [Ranked.entry, next] using (List.perm_append_singleton _ placed.zipIdx).symm
  · rw [accepted] at rejected
    cases rejected

/-- **Inserting pages gives them the ranks that they have in the list.** -/
theorem exists_foldl :
    ∀ {pages placed : List PageFile} {state : Forest Route × Diagnostics} {forest : Forest Ranked},
      Forest.Numbered serverComponents placed forest → (∀ page ∈ pages, page.accepted = true) →
      Forest.map Ranked.route forest = state.1 →
      ∃ grown, Forest.map Ranked.route grown =
          (pages.foldl (insertFile serverComponents) state).1 ∧
        Forest.Numbered serverComponents (placed ++ pages) grown
  | [], placed, state, forest, h, _, shape => ⟨forest, shape, by rwa [List.append_nil]⟩
  | page :: rest, placed, state, forest, h, accepted, shape => by
    rw [List.forall_mem_cons] at accepted
    obtain ⟨more, shape', h'⟩ := h.exists_insertFile accepted.1 shape
    obtain ⟨grown, built, numbered⟩ := h'.exists_foldl accepted.2 shape'
    rw [List.append_assoc] at numbered
    exact ⟨grown, built, numbered⟩

end Forest.Numbered

/-! ## Builds -/

/-- The final form has the files where they were. -/
theorem Forest.map_file_finish :
    ∀ forest : Forest Route, Forest.map Route.file (finish forest) = Forest.map Route.file forest
  | [] => rfl
  | .node route children :: rest => by
    have below : Forest.map Route.file (Forest.mapUp (Route.finish relativePath) children) =
        Forest.map Route.file children :=
      Forest.map_mapUp_of_same (f := Route.finish relativePath) (fun _ _ => rfl) children
    have ih := Forest.map_file_finish rest
    unfold finish at ih ⊢
    rw [List.map_cons, Forest.map, Forest.map, ih, finishRoot, Tree.map, Tree.map]
    simp only [Tree.children, below]
    rfl

/-- The pages of a numbered forest stand for its trees in their final form. -/
theorem Forest.Numbered.stands {placed : List PageFile} {forest : Forest Ranked}
    (h : Forest.Numbered serverComponents placed forest) :
    List.Forall₂ (PageFile.Stands serverComponents)
      (Forest.subtrees (finish (Forest.map Ranked.route forest)))
      ((Forest.preorder forest).map Ranked.page) := by
  refine forall₂_stands (forall₂_subtrees_finish _) ?_
  rw [Forest.preorder_map, List.forall₂_map_left_iff, List.forall₂_map_right_iff,
    List.forall₂_same]
  exact h.sprouts

/-- Lists of files that have the files of each length in one order have one build. -/
theorem buildForest_congr {pages other : List PageFile}
    (h : ∀ n, other.filter (·.length == n) = pages.filter (·.length == n)) :
    buildForest serverComponents other = buildForest serverComponents pages := by
  have order := stableOrder_byLength other
  have same : byLength other = byLength pages :=
    StableOrder.unique ⟨order.ascending, fun n => (order.stable n).trans (h n)⟩
      (stableOrder_byLength pages)
  unfold buildForest
  rw [same]

/-- **The order of the nodes of a built forest.** Its nodes are the well-formed files of the list, and
their ranks in the stable order of the lengths of their paths ascend from each node to the next one
beside it, among the roots and among the children of every node, and from each node to all those below
it. So a list that has the same files, those of each length in the same order, has the same forest and
the same diagnostics. -/
theorem ordered_buildForest (serverComponents : Bool) (pages : List PageFile) :
    let build := buildForest serverComponents pages
    (∃ (sorted : List PageFile) (entries : Forest (PageFile × Nat)),
      StableOrder PageFile.length (pages.filter PageFile.accepted) sorted ∧
      (Forest.preorder entries).Perm sorted.zipIdx ∧
      Forest.map Route.file build.1 = Forest.map (fun entry => some entry.1.file) entries ∧
      List.Forall₂ (fun t entry => entry.1.Stands serverComponents t) (Forest.subtrees build.1)
        (Forest.preorder entries) ∧
      Forest.Ordered Prod.snd entries) ∧
    ∀ other : List PageFile, (∀ n, other.filter (·.length == n) = pages.filter (·.length == n)) →
      buildForest serverComponents other = build := by
  intro build
  refine ⟨?order, fun other h => buildForest_congr h⟩
  case order =>
    have placed : ((byLength pages).foldl (insertFile serverComponents) ([], {})).1 =
        ((byLength (pages.filter PageFile.accepted)).foldl (insertFile serverComponents)
          ([], {})).1 := by
      rw [byLength_filter]
      exact foldl_insertFile_filter (byLength pages) rfl
    have accepted : ∀ page ∈ byLength (pages.filter PageFile.accepted), page.accepted = true := by
      rw [byLength_filter]
      exact fun page hm => (List.mem_filter.1 hm).2
    have start : Forest.Numbered serverComponents [] [] :=
      ⟨fun _ h => absurd h List.not_mem_nil, .refl _, Forest.ordered_nil⟩
    have empty : Forest.map Ranked.route [] = (([], {}) : Forest Route × Diagnostics).1 := rfl
    obtain ⟨ranked, shape, numbered⟩ := start.exists_foldl accepted empty
    have built : build.1 = finish (Forest.map Ranked.route ranked) := by
      rw [shape, ← placed]
      rfl
    refine ⟨_, Forest.map Ranked.entry ranked, stableOrder_byLength _, ?_, ?_, ?_,
      Forest.Ordered.map numbered.ordered⟩
    · rw [Forest.preorder_map]
      exact numbered.entries
    · rw [built, Forest.map_file_finish, Forest.map_map, Forest.map_map]
      exact Forest.map_congr ranked fun r hr => (numbered.sprouts r hr).file
    · rw [built, Forest.preorder_map, List.forall₂_map_right_iff]
      exact List.forall₂_map_right_iff.1 numbered.stands

/-- A page may change places with the page that it goes under, but two pages with paths of one length
stay in their order. -/
theorem ordered_buildForest_exchanged :
    let b : PageFile := ⟨"b.vue", ⟨"b.vue"⟩⟩
    let user : PageFile := ⟨"users/[id].vue", ⟨"users/[id].vue"⟩⟩
    let a : PageFile := ⟨"a.vue", ⟨"a.vue"⟩⟩
    let users : PageFile := ⟨"users.vue", ⟨"users.vue"⟩⟩
    (∀ n, [users, b, user, a].filter (·.length == n) = [b, user, a, users].filter (·.length == n)) ∧
      buildForest true [users, b, user, a] = buildForest true [b, user, a, users] := by
  intro b user a users
  have same : ∀ n, [users, b, user, a].filter (·.length == n) =
      [b, user, a, users].filter (·.length == n) := by
    intro n
    have first : b.length = 5 := by decide +kernel
    have second : user.length = 14 := by decide +kernel
    have third : a.length = 5 := by decide +kernel
    have last : users.length = 9 := by decide +kernel
    simp only [List.filter_cons, List.filter_nil, first, second, third, last, beq_iff_eq]
    -- only the paths of one length are those of two pages, which have one order in both lists
    by_cases here : 9 = n
    · subst here
      rfl
    · rw [if_neg here, if_neg here]
  exact ⟨same, (ordered_buildForest true [b, user, a, users]).2 [users, b, user, a] same⟩

end FileRoutes
