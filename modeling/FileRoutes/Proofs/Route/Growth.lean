import FileRoutes.Proofs.Route.Forest
import FileRoutes.Route.Build

/-!
# Growth of forests

A route that is placed becomes a leaf, the last one of the roots or of the children of a route that is
there already. Nothing else in the forest moves, whatever the parts of the route are.

* `Forest.Grows`: a forest with one more leaf at the end of a list of siblings.
* `Forest.Grows.perm`: the leaf comes to the other labels.
* `Forest.Grows.exists_map`: what grows after a change of the labels grows before it, too.
* `Forest.Ordered`: ranks that ascend among siblings and from above to below. `Forest.Grows.ordered`
  says that a leaf of a higher rank keeps them so.
* `place_grows`: placing a route makes the forest grow by it.
-/

namespace FileRoutes

variable {α β : Type}

/-- The forest has one more leaf, which is the last of the roots or of the children of a tree. -/
inductive Forest.Grows (a : α) : Forest α → Forest α → Prop where
  | beside (forest : Forest α) : Grows a forest (forest ++ [.node a []])
  | under (before : Forest α) (b : α) (after : Forest α) {children grown : Forest α}
      (inner : Grows a children grown) :
      Grows a (before ++ .node b children :: after) (before ++ .node b grown :: after)

/-- Ranks ascend from each tree to the next one beside it, and from each label to those below it. -/
structure Forest.Ordered (rank : α → Nat) (forest : Forest α) : Prop where
  roots : (List.map Tree.label forest).Pairwise fun a b => rank a < rank b
  siblings : ∀ t ∈ Forest.subtrees forest,
    (List.map Tree.label t.children).Pairwise fun a b => rank a < rank b
  descendants : ∀ t ∈ Forest.subtrees forest, ∀ a ∈ Forest.preorder t.children,
    rank t.label < rank a

namespace Forest

variable {a : α} {forest grown : Forest α} {rank : α → Nat}

/-! ## Labels of a grown forest -/

/-- **The leaf comes to the other labels.** -/
theorem Grows.perm (h : Grows a forest grown) :
    (Forest.preorder grown).Perm (a :: Forest.preorder forest) := by
  induction h with
  | beside forest =>
    rw [Forest.preorder_append]
    exact List.perm_append_comm
  | under before b after _ ih =>
    rw [Forest.preorder_append, Forest.preorder_append]
    simp only [Forest.preorder, Tree.preorder, List.cons_append]
    exact perm_below ih

/-- **A forest grows as the forest of its changed labels does.** -/
theorem Grows.exists_map {f : α → β} {forest : Forest α} {grown : Forest β}
    (h : Grows (f a) (Forest.map f forest) grown) :
    ∃ lifted, Forest.map f lifted = grown ∧ Grows a forest lifted := by
  generalize same : Forest.map f forest = shown at h
  induction h generalizing forest with
  | beside =>
    refine ⟨forest ++ [.node a []], ?_, .beside forest⟩
    rw [← same, Forest.map_eq, Forest.map_eq, List.map_append]
    rfl
  | under before b after _ ih =>
    rw [Forest.map_eq] at same
    obtain ⟨before, rest, rfl, rfl, more⟩ := List.map_eq_append_iff.1 same
    obtain ⟨⟨c, children⟩, after, rfl, top, rfl⟩ := List.map_eq_cons_iff.1 more
    rw [Tree.map, Tree.node.injEq] at top
    obtain ⟨rfl, rfl⟩ := top
    obtain ⟨lifted, rfl, inner⟩ := ih rfl
    refine ⟨before ++ .node c lifted :: after, ?_, .under before c after inner⟩
    rw [Forest.map_eq, List.map_append, List.map_cons, Tree.map]

/-! ## Ranks -/

theorem ordered_nil : Ordered rank [] := ⟨.nil, by simp [Forest.subtrees], by simp [Forest.subtrees]⟩

/-- The trees of a forest: one at the top, those below it, and those of the rest. -/
theorem mem_subtrees_around {before after children : Forest α} {t : Tree α} :
    t ∈ Forest.subtrees (before ++ .node a children :: after) ↔
      t = .node a children ∨ t ∈ Forest.subtrees children ∨ t ∈ Forest.subtrees (before ++ after) := by
  rw [Forest.subtrees_append, Forest.subtrees_append, Forest.subtrees, Tree.subtrees]
  simp only [List.mem_append, List.mem_cons]
  tauto

theorem Ordered.children {before after children : Forest α}
    (h : Ordered rank (before ++ .node a children :: after)) : Ordered rank children where
  roots := h.siblings _ (mem_subtrees_around.2 (.inl rfl))
  siblings t ht := h.siblings t (mem_subtrees_around.2 (.inr (.inl ht)))
  descendants t ht := h.descendants t (mem_subtrees_around.2 (.inr (.inl ht)))

/-- **A leaf of a higher rank than all others keeps the forest ordered.** -/
theorem Grows.ordered (h : Grows a forest grown) (ordered : Ordered rank forest)
    (higher : ∀ b ∈ Forest.preorder forest, rank b < rank a) : Ordered rank grown := by
  induction h with
  | beside forest =>
    refine ⟨?_, fun t ht => ?_, fun t ht => ?_⟩
    · rw [List.map_append]
      refine List.pairwise_append.2 ⟨ordered.roots, List.pairwise_singleton _ _, ?_⟩
      intro b hb c hc
      obtain ⟨t, ht, rfl⟩ := List.mem_map.1 hb
      rw [List.mem_singleton.1 hc]
      exact higher _ (Forest.label_mem_preorder ht)
    · rw [Forest.subtrees_append, List.mem_append] at ht
      rcases ht with ht | ht
      · exact ordered.siblings t ht
      · rw [List.mem_singleton.1 ht]
        exact .nil
    · rw [Forest.subtrees_append, List.mem_append] at ht
      rcases ht with ht | ht
      · exact ordered.descendants t ht
      · rw [List.mem_singleton.1 ht]
        exact fun _ hb => absurd hb List.not_mem_nil
  | under before b after inner ih =>
    rename_i children grown
    have among : ∀ c ∈ b :: Forest.preorder children,
        c ∈ Forest.preorder (before ++ .node b children :: after) := by
      intro c hc
      rw [Forest.preorder_append]
      exact List.mem_append_right _ (List.mem_append_left _ hc)
    have inside := ih ordered.children fun c hc => higher c (among c (List.mem_cons_of_mem _ hc))
    have lower : ∀ c ∈ Forest.preorder grown, rank b < rank c := by
      intro c hc
      rcases List.mem_cons.1 (inner.perm.subset hc) with rfl | hc
      · exact higher b (among b List.mem_cons_self)
      · exact ordered.descendants _ (mem_subtrees_around.2 (.inl rfl)) c hc
    refine ⟨?_, fun t ht => ?_, fun t ht => ?_⟩
    · have roots := ordered.roots
      rw [List.map_append, List.map_cons] at roots ⊢
      exact roots
    · rcases mem_subtrees_around.1 ht with rfl | ht | ht
      · exact inside.roots
      · exact inside.siblings t ht
      · exact ordered.siblings t (mem_subtrees_around.2 (.inr (.inr ht)))
    · rcases mem_subtrees_around.1 ht with rfl | ht | ht
      · exact lower
      · exact inside.descendants t ht
      · exact ordered.descendants t (mem_subtrees_around.2 (.inr (.inr ht)))

end Forest

/-! ## Placing -/

/-- **Placing a route makes the forest grow by it**, with the name that its parts build. -/
theorem place_grows (route : Route) :
    ∀ (parts : List Part) (name path : String) (forest : Forest Route),
      ∃ path', Forest.Grows
        { route with
          name := some (parts.foldl (fun name part => extendName name part.label) name)
          path := path' }
        forest (place route name path parts forest)
  | [], _, path, forest => ⟨path, .beside forest⟩
  | part :: parts, name, path, forest => by
    unfold place
    simp only
    split
    · rename_i i hi
      obtain ⟨before, ⟨layout, children⟩, after, rfl, -, changed⟩ :=
        Forest.exists_of_findIdx? (fun t : Tree Route => .node t.label
          (place route (extendName name part.label) "" parts t.children)) hi
      obtain ⟨path', inner⟩ := place_grows route parts (extendName name part.label) "" children
      rw [changed]
      exact ⟨path', .under before layout after inner⟩
    · exact place_grows route parts (extendName name part.label) (extendPath path part) forest

end FileRoutes
