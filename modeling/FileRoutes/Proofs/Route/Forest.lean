import FileRoutes.Route.Tree
import Mathlib.Data.List.Forall2

/-!
# Laws of forests

* `Forest.preorder_map`, `Forest.map_map`: the labels of a changed forest, and two changes in a row;
  `Forest.map_congr`: changes that agree on the labels.
* `Forest.Forall₂`: two forests of one shape with related labels; `Forest.Forall₂.map` relates changes
  of two such forests, `Forest.forall₂_map` two changes of one forest.
* `Forest.preorder_append`, `Forest.walk_append`: two forests side by side; `perm_below` adds an entry
  to one of their trees.
* `Forest.subtrees`: the trees of a forest at every depth, at the top or below (`mem_subtrees_iff`);
  `Forest.subtrees_append` and `Forest.subtrees_map` say what they are of forests side by side and of
  a changed forest, `Forest.forall₂_subtrees_mapUp` what a change from below makes of them.
* `Forest.exists_of_findIdx?`: changing the first tree that is found leaves the others in place;
  `Forest.exists_of_findIdx?_map` says the same of a forest whose labels were changed before.
* `Forest.map_mapUp`, `Forest.map_mapUp_of_same`: the labels after a change from below.
-/

namespace FileRoutes

variable {α β γ δ : Type}

mutual

theorem Tree.preorder_map (f : α → β) :
    ∀ t : Tree α, (t.map f).preorder = t.preorder.map f
  | .node a ts => by
    rw [Tree.map, Tree.preorder, Tree.preorder, Forest.preorder_map f ts, List.map_cons]

theorem Forest.preorder_map (f : α → β) :
    ∀ ts : Forest α, Forest.preorder (Forest.map f ts) = (Forest.preorder ts).map f
  | [] => rfl
  | t :: ts => by
    rw [Forest.map, Forest.preorder, Forest.preorder, Tree.preorder_map f t,
      Forest.preorder_map f ts, List.map_append]

end

mutual

theorem Tree.map_map (g : β → γ) (f : α → β) : ∀ t : Tree α, (t.map f).map g = t.map (g ∘ f)
  | .node a ts => by
    rw [Tree.map, Tree.map, Tree.map, Forest.map_map g f ts]
    rfl

theorem Forest.map_map (g : β → γ) (f : α → β) :
    ∀ ts : Forest α, Forest.map g (Forest.map f ts) = Forest.map (g ∘ f) ts
  | [] => rfl
  | t :: ts => by
    rw [Forest.map, Forest.map, Forest.map, Tree.map_map g f t, Forest.map_map g f ts]

end

mutual

theorem Tree.map_id : ∀ t : Tree α, t.map id = t
  | .node a ts => by rw [Tree.map, Forest.map_id, id]

theorem Forest.map_id : ∀ ts : Forest α, Forest.map id ts = ts
  | [] => rfl
  | t :: ts => by rw [Forest.map, Tree.map_id, Forest.map_id]

end

mutual

theorem Tree.map_congr {f g : α → β} :
    ∀ t : Tree α, (∀ a ∈ t.preorder, f a = g a) → t.map f = t.map g
  | .node a ts, h => by
    rw [Tree.preorder, List.forall_mem_cons] at h
    rw [Tree.map, Tree.map, h.1, Forest.map_congr ts h.2]

/-- Changes that agree on the labels of a forest agree on the forest. -/
theorem Forest.map_congr {f g : α → β} :
    ∀ ts : Forest α, (∀ a ∈ Forest.preorder ts, f a = g a) → Forest.map f ts = Forest.map g ts
  | [], _ => rfl
  | t :: ts, h => by
    rw [Forest.preorder, List.forall_mem_append] at h
    rw [Forest.map, Forest.map, Tree.map_congr t h.1, Forest.map_congr ts h.2]

end

theorem Forest.preorder_append :
    ∀ before after : Forest α,
      Forest.preorder (before ++ after) = Forest.preorder before ++ Forest.preorder after
  | [], _ => rfl
  | t :: before, after => by
    rw [List.cons_append, Forest.preorder, Forest.preorder, Forest.preorder_append before after,
      List.append_assoc]

/-- An entry that comes below another one comes to the entries around it. -/
theorem perm_below {entry top : α} {grown children before after : List α}
    (h : grown.Perm (entry :: children)) :
    (before ++ top :: (grown ++ after)).Perm (entry :: (before ++ top :: (children ++ after))) := by
  -- it comes behind the upper one, from where it is moved to the front
  have behind := ((h.append_right after).cons top).append_left before
  exact behind.trans (((List.Perm.swap _ _ _).append_left _).trans List.perm_middle)

/-- What comes of some items, and the items that it comes of. -/
theorem forall₂_filterMap (f : α → Option β) :
    ∀ items : List α, List.Forall₂ (fun b a => f a = some b) (items.filterMap f)
      (items.filter fun a => (f a).isSome)
  | [] => .nil
  | a :: items => by
    have ih := forall₂_filterMap f items
    cases h : f a with
    | none => simpa [h] using ih
    | some b => simpa [h] using ih

theorem Forest.walk_append (f : γ → α → γ) (given : γ) :
    ∀ before after : Forest α,
      Forest.walk f given (before ++ after) =
        Forest.walk f given before ++ Forest.walk f given after
  | [], _ => rfl
  | t :: before, after => by
    rw [List.cons_append, Forest.walk, Forest.walk, Forest.walk_append f given before after,
      List.append_assoc]

/-- The first tree that is found, the trees around it, and the forest with that tree changed. -/
theorem Forest.exists_of_findIdx? {p : Tree α → Bool} {forest : Forest α} {i : Nat}
    (g : Tree α → Tree α) (h : forest.findIdx? p = some i) :
    ∃ before t after, forest = before ++ t :: after ∧ p t = true ∧
      forest.modify i g = before ++ g t :: after := by
  obtain ⟨bound, found, -⟩ := List.findIdx?_eq_some_iff_getElem.1 h
  obtain ⟨before, t, after, split, length, changed⟩ := List.exists_of_modify g bound
  refine ⟨before, t, after, split, ?_, changed⟩
  subst split length
  simpa using found

/-- The trees of a changed forest. -/
theorem Forest.map_eq (f : α → β) : ∀ ts : Forest α, Forest.map f ts = List.map (Tree.map f) ts
  | [] => rfl
  | t :: ts => by rw [Forest.map, Forest.map_eq f ts, List.map_cons]

theorem Tree.label_map (f : α → β) : ∀ t : Tree α, (t.map f).label = f t.label
  | .node _ _ => rfl

theorem Tree.children_map (f : α → β) :
    ∀ t : Tree α, (t.map f).children = List.map (Tree.map f) t.children
  | .node _ ts => Forest.map_eq f ts

/-- The first tree that is found in a changed forest, as it was before the change. -/
theorem Forest.exists_of_findIdx?_map {f : α → β} {p : Tree β → Bool} {forest : Forest α} {i : Nat}
    (g : Tree β → Tree β) (h : (Forest.map f forest).findIdx? p = some i) :
    ∃ before a children after, forest = before ++ .node a children :: after ∧
      p (.node (f a) (Forest.map f children)) = true ∧
        (Forest.map f forest).modify i g =
          Forest.map f before ++ g (.node (f a) (Forest.map f children)) :: Forest.map f after := by
  obtain ⟨before', t', after', split, found, changed⟩ := Forest.exists_of_findIdx? g h
  rw [Forest.map_eq] at split
  obtain ⟨before, rest, rfl, rfl, more⟩ := List.map_eq_append_iff.1 split
  obtain ⟨⟨a, children⟩, after, rfl, rfl, rfl⟩ := List.map_eq_cons_iff.1 more
  refine ⟨before, a, children, after, rfl, found, ?_⟩
  rw [changed, Forest.map_eq f before, Forest.map_eq f after, Tree.map]

/-- The trees of a forest that is changed from below. -/
theorem Forest.mapUp_eq (f : α → List β → β) :
    ∀ ts : Forest α, Forest.mapUp f ts = List.map (Tree.mapUp f) ts
  | [] => rfl
  | t :: ts => by rw [Forest.mapUp, Forest.mapUp_eq f ts, List.map_cons]

theorem Tree.label_mapUp (f : α → List β → β) :
    ∀ t : Tree α, (t.mapUp f).label = f t.label (List.map Tree.label (Forest.mapUp f t.children))
  | .node _ _ => rfl

theorem Forest.map_label_map (f : α → β) (ts : Forest α) :
    List.map Tree.label (Forest.map f ts) = (List.map Tree.label ts).map f := by
  rw [Forest.map_eq, List.map_map, List.map_map]
  exact List.map_congr_left fun t _ => Tree.label_map f t

mutual

theorem Tree.map_mapUp {g : α → β} {f : α → List α → α} {f' : β → List β → β}
    (h : ∀ a as, g (f a as) = f' (g a) (as.map g)) :
    ∀ t : Tree α, (t.mapUp f).map g = (t.map g).mapUp f'
  | .node a ts => by
    rw [Tree.mapUp, Tree.map, Tree.map, Tree.mapUp, ← Forest.map_mapUp h ts, h,
      Forest.map_label_map]

/-- A change from below commutes with a change of the labels. -/
theorem Forest.map_mapUp {g : α → β} {f : α → List α → α} {f' : β → List β → β}
    (h : ∀ a as, g (f a as) = f' (g a) (as.map g)) :
    ∀ ts : Forest α, Forest.map g (Forest.mapUp f ts) = Forest.mapUp f' (Forest.map g ts)
  | [] => rfl
  | t :: ts => by
    rw [Forest.mapUp, Forest.map, Forest.map, Forest.mapUp, Tree.map_mapUp h t,
      Forest.map_mapUp h ts]

end

mutual

theorem Tree.map_mapUp_of_same {g : α → γ} {f : α → List α → α} (h : ∀ a as, g (f a as) = g a) :
    ∀ t : Tree α, (t.mapUp f).map g = t.map g
  | .node a ts => by
    rw [Tree.mapUp, Tree.map, Tree.map, Forest.map_mapUp_of_same h ts, h]

/-- What a change from below leaves as it is. -/
theorem Forest.map_mapUp_of_same {g : α → γ} {f : α → List α → α} (h : ∀ a as, g (f a as) = g a) :
    ∀ ts : Forest α, Forest.map g (Forest.mapUp f ts) = Forest.map g ts
  | [] => rfl
  | t :: ts => by
    rw [Forest.mapUp, Forest.map, Forest.map, Tree.map_mapUp_of_same h t,
      Forest.map_mapUp_of_same h ts]

end

/-! ## Related forests -/

mutual

/-- The trees have the same shape, and their labels at every position are related. -/
def Tree.Forall₂ (r : α → β → Prop) : Tree α → Tree β → Prop
  | .node a ts, .node b us => r a b ∧ Forest.Forall₂ r ts us

/-- The forests have the same shape, and their labels at every position are related. -/
def Forest.Forall₂ (r : α → β → Prop) : Forest α → Forest β → Prop
  | [], [] => True
  | t :: ts, u :: us => t.Forall₂ r u ∧ Forest.Forall₂ r ts us
  | [], _ :: _ | _ :: _, [] => False

end

mutual

theorem Tree.forall₂_same {r : α → α → Prop} :
    ∀ t : Tree α, (∀ a ∈ t.preorder, r a a) → t.Forall₂ r t
  | .node a ts, h => by
    rw [Tree.preorder, List.forall_mem_cons] at h
    exact ⟨h.1, Forest.forall₂_same ts h.2⟩

theorem Forest.forall₂_same {r : α → α → Prop} :
    ∀ ts : Forest α, (∀ a ∈ Forest.preorder ts, r a a) → Forest.Forall₂ r ts ts
  | [], _ => trivial
  | t :: ts, h => by
    rw [Forest.preorder, List.forall_mem_append] at h
    exact ⟨Tree.forall₂_same t h.1, Forest.forall₂_same ts h.2⟩

end

mutual

theorem Tree.Forall₂.map {r : α → β → Prop} {s : γ → δ → Prop} {f : α → γ} {g : β → δ}
    (h : ∀ a b, r a b → s (f a) (g b)) :
    ∀ {t : Tree α} {u : Tree β}, t.Forall₂ r u → (t.map f).Forall₂ s (u.map g)
  | .node a ts, .node b us, related => by
    rw [Tree.Forall₂] at related
    rw [Tree.map, Tree.map, Tree.Forall₂]
    exact ⟨h a b related.1, Forest.Forall₂.map h related.2⟩

/-- Changes that respect a relation take related forests to related forests. -/
theorem Forest.Forall₂.map {r : α → β → Prop} {s : γ → δ → Prop} {f : α → γ} {g : β → δ}
    (h : ∀ a b, r a b → s (f a) (g b)) :
    ∀ {ts : Forest α} {us : Forest β}, Forest.Forall₂ r ts us →
      Forest.Forall₂ s (Forest.map f ts) (Forest.map g us)
  | [], [], _ => trivial
  | t :: ts, u :: us, related => by
    rw [Forest.Forall₂] at related
    rw [Forest.map, Forest.map, Forest.Forall₂]
    exact ⟨Tree.Forall₂.map h related.1, Forest.Forall₂.map h related.2⟩

end

/-- Two changes of one forest are related where they are at every label. -/
theorem Forest.forall₂_map {r : β → γ → Prop} {f : α → β} {g : α → γ} (ts : Forest α)
    (h : ∀ a ∈ Forest.preorder ts, r (f a) (g a)) :
    Forest.Forall₂ r (Forest.map f ts) (Forest.map g ts) := by
  have related : Forest.Forall₂ (fun a b => r (f a) (g b)) ts ts := Forest.forall₂_same ts h
  exact related.map (f := f) (g := g) fun _ _ here => here

/-- A forest is related to a change of it where its labels are. -/
theorem Forest.forall₂_map_right {r : α → β → Prop} {g : α → β} (ts : Forest α)
    (h : ∀ a ∈ Forest.preorder ts, r a (g a)) : Forest.Forall₂ r ts (Forest.map g ts) := by
  have related := Forest.forall₂_map (f := id) (g := g) (r := r) ts h
  rwa [Forest.map_id] at related

/-! ## Trees at every depth -/

mutual

/-- The tree itself, and the trees below its root. -/
def Tree.subtrees : Tree α → List (Tree α)
  | .node a ts => .node a ts :: Forest.subtrees ts

/-- The trees at every depth: in the order of their roots in `Forest.preorder`. -/
def Forest.subtrees : Forest α → List (Tree α)
  | [] => []
  | t :: ts => t.subtrees ++ Forest.subtrees ts

end

mutual

theorem Tree.map_label_subtrees : ∀ t : Tree α, List.map Tree.label t.subtrees = t.preorder
  | .node a ts => by
    rw [Tree.subtrees, Tree.preorder, List.map_cons, Forest.map_label_subtrees ts]
    rfl

theorem Forest.map_label_subtrees :
    ∀ ts : Forest α, List.map Tree.label (Forest.subtrees ts) = Forest.preorder ts
  | [] => rfl
  | t :: ts => by
    rw [Forest.subtrees, Forest.preorder, List.map_append, Tree.map_label_subtrees t,
      Forest.map_label_subtrees ts]

end

theorem Forest.subtrees_append :
    ∀ before after : Forest α,
      Forest.subtrees (before ++ after) = Forest.subtrees before ++ Forest.subtrees after
  | [], _ => rfl
  | t :: before, after => by
    rw [List.cons_append, Forest.subtrees, Forest.subtrees, Forest.subtrees_append before after,
      List.append_assoc]

mutual

theorem Tree.subtrees_map (f : α → β) :
    ∀ t : Tree α, (t.map f).subtrees = List.map (Tree.map f) t.subtrees
  | .node a ts => by
    rw [Tree.map, Tree.subtrees, Tree.subtrees, Forest.subtrees_map f ts, List.map_cons, Tree.map]

theorem Forest.subtrees_map (f : α → β) :
    ∀ ts : Forest α, Forest.subtrees (Forest.map f ts) = List.map (Tree.map f) (Forest.subtrees ts)
  | [] => rfl
  | t :: ts => by
    rw [Forest.map, Forest.subtrees, Forest.subtrees, Tree.subtrees_map f t,
      Forest.subtrees_map f ts, List.map_append]

end

/-- The roots are among the labels. -/
theorem Forest.label_mem_preorder {t : Tree α} {forest : Forest α} (h : t ∈ forest) :
    t.label ∈ Forest.preorder forest := by
  obtain ⟨before, after, rfl⟩ := List.append_of_mem h
  obtain ⟨a, children⟩ := t
  rw [Forest.preorder_append]
  exact List.mem_append_right _ List.mem_cons_self

/-- A tree of a forest is at the top, or further down below one that is. -/
theorem Forest.mem_subtrees_iff {t : Tree α} :
    ∀ {forest : Forest α}, t ∈ Forest.subtrees forest ↔
      t ∈ forest ∨ ∃ u ∈ forest, t ∈ Forest.subtrees u.children
  | [] => by simp [Forest.subtrees]
  | .node a ts :: rest => by
    rw [Forest.subtrees, Tree.subtrees, List.mem_append, Forest.mem_subtrees_iff, List.mem_cons,
      List.mem_cons, List.exists_mem_cons_iff, Tree.children]
    tauto

mutual

theorem Tree.forall₂_subtrees_mapUp (f : α → List β → β) :
    ∀ t : Tree α,
      List.Forall₂ (fun u a => u.label = f a (List.map Tree.label u.children)) (t.mapUp f).subtrees
        t.preorder
  | .node a ts => by
    rw [Tree.mapUp, Tree.subtrees, Tree.preorder]
    refine List.Forall₂.cons ?_ (Forest.forall₂_subtrees_mapUp f ts)
    rfl

/-- A label that is changed from below is computed from the old label and those of the children. -/
theorem Forest.forall₂_subtrees_mapUp (f : α → List β → β) :
    ∀ ts : Forest α,
      List.Forall₂ (fun u a => u.label = f a (List.map Tree.label u.children))
        (Forest.subtrees (Forest.mapUp f ts)) (Forest.preorder ts)
  | [] => .nil
  | t :: ts => by
    rw [Forest.mapUp, Forest.subtrees, Forest.preorder]
    exact List.rel_append (Tree.forall₂_subtrees_mapUp f t) (Forest.forall₂_subtrees_mapUp f ts)

end

end FileRoutes
