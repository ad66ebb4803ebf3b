import FileRoutes.Proofs.Route.Forest
import FileRoutes.Route.Basic

/-!
# Visiting and finding

The walk and the search for a name go through a forest by recursions of their own, and the search ends
at whatever depth it finds a route. Both take the trees in the order of their positions, where a
position is compared with another as a list of numbers: it comes before the positions that it begins,
which are those below it, and before all that turn off to a later sibling.

* `Tree.at?`, `Forest.at?_cons`: the tree at a position, one step after the other.
* `Forest.located`: the trees at every depth with their positions. `Forest.mem_located_iff` says that
  these are all positions of the forest, `Forest.pairwise_locatedFrom` that they ascend, so each stands
  there once.
* `Forest.map_snd_walk`, `Forest.find?_eq`: what the walk and the search come to in lists.
* `nodeByName?_first_in_walk`: the walk visits every node once and in order, and the search finds the
  first node with the name on this way.
-/

namespace FileRoutes

variable {α β γ : Type}

/-! ## Positions -/

/-- The tree at a position below a root; the root itself is at the empty position. -/
def Tree.at? (t : Tree α) : List Nat → Option (Tree α)
  | [] => some t
  | i :: rest => Forest.at? t.children (i :: rest)

theorem Forest.at?_cons (forest : Forest α) (i : Nat) (rest : List Nat) :
    Forest.at? forest (i :: rest) = forest[i]?.bind fun t => t.at? rest := by
  rw [Forest.at?]
  cases forest[i]? with
  | none => rfl
  | some t => cases rest <;> rfl

mutual

/-- The tree itself and the trees below its root, each with its position. -/
def Tree.located : Tree α → List (List Nat × Tree α)
  | .node a ts => ([], .node a ts) :: Forest.locatedFrom 0 ts

/-- The trees at every depth, each with its position; the roots are counted from `n`. -/
def Forest.locatedFrom : Nat → Forest α → List (List Nat × Tree α)
  | _, [] => []
  | n, t :: ts =>
    (t.located.map fun entry => (n :: entry.1, entry.2)) ++ Forest.locatedFrom (n + 1) ts

end

/-- The trees of a forest at every depth, each with its position. -/
def Forest.located (forest : Forest α) : List (List Nat × Tree α) := Forest.locatedFrom 0 forest

example : (Forest.located [.node "a" [.node "b" [.node "c" []], .node "d" []], .node "e" []]).map
      (fun entry => (entry.1, entry.2.label)) =
    [([0], "a"), ([0, 0], "b"), ([0, 0, 0], "c"), ([0, 1], "d"), ([1], "e")] := rfl

mutual

theorem Tree.mem_located_iff {u : Tree α} :
    ∀ {t : Tree α} {position : List Nat}, (position, u) ∈ t.located ↔ t.at? position = some u
  | .node a ts, [] => by
    rw [Tree.located, List.mem_cons, Tree.at?, Option.some.injEq]
    constructor
    · rintro (here | below)
      · exact (Prod.mk.inj here).2.symm
      · obtain ⟨_, _, absent, -⟩ := Forest.mem_locatedFrom_iff.1 below
        cases absent
    · rintro rfl
      exact .inl rfl
  | .node a ts, i :: rest => by
    rw [Tree.located, List.mem_cons, Tree.at?, Tree.children, Forest.mem_locatedFrom_iff]
    constructor
    · rintro (here | ⟨j, more, split, found⟩)
      · cases here
      · rw [Nat.zero_add] at split
        rwa [split]
    · intro found
      exact .inr ⟨i, rest, by rw [Nat.zero_add], found⟩

/-- The positions of a forest whose roots are counted from `n`. -/
theorem Forest.mem_locatedFrom_iff {u : Tree α} :
    ∀ {ts : Forest α} {n : Nat} {position : List Nat},
      (position, u) ∈ Forest.locatedFrom n ts ↔
        ∃ i rest, position = (n + i) :: rest ∧ Forest.at? ts (i :: rest) = some u
  | [], n, position => by simp [Forest.locatedFrom, Forest.at?]
  | t :: ts, n, position => by
    rw [Forest.locatedFrom, List.mem_append, List.mem_map]
    constructor
    · rintro (⟨⟨rest, v⟩, inside, same⟩ | later)
      · obtain ⟨rfl, rfl⟩ := Prod.mk.inj same
        refine ⟨0, rest, rfl, ?_⟩
        rw [Forest.at?_cons]
        exact Tree.mem_located_iff.1 inside
      · obtain ⟨i, rest, rfl, found⟩ := Forest.mem_locatedFrom_iff.1 later
        exact ⟨i + 1, rest, by rw [Nat.add_right_comm, Nat.add_assoc], found⟩
    · rintro ⟨i, rest, rfl, found⟩
      cases i with
      | zero =>
        rw [Forest.at?_cons] at found
        exact .inl ⟨(rest, u), Tree.mem_located_iff.2 found, rfl⟩
      | succ i =>
        refine .inr (Forest.mem_locatedFrom_iff.2 ⟨i, rest, ?_, found⟩)
        rw [Nat.add_right_comm, Nat.add_assoc]

end

/-- **The positions of a forest** are those where it has a tree. -/
theorem Forest.mem_located_iff {forest : Forest α} {position : List Nat} {t : Tree α} :
    (position, t) ∈ Forest.located forest ↔ Forest.at? forest position = some t := by
  rw [Forest.located, Forest.mem_locatedFrom_iff]
  constructor
  · rintro ⟨i, rest, rfl, found⟩
    rwa [Nat.zero_add]
  · intro found
    cases position with
    | nil => simp [Forest.at?] at found
    | cons i rest => exact ⟨i, rest, by rw [Nat.zero_add], found⟩

mutual

theorem Tree.pairwise_located :
    ∀ t : Tree α, t.located.Pairwise fun earlier later => earlier.1 < later.1
  | .node a ts => by
    rw [Tree.located, List.pairwise_cons]
    refine ⟨?_, Forest.pairwise_locatedFrom 0 ts⟩
    rintro ⟨position, u⟩ below
    obtain ⟨i, rest, rfl, -⟩ := Forest.mem_locatedFrom_iff.1 below
    exact List.nil_lt_cons _ _

/-- **The positions of a forest ascend.** -/
theorem Forest.pairwise_locatedFrom :
    ∀ (n : Nat) (ts : Forest α),
      (Forest.locatedFrom n ts).Pairwise fun earlier later => earlier.1 < later.1
  | _, [] => .nil
  | n, t :: ts => by
    rw [Forest.locatedFrom, List.pairwise_append, List.pairwise_map]
    refine ⟨?inside, Forest.pairwise_locatedFrom (n + 1) ts, ?beside⟩
    case inside =>
      exact (Tree.pairwise_located t).imp fun h => List.cons_lt_cons_iff.2 (.inr ⟨rfl, h⟩)
    case beside =>
      intro earlier he later hl
      obtain ⟨entry, -, rfl⟩ := List.mem_map.1 he
      obtain ⟨i, rest, position, -⟩ := Forest.mem_locatedFrom_iff.1 hl
      have sooner : n < n + 1 + i := by omega
      rw [position]
      exact List.cons_lt_cons_iff.2 (.inl sooner)

end

mutual

theorem Tree.map_snd_located : ∀ t : Tree α, t.located.map Prod.snd = t.subtrees
  | .node a ts => by
    rw [Tree.located, Tree.subtrees, List.map_cons, Forest.map_snd_locatedFrom 0 ts]

theorem Forest.map_snd_locatedFrom :
    ∀ (n : Nat) (ts : Forest α), (Forest.locatedFrom n ts).map Prod.snd = Forest.subtrees ts
  | _, [] => rfl
  | n, t :: ts => by
    rw [Forest.locatedFrom, Forest.subtrees, List.map_append, List.map_map,
      Forest.map_snd_locatedFrom (n + 1) ts, ← Tree.map_snd_located t]
    rfl

end

/-! ## The walk and the search as lists -/

mutual

theorem Tree.map_snd_walk (f : γ → α → γ) :
    ∀ (given : γ) (t : Tree α), (t.walk f given).map Prod.snd = t.preorder
  | given, .node a ts => by
    rw [Tree.walk, Tree.preorder, List.map_cons, Forest.map_snd_walk f (f given a) ts]

/-- Whatever is handed down, the walk meets the labels in preorder. -/
theorem Forest.map_snd_walk (f : γ → α → γ) :
    ∀ (given : γ) (ts : Forest α), (Forest.walk f given ts).map Prod.snd = Forest.preorder ts
  | _, [] => rfl
  | given, t :: ts => by
    rw [Forest.walk, Forest.preorder, List.map_append, Tree.map_snd_walk f given t,
      Forest.map_snd_walk f given ts]

end

mutual

theorem Tree.find?_eq (p : α → Bool) :
    ∀ t : Tree α, t.find? p = t.subtrees.find? fun u => p u.label
  | .node a ts => by
    rw [Tree.find?, Tree.subtrees, List.find?_cons, Tree.label, Forest.find?_eq p ts]
    cases p a <;> rfl

/-- The search that descends and ends early finds the first of all trees. -/
theorem Forest.find?_eq (p : α → Bool) :
    ∀ ts : Forest α, Forest.find? p ts = (Forest.subtrees ts).find? fun u => p u.label
  | [] => rfl
  | t :: ts => by
    rw [Forest.find?, Forest.subtrees, List.find?_append, Tree.find?_eq p t, Forest.find?_eq p ts]

end

/-- **Visiting and finding.** The nodes that the walk meets are those at the positions of the forest,
each met once: the positions ascend, so a node comes before those below it, and siblings with all that
is below them come in order. The search for a name finds the first of these nodes that has the name,
with the nodes below it, and it finds nothing exactly if the walk meets no node with the name. -/
theorem nodeByName?_first_in_walk (forest : Forest Route) :
    let visits := Forest.located forest
    (visits.map fun visit => visit.2.label) = (Route.walk forest).map Prod.snd ∧
    (visits.Pairwise fun earlier later => earlier.1 < later.1) ∧
    (∀ position t, (position, t) ∈ visits ↔ Forest.at? forest position = some t) ∧
    ∀ name,
      Route.nodeByName? forest name =
        (visits.find? fun visit => visit.2.label.name == some name).map Prod.snd ∧
      Route.findByName? forest name =
        ((Route.walk forest).find? fun visit => visit.2.name == some name).map Prod.snd ∧
      (Route.nodeByName? forest name = none ↔
        ∀ visit ∈ Route.walk forest, visit.2.name ≠ some name) := by
  intro visits
  have trees : visits.map Prod.snd = Forest.subtrees forest := Forest.map_snd_locatedFrom 0 forest
  have walked : (Route.walk forest).map Prod.snd = Forest.preorder forest :=
    Forest.map_snd_walk Route.fullPath "" forest
  have labels : (visits.map fun visit => visit.2.label) = (Route.walk forest).map Prod.snd := by
    rw [walked, ← Forest.map_label_subtrees, ← trees, List.map_map]
    rfl
  refine ⟨labels, Forest.pairwise_locatedFrom 0 forest, fun _ _ => Forest.mem_located_iff,
    fun name => ?_⟩
  have node : Route.nodeByName? forest name =
      (visits.find? fun visit => visit.2.label.name == some name).map Prod.snd := by
    unfold Route.nodeByName?
    rw [Forest.find?_eq, ← trees, List.find?_map]
    rfl
  have route : Route.findByName? forest name =
      ((Route.walk forest).find? fun visit => visit.2.name == some name).map Prod.snd := by
    have first : ((Route.walk forest).find? fun visit => visit.2.name == some name).map Prod.snd =
        ((Route.walk forest).map Prod.snd).find? fun r => r.name == some name := by
      rw [List.find?_map]
      rfl
    unfold Route.findByName?
    rw [first, ← labels, node, List.find?_map, Option.map_map]
    rfl
  refine ⟨node, route, ?_⟩
  have absent : Route.nodeByName? forest name = none ↔ Route.findByName? forest name = none :=
    Option.map_eq_none_iff.symm
  rw [absent, route, Option.map_eq_none_iff, List.find?_eq_none]
  simp

end FileRoutes
