/-!
# Forests

A `Tree` has a label and a list of subtrees, and a `Forest` is a list of trees. Routes and route
records are both kept in forests of one shape.

* `Forest.map`: the same shape with other labels.
* `Forest.mapUp`: other labels, computed from the labels already changed below them.
* `Forest.preorder`: the labels, parents before children and siblings in order.
* `Forest.walk`: the labels in that order, each with a value that is handed down from the root.
* `Forest.find?`: the first tree, in the order of the labels, whose label has a property.
* `Forest.alike`: the same shape, with related labels.
-/

namespace FileRoutes

/-- A label with a list of subtrees. -/
inductive Tree (α : Type) where
  | node (label : α) (children : List (Tree α))
  deriving Repr

/-- A list of trees. -/
abbrev Forest (α : Type) := List (Tree α)

variable {α β γ : Type}

namespace Tree

instance [Inhabited α] : Inhabited (Tree α) := ⟨.node default []⟩

/-- The label at the root. -/
def label : Tree α → α
  | .node a _ => a

/-- The subtrees of the root. -/
def children : Tree α → Forest α
  | .node _ ts => ts

end Tree

mutual

/-- Changes every label. -/
def Tree.map (f : α → β) : Tree α → Tree β
  | .node a ts => .node (f a) (Forest.map f ts)

/-- Changes every label. -/
def Forest.map (f : α → β) : Forest α → Forest β
  | [] => []
  | t :: ts => t.map f :: Forest.map f ts

end

mutual

/-- Changes every label, given the changed labels of the children. -/
def Tree.mapUp (f : α → List β → β) : Tree α → Tree β
  | .node a ts =>
    let ts := Forest.mapUp f ts
    .node (f a (List.map Tree.label ts)) ts

/-- Changes every label, given the changed labels of the children. -/
def Forest.mapUp (f : α → List β → β) : Forest α → Forest β
  | [] => []
  | t :: ts => t.mapUp f :: Forest.mapUp f ts

end

mutual

/-- The labels, the root first. -/
def Tree.preorder : Tree α → List α
  | .node a ts => a :: Forest.preorder ts

/-- The labels, parents before children and siblings in order. -/
def Forest.preorder : Forest α → List α
  | [] => []
  | t :: ts => t.preorder ++ Forest.preorder ts

end

mutual

/-- The labels in preorder, each with the value that `f` makes of it and of its parent's value. -/
def Tree.walk (f : γ → α → γ) (given : γ) : Tree α → List (γ × α)
  | .node a ts => (f given a, a) :: Forest.walk f (f given a) ts

/-- The labels in preorder, each with the value that `f` makes of it and of its parent's value. -/
def Forest.walk (f : γ → α → γ) (given : γ) : Forest α → List (γ × α)
  | [] => []
  | t :: ts => t.walk f given ++ Forest.walk f given ts

end

mutual

/-- The first tree in preorder whose label has a property. -/
def Tree.find? (p : α → Bool) : Tree α → Option (Tree α)
  | .node a ts => if p a then some (.node a ts) else Forest.find? p ts

/-- The first tree in preorder whose label has a property. -/
def Forest.find? (p : α → Bool) : Forest α → Option (Tree α)
  | [] => none
  | t :: ts => (t.find? p).or (Forest.find? p ts)

end

mutual

/-- Two trees of one shape, with related labels. -/
def Tree.alike (r : α → β → Bool) : Tree α → Tree β → Bool
  | .node a ts, .node b us => r a b && Forest.alike r ts us

/-- Two forests of one shape, with related labels. -/
def Forest.alike (r : α → β → Bool) : Forest α → Forest β → Bool
  | [], [] => true
  | t :: ts, u :: us => t.alike r u && Forest.alike r ts us
  | [], _ :: _ | _ :: _, [] => false

end

/-- The tree at a position: the index of its root, then the index of a child, and so on. -/
def Forest.at? : Forest α → List Nat → Option (Tree α)
  | _, [] => none
  | forest, i :: rest =>
    match forest[i]? with
    | some t => if rest.isEmpty then some t else Forest.at? t.children rest
    | none => none

end FileRoutes
