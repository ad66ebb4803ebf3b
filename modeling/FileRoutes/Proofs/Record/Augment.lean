import FileRoutes.Proofs.Record.Resolve
import FileRoutes.Proofs.Route.Forest

/-!
# Augmented forests

Augmentation brings a forest of routes together with what their pages declare. It is done after one
round: a second one finds nothing to change. It leaves the forest as it is but for the values of routes
whose pages declare something, and of their bags it keeps every entry.

* `Route.augment_augment`, `augment_augment`: a second round changes nothing, for a route and for a
  forest.
* `Metas.get?_eq_none_iff`: a file has no metadata if none of the files with metadata is the same.
* `Route.Augments`: what augmentation does to a route.
* `augments_augment`: it does so at every position of a forest, once and for all.
-/

namespace FileRoutes

variable {m : PageMeta} {metas : Metas} {file : FilePath}

/-! ## Once and for all -/

/-- A bag that lies over another one already. -/
theorem Bag.extend_extend (found own : Bag) : found.extend (found.extend own) = found.extend own := by
  refine Bag.ext_get? fun name => ?_
  rw [get?_extend, get?_extend, Option.or_assoc, Option.or_self]

namespace Route

theorem augment_augment (route : Route) (m : PageMeta) :
    (route.augment m).augment m = route.augment m := by
  have name : m.name.or (m.name.or route.name) = m.name.or route.name := by
    rw [← Option.or_assoc, Option.or_self]
  have path : m.path.getD (m.path.getD route.path) = m.path.getD route.path := by
    cases m.path <;> rfl
  have props : m.props.or (m.props.or route.props) = m.props.or route.props := by
    rw [← Option.or_assoc, Option.or_self]
  have aliases : m.aliases.getD (m.aliases.getD route.aliases) = m.aliases.getD route.aliases := by
    cases m.aliases <;> rfl
  have redirect : m.redirect.or (m.redirect.or route.redirect) = m.redirect.or route.redirect := by
    rw [← Option.or_assoc, Option.or_self]
  unfold augment
  simp only [name, path, props, aliases, redirect]
  cases m.bag.isEmpty with
  | true => rfl
  | false => simp only [Bool.false_eq_true, if_false, Bag.extend_extend]

theorem augmented_augmented (metas : Metas) (route : Route) :
    (route.augmented metas).augmented metas = route.augmented metas := by
  have found := route.found?_augmented metas metas
  unfold augmented at found ⊢
  rw [found]
  cases route.found? metas with
  | none => rfl
  | some m => exact route.augment_augment m

/-- The bag of an augmented route: its own entries, and those of the page that it lacks. -/
theorem get?_bag_augment (route : Route) (m : PageMeta) (name : String) :
    (route.augment m).bag.get? name = (route.bag.get? name).or (m.bag.get? name) := by
  show (if m.bag.isEmpty then route.bag else m.bag.extend route.bag).get? name = _
  split
  · rename_i empty
    rw [Bag.eq_empty empty, Bag.get?_empty, Option.or_none]
  · rw [Bag.get?_extend]

end Route

/-- **A second augmentation changes nothing.** -/
theorem augment_augment (metas : Metas) (forest : Forest Route) :
    augment metas (augment metas forest) = augment metas forest := by
  rw [augment_eq_map, augment_eq_map, Forest.map_map]
  exact Forest.map_congr forest fun route _ => route.augmented_augmented metas

/-! ## One route -/

/-- A file has no metadata exactly if no file that is the same has any. -/
theorem Metas.get?_eq_none_iff : metas.get? file = none ↔ ∀ entry ∈ metas, ¬entry.1.Same file := by
  unfold Metas.get?
  simp [List.find?_eq_none]

/-- What augmentation makes of a route. Its file and mode stay, and so does all of it unless its file
has metadata. With metadata its bag has every entry that it had, and those of the page whose keys it did
not have. -/
structure Route.Augments (metas : Metas) (before after : Route) : Prop where
  file : after.file = before.file
  mode : after.mode = before.mode
  untouched : (∀ file ∈ before.file, ∀ entry ∈ metas, ¬entry.1.Same file) → after = before
  merged : ∀ file ∈ before.file, ∀ m ∈ metas.get? file, ∀ name,
    after.bag.get? name = (before.bag.get? name).or (m.bag.get? name)

theorem Route.augments_augmented (metas : Metas) (route : Route) :
    route.Augments metas (route.augmented metas) := by
  constructor
  · exact route.file_augmented metas
  · unfold augmented
    cases route.found? metas <;> rfl
  · intro apart
    have absent : route.found? metas = none :=
      Option.bind_eq_none_iff.2 fun file hf => Metas.get?_eq_none_iff.2 (apart file hf)
    unfold augmented
    rw [absent]
    rfl
  · intro file hf m hm name
    have found : route.found? metas = some m := Option.bind_eq_some_iff.2 ⟨file, hf, hm⟩
    unfold augmented
    rw [found]
    exact route.get?_bag_augment m name

/-! ## Forests -/

/-- **Augmentation is done after one round and touches nothing but the values of routes.** Augmenting a
forest again gives the same forest. The augmented forest has the shape of the first one, and at every
position the route of the one is what augmentation makes of the route of the other. -/
theorem augments_augment (metas : Metas) (forest : Forest Route) :
    augment metas (augment metas forest) = augment metas forest ∧
      Forest.Forall₂ (Route.Augments metas) forest (augment metas forest) :=
  ⟨augment_augment metas forest,
    Forest.forall₂_map_right forest fun route _ => route.augments_augmented metas⟩

end FileRoutes
