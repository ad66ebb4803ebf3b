import FileRoutes.Proofs.Page.Object
import FileRoutes.Record.Normalize

/-!
# Resolving records

With `override`, a record resolved against the object that its page declares shows the members of
that object, whatever values its route has.

* `Bag.value?`: a bag as the value of a key; `layOver_value?` says what two of them merge into.
* `Field.lookup_freeForm`: the entries of a loaded object that go to the bag.
* `Route.augmented`: a route with the values of its page, if that declares any.
* `Route.field?_record`: the fields of a record, key by key.
* `Record.Shows`: a record shows a member of the loaded object.
* `Route.shows_record`: the record of a page shows every member of the object the page declares.
-/

namespace FileRoutes

variable {m : PageMeta} {key : MetaKey} {name : String} {value : Json} {route : Route}

/-! ## Bags -/

theorem Bag.isEmpty_eq_false {bag : Bag} (h : bag.get? name = some value) : bag.isEmpty = false := by
  cases hb : bag.isEmpty with
  | false => rfl
  | true =>
    unfold Bag.isEmpty at hb
    simp [Bag.get?, List.isEmpty_iff.1 hb] at h

theorem Bag.exists_get? {bag : Bag} (h : bag.isEmpty = false) :
    ∃ name value, bag.get? name = some value := by
  obtain ⟨members, ascending⟩ := bag
  cases members with
  | nil => cases h
  | cons member rest => exact ⟨member.1, member.2, List.lookup_cons_self⟩

theorem Bag.eq_empty {bag : Bag} (h : bag.isEmpty = true) : bag = .empty := by
  refine ext_get? fun name => ?_
  cases hv : bag.get? name with
  | none => rfl
  | some value => rw [isEmpty_eq_false hv] at h; cases h

/-- A bag is made by laying members in ascending order over another one, if it has these members and
else those of the other one. -/
theorem Bag.extendWith_eq {base bag : Bag} {members : List (String × Json)}
    (ascending : members.Pairwise fun a b => a.1 < b.1)
    (h : ∀ name, (members.lookup name).or (base.get? name) = bag.get? name) :
    base.extendWith members = bag :=
  ext_get? fun name => (get?_extendWith members ascending base name).trans (h name)

theorem Bag.ofMembers_members (bag : Bag) : Bag.ofMembers bag.members = bag :=
  extendWith_eq bag.ascending fun _ => Option.or_none

/-- The bag as the value of a key; an empty bag is no value. -/
def Bag.value? (bag : Bag) : Option Json := if bag.isEmpty then none else some bag.toJson

theorem Bag.value?_of_get? {bag : Bag} (h : bag.get? name = some value) :
    bag.value? = some bag.toJson :=
  if_neg (by rw [isEmpty_eq_false h]; exact Bool.false_ne_true)

theorem PageMeta.value?_bag (m : PageMeta) : m.value? .bag = m.bag.value? := rfl

theorem Route.declared?_bag (route : Route) : route.declared? .bag = route.bag.value? := rfl

namespace Field

theorem lookup_filter (p : String → Bool) (hp : p name = true) :
    ∀ members : List (String × Json),
      (members.filter fun entry => p entry.1).lookup name = members.lookup name
  | [] => rfl
  | (k, v) :: rest => by
    have ih := lookup_filter p hp rest
    rw [Bag.lookup_cons_ite, List.filter_cons]
    by_cases hk : name = k
    · subst hk
      simp [hp]
    · cases p k with
      | false => simpa [hk] using ih
      | true => simp only [if_true, Bag.lookup_cons_ite, hk, if_false, ih]

/-- A name that no key has is looked up among the free-form entries as in the whole object. -/
theorem lookup_freeForm (h : MetaKey.allowListed? name = none) (loaded : Bag) :
    (freeForm loaded).lookup name = loaded.get? name :=
  lookup_filter (fun name => (MetaKey.allowListed? name).isNone) (by simp [h]) loaded.members

theorem pairwise_freeForm (loaded : Bag) :
    (freeForm loaded).Pairwise fun a b => a.1 < b.1 :=
  loaded.ascending.filter _

/-- A deferred bag holds every free-form member of the loaded object. -/
theorem resolve_deferred_bag (h : MetaKey.allowListed? name = none) {loaded : Bag}
    (hv : loaded.get? name = some value) (fallback : Option Json) :
    ∃ bag : Bag, (Field.deferred .bag fallback).resolve loaded = some bag.toJson ∧
      bag.get? name = some value := by
  have member : ((bagOf fallback).extendWith (freeForm loaded)).get? name = some value := by
    rw [Bag.get?_extendWith _ (pairwise_freeForm loaded), lookup_freeForm h, hv]
    rfl
  refine ⟨_, ?_, member⟩
  simp [resolve, Bag.isEmpty_eq_false member]

end Field

/-! ## Values laid over each other -/

theorem layOver_some (hk : key ∈ MetaKey.allowList) (value : Json) (declared : Option Json) :
    layOver (some value) declared key = some value := by
  have := MetaKey.ne_bag_of_mem hk
  cases key <;> first | rfl | exact absurd rfl this

theorem layOver_none (declared : Option Json) (key : MetaKey) :
    layOver none declared key = declared := by
  cases key <;> rfl

/-- **Bags are merged**: the entries of the page are laid over those of the route. -/
theorem layOver_value? (found declared : Bag) :
    layOver found.value? declared.value? .bag = (declared.extend found).value? := by
  cases hf : found.isEmpty with
  | true =>
    rw [Bag.eq_empty hf]
    exact layOver_none _ _
  | false =>
    obtain ⟨name, value, entry⟩ := Bag.exists_get? hf
    have member : (declared.extend found).get? name = some value := by
      rw [Bag.get?_extend, entry, Option.some_or]
    rw [Bag.value?_of_get? entry, Bag.value?_of_get? member]
    cases hd : declared.isEmpty with
    | true =>
      have alone : Bag.empty.extend found = found := found.ofMembers_members
      rw [Bag.eq_empty hd, alone]
      rfl
    | false =>
      obtain ⟨_, _, below⟩ := Bag.exists_get? hd
      rw [Bag.value?_of_get? below]
      show some ((Bag.ofMembers declared.members).extendWith found.members).toJson = _
      rw [Bag.ofMembers_members]
      rfl

/-- Of merged bags the entries of the page count. -/
theorem layOver_bag {bag : Bag} (h : bag.get? name = some value) (route : Route) :
    ∃ merged : Bag, layOver (some bag.toJson) (route.declared? .bag) .bag = some merged.toJson ∧
      merged.get? name = some value := by
  have member : (route.bag.extend bag).get? name = some value := by
    rw [Bag.get?_extend, h, Option.some_or]
  refine ⟨route.bag.extend bag, ?_, member⟩
  rw [← Bag.value?_of_get? h, ← Bag.value?_of_get? member, Route.declared?_bag]
  exact layOver_value? bag route.bag

/-! ## Augmented routes -/

/-- The route with the values its page declares, if it declares any. -/
def Route.augmented (metas : Metas) (route : Route) : Route :=
  ((route.found? metas).map route.augment).getD route

theorem augment_eq_map (metas : Metas) (forest : Forest Route) :
    augment metas forest = Forest.map (Route.augmented metas) forest := rfl

@[simp] theorem Route.file_augmented (metas : Metas) (route : Route) :
    (route.augmented metas).file = route.file := by
  unfold augmented
  cases route.found? metas <;> rfl

@[simp] theorem Route.found?_augmented (metas others : Metas) (route : Route) :
    (route.augmented metas).found? others = route.found? others := by
  unfold found?
  rw [file_augmented]

/-! ## Records -/

/-- A record has the field of its route for every key; the path is always there. -/
theorem Route.field?_record (override : Bool) (metas : Metas) (route : Route) (key : MetaKey) :
    (route.record override metas).field? key =
      route.field? override (route.found? metas) key := by
  cases key
  case path =>
    obtain ⟨field, there⟩ :
        ∃ field, route.field? override (route.found? metas) .path = some field := by
      unfold Route.field?
      simp only
      split
      · split
        · exact ⟨_, rfl⟩
        · simp [layOver, Route.declared?]
      · exact ⟨_, rfl⟩
    show some ((route.field? override (route.found? metas) .path).getD _) = _
    rw [there, Option.getD_some]
  all_goals rfl

/-- A record, resolved against a loaded object, has a member of it: the value of the field of the
same key, or an entry of the bag. -/
def Record.Shows (record : Record) (loaded : Bag) (name : String) (value : Json) : Prop :=
  match MetaKey.allowListed? name with
  | some key => (record.field? key).bind (·.resolve loaded) = some value
  | none => ∃ bag : Bag, (record.field? .bag).bind (·.resolve loaded) = some bag.toJson ∧
      bag.get? name = some value

/-- **What a page declares wins.** The record of a page shows every member of the declared object,
whatever the values of the route are. -/
theorem Route.shows_record {metas : Metas} (tidy : m.Tidy) (found : route.found? metas = some m)
    (h : m.toObject.get? name = some value) :
    (route.record true metas).Shows m.toObject name value := by
  have object := h
  rw [PageMeta.get?_toObject] at h
  unfold Record.Shows
  split
  · rename_i key ha
    have hk := (MetaKey.allowListed?_eq_some_iff.1 ha).1
    rw [tidy.bag_clear name key ha, ha, Option.none_or] at h
    have known : m.value? key = some value := h
    have static : m.isDynamic key = false := by
      refine Bool.eq_false_iff.2 fun hd => ?_
      rw [tidy.dynamic_clear key hk hd] at known
      cases known
    rw [Route.field?_record, found]
    simp [Route.field?, static, known, layOver_some hk, Field.resolve]
  · rename_i ha
    rw [ha, Option.bind_none, Option.or_none] at h
    rw [Route.field?_record, found]
    cases hd : m.isDynamic .bag with
    | true =>
      simp only [Route.field?, Option.any_some, hd, if_true, Option.bind_some]
      exact Field.resolve_deferred_bag ha object (route.declared? .bag)
    | false =>
      obtain ⟨merged, hl, hm⟩ := layOver_bag h route
      have known : m.value? .bag = some m.bag.toJson := by
        simp [PageMeta.value?, Bag.isEmpty_eq_false h]
      refine ⟨merged, ?_, hm⟩
      simp [Route.field?, hd, known, hl, Field.resolve]

end FileRoutes
