import FileRoutes.Proofs.Record.Resolve
import FileRoutes.Proofs.Route.Nodes

/-!
# Override policies

Whether pages override their routes or only fill in what routes lack makes no difference to the
resolved records, as long as nobody edits the routes: the routes of a build have no values but what
their pages declare, their names and their paths.

* `Route.Holds`: a route holds what its page declares. `Route.holds_augment` says that augmentation
  sees to it.
* `Route.resolve?_field?_own`, `Route.resolve?_field?_bag`: the field of a key, resolved, is the same
  under both policies.
* `Record.resolve?`, `Metas.declared`: the value of a field, and the object that a page declares.
* `Metas.Extracted`: the metas come from extraction.
* `forall₂_normalize_policies`: the records of the two policies agree, node by node.
-/

namespace FileRoutes

variable {m : PageMeta} {metas : Metas} {key : MetaKey} {route : Route}

/-! ## Declared objects -/

theorem PageMeta.bagOf_value?_bag (m : PageMeta) : Field.bagOf (m.value? .bag) = m.bag := by
  rw [PageMeta.value?_bag]
  unfold Bag.value?
  split
  · rename_i empty
    exact (Bag.eq_empty empty).symm
  · exact m.bag.ofMembers_members

/-- The bag of a page laid over itself. -/
theorem layOver_value?_bag (m : PageMeta) :
    layOver (m.value? .bag) (m.value? .bag) .bag = m.value? .bag := by
  have again : m.bag.extend m.bag = m.bag :=
    Bag.extendWith_eq m.bag.ascending fun _ => Option.or_self
  rw [PageMeta.value?_bag, layOver_value?, again]

/-- A deferred field shows its fallback if the module has nothing else. -/
theorem Field.resolve_deferred {loaded : Bag} {fallback : Option Json} (hk : key ≠ .bag)
    (h : loaded.get? key.label = none ∨ loaded.get? key.label = fallback) :
    (Field.deferred key fallback).resolve loaded = fallback := by
  cases hv : loaded.get? key.label with
  | none =>
    cases key with
    | bag => exact absurd rfl hk
    | _ => simp only [resolve, hv]
  | some value =>
    have same : fallback = some value := by
      rcases h with h | h
      · rw [hv] at h
        cases h
      · exact h.symm.trans hv
    subst same
    cases key with
    | bag => exact absurd rfl hk
    | _ =>
      simp only [resolve, hv]
      cases value <;> rfl

namespace PageMeta.Tidy

/-- The free-form entries of the declared object are those of the bag. -/
theorem lookup_freeForm (tidy : m.Tidy) (name : String) :
    (Field.freeForm m.toObject).lookup name = m.bag.get? name := by
  cases ha : MetaKey.allowListed? name with
  | none => rw [Field.lookup_freeForm ha, get?_toObject_of_freeForm ha]
  | some key =>
    rw [tidy.bag_clear name key ha, List.lookup_eq_none_iff]
    intro entry he
    have free : (MetaKey.allowListed? entry.1).isNone = true := (List.mem_filter.1 he).2
    refine bne_iff_ne.2 fun same => ?_
    rw [← same, ha] at free
    cases free

/-- The free-form entries of the declared object, laid over nothing or over the bag, are the bag. -/
theorem extendWith_freeForm (tidy : m.Tidy) {base : Bag} (h : base = .empty ∨ base = m.bag) :
    base.extendWith (Field.freeForm m.toObject) = m.bag := by
  refine Bag.extendWith_eq (Field.pairwise_freeForm _) fun name => ?_
  rw [tidy.lookup_freeForm]
  rcases h with rfl | rfl
  · exact Option.or_none
  · exact Option.or_self

/-- A deferred bag, resolved against the declared object, is the bag of the page. -/
theorem resolve_deferred_bag (tidy : m.Tidy) {fallback : Option Json}
    (h : fallback = none ∨ fallback = m.value? .bag) :
    (Field.deferred .bag fallback).resolve m.toObject = m.value? .bag := by
  have base : Field.bagOf fallback = .empty ∨ Field.bagOf fallback = m.bag := by
    rcases h with rfl | rfl
    · exact Or.inl rfl
    · exact Or.inr m.bagOf_value?_bag
  unfold Field.resolve
  simp only [tidy.extendWith_freeForm base]
  rfl

end PageMeta.Tidy

/-! ## Routes with the values of their pages -/

/-- The route holds what its page declares: a value that both have for a key is the same, and so are
the bags. -/
structure Route.Holds (route : Route) (m : PageMeta) : Prop where
  value : ∀ key ∈ MetaKey.allowList, ∀ {found declared}, m.value? key = some found →
    route.declared? key = some declared → found = declared
  bag : route.bag = m.bag

namespace Route

/-- **Augmentation makes a route hold what its page declares**, if it has no bag of its own. An empty
list of aliases is a value of the page, but not of the route. -/
theorem holds_augment (h : route.bag = .empty) : (route.augment m).Holds m := by
  constructor
  · intro key hk found declared hv hd
    have := MetaKey.ne_bag_of_mem hk
    cases key with
    | bag => exact absurd rfl this
    | name =>
      obtain ⟨text, hn, rfl⟩ := Option.map_eq_some_iff.1 hv
      simpa [declared?, augment, hn] using hd
    | path =>
      obtain ⟨text, hp, rfl⟩ := Option.map_eq_some_iff.1 hv
      simpa [declared?, augment, hp] using hd
    | props =>
      have hp : m.props = some found := hv
      simpa [declared?, augment, hp] using hd
    | redirect =>
      have hr : m.redirect = some found := hv
      simpa [declared?, augment, hr] using hd
    | aliases =>
      obtain ⟨aliases, ha, rfl⟩ := Option.map_eq_some_iff.1 hv
      simp only [declared?, augment, ha, Option.getD_some] at hd
      split at hd
      · cases hd
      · exact Option.some.inj hd
  · show (if m.bag.isEmpty then route.bag else m.bag.extend route.bag) = m.bag
    rw [h]
    split
    · rename_i empty
      exact (Bag.eq_empty empty).symm
    · rfl

/-- **The field of a key that is read by name resolves to the same under both policies**: a value that
the page has is that of the route, or the route has none and asks the page for it. -/
theorem resolve?_field?_own (tidy : m.Tidy) (holds : route.Holds m) (hk : key ∈ MetaKey.allowList) :
    (route.field? true (some m) key).bind (·.resolve m.toObject) =
      (route.field? false (some m) key).bind (·.resolve m.toObject) := by
  have loaded := tidy.get?_toObject_label hk
  have named := MetaKey.ne_bag_of_mem hk
  unfold field?
  simp only [Option.any_some, Option.bind_some, if_true, Bool.false_eq_true, if_false]
  cases hd : m.isDynamic key with
  | true =>
    -- the module has nothing for the key, so only the route's own value counts
    have unknown := tidy.dynamic_clear key hk hd
    rw [unknown] at loaded ⊢
    simp only [if_true, Option.bind_some, Field.resolve_deferred named (Or.inl loaded)]
    cases hc : route.declared? key with
    | none => simp [Field.resolve_deferred named (Or.inl loaded)]
    | some declared => rfl
  | false =>
    simp only [Bool.false_eq_true, if_false, Bool.false_or]
    cases hv : m.value? key with
    | none =>
      rw [layOver_none]
      cases hc : route.declared? key with
      | none => rfl
      | some declared => rfl
    | some found =>
      rw [layOver_some hk]
      cases hc : route.declared? key with
      | none =>
        exact (Field.resolve_deferred named (Or.inr (loaded.trans hv))).symm
      | some declared =>
        rw [holds.value key hk hv hc]
        rfl

/-- **The bag resolves to the same under both policies**: to that of the page. -/
theorem resolve?_field?_bag (tidy : m.Tidy) (holds : route.Holds m) (override : Bool) :
    (route.field? override (some m) .bag).bind (·.resolve m.toObject) = m.value? .bag := by
  have own : route.declared? .bag = m.value? .bag := by
    unfold declared?
    rw [holds.bag]
    rfl
  unfold field?
  simp only [Option.any_some, Option.bind_some, own]
  cases override with
  | true =>
    simp only [if_true]
    split
    · exact tidy.resolve_deferred_bag (Or.inr rfl)
    · -- the bag of the route is that of the page, so merging them changes nothing
      rw [layOver_value?_bag]
      cases m.value? .bag <;> rfl
  | false =>
    simp only [Bool.false_eq_true, if_false]
    cases hv : m.value? .bag with
    | some bag => rfl
    | none =>
      simp only [Option.isSome_none, Bool.or_false]
      split
      · exact (tidy.resolve_deferred_bag (Or.inl rfl)).trans hv
      · rfl

/-- The fields of a route without metadata are its own values, under both policies. -/
theorem field?_none (override : Bool) (route : Route) (key : MetaKey) :
    route.field? override none key = (route.declared? key).map .static := by
  unfold field?
  simp only [Option.any_none, Option.bind_none, layOver_none]
  cases override with
  | true => rfl
  | false => cases route.declared? key <;> rfl

end Route

/-! ## Records -/

/-- The metas come from extraction, whatever reads the scripts. -/
def Metas.Extracted (metas : Metas) : Prop :=
  ∀ entry ∈ metas, ∃ parse call file source,
    extractWith parse call file source = .ok (some entry.2)

/-- The known part of the object that the page of a route declares; without metadata it has no
members. -/
def Metas.declared (metas : Metas) (file : Option FilePath) : Bag :=
  ((file.bind metas.get?).map PageMeta.toObject).getD .empty

/-- The value of a record for a key, given the object its module loaded. -/
def Record.resolve? (record : Record) (loaded : Bag) (key : MetaKey) : Option Json :=
  (record.field? key).bind (·.resolve loaded)

theorem Metas.Extracted.tidy (h : metas.Extracted) {file : FilePath} (found : metas.get? file = some m) :
    m.Tidy := by
  obtain ⟨entry, he, rfl⟩ := Option.map_eq_some_iff.1 found
  obtain ⟨parse, call, file, source, hx⟩ := h entry (List.mem_of_find?_eq_some he)
  exact tidy_of_extractWith hx

/-- The record of a built route with the values of its page resolves to the same under both policies. -/
theorem Route.resolve?_record (extracted : metas.Extracted) (plain : route.Plain) (key : MetaKey) :
    ((route.augmented metas).record true metas).resolve? (metas.declared route.file) key =
      ((route.augmented metas).record false metas).resolve? (metas.declared route.file) key := by
  unfold Record.resolve?
  rw [field?_record, field?_record, found?_augmented]
  unfold augmented
  cases hm : route.found? metas with
  | none => rw [field?_none, field?_none]
  | some m =>
    obtain ⟨path, -, hp⟩ := Option.bind_eq_some_iff.1 hm
    have tidy := extracted.tidy hp
    have holds := holds_augment (m := m) plain.bag
    have declared : metas.declared route.file = m.toObject := by
      unfold Metas.declared
      rw [show route.file.bind metas.get? = some m from hm]
      rfl
    rw [declared, Option.map_some, Option.getD_some]
    by_cases hk : key ∈ MetaKey.allowList
    · exact resolve?_field?_own tidy holds hk
    · have bag : key = .bag := by
        cases key <;> simp [MetaKey.allowList] at hk ⊢
      rw [bag, resolve?_field?_bag tidy holds, resolve?_field?_bag tidy holds]

/-- **The two override policies agree once resolved**, unless the routes are edited. Bring the routes
of a build together with metas that come from extraction, and make their records under both policies.
The records of a route, resolved against the object that its page declares, have the same value for
every key or both none, also where a field is known under one policy and left to the module under the
other. -/
theorem forall₂_normalize_policies (extracted : metas.Extracted) (serverComponents : Bool)
    (pages : List PageFile) :
    let routes := augment metas (buildForest serverComponents pages).1
    Forest.Forall₂
      (fun overriding completing => overriding.file = completing.file ∧
        ∀ key, overriding.resolve? (metas.declared overriding.file) key =
          completing.resolve? (metas.declared overriding.file) key)
      (normalize true metas routes) (normalize false metas routes) := by
  intro routes
  refine Forest.forall₂_map routes fun own hown => ⟨rfl, fun key => ?_⟩
  have augmented : own ∈ Forest.preorder (augment metas (buildForest serverComponents pages).1) := hown
  rw [augment_eq_map, Forest.preorder_map] at augmented
  obtain ⟨route, hr, rfl⟩ := List.mem_map.1 augmented
  have resolved := Route.resolve?_record extracted (plain_buildForest serverComponents pages route hr) key
  rw [← Route.file_augmented metas route] at resolved
  exact resolved

/-- A page with a name that only the running page knows, no aliases, `null` props and a layout. -/
theorem forall₂_normalize_policies_mixed :
    let text := "definePageMeta(\x7b name: title(), alias: [], props: null, layout: 'wide' \x7d)"
    ∃ m, extract {} ⟨"a.ts"⟩ text = .ok (some m) ∧
      (m.isDynamic .name = true ∧ m.aliases = some [] ∧ m.props = some .null ∧
        m.bag.get? "layout" = some (.string "wide")) ∧
      let metas : Metas := [(⟨"a.ts"⟩, m)]
      let routes := augment metas (buildForest true [⟨"a.ts", ⟨"a.ts"⟩⟩]).1
      metas.Extracted ∧
        Forest.Forall₂
          (fun overriding completing => overriding.file = completing.file ∧
            ∀ key, overriding.resolve? (metas.declared overriding.file) key =
              completing.resolve? (metas.declared overriding.file) key)
          (normalize true metas routes) (normalize false metas routes) := by
  intro text
  have known : (extract {} ⟨"a.ts"⟩ text).toOption.join.any (fun m =>
      decide (m.isDynamic .name = true ∧ m.aliases = some [] ∧ m.props = some .null ∧
        m.bag.get? "layout" = some (.string "wide"))) = true := by decide +kernel
  obtain ⟨m, hx, shape⟩ := exists_of_extractWith known
  have extracted : Metas.Extracted [(⟨"a.ts"⟩, m)] := by
    intro entry he
    rw [List.mem_singleton.1 he]
    exact ⟨Script.parse, {}, ⟨"a.ts"⟩, text, hx⟩
  exact ⟨m, hx, of_decide_eq_true shape, extracted, forall₂_normalize_policies extracted true _⟩

end FileRoutes
