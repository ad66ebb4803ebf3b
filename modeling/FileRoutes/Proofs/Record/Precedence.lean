import FileRoutes.Proofs.Record.Resolve
import FileRoutes.Proofs.Route.Forest

/-!
# Precedence of values

Which value a record has for a key, at every position of a forest. Without `override` the values of
the route come first, whatever its page declares; with it those of the page, whatever the route has.

* `Metas.isDynamic`, `Metas.value?`, `Metas.bag`: what is known of the page of a file.
* `Record.Completes`, `Record.Overrides`: the fields of the record of a route, under either policy.
* `normalize_precedence`: the records of a forest, and what two runs of one policy have in common.
-/

namespace FileRoutes

/-! ## Values of pages -/

namespace Metas

/-- The key has a value in the page of a file that only the running page knows. -/
def isDynamic (metas : Metas) (file : Option FilePath) (key : MetaKey) : Bool :=
  (file.bind metas.get?).any fun m => m.isDynamic key

/-- The value of a key in the page of a file, if it is known. -/
def value? (metas : Metas) (file : Option FilePath) (key : MetaKey) : Option Json :=
  (file.bind metas.get?).bind fun m => m.value? key

/-- The bag of the page of a file; without metadata it has no entries. -/
def bag (metas : Metas) (file : Option FilePath) : Bag :=
  ((file.bind metas.get?).map PageMeta.bag).getD .empty

theorem value?_bag (metas : Metas) (file : Option FilePath) :
    metas.value? file .bag = (metas.bag file).value? := by
  unfold value? bag
  cases file.bind metas.get? <;> rfl

/-- Two spellings of one path have the same metadata. -/
theorem bind_get?_congr (metas : Metas) {a b : Option FilePath} (h : Route.sameFile a b = true) :
    a.bind metas.get? = b.bind metas.get? := by
  cases a with
  | none =>
    cases b with
    | none => rfl
    | some b => cases h
  | some a =>
    cases b with
    | none => cases h
    | some b =>
      have same : a.Same b := of_decide_eq_true h
      have alike : (fun entry : FilePath × PageMeta => decide (entry.1.Same a)) =
          fun entry => decide (entry.1.Same b) :=
        funext fun entry => decide_eq_decide.2 ⟨fun h => h.trans same, fun h => h.trans same.symm⟩
      show (metas.find? _).map _ = (metas.find? _).map _
      rw [alike]

theorem isDynamic_congr (metas : Metas) {a b : Option FilePath} (h : Route.sameFile a b = true)
    (key : MetaKey) : metas.isDynamic a key = metas.isDynamic b key := by
  unfold isDynamic
  rw [metas.bind_get?_congr h]

theorem value?_congr (metas : Metas) {a b : Option FilePath} (h : Route.sameFile a b = true)
    (key : MetaKey) : metas.value? a key = metas.value? b key := by
  unfold value?
  rw [metas.bind_get?_congr h]

end Metas

/-! ## Fields under the two policies -/

variable {metas : Metas} {route : Route} {key : MetaKey}

/-- Without `override`, the values of a record that are known already are those of its route. -/
theorem Route.static?_record (metas : Metas) (route : Route) (key : MetaKey) :
    ((route.record false metas).field? key).bind Field.static? = route.declared? key := by
  rw [Route.field?_record]
  unfold Route.field?
  cases route.declared? key with
  | some value => rfl
  | none =>
    simp only [Bool.false_eq_true, if_false]
    split <;> rfl

/-- With `override`, a key that only the running page knows is left to it. -/
theorem Route.field?_record_of_isDynamic (h : metas.isDynamic route.file key = true) :
    (route.record true metas).field? key = some (.deferred key (route.declared? key)) := by
  rw [Route.field?_record]
  exact if_pos h

/-- With `override`, another key has the value of the page laid over that of the route. -/
theorem Route.field?_record_of_not_isDynamic (h : metas.isDynamic route.file key = false) :
    (route.record true metas).field? key =
      (layOver (metas.value? route.file key) (route.declared? key) key).map .static := by
  rw [Route.field?_record]
  exact if_neg (Bool.eq_false_iff.1 h)

/-- The record of a route that its page completes: every value of the route is known, and a key that
the route has no value for is left to the page if this has one or only knows it when it runs. -/
structure Record.Completes (metas : Metas) (route : Route) (record : Record) : Prop where
  file : record.file = route.file
  own : ∀ key value, route.declared? key = some value → record.field? key = some (.static value)
  lacking : ∀ key, route.declared? key = none →
    record.field? key =
      if metas.isDynamic route.file key || (metas.value? route.file key).isSome then
        some (.deferred key (metas.value? route.file key))
      else none

theorem Route.completes_record (metas : Metas) (route : Route) :
    (route.record false metas).Completes metas route where
  file := rfl
  own key value h := by
    rw [Route.field?_record]
    unfold Route.field?
    rw [h]
    rfl
  lacking key h := by
    rw [Route.field?_record]
    unfold Route.field?
    rw [h]
    rfl

/-- The record of a route that its page overrides: a key that only the running page knows falls back
on the value of the route; of the other keys that are read by name the value of the page counts, and
that of the route where the page has none; and the bags are merged entry by entry in the same way. -/
structure Record.Overrides (metas : Metas) (route : Route) (record : Record) : Prop where
  file : record.file = route.file
  dynamic : ∀ key, metas.isDynamic route.file key = true →
    record.field? key = some (.deferred key (route.declared? key))
  named : ∀ key ∈ MetaKey.allowList, metas.isDynamic route.file key = false →
    record.field? key =
      ((metas.value? route.file key).or (route.declared? key)).map .static
  bag : metas.isDynamic route.file .bag = false →
    ∃ merged : Bag, record.field? .bag = merged.value?.map .static ∧
      ∀ name, merged.get? name = ((metas.bag route.file).get? name).or (route.bag.get? name)

theorem Route.overrides_record (metas : Metas) (route : Route) :
    (route.record true metas).Overrides metas route where
  file := rfl
  dynamic key h := Route.field?_record_of_isDynamic h
  named key hk h := by
    rw [Route.field?_record_of_not_isDynamic h]
    cases metas.value? route.file key with
    | none => rw [layOver_none, Option.none_or]
    | some value => rw [layOver_some hk, Option.some_or]
  bag h := by
    refine ⟨route.bag.extend (metas.bag route.file), ?_, fun name => Bag.get?_extend _ _ name⟩
    rw [Route.field?_record_of_not_isDynamic h, Metas.value?_bag, Route.declared?_bag,
      layOver_value?]

/-! ## Records of a forest -/

/-- With `override`, routes of one file have the same value for a key that is read by name, if their
page is known to have it. -/
theorem Route.field?_record_congr {one other : Route}
    (alike : Route.sameFile one.file other.file = true) (hk : key ∈ MetaKey.allowList) {value : Json}
    (known : metas.isDynamic one.file key = false) (found : metas.value? one.file key = some value) :
    (one.record true metas).field? key = some (.static value) ∧
      (other.record true metas).field? key = some (.static value) := by
  constructor
  · rw [(one.overrides_record metas).named key hk known, found]
    rfl
  · rw [metas.isDynamic_congr alike] at known
    rw [metas.value?_congr alike] at found
    rw [(other.overrides_record metas).named key hk known, found]
    rfl

/-- **Precedence.** Without `override` every record completes its route, so the values that are known
already do not depend on any metadata. With `override` every record is overridden by its page, so a
key that is read by name has the same value in the records of any two forests with the same shape and
files, if the page is known to have it, whatever values their routes have. All this holds at every
position of the forests. -/
theorem normalize_precedence (metas others : Metas) {forest other : Forest Route}
    (alike : Forest.Forall₂ (fun a b => Route.sameFile a.file b.file = true) forest other) :
    Forest.Forall₂ (fun route record => record.Completes metas route)
        forest (normalize false metas forest) ∧
      Forest.Forall₂ (fun a b => ∀ key, (a.field? key).bind Field.static? =
          (b.field? key).bind Field.static?)
        (normalize false metas forest) (normalize false others forest) ∧
      Forest.Forall₂ (fun route record => record.Overrides metas route)
        forest (normalize true metas forest) ∧
      Forest.Forall₂ (fun a b => ∀ key ∈ MetaKey.allowList, ∀ value,
          metas.isDynamic a.file key = false → metas.value? a.file key = some value →
            a.field? key = some (.static value) ∧ b.field? key = some (.static value))
        (normalize true metas forest) (normalize true metas other) := by
  refine ⟨?_, ?_, ?_, ?_⟩
  · exact Forest.forall₂_map_right forest fun route _ => route.completes_record metas
  · exact Forest.forall₂_map forest fun route _ key =>
      (route.static?_record metas key).trans (route.static?_record others key).symm
  · exact Forest.forall₂_map_right forest fun route _ => route.overrides_record metas
  · exact alike.map fun _ _ same key hk value known found =>
      Route.field?_record_congr same hk known found

/-- The page of a nested route has a name and a layout, and a redirect that only the running page
knows. In the other forest the route lacks the name, and its file is spelled in another way. -/
theorem normalize_precedence_nested :
    let page : PageMeta :=
      { name := some "page", bag := .ofMembers [("layout", .string "wide")],
        dynamic := .ofList [.redirect] }
    let metas : Metas := [(⟨"pages/a/b.vue"⟩, page)]
    let forest : Forest Route :=
      [.node { path := "/a" }
        [.node { path := "b", file := some ⟨"pages/a/b.vue"⟩, name := some "own" } []]]
    let other : Forest Route :=
      [.node { path := "/c" } [.node { path := "d", file := some ⟨"pages//a/b.vue"⟩ } []]]
    Forest.Forall₂ (fun a b => Route.sameFile a.file b.file = true) forest other ∧
      metas.value? (some ⟨"pages//a/b.vue"⟩) .name = some (.string "page") ∧
      metas.isDynamic (some ⟨"pages//a/b.vue"⟩) .redirect = true ∧
      Forest.Forall₂ (fun route record => record.Overrides metas route)
        forest (normalize true metas forest) ∧
      Forest.Forall₂ (fun a b => ∀ key ∈ MetaKey.allowList, ∀ value,
          metas.isDynamic a.file key = false → metas.value? a.file key = some value →
            a.field? key = some (.static value) ∧ b.field? key = some (.static value))
        (normalize true metas forest) (normalize true metas other) := by
  intro page metas forest other
  have alike : Forest.Forall₂ (fun a b => Route.sameFile a.file b.file = true) forest other :=
    ⟨⟨rfl, ⟨by decide +kernel, trivial⟩, trivial⟩, trivial⟩
  exact ⟨alike, by decide +kernel, by decide +kernel, (normalize_precedence metas [] alike).2.2⟩

end FileRoutes
