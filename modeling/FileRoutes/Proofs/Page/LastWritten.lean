import FileRoutes.Proofs.Page.Object

/-!
# The last property of a key

An object literal may spell one key several times. For a key that is read by name the last of these
properties decides everything: earlier values are forgotten, and so are earlier values that only the
running page knows. The free-form bag is different, since any property that cannot be seen through
leaves it open.

* `MetaKey.Takes`: the literals that a key takes, and the value it has from each;
  `MetaKey.accept?_eq_some_iff` says that these are the ones that are accepted.
* `PageMeta.Decided`: what the last property of a key decides, in three cases.
* `PageMeta.decided_ofProperties`: it does so in every object literal.
* `Property.LeavesOpen`: the properties after which the bag may have more entries than are known.
* `PageMeta.isDynamic_bag_ofProperties`: the bag is left to the running page if there is one of them.
* `lastWritten_decides`: all of this for what is extracted from a page.
-/

namespace FileRoutes

open Script

variable {key : MetaKey} {m : PageMeta} {literal value : Json}
  {parse : Dialect → String → Option Program} {call : MetaCall} {file : FilePath} {source : String}

/-! ## Values from literals -/

/-- The strings of an array are read back, and nothing else is. -/
theorem Json.strings?_eq_some_iff {texts : List String} :
    ∀ {items : List Json}, Json.strings? items = some texts ↔ items = texts.map .string
  | [] => by cases texts <;> simp [Json.strings?]
  | item :: rest => by
    cases item with
    | string text =>
      simp only [Json.strings?, Option.map_eq_some_iff, Json.strings?_eq_some_iff]
      cases texts with
      | nil => simp
      | cons first texts =>
        constructor
        · rintro ⟨others, rfl, h⟩
          obtain ⟨rfl, rfl⟩ := List.cons.inj h
          rfl
        · intro h
          rw [List.map_cons, List.cons.injEq, Json.string.injEq] at h
          exact ⟨texts, h.2, by rw [h.1]⟩
    | _ => cases texts <;> simp [Json.strings?]

namespace MetaKey

/-- A key takes a literal and has a value from it. A name and a path take strings, an alias takes a
string, which stands for the list of it, or an array of strings, and props and a redirect take any
literal. -/
inductive Takes : MetaKey → (literal value : Json) → Prop where
  | name (text : String) : Takes .name (.string text) (.string text)
  | path (text : String) : Takes .path (.string text) (.string text)
  | single (text : String) : Takes .aliases (.string text) (.ofStrings [text])
  | aliases (texts : List String) : Takes .aliases (.ofStrings texts) (.ofStrings texts)
  | props (value : Json) : Takes .props value value
  | redirect (value : Json) : Takes .redirect value value

theorem accept?_eq_some_iff : key.accept? literal = some value ↔ key.Takes literal value := by
  constructor
  · intro h
    cases key <;> cases literal <;>
      simp only [accept?, Option.some.injEq, Option.map_eq_some_iff, reduceCtorEq] at h
    case aliases.array items =>
      obtain ⟨texts, ht, rfl⟩ := h
      rw [Json.strings?_eq_some_iff.1 ht]
      exact .aliases texts
    all_goals
      subst h
      constructor
  · rintro (_ | _ | _ | texts | _ | _)
    case aliases =>
      have read : Json.strings? (texts.map .string) = some texts := Json.strings?_eq_some_iff.2 rfl
      simp [accept?, Json.ofStrings, read]
    all_goals rfl

end MetaKey

/-! ## The keys that are read by name -/

namespace PageMeta

/-- What the last property of a key decides about the key, given the value of that property. Without
such a property the key is not there at all. A literal that the key takes is its value. With anything
else the key is left to the running page. -/
structure Decided (m : PageMeta) (key : MetaKey) (last : Option Expr) : Prop where
  absent : last = none → m.value? key = none ∧ m.isDynamic key = false
  static : ∀ e ∈ last, ∀ literal ∈ e.literal?, ∀ value, key.Takes literal value →
    m.value? key = some value ∧ m.isDynamic key = false
  dynamic : ∀ e ∈ last, (∀ literal ∈ e.literal?, ∀ value, ¬key.Takes literal value) →
    m.value? key = none ∧ m.isDynamic key = true

/-- **In every object literal, the last property of a key decides about it.** -/
theorem decided_ofProperties (hk : key ∈ MetaKey.allowList) (call : MetaCall) (definition : String)
    (properties : List Property) :
    (ofProperties call definition properties).Decided key
      (Property.lastWritten? key.label properties) := by
  have known := value?_ofProperties hk call definition properties
  have left := isDynamic_ofProperties hk call definition properties
  constructor
  · intro none
    rw [known, left, none]
    exact ⟨rfl, rfl⟩
  · intro e last literal spelled value takes
    have accepted : (e.literal?.bind key.accept?) = some value :=
      Option.bind_eq_some_iff.2 ⟨literal, spelled, MetaKey.accept?_eq_some_iff.2 takes⟩
    rw [known, left, last, Option.bind_some, Option.any_some, accepted]
    exact ⟨rfl, rfl⟩
  · intro e last refused
    have none : (e.literal?.bind key.accept?) = none := by
      refine Option.bind_eq_none_iff.2 fun literal spelled => ?_
      refine Option.eq_none_iff_forall_not_mem.2 fun value accepted => ?_
      exact refused literal spelled value (MetaKey.accept?_eq_some_iff.1 accepted)
    rw [known, left, last, Option.bind_some, Option.any_some, none]
    exact ⟨rfl, rfl⟩

end PageMeta

/-! ## The bag -/

/-- The bag may have more entries than are known after the property: a spread, a key that cannot be
read off its spelling, a key that nobody asked for, or a key that is asked for without a literal as its
value. -/
inductive Script.Property.LeavesOpen (call : MetaCall) : Property → Prop where
  | spread (operand : Expr) : LeavesOpen call (.spread operand)
  | unreadable (key : Key) (value : Expr) (h : key.readable? = none) :
      LeavesOpen call (.field key value)
  | freeForm (key : Key) (value : Expr) (name : String) (h : key.readable? = some name)
      (other : MetaKey.allowListed? name = none) (unasked : name ∉ call.extraKeys) :
      LeavesOpen call (.field key value)
  | extra (key : Key) (value : Expr) (name : String) (h : key.readable? = some name)
      (other : MetaKey.allowListed? name = none) (asked : name ∈ call.extraKeys)
      (run : value.literal? = none) : LeavesOpen call (.field key value)

/-- A key that can be read leaves the bag open if it is not read by name, unless it is asked for and has
a literal as its value. -/
theorem Script.Property.leavesOpen_field_iff {key : Key} {value : Expr} {name : String}
    (hr : key.readable? = some name) :
    (Property.field key value).LeavesOpen call ↔ MetaKey.allowListed? name = none ∧
      ¬(call.extraKeys.contains name = true ∧ value.literal?.isSome = true) := by
  constructor
  · rintro (_ | ⟨_, _, h⟩ | ⟨_, _, name', h, other, unasked⟩ | ⟨_, _, name', h, other, _, run⟩)
    · simp [hr] at h
    · obtain rfl := Option.some.inj (hr.symm.trans h)
      simp [other, unasked]
    · obtain rfl := Option.some.inj (hr.symm.trans h)
      simp [other, run]
  · rintro ⟨other, h⟩
    by_cases asked : name ∈ call.extraKeys
    · exact .extra key value name hr other asked (by simpa [asked] using h)
    · exact .freeForm key value name hr other asked

namespace PageMeta

/-- A key that is read by name decides nothing about the bag. -/
theorem isDynamic_bag_readAllowed (hk : key ∈ MetaKey.allowList) (m : PageMeta)
    (literal : Option Json) : (m.readAllowed key literal).isDynamic .bag = m.isDynamic .bag := by
  rw [(readAllowed_spec hk m literal).2.1 .bag, if_neg (MetaKey.ne_bag_of_mem hk).symm]

theorem isDynamic_bag_readOther (m : PageMeta) (name : String) (literal : Option Json)
    (extra : Bool) :
    (m.readOther name literal extra).isDynamic .bag = true ↔
      m.isDynamic .bag = true ∨ ¬(extra = true ∧ literal.isSome = true) := by
  cases literal <;> cases extra <;> simp [readOther, isDynamic]

/-- **One property, seen by the bag**: once the bag is open it stays so. -/
theorem isDynamic_bag_readProperty (call : MetaCall) (m : PageMeta) (p : Property) :
    (m.readProperty call p).isDynamic .bag = true ↔
      m.isDynamic .bag = true ∨ p.LeavesOpen call := by
  have opened : ({ m with dynamic := m.dynamic.insert .bag } : PageMeta).isDynamic .bag = true := by
    simp [isDynamic]
  cases p with
  | spread operand => exact iff_of_true opened (.inr (.spread operand))
  | field key value =>
    cases hr : key.readable? with
    | none =>
      simp only [readProperty, hr]
      exact iff_of_true opened (.inr (.unreadable key value hr))
    | some name =>
      rw [Script.Property.leavesOpen_field_iff hr]
      cases ha : MetaKey.allowListed? name with
      | some k =>
        have allowed := (MetaKey.allowListed?_eq_some_iff.1 ha).1
        simp only [readProperty, hr, ha]
        rw [isDynamic_bag_readAllowed allowed]
        simp
      | none =>
        simp only [readProperty, hr, ha]
        rw [isDynamic_bag_readOther]
        simp

/-- **The bag is left to the running page exactly if some property leaves it open.** -/
theorem isDynamic_bag_ofProperties (call : MetaCall) (definition : String)
    (properties : List Property) :
    (ofProperties call definition properties).isDynamic .bag = true ↔
      ∃ p ∈ properties, p.LeavesOpen call := by
  have run : ∀ (properties : List Property) (m : PageMeta),
      (properties.foldl (readProperty call) m).isDynamic .bag = true ↔
        m.isDynamic .bag = true ∨ ∃ p ∈ properties, p.LeavesOpen call := by
    intro properties
    induction properties with
    | nil => simp
    | cons p rest ih =>
      intro m
      rw [List.foldl_cons, ih, isDynamic_bag_readProperty, or_assoc]
      simp only [List.mem_cons, exists_eq_or_imp]
  unfold ofProperties
  rw [run]
  exact or_iff_right Bool.false_ne_true

end PageMeta

/-! ## Pages -/

/-- **Of the properties that a page spells with one key, the last alone decides.** Let extraction
succeed for the object literal that a page gives to the reserved call, whatever reads the scripts. A key
that is read by name is not there without a property of its name, has the value of the last one if that
is a literal which the key takes, and is left to the running page otherwise; so it never has a value and
is left to the running page, too. The bag is left to the running page if and only if there is a spread,
a key that cannot be read, a key that is neither read by name nor asked for, or one that is asked for
without a literal as its value. -/
theorem lastWritten_decides (h : extractWith parse call file source = .ok (some m)) :
    ∃ properties, literalOf? parse call file source = some properties ∧
      (∀ key ∈ MetaKey.allowList, m.Decided key (Property.lastWritten? key.label properties)) ∧
      (∀ key ∈ MetaKey.allowList, m.isDynamic key = true → m.value? key = none) ∧
      (m.isDynamic .bag = true ↔ ∃ p ∈ properties, p.LeavesOpen call) := by
  obtain ⟨definition, properties, hl, rfl⟩ := extractWith_ok_some h
  refine ⟨properties, hl, ?_, ?_, ?_⟩
  · intro key hk
    exact PageMeta.decided_ofProperties hk call definition properties
  · exact (PageMeta.tidy_ofProperties call definition properties).dynamic_clear
  · exact PageMeta.isDynamic_bag_ofProperties call definition properties

/-- A name that is computed first and spelled out later is known, an alias with a number in it is not,
and a layout that nobody asked for leaves the bag open. -/
theorem lastWritten_decides_overwritten :
    let page := "definePageMeta(\x7b name: f(), alias: '/x', layout: 1, name: 'a', alias: ['/b', 2] \x7d)"
    ∃ m, extractWith Script.parse {} ⟨"page.ts"⟩ page = .ok (some m) ∧
      m.value? .name = some (.string "a") ∧ m.isDynamic .aliases = true ∧
      ∃ properties, literalOf? Script.parse {} ⟨"page.ts"⟩ page = some properties ∧
        (∀ key ∈ MetaKey.allowList, m.Decided key (Property.lastWritten? key.label properties)) ∧
        (∀ key ∈ MetaKey.allowList, m.isDynamic key = true → m.value? key = none) ∧
        (m.isDynamic .bag = true ↔ ∃ p ∈ properties, p.LeavesOpen {}) := by
  intro page
  have reported : (extractWith Script.parse {} ⟨"page.ts"⟩ page).toOption.join.any fun m =>
      m.value? .name = some (.string "a") ∧ m.isDynamic .aliases = true := by decide +kernel
  obtain ⟨m, hx, known⟩ := exists_of_extractWith reported
  obtain ⟨name, aliases⟩ := of_decide_eq_true known
  exact ⟨m, hx, name, aliases, lastWritten_decides hx⟩

end FileRoutes
