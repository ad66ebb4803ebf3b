import FileRoutes.Proofs.Page.LastLiteral
import FileRoutes.Proofs.Record.Resolve

/-!
# Metadata restated

The known part of the object that a page declares can be written down as an object literal again.
Extracting that literal gives the metadata once more, without the keys that only the running page
knows.

* `Expr.Spells`, `Property.SpellAll`: a literal spells out a value, and the properties of an object
  literal spell out members. `Expr.Spells.literal?` says that the literal has the value.
* `Property.exists_bag_of_literals?`: the members of an object literal are the last literals of their
  names.
* `Expr.suspends_of_literal?`: literals do not suspend.
* `Json.Spellable`: a value can be spelled out, as the values of literals can, by
  `Expr.spellable_of_literal?`.
* `PageMeta.Restates`: metadata that says the same with every key known. `PageMeta.Tidy.restates` says
  that an object literal with the members of the declared object has such metadata.
* `extractWith_restated`: the same for pages.
-/

namespace FileRoutes

open Script

variable {name : String} {value literal : Json} {e : Expr} {properties : List Property}
  {members : List (String × Json)}

/-! ## Spellings -/

namespace Script

mutual

/-- A literal spells out a value. The members of an object stand in the order of the object, each key
once. -/
inductive Expr.Spells : Expr → Json → Prop where
  | null : Expr.Spells .null .null
  | boolean (value : Bool) : Expr.Spells (.boolean value) (.bool value)
  | number (magnitude : Binary64) (n : Number) :
    Number.ofMagnitude? magnitude = some n → Expr.Spells (.number magnitude) (.number n)
  | string (text : String) : Expr.Spells (.string text) (.string text)
  | array (elements : List Expr) (items : List Json) :
    Expr.SpellAll elements items → Expr.Spells (.array elements) (.array items)
  | object (span : Span) (properties : List Property) (bag : Bag) :
    Property.SpellAll properties bag.members → Expr.Spells (.object span properties) bag.toJson

/-- The elements of an array spell out items. -/
inductive Expr.SpellAll : List Expr → List Json → Prop where
  | nil : Expr.SpellAll [] []
  | cons (e : Expr) (rest : List Expr) (value : Json) (items : List Json) :
    Expr.Spells e value → Expr.SpellAll rest items → Expr.SpellAll (e :: rest) (value :: items)

/-- The properties of an object literal spell out members, in order. -/
inductive Property.SpellAll : List Property → List (String × Json) → Prop where
  | nil : Property.SpellAll [] []
  | cons (key : Key) (e : Expr) (rest : List Property) (name : String) (value : Json)
    (members : List (String × Json)) :
    key.readable? = some name → Expr.Spells e value → Property.SpellAll rest members →
      Property.SpellAll (.field key e :: rest) ((name, value) :: members)

end

mutual

/-- **What a literal spells out is its value.** -/
theorem Expr.Spells.literal? : ∀ {e : Expr} {value : Json}, e.Spells value → e.literal? = some value
  | .array elements, value, h => by
    cases h with
    | array _ items spelled => rw [Expr.literal?, spelled.literals?, Option.map_some]
  | .object span properties, value, h => by
    cases h with
    | object _ _ bag spelled =>
      have read : Property.literals? [] properties = some (Bag.ofMembers bag.members).members :=
        spelled.literals? .empty
      rw [Expr.literal?, read, bag.ofMembers_members, Option.map_some]
      rfl
  | .number magnitude, value, h => by
    cases h with
    | number _ n stands => rw [Expr.literal?, stands, Option.map_some]
  | .null, _, .null | .boolean _, _, .boolean _ | .string _, _, .string _ => rfl

theorem Expr.SpellAll.literals? :
    ∀ {elements : List Expr} {items : List Json},
      Expr.SpellAll elements items → Expr.literals? elements = some items
  | [], _, .nil => rfl
  | e :: rest, _, h => by
    cases h with
    | cons _ _ value items spelled others => rw [Expr.literals?, spelled.literal?, others.literals?]

/-- The members that are spelled out are laid over the members already known. -/
theorem Property.SpellAll.literals? :
    ∀ {properties : List Property} {members : List (String × Json)},
      Property.SpellAll properties members → ∀ known : Bag,
        Property.literals? known.members properties = some (known.extendWith members).members
  | [], _, .nil, known => rfl
  | .field key e :: rest, _, h, known => by
    cases h with
    | cons _ _ _ name value members readable spelled others =>
      simp only [Property.literals?, readable, spelled.literal?]
      exact others.literals? (known.insert name value)

end

theorem Property.SpellAll.literals?_members {bag : Bag}
    (h : Property.SpellAll properties bag.members) :
    Property.literals? [] properties = some bag.members := by
  have value := (Expr.Spells.object ⟨0, 0⟩ properties bag h).literal?
  obtain ⟨members, read, same⟩ := Option.map_eq_some_iff.1 value
  rw [read, Json.object.inj same]

/-! ## Values of literals -/

theorem Expr.literals?_cons_eq_some_iff {rest : List Expr} {values : List Json} :
    Expr.literals? (e :: rest) = some values ↔
      ∃ value others, e.literal? = some value ∧ Expr.literals? rest = some others ∧
        values = value :: others := by
  rw [Expr.literals?]
  cases e.literal? <;> cases Expr.literals? rest <;> simp [eq_comm]

/-- An object literal has a value if its first property has a key that can be read and a literal as its
value, and so have the others. -/
theorem Property.literals?_cons_eq_some_iff {known : List (String × Json)} {p : Property}
    {rest : List Property} :
    Property.literals? known (p :: rest) = some members ↔
      ∃ key e name value, p = .field key e ∧ key.readable? = some name ∧ e.literal? = some value ∧
        Property.literals? (Json.insertMember name value known) rest = some members := by
  cases p with
  | spread operand => simp [Property.literals?]
  | field key e =>
    rw [Property.literals?]
    constructor
    · intro h
      split at h
      · rename_i name value hk he
        exact ⟨key, e, name, value, rfl, hk, he, h⟩
      · cases h
    · rintro ⟨_, _, name, value, ⟨⟩, hk, he, h⟩
      rw [hk, he]
      exact h

/-- **The members of an object literal** are the last literals of their names. -/
theorem Property.exists_bag_of_literals? (h : Property.literals? [] properties = some members) :
    ∃ bag : Bag, bag.members = members ∧
      ∀ name, Property.lastLiteral? name properties = bag.get? name := by
  have run : ∀ (properties : List Property) (known : Bag),
      Property.literals? known.members properties = some members → ∃ bag : Bag, bag.members = members ∧
        ∀ name, bag.get? name = (Property.lastLiteral? name properties).or (known.get? name) := by
    intro properties
    induction properties with
    | nil => exact fun known h => ⟨known, Option.some.inj h, fun _ => rfl⟩
    | cons p rest ih =>
      intro known h
      obtain ⟨key, e, name, value, rfl, hk, he, hr⟩ := literals?_cons_eq_some_iff.1 h
      obtain ⟨bag, hb, found⟩ := ih (known.insert name value) hr
      refine ⟨bag, hb, fun other => ?_⟩
      rw [found, Bag.get?_insert, Property.lastLiteral?_cons, Option.or_assoc, Property.written?, hk]
      by_cases same : other = name
      · subst same
        simp [he]
      · simp [same, Ne.symm same]
  obtain ⟨bag, hb, found⟩ := run properties .empty h
  exact ⟨bag, hb, fun name => ((found name).trans Option.or_none).symm⟩

theorem Property.lastLiteral?_of_literals? {bag : Bag}
    (h : Property.literals? [] properties = some bag.members) (name : String) :
    Property.lastLiteral? name properties = bag.get? name := by
  obtain ⟨same, hm, found⟩ := Property.exists_bag_of_literals? h
  rw [found, Bag.get?, Bag.get?, hm]

/-- In an object literal with a value every property has a key that can be read and a literal as its
value. -/
theorem Property.forall_mem_of_literals? :
    ∀ {properties : List Property} {known : List (String × Json)},
      Property.literals? known properties = some members →
        ∀ p ∈ properties, ∃ key e name value, p = .field key e ∧ key.readable? = some name ∧
          e.literal? = some value
  | [], _, _ => nofun
  | p :: rest, known, h => by
    obtain ⟨key, e, name, value, rfl, hk, he, hr⟩ := literals?_cons_eq_some_iff.1 h
    exact List.forall_mem_cons.2
      ⟨⟨key, e, name, value, rfl, hk, he⟩, Property.forall_mem_of_literals? hr⟩

/-- The last property of a name has a literal as its value, which is the member of the name. -/
theorem Property.literal?_of_lastWritten? {bag : Bag}
    (h : Property.literals? [] properties = some bag.members)
    (written : Property.lastWritten? name properties = some e) :
    ∃ value, e.literal? = some value ∧ bag.get? name = some value := by
  obtain ⟨p, hp, hw⟩ := Property.exists_of_lastWritten? written
  obtain ⟨key, _, _, value, rfl, -, he⟩ := Property.forall_mem_of_literals? h p hp
  obtain ⟨_, ⟨⟩, -⟩ := Property.written?_eq_some_iff.1 hw
  refine ⟨value, he, ?_⟩
  rw [← Property.lastLiteral?_of_literals? h, Property.lastLiteral?_of_lastWritten? he written]

/-- A name that no property is spelled with is the name of no member. -/
theorem Property.get?_of_unwritten {bag : Bag}
    (h : Property.literals? [] properties = some bag.members)
    (unwritten : Property.lastWritten? name properties = none) : bag.get? name = none := by
  rw [← Property.lastLiteral?_of_literals? h, Property.lastLiteral?_of_unwritten unwritten]

/-! ## Suspension -/

theorem Key.suspends_of_readable? {key : Key} (h : key.readable? = some name) : key.suspends = false := by
  unfold Key.readable? at h
  split at h <;> first | rfl | cases h

mutual

/-- **Literals do not suspend.** -/
theorem Expr.suspends_of_literal? :
    ∀ {e : Expr} {value : Json}, e.literal? = some value → e.suspends = false
  | .string _, _, _ | .boolean _, _, _ | .null, _, _ | .number _, _, _ => rfl
  | .array elements, _, h => by
    obtain ⟨values, hv, -⟩ := Option.map_eq_some_iff.1 h
    exact Expr.anySuspends_of_literals? hv
  | .object _ properties, _, h => by
    obtain ⟨members, hm, -⟩ := Option.map_eq_some_iff.1 h
    exact Property.anySuspends_of_literals? hm
  | .parenthesized operand, _, h => by
    rw [Expr.literal?] at h
    rw [Expr.suspends, Expr.suspends_of_literal? h]

theorem Expr.anySuspends_of_literals? :
    ∀ {elements : List Expr} {values : List Json},
      Expr.literals? elements = some values → Expr.anySuspends elements = false
  | [], _, _ => rfl
  | e :: rest, _, h => by
    obtain ⟨value, others, he, hr, -⟩ := Expr.literals?_cons_eq_some_iff.1 h
    rw [Expr.anySuspends, Expr.suspends_of_literal? he, Expr.anySuspends_of_literals? hr,
      Bool.or_false]

theorem Property.anySuspends_of_literals? :
    ∀ {properties : List Property} {known members : List (String × Json)},
      Property.literals? known properties = some members → Property.anySuspends properties = false
  | [], _, _, _ => rfl
  | .spread operand :: rest, _, _, h => by cases h
  | .field key e :: rest, known, members, h => by
    obtain ⟨_, _, name, value, ⟨⟩, hk, he, hr⟩ := Property.literals?_cons_eq_some_iff.1 h
    rw [Property.anySuspends, Property.suspends, Key.suspends_of_readable? hk,
      Expr.suspends_of_literal? he, Property.anySuspends_of_literals? hr]
    rfl

end

end Script

/-! ## Values that can be spelled out -/

/-- There is a literal that spells out the value. -/
def Json.Spellable (value : Json) : Prop := ∃ e : Expr, e.Spells value

/-- Members can be spelled out if their values can. -/
theorem Script.Property.exists_spellAll :
    ∀ {members : List (String × Json)}, members.Pairwise (fun a b => a.1 < b.1) →
      (∀ name value, members.lookup name = some value → value.Spellable) →
        ∃ properties, Property.SpellAll properties members
  | [], _, _ => ⟨[], .nil⟩
  | (key, value) :: rest, ascending, spellable => by
    obtain ⟨above, further⟩ := List.pairwise_cons.1 ascending
    obtain ⟨e, spelled⟩ := spellable key value List.lookup_cons_self
    obtain ⟨properties, others⟩ := Property.exists_spellAll further fun name later found => by
      refine spellable name later ?_
      rw [Bag.lookup_cons_ite, if_neg, found]
      rintro rfl
      rw [Bag.lookup_eq_none above] at found
      cases found
    exact ⟨_, .cons (.string key) e properties key value rest rfl spelled others⟩

theorem Json.spellable_ofStrings : ∀ texts : List String, (Json.ofStrings texts).Spellable := by
  have items (texts : List String) : ∃ elements, Expr.SpellAll elements (texts.map .string) := by
    induction texts with
    | nil => exact ⟨[], .nil⟩
    | cons text rest ih =>
      obtain ⟨elements, others⟩ := ih
      exact ⟨_, .cons _ _ _ _ (.string text) others⟩
  intro texts
  obtain ⟨elements, spelled⟩ := items texts
  exact ⟨_, .array elements _ spelled⟩

/-- A value that a key takes from a literal can be spelled out if the literal can. -/
theorem MetaKey.Takes.spellable {key : MetaKey} (takes : key.Takes literal value)
    (h : literal.Spellable) : value.Spellable := by
  cases takes with
  | single text => exact Json.spellable_ofStrings [text]
  | _ => exact h

mutual

/-- **The value of a literal can be spelled out**, with every key written once. -/
theorem Script.Expr.spellable_of_literal? :
    ∀ {e : Expr} {value : Json}, e.literal? = some value → value.Spellable
  | .string text, _, rfl => ⟨_, .string text⟩
  | .boolean value, _, rfl => ⟨_, .boolean value⟩
  | .null, _, rfl => ⟨_, .null⟩
  | .number magnitude, _, h => by
    obtain ⟨n, stands, rfl⟩ := Option.map_eq_some_iff.1 h
    exact ⟨_, .number magnitude n stands⟩
  | .array elements, _, h => by
    obtain ⟨values, hv, rfl⟩ := Option.map_eq_some_iff.1 h
    obtain ⟨spellings, spelled⟩ := Expr.exists_spellAll_of_literals? hv
    exact ⟨_, .array spellings values spelled⟩
  | .object span properties, _, h => by
    obtain ⟨members, hm, rfl⟩ := Option.map_eq_some_iff.1 h
    -- of several properties with one name the last one's value is spelled out
    obtain ⟨bag, rfl, found⟩ := Property.exists_bag_of_literals? hm
    obtain ⟨spellings, spelled⟩ := Property.exists_spellAll bag.ascending fun name value hv =>
      Property.spellable_of_lastLiteral? ((found name).trans hv)
    exact ⟨_, .object span spellings bag spelled⟩
  | .parenthesized operand, value, h => by
    rw [Expr.literal?] at h
    exact Expr.spellable_of_literal? h

theorem Script.Expr.exists_spellAll_of_literals? :
    ∀ {elements : List Expr} {values : List Json}, Expr.literals? elements = some values →
      ∃ spellings, Expr.SpellAll spellings values
  | [], _, rfl => ⟨[], .nil⟩
  | e :: rest, _, h => by
    obtain ⟨value, others, he, hr, rfl⟩ := Expr.literals?_cons_eq_some_iff.1 h
    obtain ⟨e', spelled⟩ := Expr.spellable_of_literal? he
    obtain ⟨spellings, further⟩ := Expr.exists_spellAll_of_literals? hr
    exact ⟨_, .cons e' spellings value others spelled further⟩

theorem Script.Property.spellable_of_lastLiteral? :
    ∀ {properties : List Property} {name : String} {value : Json},
      Property.lastLiteral? name properties = some value → value.Spellable
  | .spread operand :: rest, name, value, h => by
    rw [Property.lastLiteral?_cons, Option.or_eq_some_iff] at h
    rcases h with h | ⟨-, ⟨⟩⟩
    exact Property.spellable_of_lastLiteral? h
  | .field key e :: rest, name, value, h => by
    rw [Property.lastLiteral?_cons, Option.or_eq_some_iff] at h
    rcases h with h | ⟨-, h⟩
    · exact Property.spellable_of_lastLiteral? h
    · obtain ⟨last, written, he⟩ := Option.bind_eq_some_iff.1 h
      obtain ⟨_, ⟨⟩, -⟩ := Property.written?_eq_some_iff.1 written
      exact Expr.spellable_of_literal? he

end

/-! ## Declared objects -/

namespace PageMeta

variable {m n : PageMeta} {key : MetaKey}

/-- The value of a key is a literal that the key takes, and the key has it again from the literal. -/
theorem accept?_value? (hk : key ∈ MetaKey.allowList) (known : m.value? key = some value) :
    key.accept? value = some value := by
  refine MetaKey.accept?_eq_some_iff.2 ?_
  cases key with
  | name =>
    obtain ⟨text, -, rfl⟩ := Option.map_eq_some_iff.1 known
    exact .name text
  | path =>
    obtain ⟨text, -, rfl⟩ := Option.map_eq_some_iff.1 known
    exact .path text
  | aliases =>
    obtain ⟨texts, -, rfl⟩ := Option.map_eq_some_iff.1 known
    exact .aliases texts
  | props => exact .props value
  | redirect => exact .redirect value
  | bag => exact absurd rfl (MetaKey.ne_bag_of_mem hk)

/-- The values of the keys that are read by name determine the members that hold them. -/
theorem members_eq_of_value?_eq (same : ∀ key ∈ MetaKey.allowList, n.value? key = m.value? key) :
    n.name = m.name ∧ n.path = m.path ∧ n.props = m.props ∧ n.aliases = m.aliases ∧
      n.redirect = m.redirect := by
  have strings : Function.Injective Json.string := fun _ _ h => Json.string.inj h
  have texts : Function.Injective Json.ofStrings := fun _ _ h =>
    (List.map_inj_right strings).1 (Json.array.inj h)
  exact ⟨Option.map_injective strings (same .name (by decide)),
    Option.map_injective strings (same .path (by decide)), same .props (by decide),
    Option.map_injective texts (same .aliases (by decide)), same .redirect (by decide)⟩

/-- The metadata says the same as other metadata, and says it of keys that are all known. What is left to
the running page is the bag, if it has an entry that is not asked for. -/
structure Restates (call : MetaCall) (m n : PageMeta) : Prop where
  name : n.name = m.name
  path : n.path = m.path
  props : n.props = m.props
  aliases : n.aliases = m.aliases
  redirect : n.redirect = m.redirect
  bag : n.bag = m.bag
  known : ∀ key ∈ MetaKey.allowList, n.isDynamic key = false
  unasked : n.isDynamic .bag = true ↔
    ∃ name value, m.bag.get? name = some value ∧ name ∉ call.extraKeys

section

variable (tidy : m.Tidy) (written : Property.literals? [] properties = some m.toObject.members)

include tidy written

/-- A key that is read by name has its value again. -/
theorem Tidy.value?_ofProperties (hk : key ∈ MetaKey.allowList) (call : MetaCall)
    (definition : String) : (ofProperties call definition properties).value? key = m.value? key := by
  rw [PageMeta.value?_ofProperties hk, ← tidy.get?_toObject_label hk]
  cases hw : Property.lastWritten? key.label properties with
  | none => exact (Property.get?_of_unwritten written hw).symm
  | some e =>
    obtain ⟨value, he, found⟩ := Property.literal?_of_lastWritten? written hw
    rw [Option.bind_some, he, Option.bind_some, found]
    exact accept?_value? hk ((tidy.get?_toObject_label hk).symm.trans found)

/-- No key that is read by name is left to the running page. -/
theorem Tidy.isDynamic_ofProperties (hk : key ∈ MetaKey.allowList) (call : MetaCall)
    (definition : String) : (ofProperties call definition properties).isDynamic key = false := by
  rw [PageMeta.isDynamic_ofProperties hk]
  cases hw : Property.lastWritten? key.label properties with
  | none => rfl
  | some e =>
    obtain ⟨value, he, found⟩ := Property.literal?_of_lastWritten? written hw
    have taken := accept?_value? hk ((tidy.get?_toObject_label hk).symm.trans found)
    rw [Option.any_some, he, Option.bind_some, taken]
    rfl

/-- The bag has its entries again. -/
theorem Tidy.bag_ofProperties (call : MetaCall) (definition : String) :
    (ofProperties call definition properties).bag = m.bag := by
  refine Bag.ext_get? fun name => ?_
  cases free : MetaKey.allowListed? name with
  | none =>
    rw [get?_ofProperties_of_freeForm free, Property.lastLiteral?_of_literals? written,
      get?_toObject_of_freeForm free]
  | some key =>
    rw [get?_bag_ofProperties free, tidy.bag_clear name key free]

/-- The bag is left to the running page exactly if it has an entry that is not asked for. -/
theorem Tidy.isDynamic_bag_ofProperties (call : MetaCall) (definition : String) :
    (ofProperties call definition properties).isDynamic .bag = true ↔
      ∃ name value, m.bag.get? name = some value ∧ name ∉ call.extraKeys := by
  rw [PageMeta.isDynamic_bag_ofProperties]
  constructor
  · rintro ⟨p, hp, opens⟩
    obtain ⟨key, e, name, value, rfl, hk, he⟩ := Property.forall_mem_of_literals? written p hp
    obtain ⟨free, closes⟩ := (Property.leavesOpen_field_iff hk).1 opens
    have unasked : name ∉ call.extraKeys := fun asked => closes (by simp [asked, he])
    cases found : Property.lastLiteral? name properties with
    | none =>
      -- the property itself has a literal for the name
      have none := Property.lastLiteral?_eq_none_iff.1 found _ hp e
        (Property.written?_eq_some_iff.2 ⟨key, rfl, hk⟩)
      rw [he] at none
      cases none
    | some entry =>
      rw [Property.lastLiteral?_of_literals? written, get?_toObject_of_freeForm free] at found
      exact ⟨name, entry, found, unasked⟩
  · rintro ⟨name, value, found, unasked⟩
    have free : MetaKey.allowListed? name = none := by
      cases ha : MetaKey.allowListed? name with
      | none => rfl
      | some key =>
        rw [tidy.bag_clear name key ha] at found
        cases found
    rw [← get?_toObject_of_freeForm free, ← Property.lastLiteral?_of_literals? written] at found
    obtain ⟨before, key, e, after, rfl, hk, -⟩ := Property.lastLiteral?_eq_some_iff.1 found
    exact ⟨_, List.mem_append_right before List.mem_cons_self, .freeForm key e name hk free unasked⟩

/-- **An object literal with the members of the declared object restates the metadata.** -/
theorem Tidy.restates (call : MetaCall) (definition : String) :
    m.Restates call (ofProperties call definition properties) := by
  obtain ⟨name, path, props, aliases, redirect⟩ := members_eq_of_value?_eq
    fun key hk => tidy.value?_ofProperties written hk call definition
  exact
    { name, path, props, aliases, redirect
      bag := tidy.bag_ofProperties written call definition
      known := fun key hk => tidy.isDynamic_ofProperties written hk call definition
      unasked := tidy.isDynamic_bag_ofProperties written call definition }

end

/-- The values of the declared object are literals, so they can be spelled out. -/
theorem spellable_toObject (call : MetaCall) (definition : String) (properties : List Property)
    (found : (ofProperties call definition properties).toObject.get? name = some value) :
    value.Spellable := by
  rw [get?_toObject, Option.or_eq_some_iff] at found
  rcases found with entry | ⟨-, known⟩
  · cases free : MetaKey.allowListed? name with
    | none =>
      rw [get?_ofProperties_of_freeForm free] at entry
      exact Property.spellable_of_lastLiteral? entry
    | some key =>
      rw [get?_bag_ofProperties free] at entry
      cases entry
  · obtain ⟨key, allowed, known⟩ := Option.bind_eq_some_iff.1 known
    rw [PageMeta.value?_ofProperties (MetaKey.allowListed?_eq_some_iff.1 allowed).1] at known
    obtain ⟨e, -, accepted⟩ := Option.bind_eq_some_iff.1 known
    obtain ⟨literal, he, taken⟩ := Option.bind_eq_some_iff.1 accepted
    exact (MetaKey.accept?_eq_some_iff.1 taken).spellable (Expr.spellable_of_literal? he)

end PageMeta

/-! ## Pages -/

/-- All that matters of a page is one call of the reserved name, with an object literal of the given
properties as its only argument. -/
def Declares (parse : Dialect → String → Option Program) (call : MetaCall) (file : FilePath)
    (source : String) (properties : List Property) : Prop :=
  ∃ code span, sightings parse call.name file source = [.direct code [.object span properties]]

variable {parse : Dialect → String → Option Program} {call : MetaCall} {file : FilePath}
  {source : String} {m : PageMeta}

/-- A page with an object literal that does not suspend has the metadata of the literal. -/
theorem extractWith_of_declares (h : Declares parse call file source properties)
    (quiet : Property.anySuspends properties = false) :
    ∃ definition, extractWith parse call file source =
      .ok (some (.ofProperties call definition properties)) := by
  obtain ⟨code, span, seen⟩ := h
  refine ⟨span.slice code, settle_eq_some_iff.2 ?_⟩
  rw [seen]
  exact ⟨List.forall_mem_singleton.2 rfl, _, rfl, .literal code span properties quiet⟩

/-- **Metadata is extracted again from what it declares.** Let extraction succeed, whatever reads the
scripts. The bag holds no key that is read by name; so the declared object has the values of these keys
under their names, and the entries of the bag under all other names. It can be spelled out with
literals. And from every page whose object literal spells it out, whatever is asked for there, the same
name, path, props, aliases, redirect and bag are extracted; none of the keys that are read by name is
left to the running page, and the bag is left to it if and only if it has an entry that is not asked
for. -/
theorem extractWith_restated (h : extractWith parse call file source = .ok (some m)) :
    (∀ key ∈ MetaKey.allowList,
        m.bag.get? key.label = none ∧ m.toObject.get? key.label = m.value? key) ∧
      (∀ name, MetaKey.allowListed? name = none → m.toObject.get? name = m.bag.get? name) ∧
      (∃ properties, Property.SpellAll properties m.toObject.members) ∧
      ∀ properties, Property.SpellAll properties m.toObject.members →
        ∀ parse call file source, Declares parse call file source properties →
          ∃ n, extractWith parse call file source = .ok (some n) ∧ m.Restates call n := by
  obtain ⟨definition, literal, -, rfl⟩ := extractWith_ok_some h
  have tidy := PageMeta.tidy_ofProperties call definition literal
  refine ⟨fun key hk => ⟨?_, tidy.get?_toObject_label hk⟩, fun name free => ?_, ?_, ?_⟩
  · exact tidy.bag_clear _ key (MetaKey.allowListed?_label hk)
  · exact PageMeta.get?_toObject_of_freeForm free
  · exact Property.exists_spellAll (Bag.ascending _) fun name value found =>
      PageMeta.spellable_toObject call definition literal found
  · intro properties spelled parse call file source declares
    have written := spelled.literals?_members
    obtain ⟨again, extracted⟩ :=
      extractWith_of_declares declares (Property.anySuspends_of_literals? written)
    exact ⟨_, extracted, tidy.restates written call again⟩

/-- A page with `null` props, a single alias, a name that only the running page knows, and a layout with
a key that is spelled twice. -/
theorem extractWith_restated_layout :
    let page := "definePageMeta(\x7b props: null, alias: '/x', layout: \x7b b: 1, a: [], b: 2 \x7d, name: f() \x7d)"
    ∃ m, extractWith Script.parse {} ⟨"page.ts"⟩ page = .ok (some m) ∧
      (m.toObject.members = [("alias", .ofStrings ["/x"]),
        ("layout", .object [("a", .array []), ("b", .number (.int 2))]), ("props", .null)] ∧
        m.isDynamic .name = true) ∧
      (∀ key ∈ MetaKey.allowList,
        m.bag.get? key.label = none ∧ m.toObject.get? key.label = m.value? key) ∧
      (∀ name, MetaKey.allowListed? name = none → m.toObject.get? name = m.bag.get? name) ∧
      (∃ properties, Property.SpellAll properties m.toObject.members) ∧
      ∀ properties, Property.SpellAll properties m.toObject.members →
        ∀ parse call file source, Declares parse call file source properties →
          ∃ n, extractWith parse call file source = .ok (some n) ∧ m.Restates call n := by
  intro page
  have reported : (extractWith Script.parse {} ⟨"page.ts"⟩ page).toOption.join.any fun m =>
      m.toObject.members = [("alias", .ofStrings ["/x"]),
        ("layout", .object [("a", .array []), ("b", .number (.int 2))]), ("props", .null)] ∧
        m.isDynamic .name = true := by decide +kernel
  obtain ⟨m, hx, known⟩ := exists_of_extractWith reported
  exact ⟨m, hx, of_decide_eq_true known, extractWith_restated hx⟩

end FileRoutes
