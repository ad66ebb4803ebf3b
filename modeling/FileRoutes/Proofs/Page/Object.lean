import FileRoutes.Proofs.Page.Search

/-!
# Metadata of an object literal

The metadata of an object literal is read property by property. For a key that is read by name only
the last property spelled with that name counts, and the free-form bag holds other keys only.

* `MetaKey.accept?`: the value a key takes from a literal.
* `Property.lastWritten?`: the value of the last property spelled with a name.
* `PageMeta.value?_ofProperties`, `PageMeta.isDynamic_ofProperties`: the last property of a key
  decides whether the key is known, and what its value is.
* `PageMeta.Tidy`: no key has both a known value and one that only the running page knows, and the
  bag keeps clear of the keys that are read by name. What extraction gives is tidy.
* `PageMeta.get?_toObject`: the members of the known part of the declared object;
  `Tidy.get?_toObject_label` and `get?_toObject_of_freeForm` say what they are for the two kinds of names.
* `literalOf?`: the object literal that a page gives to the reserved call; `extractWith_ok_some` says
  that the metadata is read off it, whatever reads the scripts.
-/

namespace FileRoutes

open Script

variable {key other : MetaKey} {name : String} {m next : PageMeta} {value : Json}

/-! ## Keys -/

namespace MetaKey

theorem allowListed?_eq_some_iff : allowListed? name = some key ↔ key ∈ allowList ∧ key.label = name := by
  constructor
  · intro h
    exact ⟨List.mem_of_find?_eq_some h, by simpa using List.find?_some h⟩
  · rintro ⟨hm, rfl⟩
    simp only [allowList, List.mem_cons, List.not_mem_nil, or_false] at hm
    rcases hm with rfl | rfl | rfl | rfl | rfl <;> decide

theorem allowListed?_label (h : key ∈ allowList) : allowListed? key.label = some key :=
  allowListed?_eq_some_iff.2 ⟨h, rfl⟩

theorem ne_bag_of_mem (h : key ∈ allowList) : key ≠ .bag := by
  rintro rfl
  simp [allowList] at h

/-- The value a key takes from a literal: a single alias stands for the list of it. -/
def accept? : MetaKey → Json → Option Json
  | .name, .string text => some (.string text)
  | .path, .string text => some (.string text)
  | .aliases, .string text => some (.ofStrings [text])
  | .aliases, .array items => (Json.strings? items).map .ofStrings
  | .props, value => some value
  | .redirect, value => some value
  | _, _ => none

end MetaKey

/-! ## The last property of a name -/

/-- The value of a property, if the property is spelled with the given name. -/
def Script.Property.written? (name : String) : Property → Option Expr
  | .field key value => if key.readable? = some name then some value else none
  | .spread _ => none

/-- The value of the last property spelled with the given name. -/
def Script.Property.lastWritten? (name : String) : List Property → Option Expr
  | [] => none
  | p :: rest => (lastWritten? name rest).or (Property.written? name p)

theorem Script.Property.lastWritten?_cons (name : String) (p : Property) (rest : List Property) :
    Property.lastWritten? name (p :: rest) =
      (Property.lastWritten? name rest).or (p.written? name) := rfl

/-! ## One property -/

namespace PageMeta

theorem isSome_assign? (m : PageMeta) (key : MetaKey) (value : Json) :
    (m.assign? key value).isSome = (key.accept? value).isSome := by
  cases key <;> cases value <;> simp [assign?, MetaKey.accept?]

/-- Giving a key a value changes the value of that key and nothing else. -/
theorem assign?_spec (h : m.assign? key value = some next) :
    next.value? key = key.accept? value ∧ (∀ other, other ≠ key → next.value? other = m.value? other) ∧
      next.bag = m.bag ∧ next.dynamic = m.dynamic := by
  cases key <;> cases value <;>
    simp only [assign?, Option.some.injEq, Option.map_eq_some_iff, reduceCtorEq] at h
  case aliases.array items =>
    obtain ⟨texts, ht, rfl⟩ := h
    refine ⟨by simp [value?, MetaKey.accept?, ht], fun other hne => ?_, rfl, rfl⟩
    cases other <;> first | rfl | exact absurd rfl hne
  all_goals
    subst h
    refine ⟨rfl, fun other hne => ?_, rfl, rfl⟩
    cases other <;> first | rfl | exact absurd rfl hne

theorem value?_clear (m : PageMeta) (key other : MetaKey) :
    (m.clear key).value? other = if other = key then none else m.value? other := by
  cases key <;> cases other <;> rfl

theorem bag_clear (hk : key ∈ MetaKey.allowList) : (m.clear key).bag = m.bag := by
  have := MetaKey.ne_bag_of_mem hk
  cases key <;> first | rfl | exact absurd rfl this

theorem dynamic_clear (m : PageMeta) (key : MetaKey) : (m.clear key).dynamic = m.dynamic := by
  cases key <;> rfl

theorem value?_withDynamic (m : PageMeta) (set : KeySet) (key : MetaKey) :
    ({ m with dynamic := set } : PageMeta).value? key = m.value? key := by cases key <;> rfl

theorem value?_withBag (hk : key ∈ MetaKey.allowList) (m : PageMeta) (bag : Bag) :
    ({ m with bag } : PageMeta).value? key = m.value? key := by
  have := MetaKey.ne_bag_of_mem hk
  cases key <;> first | rfl | exact absurd rfl this

/-- **A property with a key that is read by name decides about that key alone**: the key has the
literal that it takes, and otherwise only the running page knows it. -/
theorem readAllowed_spec (hk : key ∈ MetaKey.allowList) (m : PageMeta) (literal : Option Json) :
    (∀ other, (m.readAllowed key literal).value? other =
        if other = key then literal.bind key.accept? else m.value? other) ∧
      (∀ other, (m.readAllowed key literal).isDynamic other =
        if other = key then (literal.bind key.accept?).isNone else m.isDynamic other) ∧
      (m.readAllowed key literal).bag = m.bag := by
  have same : (literal.bind (m.assign? key)).isSome = (literal.bind key.accept?).isSome := by
    cases literal with
    | none => rfl
    | some value => exact isSome_assign? m key value
  unfold readAllowed
  split
  · rename_i next hn
    obtain ⟨value, rfl, ha⟩ := Option.bind_eq_some_iff.1 hn
    obtain ⟨hv, hframe, hbag, hdyn⟩ := assign?_spec ha
    refine ⟨?_, ?_, hbag⟩
    · intro other
      rw [value?_withDynamic]
      split
      · rename_i he
        rw [he]
        exact hv
      · rename_i hne
        exact hframe other hne
    · intro other
      simp only [isDynamic, KeySet.contains_erase, hdyn]
      split
      · rename_i he
        rw [← Option.not_isSome, ← same, hn]
        simp [he]
      · rename_i hne
        simp [hne]
  · rename_i hn
    have none : literal.bind key.accept? = none := by
      rw [← Option.not_isSome_iff_eq_none, ← same, hn]
      simp
    refine ⟨?_, ?_, bag_clear hk⟩
    · intro other
      rw [value?_withDynamic, value?_clear, none]
    · intro other
      simp only [isDynamic, KeySet.contains_insert, none]
      split <;> simp_all

/-- A property with another key leaves the keys that are read by name as they are, and of the bag it
changes its own entry only. -/
theorem readOther_spec (m : PageMeta) (key : String) (literal : Option Json) (extra : Bool) :
    (∀ k ∈ MetaKey.allowList, (m.readOther key literal extra).value? k = m.value? k) ∧
      (∀ k ∈ MetaKey.allowList, (m.readOther key literal extra).isDynamic k = m.isDynamic k) ∧
      (∀ name, name ≠ key → (m.readOther key literal extra).bag.get? name = m.bag.get? name) := by
  have frame : ∀ k ∈ MetaKey.allowList, ¬k = MetaKey.bag := fun k hk => MetaKey.ne_bag_of_mem hk
  cases literal with
  | none =>
    simp only [readOther, Option.isSome_none, Bool.false_eq_true, and_false, if_false]
    refine ⟨fun k _ => value?_withDynamic m _ k, fun k hk => ?_, fun _ _ => trivial⟩
    simp [isDynamic, frame k hk]
  | some value =>
    simp only [readOther, Option.isSome_some, and_true]
    split
    · refine ⟨fun k hk => value?_withBag hk m _, fun k _ => rfl, fun name hne => ?_⟩
      simp [hne]
    · have bagged (k : MetaKey) := value?_withDynamic { m with bag := m.bag.insert key value }
        (m.dynamic.insert .bag) k
      refine ⟨fun k hk => (bagged k).trans (value?_withBag hk m _), fun k hk => ?_, fun name hne => ?_⟩
      · simp [isDynamic, frame k hk]
      · simp [hne]

/-- **One property, seen by one key**: the property decides if it is spelled with the key's name, and
changes nothing for the key otherwise. -/
theorem readProperty_spec (hk : key ∈ MetaKey.allowList) (call : MetaCall) (m : PageMeta)
    (p : Property) :
    (m.readProperty call p).value? key =
        ((p.written? key.label).elim (m.value? key) fun e => e.literal?.bind key.accept?) ∧
      (m.readProperty call p).isDynamic key =
        ((p.written? key.label).elim (m.isDynamic key) fun e =>
          (e.literal?.bind key.accept?).isNone) := by
  have frame : ¬key = .bag := MetaKey.ne_bag_of_mem hk
  have bagOnly : ({ m with dynamic := m.dynamic.insert .bag } : PageMeta).isDynamic key =
      m.isDynamic key := by simp [isDynamic, frame]
  cases p with
  | spread e => exact ⟨value?_withDynamic m _ key, bagOnly⟩
  | field written value =>
    simp only [readProperty, Property.written?]
    cases written.readable? with
    | none => exact ⟨value?_withDynamic m _ key, bagOnly⟩
    | some name =>
      cases ha : MetaKey.allowListed? name with
      | none =>
        -- the name of the key is not this one, which no key has
        have hne : ¬name = key.label := by
          rintro rfl
          rw [MetaKey.allowListed?_label hk] at ha
          cases ha
        obtain ⟨hv, hd, -⟩ := readOther_spec m name value.literal? (call.extraKeys.contains name)
        simp only [Option.some.injEq, hne, if_false, Option.elim_none, ha]
        exact ⟨hv key hk, hd key hk⟩
      | some k =>
        obtain ⟨hm, rfl⟩ := MetaKey.allowListed?_eq_some_iff.1 ha
        obtain ⟨hv, hd, -⟩ := readAllowed_spec hm m value.literal?
        have same : k.label = key.label ↔ key = k := by
          constructor
          · intro he
            rw [he, MetaKey.allowListed?_label hk] at ha
            exact Option.some.inj ha
          · rintro rfl
            rfl
        simp only [ha, hv key, hd key, Option.some.injEq, same]
        by_cases he : key = k <;> simp [he]

/-- No property puts a key that is read by name into the bag. -/
theorem get?_bag_readProperty (hk : MetaKey.allowListed? name = some key) (call : MetaCall)
    (m : PageMeta) (p : Property) : (m.readProperty call p).bag.get? name = m.bag.get? name := by
  cases p with
  | spread e => rfl
  | field written value =>
    simp only [readProperty]
    cases written.readable? with
    | none => rfl
    | some spelled =>
      cases ha : MetaKey.allowListed? spelled with
      | some k =>
        obtain ⟨hm, -⟩ := MetaKey.allowListed?_eq_some_iff.1 ha
        simp only [ha, (readAllowed_spec hm m value.literal?).2.2]
      | none =>
        have hne : name ≠ spelled := by
          rintro rfl
          rw [hk] at ha
          cases ha
        simp only [ha, (readOther_spec m spelled value.literal? _).2.2 name hne]

/-! ## All properties -/

theorem foldl_readProperty_spec (hk : key ∈ MetaKey.allowList) (call : MetaCall) :
    ∀ (properties : List Property) (m : PageMeta),
      (properties.foldl (readProperty call) m).value? key =
          ((Property.lastWritten? key.label properties).elim (m.value? key) fun e =>
            e.literal?.bind key.accept?) ∧
        (properties.foldl (readProperty call) m).isDynamic key =
          ((Property.lastWritten? key.label properties).elim (m.isDynamic key) fun e =>
            (e.literal?.bind key.accept?).isNone)
  | [], m => ⟨rfl, rfl⟩
  | p :: rest, m => by
    obtain ⟨hv, hd⟩ := readProperty_spec hk call m p
    obtain ⟨ihv, ihd⟩ := foldl_readProperty_spec hk call rest (m.readProperty call p)
    rw [List.foldl_cons, ihv, ihd, hv, hd, Property.lastWritten?_cons]
    cases Property.lastWritten? key.label rest <;> simp

/-- **The last property spelled with the name of a key gives the key its value.** -/
theorem value?_ofProperties (hk : key ∈ MetaKey.allowList) (call : MetaCall) (definition : String)
    (properties : List Property) :
    (ofProperties call definition properties).value? key =
      (Property.lastWritten? key.label properties).bind fun e => e.literal?.bind key.accept? := by
  unfold ofProperties
  rw [(foldl_readProperty_spec hk call properties _).1]
  have start : ({ definition := some definition } : PageMeta).value? key = none := by
    cases key <;> rfl
  cases Property.lastWritten? key.label properties <;> simp [start]

/-- **Only the running page knows a key whose last property is no literal that the key takes.** -/
theorem isDynamic_ofProperties (hk : key ∈ MetaKey.allowList) (call : MetaCall)
    (definition : String) (properties : List Property) :
    (ofProperties call definition properties).isDynamic key =
      (Property.lastWritten? key.label properties).any fun e =>
        (e.literal?.bind key.accept?).isNone := by
  unfold ofProperties
  rw [(foldl_readProperty_spec hk call properties _).2]
  have start : ({ definition := some definition } : PageMeta).isDynamic key = false := by
    cases key <;> rfl
  cases Property.lastWritten? key.label properties <;> simp [start]

theorem get?_bag_ofProperties (hk : MetaKey.allowListed? name = some key) (call : MetaCall)
    (definition : String) (properties : List Property) :
    (ofProperties call definition properties).bag.get? name = none := by
  unfold ofProperties
  suffices ∀ (properties : List Property) (m : PageMeta), m.bag.get? name = none →
      (properties.foldl (readProperty call) m).bag.get? name = none from this properties _ rfl
  intro properties
  induction properties with
  | nil =>
    intro m h
    exact h
  | cons p rest ih =>
    intro m h
    exact ih _ ((get?_bag_readProperty hk call m p).trans h)

/-! ## Tidy metadata -/

/-- The bag keeps clear of the keys that are read by name, and a key that only the running page knows
has no value. -/
structure Tidy (m : PageMeta) : Prop where
  bag_clear : ∀ name key, MetaKey.allowListed? name = some key → m.bag.get? name = none
  dynamic_clear : ∀ key ∈ MetaKey.allowList, m.isDynamic key = true → m.value? key = none

theorem tidy_ofProperties (call : MetaCall) (definition : String) (properties : List Property) :
    (ofProperties call definition properties).Tidy := by
  constructor
  · intro name key h
    exact get?_bag_ofProperties h call definition properties
  · intro key hk h
    rw [isDynamic_ofProperties hk] at h
    rw [value?_ofProperties hk]
    cases hw : Property.lastWritten? key.label properties with
    | none => rfl
    | some e =>
      simp only [hw, Option.any_some, Option.isNone_iff_eq_none] at h
      simp [h]

/-- Laying the values of keys with distinct names into an object. -/
theorem get?_foldl_insert (m : PageMeta) (name : String) :
    ∀ (keys : List MetaKey) (object : Bag), (keys.map MetaKey.label).Nodup →
      (keys.foldl (fun object key =>
        match m.value? key with
        | some value => object.insert key.label value
        | none => object) object).get? name =
        ((keys.find? fun key => key.label == name).bind m.value?).or (object.get? name)
  | [], _, _ => rfl
  | key :: rest, object, distinct => by
    obtain ⟨fresh, distinct⟩ := List.nodup_cons.1 distinct
    rw [List.foldl_cons, get?_foldl_insert m name rest _ distinct]
    by_cases he : key.label = name
    · have absent : (rest.find? fun key => key.label == name) = none := by
        refine List.find?_eq_none.2 fun k hk hn => fresh ?_
        rw [he, ← beq_iff_eq.1 hn]
        exact List.mem_map_of_mem hk
      cases hv : m.value? key <;> simp [absent, he, hv]
    · cases hv : m.value? key <;> simp [he, Ne.symm he]

/-- The known part of the declared object, member by member. -/
theorem get?_toObject (m : PageMeta) (name : String) :
    m.toObject.get? name =
      (m.bag.get? name).or ((MetaKey.allowListed? name).bind m.value?) := by
  have named : m.toObject.get? name = (m.bag.get? name).or
      (((MetaKey.allowListed? name).bind m.value?).or (Bag.empty.get? name)) :=
    (Bag.get?_extend ..).trans
      (congrArg (m.bag.get? name).or (get?_foldl_insert m name MetaKey.allowList _ (by decide)))
  rw [named, Bag.get?_empty, Option.or_none]

/-- The declared object has the entries of the bag under the names that no key is read by. -/
theorem get?_toObject_of_freeForm (free : MetaKey.allowListed? name = none) :
    m.toObject.get? name = m.bag.get? name := by
  rw [get?_toObject, free, Option.bind_none, Option.or_none]

/-- The declared object has the value of every key that is read by name under the name of the key. -/
theorem Tidy.get?_toObject_label (tidy : m.Tidy) (hk : key ∈ MetaKey.allowList) :
    m.toObject.get? key.label = m.value? key := by
  have named := MetaKey.allowListed?_label hk
  rw [get?_toObject, tidy.bag_clear _ _ named, named]
  rfl

end PageMeta

/-! ## Extraction -/

/-- The object literal of the first direct call in a page. -/
def literalOf? (parse : Dialect → String → Option Program) (call : MetaCall) (file : FilePath)
    (source : String) : Option (List Property) :=
  match sightings parse call.name file source with
  | .direct _ arguments :: _ => (objectArgument arguments).toOption.map Prod.snd
  | _ => none

section

variable {parse : Dialect → String → Option Program} {call : MetaCall} {file : FilePath}
  {source : String}

/-- **What a page declares is read off the object literal of its first call.** -/
theorem extractWith_ok_some (h : extractWith parse call file source = .ok (some m)) :
    ∃ definition properties, literalOf? parse call file source = some properties ∧
      m = .ofProperties call definition properties := by
  unfold extractWith at h
  unfold literalOf?
  obtain ⟨direct, c, one, resolves⟩ := settle_eq_some_iff.1 h
  rw [← Sighting.map_directs direct, one]
  obtain ⟨code, span, properties, closed⟩ := resolves
  exact ⟨_, properties, by simp [objectArgument, closed, Except.toOption], rfl⟩

theorem tidy_of_extractWith (h : extractWith parse call file source = .ok (some m)) : m.Tidy := by
  obtain ⟨definition, properties, -, rfl⟩ := extractWith_ok_some h
  exact PageMeta.tidy_ofProperties call definition properties

/-- Metadata with a property, from a test of the whole outcome. -/
theorem exists_of_extractWith {p : PageMeta → Bool}
    (h : (extractWith parse call file source).toOption.join.any p = true) :
    ∃ m, extractWith parse call file source = .ok (some m) ∧ p m = true := by
  rcases hx : extractWith parse call file source with error | _ | m
  · simp [hx, Except.toOption] at h
  · simp [hx, Except.toOption] at h
  · exact ⟨m, rfl, by simpa [hx, Except.toOption] using h⟩

end

end FileRoutes
