import FileRoutes.Proofs.Page.LastWritten

/-!
# Entries of the bag

The free-form bag takes the literals of the keys that are not read by name. A later literal replaces
an earlier one, but a later property without a literal as its value does not take it away: the entry
stays, and the bag is left to the running page.

* `Property.lastLiteral?`: the last literal that properties give to a name;
  `Property.lastLiteral?_eq_some_iff` says where in an object literal it stands.
* `Property.Superseded`: the last literal of a name has a property of the same name after it.
* `PageMeta.get?_ofProperties_of_freeForm`: the entry of a key is the last literal of the key.
* `entry_eq_lastWritten_iff`: the entry is the value of the last property of its key exactly if the
  last literal of the key is not superseded.
* `not_forall_entry_eq_lastWritten`: an entry that is.
-/

namespace FileRoutes

open Script

variable {parse : Dialect → String → Option Program} {call : MetaCall} {file : FilePath}
  {source name : String} {m : PageMeta} {literal : Json}

/-! ## The last literal of a name -/

namespace Script.Property

/-- The value of the last property that is spelled with a name and has a literal as its value. -/
def lastLiteral? (name : String) : List Property → Option Json
  | [] => none
  | p :: rest => (lastLiteral? name rest).or ((written? name p).bind Expr.literal?)

/-- A property that is spelled with a name has a literal as its value, and the last one that is
spelled with it has none. -/
def Superseded (name : String) (properties : List Property) : Prop :=
  (lastLiteral? name properties).isSome ∧ ∃ e ∈ lastWritten? name properties, e.literal? = none

theorem lastLiteral?_cons (name : String) (p : Property) (rest : List Property) :
    lastLiteral? name (p :: rest) =
      (lastLiteral? name rest).or ((p.written? name).bind Expr.literal?) := rfl

theorem written?_eq_some_iff {p : Property} {e : Expr} :
    p.written? name = some e ↔ ∃ key, p = .field key e ∧ key.readable? = some name := by
  constructor
  · intro h
    cases p with
    | spread operand => cases h
    | field key value =>
      obtain ⟨hk, rfl⟩ : key.readable? = some name ∧ value = e := by simpa [written?] using h
      exact ⟨key, rfl, hk⟩
  · rintro ⟨key, rfl, hk⟩
    exact if_pos hk

/-- There is no last literal exactly if no property of the name has a literal as its value. -/
theorem lastLiteral?_eq_none_iff :
    ∀ {properties : List Property}, lastLiteral? name properties = none ↔
      ∀ p ∈ properties, ∀ e ∈ p.written? name, e.literal? = none
  | [] => by simp [lastLiteral?]
  | p :: rest => by
    rw [lastLiteral?_cons, Option.or_eq_none_iff, lastLiteral?_eq_none_iff, List.forall_mem_cons,
      Option.bind_eq_none_iff, and_comm]
    rfl

/-- **The last literal of a name stands in the last property of the name that has one.** -/
theorem lastLiteral?_eq_some_iff :
    ∀ {properties : List Property}, lastLiteral? name properties = some literal ↔
      ∃ before key e after, properties = before ++ .field key e :: after ∧
        key.readable? = some name ∧ e.literal? = some literal ∧
        ∀ p ∈ after, ∀ e ∈ p.written? name, e.literal? = none
  | [] => by simp [lastLiteral?]
  | p :: rest => by
    rw [lastLiteral?_cons, Option.or_eq_some_iff, lastLiteral?_eq_some_iff, lastLiteral?_eq_none_iff]
    constructor
    · rintro (⟨before, key, e, after, rfl, hk, he, hafter⟩ | ⟨hrest, hp⟩)
      · exact ⟨p :: before, key, e, after, rfl, hk, he, hafter⟩
      · obtain ⟨e, hw, he⟩ := Option.bind_eq_some_iff.1 hp
        obtain ⟨key, rfl, hk⟩ := written?_eq_some_iff.1 hw
        exact ⟨[], key, e, rest, rfl, hk, he, hrest⟩
    · rintro ⟨before, key, e, after, split, hk, he, hafter⟩
      cases before with
      | nil =>
        obtain ⟨rfl, rfl⟩ := List.cons.inj split
        have hw : (Property.field key e).written? name = some e :=
          written?_eq_some_iff.2 ⟨key, rfl, hk⟩
        exact .inr ⟨hafter, by rw [hw, Option.bind_some, he]⟩
      | cons first before =>
        obtain ⟨rfl, rfl⟩ := List.cons.inj split
        exact .inl ⟨before, key, e, after, rfl, hk, he, hafter⟩

/-- The last property of a name is among the properties that are spelled with it. -/
theorem exists_of_lastWritten? {e : Expr} :
    ∀ {properties : List Property}, lastWritten? name properties = some e →
      ∃ p ∈ properties, p.written? name = some e
  | p :: rest, h => by
    rw [lastWritten?_cons, Option.or_eq_some_iff] at h
    rcases h with h | ⟨-, h⟩
    · obtain ⟨q, hq, hw⟩ := exists_of_lastWritten? h
      exact ⟨q, List.mem_cons_of_mem p hq, hw⟩
    · exact ⟨p, List.mem_cons_self, h⟩

theorem lastLiteral?_of_unwritten :
    ∀ {properties : List Property}, lastWritten? name properties = none →
      lastLiteral? name properties = none
  | [], _ => rfl
  | p :: rest, h => by
    rw [lastWritten?_cons, Option.or_eq_none_iff] at h
    rw [lastLiteral?_cons, lastLiteral?_of_unwritten h.1, h.2]
    rfl

/-- The literal of the last property of a name is the last literal of the name. -/
theorem lastLiteral?_of_lastWritten? {e : Expr} (he : e.literal? = some literal) :
    ∀ {properties : List Property}, lastWritten? name properties = some e →
      lastLiteral? name properties = some literal
  | p :: rest, h => by
    rw [lastWritten?_cons, Option.or_eq_some_iff] at h
    rw [lastLiteral?_cons]
    rcases h with h | ⟨unwritten, h⟩
    · rw [lastLiteral?_of_lastWritten? he h, Option.some_or]
    · rw [lastLiteral?_of_unwritten unwritten, Option.none_or, h, Option.bind_some, he]

/-- **The last literal of a name is the value of its last property, unless it is superseded.** -/
theorem lastLiteral?_eq_lastWritten_iff (name : String) (properties : List Property) :
    lastLiteral? name properties = (lastWritten? name properties).bind Expr.literal? ↔
      ¬Superseded name properties := by
  unfold Superseded
  cases hw : lastWritten? name properties with
  | none => simp [lastLiteral?_of_unwritten hw]
  | some e =>
    rw [Option.bind_some]
    cases he : e.literal? with
    | none => simp [he]
    | some literal => simp [he, lastLiteral?_of_lastWritten? he hw]

end Script.Property

/-! ## The bag -/

namespace PageMeta

/-- A property with a key that is not read by name gives the bag an entry if its value is a literal, and
leaves the entries as they are otherwise. -/
theorem get?_bag_readOther (m : PageMeta) (key : String) (literal : Option Json) (extra : Bool)
    (name : String) :
    (m.readOther key literal extra).bag.get? name =
      (if key = name then literal else none).or (m.bag.get? name) := by
  have bag : (m.readOther key literal extra).bag =
      literal.elim m.bag fun value => m.bag.insert key value := by
    unfold readOther
    cases literal <;> dsimp only <;> split <;> rfl
  rw [bag]
  cases literal with
  | none => simp
  | some value =>
    rw [Option.elim_some, Bag.get?_insert]
    by_cases same : key = name
    · simp [same]
    · simp [same, Ne.symm same]

/-- **One property, seen by one entry of the bag**: a literal replaces the entry of its key, and nothing
takes an entry away. -/
theorem get?_readProperty_of_freeForm (other : MetaKey.allowListed? name = none) (call : MetaCall)
    (m : PageMeta) (p : Property) :
    (m.readProperty call p).bag.get? name =
      ((p.written? name).bind Expr.literal?).or (m.bag.get? name) := by
  cases p with
  | spread operand => rfl
  | field key value =>
    simp only [readProperty, Property.written?]
    cases key.readable? with
    | none => rfl
    | some spelled =>
      cases ha : MetaKey.allowListed? spelled with
      | some k =>
        have apart : ¬spelled = name := by
          rintro rfl
          rw [other] at ha
          cases ha
        simp only [ha, Option.some.injEq, apart, if_false, Option.bind_none, Option.none_or]
        rw [(readAllowed_spec (MetaKey.allowListed?_eq_some_iff.1 ha).1 m value.literal?).2.2]
      | none =>
        simp only [ha, get?_bag_readOther, Option.some.injEq]
        split <;> rfl

/-- **The entry of a key is the last literal of the key**, in every object literal. -/
theorem get?_ofProperties_of_freeForm (other : MetaKey.allowListed? name = none) (call : MetaCall)
    (definition : String) (properties : List Property) :
    (ofProperties call definition properties).bag.get? name =
      Property.lastLiteral? name properties := by
  have run : ∀ (properties : List Property) (m : PageMeta),
      (properties.foldl (readProperty call) m).bag.get? name =
        (Property.lastLiteral? name properties).or (m.bag.get? name) := by
    intro properties
    induction properties with
    | nil =>
      intro m
      rfl
    | cons p rest ih =>
      intro m
      rw [List.foldl_cons, ih, get?_readProperty_of_freeForm other, Property.lastLiteral?_cons,
        Option.or_assoc]
  unfold ofProperties
  rw [run]
  exact Option.or_none

/-- A bag with a superseded entry is left to the running page. -/
theorem isDynamic_bag_of_superseded (other : MetaKey.allowListed? name = none) (call : MetaCall)
    (definition : String) {properties : List Property} (h : Property.Superseded name properties) :
    (ofProperties call definition properties).isDynamic .bag = true := by
  obtain ⟨-, e, last, run⟩ := h
  obtain ⟨p, hp, hw⟩ := Property.exists_of_lastWritten? last
  obtain ⟨key, rfl, hk⟩ := Property.written?_eq_some_iff.1 hw
  refine (isDynamic_bag_ofProperties call definition properties).2 ⟨_, hp, ?_⟩
  refine (Property.leavesOpen_field_iff hk).2 ⟨other, ?_⟩
  simp [run]

end PageMeta

/-! ## Pages -/

/-- **A superseded literal stays in the bag.** Let extraction succeed for the object literal that a page
gives to the reserved call, whatever reads the scripts. The bag's entry of a key that is not read by name
is the last literal of the key. So it is the value of the last property of the key if and only if no
property without a literal supersedes it; if one does, the bag is left to the running page. -/
theorem entry_eq_lastWritten_iff (h : extractWith parse call file source = .ok (some m)) :
    ∃ properties, literalOf? parse call file source = some properties ∧
      ∀ name, MetaKey.allowListed? name = none →
        m.bag.get? name = Property.lastLiteral? name properties ∧
        (m.bag.get? name = (Property.lastWritten? name properties).bind Expr.literal? ↔
          ¬Property.Superseded name properties) ∧
        (Property.Superseded name properties → m.isDynamic .bag = true) := by
  obtain ⟨definition, properties, hl, rfl⟩ := extractWith_ok_some h
  refine ⟨properties, hl, fun name other => ?_⟩
  have entry := PageMeta.get?_ofProperties_of_freeForm other call definition properties
  refine ⟨entry, ?_, PageMeta.isDynamic_bag_of_superseded other call definition⟩
  rw [entry]
  exact Property.lastLiteral?_eq_lastWritten_iff name properties

/-- A layout that is asked for and spelled twice has the second spelling. -/
theorem entry_eq_lastWritten_iff_respelled :
    let page := "definePageMeta(\x7b layout: 'a', title: f(), layout: 'b' \x7d)"
    let call : MetaCall := { extraKeys := ["layout"] }
    ∃ m, extractWith Script.parse call ⟨"page.ts"⟩ page = .ok (some m) ∧
      m.bag.get? "layout" = some (.string "b") ∧
      ∃ properties, literalOf? Script.parse call ⟨"page.ts"⟩ page = some properties ∧
        ∀ name, MetaKey.allowListed? name = none →
          m.bag.get? name = Property.lastLiteral? name properties ∧
          (m.bag.get? name = (Property.lastWritten? name properties).bind Expr.literal? ↔
            ¬Property.Superseded name properties) ∧
          (Property.Superseded name properties → m.isDynamic .bag = true) := by
  intro page call
  have reported : (extractWith Script.parse call ⟨"page.ts"⟩ page).toOption.join.any fun m =>
      m.bag.get? "layout" = some (.string "b") := by decide +kernel
  obtain ⟨m, hx, known⟩ := exists_of_extractWith reported
  exact ⟨m, hx, of_decide_eq_true known, entry_eq_lastWritten_iff hx⟩

/-- **The bag may hold a superseded value.** A layout that is spelled as a text and then computed stays
in the bag as the text. -/
theorem not_forall_entry_eq_lastWritten :
    ¬∀ (call : MetaCall) (file : FilePath) (source name : String) (m : PageMeta)
      (properties : List Property),
      extract call file source = .ok (some m) →
        literalOf? Script.parse call file source = some properties →
        MetaKey.allowListed? name = none →
          m.bag.get? name = (Property.lastWritten? name properties).bind Expr.literal? := by
  intro all
  let page := "definePageMeta(\x7b layout: 'a', layout: f() \x7d)"
  have reported : (extract {} ⟨"page.ts"⟩ page).toOption.join.any fun m =>
      m.bag.get? "layout" = some (.string "a") := by decide +kernel
  have computed : (literalOf? Script.parse {} ⟨"page.ts"⟩ page).any fun properties =>
      ((Property.lastWritten? "layout" properties).bind Expr.literal?).isNone := by decide +kernel
  obtain ⟨m, hx, stays⟩ := exists_of_extractWith reported
  obtain ⟨properties, hl, none⟩ := (Option.any_eq_true _ _).1 computed
  have entry := all {} ⟨"page.ts"⟩ page "layout" m properties hx hl (by decide)
  rw [of_decide_eq_true stays, Option.isNone_iff_eq_none.1 none] at entry
  cases entry

end FileRoutes
