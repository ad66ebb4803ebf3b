import FileRoutes.Json.Bag
import FileRoutes.Page.Literal

/-!
# Object literals at run time

What the expressions of a page may evaluate to when the page runs. Strings, truth values, numbers,
`null`, arrays and objects evaluate as they are spelled; every other expression may evaluate to
anything, a computed key may be any key, and a spread may copy any record.

* `RunValue`: the values of a running page; `RunValue.ofJson` embeds JSON values.
* `RunValue.collect`: the object that entries make from left to right, a later entry replacing an
  earlier one with the same key; `RunValue.lookup_collect` is its look-up law.
* `Expr.Runs`, `Expr.RunAll`, `Property.RunAll`: what expressions and the entries of object literals
  may evaluate to. `Property.exists_runAll` says that there is always something.
* `Expr.runs_literal`: an expression with a literal value evaluates to that value only.
-/

namespace FileRoutes

open Script

/-! ## Values -/

/-- Values of a running page; functions, symbols, missing values and the like stand apart. -/
inductive RunValue where
  | null
  | bool (value : Bool)
  | number (value : Number)
  | infinity
  | string (value : String)
  | array (items : List RunValue)
  | object (members : List (String × RunValue))
  | other (tag : Nat)

namespace RunValue

variable {key name : String} {value : RunValue} {members : List (String × RunValue)}

/-- Replaces the member of a key, or adds it in its place. -/
def insertMember (key : String) (value : RunValue) :
    List (String × RunValue) → List (String × RunValue)
  | [] => [(key, value)]
  | (k, v) :: rest =>
    if key < k then (key, value) :: (k, v) :: rest
    else if key = k then (key, value) :: rest
    else (k, v) :: insertMember key value rest

/-- Lays entries over members, from left to right. -/
def extend (members entries : List (String × RunValue)) : List (String × RunValue) :=
  entries.foldl (fun members entry => insertMember entry.1 entry.2 members) members

/-- The members of the object that entries make from left to right. -/
def collect (entries : List (String × RunValue)) : List (String × RunValue) := extend [] entries

mutual

/-- A JSON value as a value of a running page. -/
def ofJson : Json → RunValue
  | .null => .null
  | .bool value => .bool value
  | .number value => .number value
  | .string value => .string value
  | .array items => .array (ofItems items)
  | .object members => .object (ofMembers members)

/-- JSON values as values of a running page. -/
def ofItems : List Json → List RunValue
  | [] => []
  | item :: rest => ofJson item :: ofItems rest

/-- Members of a JSON object as members of an object of a running page. -/
def ofMembers : List (String × Json) → List (String × RunValue)
  | [] => []
  | (key, value) :: rest => (key, ofJson value) :: ofMembers rest

end

/-! ## Look-up -/

theorem lookup_insertMember (key : String) (value : RunValue) (name : String) :
    ∀ members : List (String × RunValue),
      (insertMember key value members).lookup name =
        if name = key then some value else members.lookup name
  | [] => by rw [insertMember, Bag.lookup_cons_ite]
  | (k, v) :: rest => by
    unfold insertMember
    split
    · rw [Bag.lookup_cons_ite]
    · split
      · rename_i he
        subst he
        rw [Bag.lookup_cons_ite, Bag.lookup_cons_ite]
        split <;> rfl
      · rename_i hne
        rw [Bag.lookup_cons_ite, Bag.lookup_cons_ite, lookup_insertMember key value name rest]
        split <;> split <;> simp_all

theorem lookup_extend (name : String) :
    ∀ entries members : List (String × RunValue),
      (extend members entries).lookup name =
        (entries.reverse.lookup name).or (members.lookup name)
  | [], members => rfl
  | (key, value) :: rest, members => by
    have ih := lookup_extend name rest (insertMember key value members)
    unfold extend at ih ⊢
    rw [List.foldl_cons, ih, lookup_insertMember, List.reverse_cons, List.lookup_append,
      Bag.lookup_cons_ite, List.lookup_nil]
    by_cases h : name = key
    · cases rest.reverse.lookup name <;> simp [h]
    · simp [h]

/-- **The last entry with a key gives the key its value.** -/
theorem lookup_collect (name : String) (entries : List (String × RunValue)) :
    (collect entries).lookup name = entries.reverse.lookup name := by
  unfold collect
  rw [lookup_extend, List.lookup_nil, Option.or_none]

theorem ofMembers_insertMember (key : String) (value : Json) :
    ∀ members : List (String × Json),
      ofMembers (Json.insertMember key value members) =
        insertMember key (ofJson value) (ofMembers members)
  | [] => rfl
  | (k, v) :: rest => by
    have ih := ofMembers_insertMember key value rest
    simp only [Json.insertMember, insertMember, ofMembers]
    split
    · rfl
    · split
      · rfl
      · rw [ofMembers, ih]

/-! ## Keys and copies -/

/-- The name is that of a numeral: it starts with a digit, or is the name of infinity. -/
def isNumeral (name : String) : Bool :=
  (name.toList.head?.any Char.isDigit) || name == "Infinity"

/-- The entries that a spread copies from a value: the members of an object; of an array, a text or
the like its elements at most, whose names are numerals. -/
def Copies (copied : List (String × RunValue)) : RunValue → Prop
  | .object members => copied = members
  | .other _ => True
  | _ => ∀ entry ∈ copied, isNumeral entry.1

end RunValue

/-- The names that a key may denote. -/
def Script.Key.Denotes (name : String) : Key → Prop
  | .word text | .string text | .computed (.string text) => name = text
  | .numeric _ => RunValue.isNumeral name
  | .privateName text => name = "#" ++ text
  | .computed _ => True

/-! ## Evaluation -/

/-- The expression is of a form that evaluates as it is spelled. -/
def Script.Expr.isPlain : Expr → Bool
  | .string _ | .boolean _ | .null | .number _ | .array _ | .object _ _ | .parenthesized _ => true
  | _ => false

mutual

/-- An expression may evaluate to a value. -/
inductive Script.Expr.Runs : Expr → RunValue → Prop where
  | string (text : String) : Expr.Runs (.string text) (.string text)
  | boolean (value : Bool) : Expr.Runs (.boolean value) (.bool value)
  | null : Expr.Runs .null .null
  | number (value : Binary64) :
    Expr.Runs (.number value) (((Number.ofMagnitude? value).map .number).getD .infinity)
  | array (elements : List Expr) (items : List RunValue) :
    Expr.RunAll elements items → Expr.Runs (.array elements) (.array items)
  | object (span : Span) (properties : List Property) (entries : List (String × RunValue)) :
    Property.RunAll properties entries →
      Expr.Runs (.object span properties) (.object (RunValue.collect entries))
  | parenthesized (operand : Expr) (value : RunValue) :
    Expr.Runs operand value → Expr.Runs (.parenthesized operand) value
  | unknown (e : Expr) (value : RunValue) : e.isPlain = false → Expr.Runs e value

/-- The elements of an array may evaluate to items. -/
inductive Script.Expr.RunAll : List Expr → List RunValue → Prop where
  | nil : Expr.RunAll [] []
  | cons (e : Expr) (rest : List Expr) (value : RunValue) (items : List RunValue) :
    Expr.Runs e value → Expr.RunAll rest items → Expr.RunAll (e :: rest) (value :: items)
  | spread (operand : Expr) (rest : List Expr) (copied items : List RunValue) :
    Expr.RunAll rest items → Expr.RunAll (.spread operand :: rest) (copied ++ items)

/-- The properties of an object literal may evaluate to entries, in order. -/
inductive Script.Property.RunAll : List Property → List (String × RunValue) → Prop where
  | nil : Property.RunAll [] []
  | field (key : Key) (e : Expr) (rest : List Property) (name : String) (value : RunValue)
    (entries : List (String × RunValue)) :
    key.Denotes name → Expr.Runs e value → Property.RunAll rest entries →
      Property.RunAll (.field key e :: rest) ((name, value) :: entries)
  | spread (operand : Expr) (rest : List Property) (value : RunValue)
    (copied entries : List (String × RunValue)) :
    Expr.Runs operand value → value.Copies copied → Property.RunAll rest entries →
      Property.RunAll (.spread operand :: rest) (copied ++ entries)

end

/-! ## Something is always evaluated -/

theorem Script.Key.exists_denotes (key : Key) : ∃ name, key.Denotes name := by
  cases key with
  | word text => exact ⟨text, rfl⟩
  | string text => exact ⟨text, rfl⟩
  | numeric value =>
    have zero : RunValue.isNumeral "0" := by decide
    exact ⟨"0", zero⟩
  | privateName text => exact ⟨"#" ++ text, rfl⟩
  | computed e =>
    cases e with
    | string text => exact ⟨text, rfl⟩
    | _ => exact ⟨"", trivial⟩

theorem RunValue.exists_copies (value : RunValue) : ∃ copied, value.Copies copied := by
  cases value with
  | object members => exact ⟨members, rfl⟩
  | other tag => exact ⟨[], trivial⟩
  | _ => exact ⟨[], fun entry h => absurd h List.not_mem_nil⟩

mutual

theorem Script.Expr.exists_runs (e : Expr) : ∃ value, e.Runs value := by
  cases e with
  | string text => exact ⟨_, .string text⟩
  | boolean value => exact ⟨_, .boolean value⟩
  | null => exact ⟨_, .null⟩
  | number value => exact ⟨_, .number value⟩
  | array elements =>
    obtain ⟨items, h⟩ := Expr.exists_runAll elements
    exact ⟨_, .array elements items h⟩
  | object span properties =>
    obtain ⟨entries, h⟩ := Property.exists_runAll properties
    exact ⟨_, .object span properties entries h⟩
  | parenthesized operand =>
    obtain ⟨value, h⟩ := Expr.exists_runs operand
    exact ⟨value, .parenthesized operand value h⟩
  | _ => exact ⟨.null, .unknown _ _ rfl⟩

theorem Script.Expr.exists_runAll : ∀ elements : List Expr, ∃ items, Expr.RunAll elements items
  | [] => ⟨[], .nil⟩
  | e :: rest =>
    have ⟨value, h⟩ := Expr.exists_runs e
    have ⟨items, hs⟩ := Expr.exists_runAll rest
    ⟨_, .cons e rest value items h hs⟩

/-- **Every object literal evaluates to something.** -/
theorem Script.Property.exists_runAll :
    ∀ properties : List Property, ∃ entries, Property.RunAll properties entries
  | [] => ⟨[], .nil⟩
  | .field key e :: rest =>
    have ⟨name, hn⟩ := key.exists_denotes
    have ⟨value, h⟩ := Expr.exists_runs e
    have ⟨entries, hs⟩ := Property.exists_runAll rest
    ⟨_, .field key e rest name value entries hn h hs⟩
  | .spread operand :: rest =>
    have ⟨value, h⟩ := Expr.exists_runs operand
    have ⟨copied, hc⟩ := value.exists_copies
    have ⟨entries, hs⟩ := Property.exists_runAll rest
    ⟨_, .spread operand rest value copied entries h hc hs⟩

end

/-! ## Literals -/

theorem Script.Key.denotes_of_readable? {key : Key} {spelled name : String}
    (h : key.readable? = some spelled) (hn : key.Denotes name) : name = spelled := by
  unfold Key.readable? at h
  split at h <;> cases h <;> exact hn

mutual

/-- **An expression with a literal value evaluates to that value.** -/
theorem Script.Expr.runs_literal :
    ∀ {e : Expr} {literal : Json} {value : RunValue},
      e.literal? = some literal → e.Runs value → value = .ofJson literal
  | .string text, literal, value, h, hr => by
    cases h
    cases hr with
    | string => rfl
    | unknown _ _ hp => cases hp
  | .boolean flag, literal, value, h, hr => by
    cases h
    cases hr with
    | boolean => rfl
    | unknown _ _ hp => cases hp
  | .null, literal, value, h, hr => by
    cases h
    cases hr with
    | null => rfl
    | unknown _ _ hp => cases hp
  | .number magnitude, literal, value, h, hr => by
    obtain ⟨n, hn, rfl⟩ := Option.map_eq_some_iff.1 h
    cases hr with
    | number => rw [hn]; rfl
    | unknown _ _ hp => cases hp
  | .array elements, literal, value, h, hr => by
    obtain ⟨values, hv, rfl⟩ := Option.map_eq_some_iff.1 h
    cases hr with
    | array _ items hs => rw [RunValue.ofJson, Expr.runAll_literals hv hs]
    | unknown _ _ hp => cases hp
  | .object span properties, literal, value, h, hr => by
    obtain ⟨members, hm, rfl⟩ := Option.map_eq_some_iff.1 h
    cases hr with
    | object _ _ entries hs =>
      rw [RunValue.ofJson, ← Property.runAll_literals hm hs]
      rfl
    | unknown _ _ hp => cases hp
  | .parenthesized operand, literal, value, h, hr => by
    cases hr with
    | parenthesized _ _ ho => exact Expr.runs_literal (by simpa [Expr.literal?] using h) ho
    | unknown _ _ hp => cases hp

theorem Script.Expr.runAll_literals :
    ∀ {elements : List Expr} {values : List Json} {items : List RunValue},
      Expr.literals? elements = some values → Expr.RunAll elements items →
        items = RunValue.ofItems values
  | [], values, items, h, hr => by
    cases h
    cases hr
    rfl
  | e :: rest, values, items, h, hr => by
    unfold Expr.literals? at h
    split at h
    · rename_i value others he hs
      cases h
      cases hr with
      | cons _ _ v vs hv hrest =>
        rw [RunValue.ofItems, Expr.runs_literal he hv, Expr.runAll_literals hs hrest]
      | spread operand => simp [Expr.literal?] at he
    · cases h

theorem Script.Property.runAll_literals :
    ∀ {properties : List Property} {known members : List (String × Json)}
      {entries : List (String × RunValue)},
      Property.literals? known properties = some members → Property.RunAll properties entries →
        RunValue.extend (RunValue.ofMembers known) entries = RunValue.ofMembers members
  | [], known, members, entries, h, hr => by
    cases h
    cases hr
    rfl
  | .spread operand :: rest, known, members, entries, h, hr => by simp [Property.literals?] at h
  | .field key e :: rest, known, members, entries, h, hr => by
    unfold Property.literals? at h
    split at h
    · rename_i spelled literal hk he
      cases hr with
      | field _ _ _ name value others hn hv hrest =>
        have ih := Property.runAll_literals h hrest
        rw [Key.denotes_of_readable? hk hn, Expr.runs_literal he hv]
        rw [RunValue.ofMembers_insertMember] at ih
        exact ih
    · cases h

end

end FileRoutes
