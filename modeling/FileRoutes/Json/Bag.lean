import FileRoutes.Json.Basic

/-!
# Bags of members

A `Bag` is a finite map from keys to JSON values: the members of an object in strictly ascending key
order. Two bags with the same look-ups are equal (`Bag.ext_get?`).

* `Bag.get?`, `Bag.insert`: look-up and update, with the law `Bag.get?_insert`.
* `Bag.extend`: lays the entries of one bag over another, with the law `Bag.get?_extend`.
-/

namespace FileRoutes

/-- Members in strictly ascending key order. -/
structure Bag where
  members : List (String × Json)
  ascending : members.Pairwise (fun a b => a.1 < b.1) := by simp

namespace Bag

instance : DecidableEq Bag := fun a b =>
  if h : a.members = b.members then isTrue (by cases a; cases b; simp_all)
  else isFalse (by intro e; exact h (by rw [e]))

instance : Repr Bag := ⟨fun bag n => reprPrec bag.members n⟩

/-- The bag without members. -/
def empty : Bag where
  members := []

instance : Inhabited Bag := ⟨empty⟩

/-- There are no members. -/
def isEmpty (bag : Bag) : Bool := bag.members.isEmpty

/-- The value of a key. -/
def get? (bag : Bag) (key : String) : Option Json := bag.members.lookup key

theorem forall_mem_insertMember {p : String → Prop} {key : String} {value : Json}
    {members : List (String × Json)} (hk : p key) (h : ∀ m ∈ members, p m.1) :
    ∀ m ∈ Json.insertMember key value members, p m.1 := by
  induction members with
  | nil => simpa [Json.insertMember] using hk
  | cons m rest ih =>
    obtain ⟨k, v⟩ := m
    have hrest : ∀ m ∈ rest, p m.1 := fun m hm => h m (List.mem_cons_of_mem _ hm)
    have hhead : p k := h (k, v) List.mem_cons_self
    simp only [Json.insertMember]
    split
    · intro m hm
      rcases List.mem_cons.1 hm with rfl | hm
      · exact hk
      · exact h m hm
    · split
      · intro m hm
        rcases List.mem_cons.1 hm with rfl | hm
        · exact hk
        · exact hrest m hm
      · intro m hm
        rcases List.mem_cons.1 hm with rfl | hm
        · exact hhead
        · exact ih hrest m hm

theorem pairwise_insertMember (key : String) (value : Json) {members : List (String × Json)}
    (h : members.Pairwise (fun a b => a.1 < b.1)) :
    (Json.insertMember key value members).Pairwise (fun a b => a.1 < b.1) := by
  induction members with
  | nil => simp [Json.insertMember]
  | cons m rest ih =>
    obtain ⟨k, v⟩ := m
    obtain ⟨hhead, hrest⟩ := List.pairwise_cons.1 h
    simp only [Json.insertMember]
    split
    · next hlt =>
      refine List.pairwise_cons.2 ⟨fun m hm => ?_, h⟩
      rcases List.mem_cons.1 hm with rfl | hm
      · exact hlt
      · exact String.lt_trans hlt (hhead m hm)
    · split
      · next heq => exact List.pairwise_cons.2 ⟨fun m hm => heq ▸ hhead m hm, hrest⟩
      · next hlt hne =>
        have hlt' : k < key := by grind
        exact List.pairwise_cons.2
          ⟨forall_mem_insertMember (p := fun x => k < x) hlt' hhead, ih hrest⟩

/-- Replaces the value of a key, or adds it. -/
def insert (bag : Bag) (key : String) (value : Json) : Bag where
  members := Json.insertMember key value bag.members
  ascending := pairwise_insertMember key value bag.ascending

/-- Lays members over a bag; of several with one key the last counts. -/
def extendWith (bag : Bag) (members : List (String × Json)) : Bag :=
  members.foldl (fun bag m => bag.insert m.1 m.2) bag

/-- Lays the members of another bag over a bag. -/
def extend (bag upper : Bag) : Bag := bag.extendWith upper.members

/-- The bag of a list of members; of several with one key the last counts. -/
def ofMembers (members : List (String × Json)) : Bag := empty.extendWith members

/-- The bag as a value. -/
def toJson (bag : Bag) : Json := .object bag.members

/-! ## Look-up -/

theorem lookup_cons_ite {β : Type} (key other : String) (value : β) (members : List (String × β)) :
    ((key, value) :: members).lookup other =
      if other = key then some value else members.lookup other := by
  rw [List.lookup_cons]
  by_cases h : other = key
  · simp [h]
  · simp [beq_eq_false_iff_ne.2 h, h]

theorem lookup_insertMember (key : String) (value : Json) (members : List (String × Json))
    (other : String) :
    (Json.insertMember key value members).lookup other =
      if other = key then some value else members.lookup other := by
  induction members with
  | nil => simp [Json.insertMember, lookup_cons_ite]
  | cons m rest ih =>
    obtain ⟨k, v⟩ := m
    simp only [Json.insertMember]
    split
    · simp only [lookup_cons_ite]
    · split
      · next heq => subst heq; simp only [lookup_cons_ite]; split <;> rfl
      · next hne => simp only [lookup_cons_ite, ih]; split <;> split <;> simp_all

@[simp] theorem get?_empty (key : String) : empty.get? key = none := rfl

@[simp] theorem get?_insert (bag : Bag) (key other : String) (value : Json) :
    (bag.insert key value).get? other = if other = key then some value else bag.get? other :=
  lookup_insertMember key value bag.members other

theorem lookup_eq_none {members : List (String × Json)} {key : String}
    (h : ∀ m ∈ members, key < m.1) : members.lookup key = none := by
  induction members with
  | nil => rfl
  | cons m rest ih =>
    obtain ⟨k, v⟩ := m
    have hk : key < k := h (k, v) List.mem_cons_self
    have hne : ¬key = k := fun e => String.lt_irrefl k (e ▸ hk)
    rw [lookup_cons_ite, if_neg hne]
    exact ih fun m hm => h m (List.mem_cons_of_mem _ hm)

theorem get?_extendWith (members : List (String × Json))
    (ascending : members.Pairwise (fun a b => a.1 < b.1)) (bag : Bag) (key : String) :
    (bag.extendWith members).get? key = (members.lookup key).or (bag.get? key) := by
  induction members generalizing bag with
  | nil => rfl
  | cons m rest ih =>
    obtain ⟨k, v⟩ := m
    obtain ⟨hhead, hrest⟩ := List.pairwise_cons.1 ascending
    have step := ih hrest (bag.insert k v)
    rw [show bag.extendWith ((k, v) :: rest) = (bag.insert k v).extendWith rest from rfl, step,
      get?_insert, lookup_cons_ite]
    by_cases h : key = k
    · subst h
      simp [lookup_eq_none hhead]
    · simp [h]

/-- Entries of the overlay win. -/
theorem get?_extend (bag upper : Bag) (key : String) :
    (bag.extend upper).get? key = (upper.get? key).or (bag.get? key) :=
  get?_extendWith upper.members upper.ascending bag key

theorem lt_or_eq_or_gt (a b : String) : a < b ∨ a = b ∨ b < a := by
  by_cases hab : a < b
  · exact Or.inl hab
  · by_cases hba : b < a
    · exact Or.inr (Or.inr hba)
    · exact Or.inr (Or.inl (String.le_antisymm (String.not_lt.1 hba) (String.not_lt.1 hab)))

theorem eq_of_lookup_eq {a b : List (String × Json)} (ha : a.Pairwise (fun x y => x.1 < y.1))
    (hb : b.Pairwise (fun x y => x.1 < y.1)) (h : ∀ key, a.lookup key = b.lookup key) : a = b := by
  induction a generalizing b with
  | nil =>
    cases b with
    | nil => rfl
    | cons n others =>
      obtain ⟨l, w⟩ := n
      have hb := h l
      rw [lookup_cons_ite] at hb
      simp at hb
  | cons m rest ih =>
    obtain ⟨k, v⟩ := m
    obtain ⟨hk, hrest⟩ := List.pairwise_cons.1 ha
    cases b with
    | nil =>
      have hb := h k
      rw [lookup_cons_ite] at hb
      simp at hb
    | cons n others =>
      obtain ⟨l, w⟩ := n
      obtain ⟨hl, hothers⟩ := List.pairwise_cons.1 hb
      have hkl : k = l := by
        rcases lt_or_eq_or_gt k l with hlt | heq | hgt
        · have hb := h k
          have hne : ¬k = l := fun e => String.lt_irrefl l (e ▸ hlt)
          rw [lookup_cons_ite, if_pos rfl, lookup_cons_ite, if_neg hne,
            lookup_eq_none fun m hm => String.lt_trans hlt (hl m hm)] at hb
          exact absurd hb (by simp)
        · exact heq
        · have hb := h l
          have hne : ¬l = k := fun e => String.lt_irrefl k (e ▸ hgt)
          rw [lookup_cons_ite, if_neg hne, lookup_cons_ite, if_pos rfl,
            lookup_eq_none fun m hm => String.lt_trans hgt (hk m hm)] at hb
          exact absurd hb (by simp)
      subst hkl
      have hvw : v = w := by
        have hb := h k
        simpa [lookup_cons_ite] using hb
      subst hvw
      refine congrArg _ (ih hrest hothers fun key => ?_)
      have hb := h key
      simp only [lookup_cons_ite] at hb
      by_cases hkey : key = k
      · subst hkey
        rw [lookup_eq_none hk, lookup_eq_none hl]
      · simpa [hkey] using hb

/-- A bag is determined by its look-ups. -/
theorem ext_get? {a b : Bag} (h : ∀ key, a.get? key = b.get? key) : a = b := by
  have := eq_of_lookup_eq a.ascending b.ascending h
  cases a
  cases b
  simp_all

end Bag

end FileRoutes
