import FileRoutes.Proofs.Page.Search

/-!
# Where an object literal suspends

An `await` in an object literal makes the page suspend unless a function stands between, which awaits
only when it is called. The search for one goes over every form of expression and statement; here it is
compared with the plain reading, in which a tree is nodes with parts.

* `Node`, `Node.parts`: the nodes of a syntax tree and what each is written with.
* `Node.Exposes`: a node stands in another one, and in no function nested in that.
* `Node.suspends_eq`: one step of the search, for every form of node.
* `Node.suspends_iff`: the search finds an `await` exactly if the node exposes one.
* `extractWith_suspends_iff`: a page is refused for that exactly if the object literal of its call exposes
  an `await`.
-/

namespace FileRoutes

open Script

namespace Script

/-! ## Nodes -/

/-- A node of a syntax tree. -/
inductive Node where
  | expr (e : Expr)
  | property (p : Property)
  | key (k : Key)
  | member (m : Member)
  | stmt (s : Stmt)

/-- The parts of an expression. -/
def Expr.parts : Expr → List Node
  | .this | .super | .identifier _ | .privateName _ | .string _ | .number _ | .bigint | .regex
  | .boolean _ | .null | .metaProperty | .hole => []
  | .template operands | .array operands | .sequence operands | .importCall operands
  | .markup operands => operands.map .expr
  | .taggedTemplate e operands | .call e operands | .new e operands => .expr e :: operands.map .expr
  | .spread e | .unary _ e | .update _ e | .member e _ | .chain e | .parenthesized e | .typed e
  | .await e => [.expr e]
  | .binary _ l r | .assign _ l r | .index l r => [.expr l, .expr r]
  | .conditional t c a => [.expr t, .expr c, .expr a]
  | .yield operand => operand.toList.map .expr
  | .object _ properties => properties.map .property
  | .function parameters body | .arrow parameters body => parameters.map .expr ++ body.map .stmt
  | .classBody decorators heritage members =>
    decorators.map .expr ++ (heritage.map .expr ++ members.map .member)

/-- The parts of a node; a method of a class is a function under a key. -/
def Node.parts : Node → List Node
  | .expr e => e.parts
  | .property (.field k value) => [.key k, .expr value]
  | .property (.spread e) => [.expr e]
  | .key (.computed e) => [.expr e]
  | .key (.word _) | .key (.string _) | .key (.numeric _) | .key (.privateName _) => []
  | .member (.decorator e) => [.expr e]
  | .member (.method k parameters body) => [.key k, .expr (.function parameters body)]
  | .member (.field k value) => .key k :: value.toList.map .expr
  | .member (.staticBlock body) => body.map .stmt
  | .stmt (.expression e) => [.expr e]
  | .stmt (.declaration bindings) => bindings.map .expr
  | .stmt (.control _ heads bodies) => heads.map .expr ++ bodies.map .stmt

namespace Node

/-- The node is a function or an arrow function. -/
def isFunction : Node → Bool
  | .expr (.function _ _) | .expr (.arrow _ _) => true
  | _ => false

/-- The node is an `await` expression. -/
def isAwait : Node → Bool
  | .expr (.await _) => true
  | _ => false

/-- A node stands in another one, and in no function nested in that: it is the node itself, or what a part
exposes of a node that is no function. -/
inductive Exposes : Node → Node → Prop where
  | self (n : Node) : Exposes n n
  | part (n p inner : Node) : n.isFunction = false → p ∈ n.parts → Exposes p inner → Exposes n inner

/-- An `await` is met in the node. -/
def suspends : Node → Bool
  | .expr e => e.suspends
  | .property p => p.suspends
  | .key k => k.suspends
  | .member m => m.suspends
  | .stmt s => s.suspends

end Node

/-! ## Lists of parts -/

/-- A search that goes over a list head by head meets an `await` in one of its members. -/
theorem any_suspends_of_cons {α : Type} {search : List α → Bool} {f : α → Node}
    (nil : search [] = false) (cons : ∀ a l, search (a :: l) = ((f a).suspends || search l))
    (l : List α) : search l = (l.map f).any Node.suspends := by
  induction l with
  | nil => exact nil
  | cons a l ih => rw [cons, ih, List.map_cons, List.any_cons]

theorem Expr.anySuspends_eq (operands : List Expr) :
    Expr.anySuspends operands = (operands.map .expr).any Node.suspends :=
  any_suspends_of_cons rfl (fun _ _ => rfl) operands

theorem Expr.optionSuspends_eq (operand : Option Expr) :
    Expr.optionSuspends operand = (operand.toList.map .expr).any Node.suspends := by
  cases operand with
  | none => rfl
  | some e => exact (Bool.or_false e.suspends).symm

theorem Property.anySuspends_eq (properties : List Property) :
    Property.anySuspends properties = (properties.map .property).any Node.suspends :=
  any_suspends_of_cons rfl (fun _ _ => rfl) properties

theorem Member.anySuspends_eq (members : List Member) :
    Member.anySuspends members = (members.map .member).any Node.suspends :=
  any_suspends_of_cons rfl (fun _ _ => rfl) members

theorem Stmt.anySuspends_eq (body : List Stmt) :
    Stmt.anySuspends body = (body.map .stmt).any Node.suspends :=
  any_suspends_of_cons rfl (fun _ _ => rfl) body

/-! ## One step of the search -/

theorem Expr.suspends_eq (e : Expr) :
    e.suspends =
      ((Node.expr e).isAwait || (!(Node.expr e).isFunction && e.parts.any Node.suspends)) := by
  cases e <;>
    simp [Expr.suspends, Node.isAwait, Node.isFunction, Expr.parts, Node.suspends, Bool.or_assoc,
      Expr.anySuspends_eq, Expr.optionSuspends_eq, Property.anySuspends_eq, Member.anySuspends_eq]

namespace Node

/-- **One step of the search**: an `await` is met in a node that is one, and in a part of a node that is no
function. -/
theorem suspends_eq (n : Node) :
    n.suspends = (n.isAwait || (!n.isFunction && n.parts.any Node.suspends)) := by
  cases n with
  | expr e => exact Expr.suspends_eq e
  | property p => cases p <;> simp [suspends, isAwait, isFunction, parts, Property.suspends]
  | key k =>
    cases k <;> simp [suspends, isAwait, isFunction, parts, Key.suspends]
  | member m =>
    cases m with
    | decorator e => simp [suspends, isAwait, isFunction, parts, Member.suspends]
    | method k parameters body =>
      simp [suspends, isAwait, isFunction, parts, Member.suspends, Expr.suspends]
    | field k value =>
      simp [suspends, isAwait, isFunction, parts, Member.suspends, Expr.optionSuspends_eq]
    | staticBlock body =>
      simp [suspends, isAwait, isFunction, parts, Member.suspends, Stmt.anySuspends_eq]
  | stmt s =>
    cases s <;>
      simp [suspends, isAwait, isFunction, parts, Stmt.suspends, Expr.anySuspends_eq,
        Stmt.anySuspends_eq]

theorem sizeOf_lt_of_mem_map {α : Type} [SizeOf α] {f : α → Node}
    (size : ∀ a, sizeOf (f a) = 1 + sizeOf a) {l : List α} {p : Node} (h : p ∈ l.map f) :
    sizeOf p < 1 + sizeOf l := by
  obtain ⟨a, ha, rfl⟩ := List.mem_map.1 h
  have := List.sizeOf_lt_of_mem ha
  rw [size]
  omega

/-- A part is smaller than its node. -/
theorem sizeOf_lt_of_mem_parts (n : Node) : ∀ p ∈ n.parts, sizeOf p < sizeOf n := by
  have exprs (l : List Expr) (p) (h : p ∈ l.map Node.expr) : sizeOf p < 1 + sizeOf l :=
    sizeOf_lt_of_mem_map (fun a => rfl) h
  have stmts (l : List Stmt) (p) (h : p ∈ l.map Node.stmt) : sizeOf p < 1 + sizeOf l :=
    sizeOf_lt_of_mem_map (fun a => rfl) h
  have members (l : List Member) (p) (h : p ∈ l.map Node.member) : sizeOf p < 1 + sizeOf l :=
    sizeOf_lt_of_mem_map (fun a => rfl) h
  have properties (l : List Property) (p) (h : p ∈ l.map Node.property) : sizeOf p < 1 + sizeOf l :=
    sizeOf_lt_of_mem_map (fun a => rfl) h
  cases n with
  | expr e =>
    cases e <;> grind [parts, Expr.parts]
  | property p => cases p <;> grind [parts]
  | key k => cases k <;> grind [parts]
  | member m =>
    cases m with
    | method k parameters body =>
      -- the function of a method is smaller than the method by its key
      have named : 0 < sizeOf k := by cases k <;> grind
      grind [parts]
    | _ => grind [parts]
  | stmt s => cases s <;> grind [parts]

theorem isAwait_iff {n : Node} : n.isAwait = true ↔ ∃ operand, n = .expr (.await operand) := by
  constructor
  · intro h
    unfold isAwait at h
    split at h
    · exact ⟨_, rfl⟩
    · cases h
  · rintro ⟨operand, rfl⟩
    rfl

/-- What is met in a node that stands in the open is met in the nodes around it. -/
theorem Exposes.suspends {n inner : Node} (h : n.Exposes inner) (met : inner.suspends = true) :
    n.suspends = true := by
  induction h with
  | self n => exact met
  | part n p inner noFunction mem _ ih =>
    have part : n.parts.any Node.suspends = true := List.any_eq_true.2 ⟨p, mem, ih met⟩
    rw [suspends_eq, noFunction, part]
    exact Bool.or_true _

/-- **The search is exact**: an `await` is met exactly in the nodes that expose one. -/
theorem suspends_iff (n : Node) :
    n.suspends = true ↔ ∃ operand, n.Exposes (.expr (.await operand)) := by
  constructor
  · intro h
    rw [suspends_eq, Bool.or_eq_true, Bool.and_eq_true, List.any_eq_true] at h
    rcases h with await | ⟨noFunction, p, mem, h⟩
    · obtain ⟨operand, rfl⟩ := isAwait_iff.1 await
      exact ⟨operand, .self _⟩
    · have smaller := sizeOf_lt_of_mem_parts n p mem
      obtain ⟨operand, inside⟩ := (suspends_iff p).1 h
      exact ⟨operand, .part n p _ (by simpa using noFunction) mem inside⟩
  · rintro ⟨operand, h⟩
    exact h.suspends rfl
termination_by sizeOf n

example :
    (Node.property (.field (.word "guard") (.arrow [] [.expression (.await .this)]))).suspends = false ∧
      (Node.property (.field (.computed (.await .this)) (.arrow [] []))).suspends = true := by decide

end Node

end Script

/-! ## Pages -/

/-- A call is refused for an `await` exactly if its only argument is an object literal that exposes one. -/
theorem objectArgument_suspends_iff {arguments : List Expr} :
    objectArgument arguments = .error .suspends ↔
      ∃ span properties, arguments = [.object span properties] ∧
        ∃ operand, (Node.expr (.object span properties)).Exposes (.expr (.await operand)) := by
  constructor
  · intro h
    unfold objectArgument at h
    split at h
    · rename_i span properties
      split at h
      · rename_i suspends
        exact ⟨span, properties, rfl, (Node.suspends_iff (.expr (.object span properties))).1 suspends⟩
      · cases h
    all_goals cases h
  · rintro ⟨span, properties, rfl, exposes⟩
    have suspends := (Node.suspends_iff (.expr (.object span properties))).2 exposes
    exact if_pos suspends

/-- **A page is refused for an `await` exactly if its object literal exposes one.** However the scripts of
the page are read, the extraction fails because the call suspends if and only if the first thing that
matters in them is a direct call whose only argument is an object literal, and an `await` stands in that
literal and in no function, method or arrow function nested in it. -/
theorem extractWith_suspends_iff (parse : Dialect → String → Option Program) (call : MetaCall)
    (file : FilePath) (source : String) :
    extractWith parse call file source = .error (.call call.name file .suspends) ↔
      ∃ code span properties rest,
        sightings parse call.name file source = .direct code [.object span properties] :: rest ∧
        ∃ operand, (Node.expr (.object span properties)).Exposes (.expr (.await operand)) := by
  unfold extractWith
  generalize sightings parse call.name file source = seen
  have verdict := settle_verdict call file seen
  constructor
  · intro h
    rw [h] at verdict
    cases verdict with
    | stopped _ stops =>
      cases stops with
      | fault code arguments _ rest refused =>
        obtain ⟨span, properties, rfl, exposes⟩ := objectArgument_suspends_iff.1 refused
        exact ⟨code, span, properties, rest, rfl, exposes⟩
  · rintro ⟨code, span, properties, rest, rfl, exposes⟩
    have refused := objectArgument_suspends_iff.2 ⟨span, properties, rfl, exposes⟩
    simp only [settle, refused]

end FileRoutes
