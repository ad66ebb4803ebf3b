import FileRoutes.Proofs.Page.Object
import FileRoutes.Proofs.Page.Runtime

/-!
# Static values at run time

What extraction reports of a key that is read by name is the value of the last property spelled with
that key. When the page runs, the declared object has that value unless a spread or a computed key
further to the right gives the key another one; extraction does not look at those.

* `Property.afterLast`: the properties after the last one that is spelled with a name.
* `MetaKey.Reports`: a run-time value is the one that is reported of a key.
* `reports_iff`: the reported value is that of the running page exactly if what stands after the last
  property of the key does not give the key another value.
* `not_forall_reportsIn`: a spread does give it another one.
* `reportsIn_of_closed`: the value is right if no spread and no computed key stands there.
-/

namespace FileRoutes

open Script

variable {parse : Dialect → String → Option Program} {call : MetaCall} {file : FilePath}
  {source name : String} {m : PageMeta} {key : MetaKey} {value : Json}
  {properties before after : List Property} {entries : List (String × RunValue)}

/-! ## The last property of a name -/

/-- The properties after the last one that is spelled with a name. -/
def Script.Property.afterLast (name : String) : List Property → List Property
  | [] => []
  | _ :: rest =>
    if (Property.lastWritten? name rest).isSome then Property.afterLast name rest else rest

/-- A literal splits at the last property that is spelled with a name. -/
theorem Script.Property.split_afterLast {e : Expr} :
    ∀ {properties : List Property}, Property.lastWritten? name properties = some e →
      ∃ before key, properties = before ++ .field key e :: Property.afterLast name properties ∧
        key.readable? = some name
  | p :: rest, h => by
    rw [Property.lastWritten?_cons] at h
    unfold Property.afterLast
    cases hr : Property.lastWritten? name rest with
    | some last =>
      rw [hr, Option.some_or] at h
      obtain ⟨before, key, split, hk⟩ := Property.split_afterLast (hr.trans h)
      refine ⟨p :: before, key, ?_, hk⟩
      rw [Option.isSome_some, if_pos rfl, List.cons_append, ← split]
    | none =>
      rw [hr, Option.none_or] at h
      cases p with
      | spread operand => cases h
      | field key last =>
        by_cases hk : key.readable? = some name
        · simp only [Property.written?, hk, if_true, Option.some.injEq] at h
          subst h
          exact ⟨[], key, rfl, hk⟩
        · simp [Property.written?, hk] at h

/-- After the last property of a name there is none. -/
theorem Script.Property.lastWritten?_afterLast :
    ∀ properties : List Property,
      Property.lastWritten? name (Property.afterLast name properties) = none
  | [] => rfl
  | p :: rest => by
    unfold Property.afterLast
    split
    · exact Property.lastWritten?_afterLast rest
    · rename_i absent
      exact Option.not_isSome_iff_eq_none.1 absent

/-! ## Entries in parts -/

theorem Script.Property.runAll_append :
    ∀ {before entries}, Property.RunAll (before ++ after) entries →
      ∃ early late, entries = early ++ late ∧ Property.RunAll before early ∧
        Property.RunAll after late
  | [], entries, h => ⟨[], entries, rfl, .nil, h⟩
  | .field key e :: rest, entries, h => by
    cases h with
    | field _ _ _ spelled v others hn hv hrest =>
      obtain ⟨early, late, rfl, he, hl⟩ := Property.runAll_append hrest
      exact ⟨_, late, rfl, .field key e rest spelled v early hn hv he, hl⟩
  | .spread operand :: rest, entries, h => by
    cases h with
    | spread _ _ v copied others hv hc hrest =>
      obtain ⟨early, late, rfl, he, hl⟩ := Property.runAll_append hrest
      exact ⟨copied ++ early, late, (List.append_assoc ..).symm,
        .spread operand rest v copied early hv hc he, hl⟩

/-- The entry of the last property of a name, and the entries around it. -/
theorem Script.Property.runAll_afterLast {e : Expr}
    (hw : Property.lastWritten? name properties = some e) (h : Property.RunAll properties entries) :
    ∃ early late v, entries = early ++ (name, v) :: late ∧ e.Runs v ∧
      Property.RunAll (Property.afterLast name properties) late := by
  obtain ⟨before, key, split, hk⟩ := Property.split_afterLast hw
  rw [split] at h
  obtain ⟨early, rest, rfl, -, hrest⟩ := Property.runAll_append h
  cases hrest with
  | field _ _ _ spelled v late hn hv hlate =>
    obtain rfl := Key.denotes_of_readable? hk hn
    exact ⟨early, late, v, rfl, hv, hlate⟩

/-! ## Reported values -/

/-- A value of the running page is the one that is reported of a key, a single alias standing for the
list of it. -/
def MetaKey.Reports (key : MetaKey) (reported : Json) (value : RunValue) : Prop :=
  ∃ literal, key.accept? literal = some reported ∧ value = .ofJson literal

/-- The declared object of the running page has the value that is reported of a key. -/
def MetaKey.ReportsIn (key : MetaKey) (reported : Json) (entries : List (String × RunValue)) :
    Prop :=
  ∃ value, (RunValue.collect entries).lookup key.label = some value ∧ key.Reports reported value

/-- **Extraction is right about a key exactly if nothing to its right overrules it.** Let extraction
report a value of a key that is read by name, for the object literal that a page gives to the reserved
call, whatever reads the scripts. The literal evaluates to something, and however it evaluates, the
object has the reported value for the key if and only if the properties after the last one that is
spelled with the key do not give the key another value. -/
theorem reports_iff (h : extractWith parse call file source = .ok (some m))
    (hk : key ∈ MetaKey.allowList) (static : m.value? key = some value) :
    ∃ properties, literalOf? parse call file source = some properties ∧
      (∃ entries, Property.RunAll properties entries) ∧
      ∀ entries, Property.RunAll properties entries →
        ∃ early late, entries = early ++ late ∧
          Property.RunAll (Property.afterLast key.label properties) late ∧
          (key.ReportsIn value entries ↔
            ∀ v, late.reverse.lookup key.label = some v → key.Reports value v) := by
  obtain ⟨definition, properties, hl, rfl⟩ := extractWith_ok_some h
  refine ⟨properties, hl, Property.exists_runAll properties, fun entries hr => ?_⟩
  rw [PageMeta.value?_ofProperties hk] at static
  obtain ⟨e, hw, hv⟩ := Option.bind_eq_some_iff.1 static
  obtain ⟨literal, he, ha⟩ := Option.bind_eq_some_iff.1 hv
  obtain ⟨early, late, v, rfl, hruns, hlate⟩ := Property.runAll_afterLast hw hr
  have spelled : key.Reports value v := ⟨literal, ha, Expr.runs_literal he hruns⟩
  have found : (RunValue.collect (early ++ (key.label, v) :: late)).lookup key.label =
      (late.reverse.lookup key.label).or (some v) := by
    rw [RunValue.lookup_collect, List.reverse_append, List.reverse_cons, List.append_assoc,
      List.lookup_append, List.singleton_append, Bag.lookup_cons_ite, if_pos rfl]
  refine ⟨early ++ [(key.label, v)], late, by simp, hlate, ?_⟩
  unfold MetaKey.ReportsIn
  rw [found]
  cases late.reverse.lookup key.label with
  | none =>
    constructor
    · intro _ w hw
      cases hw
    · intro _
      exact ⟨v, rfl, spelled⟩
  | some overruling =>
    constructor
    · rintro ⟨w, hw, hreports⟩ _ ⟨⟩
      exact Option.some.inj hw ▸ hreports
    · intro all
      exact ⟨overruling, rfl, all overruling rfl⟩

/-- An alias after a spread is reported as the running page has it. -/
theorem reports_iff_alias :
    let page := "definePageMeta(\x7b ...rest, alias: '/x' \x7d)"
    ∃ m, extractWith Script.parse {} ⟨"page.ts"⟩ page = .ok (some m) ∧
      m.value? .aliases = some (.ofStrings ["/x"]) ∧
      ∃ properties, literalOf? Script.parse {} ⟨"page.ts"⟩ page = some properties ∧
        (∃ entries, Property.RunAll properties entries) ∧
        ∀ entries, Property.RunAll properties entries →
          ∃ early late, entries = early ++ late ∧
            Property.RunAll (Property.afterLast "alias" properties) late ∧
            (MetaKey.aliases.ReportsIn (.ofStrings ["/x"]) entries ↔
              ∀ v, late.reverse.lookup "alias" = some v →
                MetaKey.aliases.Reports (.ofStrings ["/x"]) v) := by
  intro page
  have reported : (extractWith Script.parse {} ⟨"page.ts"⟩ page).toOption.join.any fun m =>
      m.value? .aliases = some (.ofStrings ["/x"]) := by decide +kernel
  obtain ⟨m, hx, static⟩ := exists_of_extractWith reported
  have static := of_decide_eq_true static
  exact ⟨m, hx, static, reports_iff hx (by decide) static⟩

/-- A name that is spelled out and the name of an object that is spread after it. -/
def Script.Property.renamed? : List Property → Option (String × String)
  | [.field (.word "name") (.string spelled),
      .spread (.object _ [.field (.word "name") (.string overruling)])] =>
    some (spelled, overruling)
  | _ => none

theorem Script.Property.runAll_of_renamed? {spelled overruling : String}
    (h : Property.renamed? properties = some (spelled, overruling)) :
    Property.RunAll properties [("name", .string spelled), ("name", .string overruling)] := by
  unfold Property.renamed? at h
  split at h
  · cases h
    have operand :
        Property.RunAll [.field (.word "name") (.string overruling)]
          [("name", .string overruling)] :=
      .field _ _ _ _ _ _ rfl (.string overruling) .nil
    exact .field _ _ _ _ _ _ rfl (.string spelled)
      (.spread _ _ _ [("name", .string overruling)] [] (.object _ _ _ operand) rfl .nil)
  · cases h

/-- **Extraction may report a value that the running page does not have.** A name that is spelled out
is reported although a spread after it gives the object another name. -/
theorem not_forall_reportsIn :
    ¬∀ (call : MetaCall) (file : FilePath) (source : String) (m : PageMeta) (key : MetaKey)
      (value : Json) (properties : List Property) (entries : List (String × RunValue)),
      extract call file source = .ok (some m) → key ∈ MetaKey.allowList →
        m.value? key = some value → m.isDynamic key = false →
          literalOf? Script.parse call file source = some properties →
            Property.RunAll properties entries →
              key.ReportsIn value entries := by
  intro all
  let page := "definePageMeta(\x7b name: 'a', ...\x7b name: 'b' \x7d \x7d)"
  have reported : (extract {} ⟨"page.ts"⟩ page).toOption.join.any fun m =>
      m.value? .name = some (.string "a") ∧ m.isDynamic .name = false := by decide +kernel
  have spelled : (literalOf? Script.parse {} ⟨"page.ts"⟩ page).bind Property.renamed? =
      some ("a", "b") := by decide +kernel
  obtain ⟨m, hx, static⟩ := exists_of_extractWith reported
  obtain ⟨static, isStatic⟩ := of_decide_eq_true static
  obtain ⟨properties, hl, renamed⟩ := Option.bind_eq_some_iff.1 spelled
  obtain ⟨v, hv, literal, ha, rfl⟩ :=
    all {} ⟨"page.ts"⟩ page m .name (.string "a") _ _ hx (by decide) static isStatic hl
      (Property.runAll_of_renamed? renamed)
  cases literal <;> cases ha
  have overruled : some (RunValue.string "b") = some (RunValue.string "a") := hv
  simp at overruled

/-! ## Literals that hide nothing -/

/-- The property gives a value to the name it is spelled with only: it is no spread, and its key is
not computed. -/
def Script.Property.isClosed : Property → Bool
  | .spread _ => false
  | .field (.computed (.string _)) _ => true
  | .field (.computed _) _ => false
  | .field _ _ => true

theorem MetaKey.not_denotes {k : Key} {e : Expr} (hk : key ∈ MetaKey.allowList)
    (closed : (Property.field k e).isClosed = true)
    (hw : (Property.field k e).written? key.label = none) : ¬k.Denotes key.label := by
  intro hn
  unfold Property.written? at hw
  cases k with
  | word text => simp [Key.readable?, show key.label = text from hn] at hw
  | string text => simp [Key.readable?, show key.label = text from hn] at hw
  | numeric n =>
    have numeral : RunValue.isNumeral key.label = true := hn
    simp only [MetaKey.allowList, List.mem_cons, List.not_mem_nil, or_false] at hk
    rcases hk with rfl | rfl | rfl | rfl | rfl <;> exact absurd numeral (by decide)
  | privateName text =>
    have hash : key.label.toList = '#' :: text.toList := by
      rw [show key.label = "#" ++ text from hn]
      simp
    simp only [MetaKey.allowList, List.mem_cons, List.not_mem_nil, or_false] at hk
    rcases hk with rfl | rfl | rfl | rfl | rfl <;> simp [MetaKey.label] at hash
  | computed e' =>
    cases e' with
    | string text => simp [Key.readable?, show key.label = text from hn] at hw
    | _ => simp [Property.isClosed] at closed

theorem Script.Property.lookup_eq_none_of_closed (hk : key ∈ MetaKey.allowList) :
    ∀ {properties : List Property} {entries : List (String × RunValue)},
      (∀ p ∈ properties, p.isClosed = true) →
        Property.lastWritten? key.label properties = none → Property.RunAll properties entries →
          entries.reverse.lookup key.label = none
  | [], entries, _, _, hr => by
    cases hr
    rfl
  | .spread operand :: rest, entries, closed, _, _ => by
    cases closed _ List.mem_cons_self
  | .field k e :: rest, entries, closed, hw, hr => by
    rw [Property.lastWritten?_cons, Option.or_eq_none_iff] at hw
    cases hr with
    | field _ _ _ spelled v others hn hv hrest =>
      have ih := Property.lookup_eq_none_of_closed hk
        (fun p hp => closed p (List.mem_cons_of_mem _ hp)) hw.1 hrest
      have hne : ¬key.label = spelled := by
        rintro rfl
        exact MetaKey.not_denotes hk (closed _ List.mem_cons_self) hw.2 hn
      rw [List.reverse_cons, List.lookup_append, ih, Option.none_or, Bag.lookup_cons_ite,
        if_neg hne]
      rfl

/-- **Extraction is right about a key that no spread and no computed key follows.** -/
theorem reportsIn_of_closed (h : extractWith parse call file source = .ok (some m))
    (hk : key ∈ MetaKey.allowList) (static : m.value? key = some value)
    (hl : literalOf? parse call file source = some properties)
    (closed : ∀ p ∈ Property.afterLast key.label properties, p.isClosed = true)
    (hr : Property.RunAll properties entries) : key.ReportsIn value entries := by
  obtain ⟨literal, hl', -, all⟩ := reports_iff h hk static
  obtain rfl := Option.some.inj (hl'.symm.trans hl)
  obtain ⟨early, late, -, hlate, iff⟩ := all entries hr
  have nothing := Property.lookup_eq_none_of_closed hk closed
    (Property.lastWritten?_afterLast literal) hlate
  apply iff.2
  intro v hv
  rw [nothing] at hv
  cases hv

end FileRoutes
