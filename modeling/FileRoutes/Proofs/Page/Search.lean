import FileRoutes.Page.Extract

/-!
# Searches for the call of a page

The sightings in the scripts of a page are looked through in source order. A script that is none, a call
through a member of the reserved name and a first call that cannot be resolved end the search at once;
calls after the first are counted only.

* `Resolves`: a call has metadata.
* `Sighting.Stops`: the first thing that ends a search, and the error it makes.
* `settle_verdict`: what a search comes to, in one of the four ways of `Sighting.Verdict`.
* `settle_eq_some_iff`, `settle_eq_none_iff`, `settle_of_several`: when a search finds metadata, when it
  finds nothing, and how it ends if there are several calls.
-/

namespace FileRoutes

open Script

variable {call : MetaCall} {file : FilePath} {seen : List Sighting}

/-! ## Calls -/

/-- A call has metadata: its only argument is an object literal that does not suspend, and the metadata is
that of the literal. -/
inductive Resolves (call : MetaCall) : String × List Expr → PageMeta → Prop where
  | literal (code : String) (span : Span) (properties : List Property) :
    Property.anySuspends properties = false →
      Resolves call (code, [.object span properties]) (.ofProperties call (span.slice code) properties)

theorem Resolves.unique {c : String × List Expr} {m n : PageMeta} (hm : Resolves call c m)
    (hn : Resolves call c n) : m = n := by
  cases hm
  cases hn
  rfl

/-- A call is resolved, or is at fault. -/
theorem objectArgument_cases (call : MetaCall) (code : String) (arguments : List Expr) :
    (∃ fault, objectArgument arguments = .error fault ∧ ∀ m, ¬Resolves call (code, arguments) m) ∨
      ∃ span properties, objectArgument arguments = .ok (span, properties) ∧
        Resolves call (code, arguments) (.ofProperties call (span.slice code) properties) := by
  unfold objectArgument
  split
  · rename_i span properties
    split
    · rename_i suspends
      refine .inl ⟨_, rfl, ?_⟩
      rintro m (⟨_, _, _, h⟩)
      rw [suspends] at h
      cases h
    · rename_i h
      exact .inr ⟨span, properties, rfl, .literal code span properties (by simpa using h)⟩
  · exact .inl ⟨_, rfl, by rintro m ⟨⟩⟩
  · rename_i noObject _
    refine .inl ⟨_, rfl, ?_⟩
    rintro m ⟨_, span, properties, _⟩
    exact noObject span properties rfl
  · rename_i one
    refine .inl ⟨_, rfl, ?_⟩
    rintro m ⟨_, span, properties, _⟩
    exact one _ rfl

/-! ## Searches -/

namespace Sighting

/-- The call of a sighting, if it is a direct one. -/
def direct? : Sighting → Option (String × List Expr)
  | .direct code arguments => some (code, arguments)
  | .unreadable | .indirect => none

/-- The direct calls among sightings. -/
def directs (seen : List Sighting) : List (String × List Expr) := seen.filterMap Sighting.direct?

/-- Nothing in the sightings ends the search: they are direct calls, and the first one resolves. -/
structure Passes (call : MetaCall) (seen : List Sighting) : Prop where
  direct : ∀ s ∈ seen, s.direct?.isSome = true
  first : ∀ c ∈ (directs seen).head?, ∃ m, Resolves call c m

/-- The first thing that ends the search, and the error it makes: a script that is none, a call through a
member of the name, or a fault of the first call. -/
inductive Stops (call : MetaCall) (file : FilePath) : List Sighting → ExtractionError → Prop where
  | unreadable (before rest : List Sighting) : Passes call before →
      Stops call file (before ++ .unreadable :: rest) (.unreadableScript file)
  | indirect (before rest : List Sighting) : Passes call before →
      Stops call file (before ++ .indirect :: rest) (.call call.name file .unsupportedCallee)
  | fault (code : String) (arguments : List Expr) (fault : CallFault) (rest : List Sighting) :
      objectArgument arguments = .error fault →
        Stops call file (.direct code arguments :: rest) (.call call.name file fault)

/-- What a search comes to. -/
inductive Verdict (call : MetaCall) (file : FilePath) (seen : List Sighting) :
    Except ExtractionError (Option PageMeta) → Prop where
  | stopped (e : ExtractionError) : Stops call file seen e → Verdict call file seen (.error e)
  | undeclared : Passes call seen → directs seen = [] → Verdict call file seen (.ok none)
  | declared (c : String × List Expr) (m : PageMeta) : Passes call seen → directs seen = [c] →
      Resolves call c m → Verdict call file seen (.ok (some m))
  | repeated : Passes call seen → 2 ≤ (directs seen).length →
      Verdict call file seen (.error (.call call.name file (.multipleCalls (directs seen).length)))

theorem Passes.not_stops (h : Passes call seen) (e : ExtractionError) : ¬Stops call file seen e := by
  rintro (⟨before, rest, -⟩ | ⟨before, rest, -⟩ | ⟨code, arguments, fault, rest, hf⟩)
  · cases h.direct .unreadable (List.mem_append_right _ List.mem_cons_self)
  · cases h.direct .indirect (List.mem_append_right _ List.mem_cons_self)
  · obtain ⟨m, resolves⟩ := h.first (code, arguments) rfl
    rcases objectArgument_cases call code arguments with ⟨-, -, none⟩ | ⟨span, properties, ho, -⟩
    · exact none m resolves
    · rw [hf] at ho
      cases ho

theorem directs_cons (code : String) (arguments : List Expr) (rest : List Sighting) :
    directs (.direct code arguments :: rest) = (code, arguments) :: directs rest := rfl

/-- Sightings that are direct calls only are read back from the calls. -/
theorem map_directs :
    ∀ {seen : List Sighting}, (∀ s ∈ seen, s.direct?.isSome = true) →
      (directs seen).map (fun c => .direct c.1 c.2) = seen
  | [], _ => rfl
  | .unreadable :: _, h => by cases h _ List.mem_cons_self
  | .indirect :: _, h => by cases h _ List.mem_cons_self
  | .direct code arguments :: rest, h => by
    have read : (directs rest).map (fun c => .direct c.1 c.2) = rest :=
      map_directs fun s hs => h s (List.mem_cons_of_mem _ hs)
    rw [directs_cons, List.map_cons, read]

theorem length_directs (h : ∀ s ∈ seen, s.direct?.isSome = true) :
    (directs seen).length = seen.length := by
  have read := congrArg List.length (map_directs h)
  rwa [List.length_map] at read

end Sighting

open Sighting

/-- After a first call that resolves, calls are counted until something else comes. -/
theorem settle_found (call : MetaCall) (file : FilePath) (found : Option PageMeta) :
    ∀ (seen : List Sighting) (calls : Nat),
      (∀ s ∈ seen, s.direct?.isSome = true) ∧
          settle call file (calls + 1) found seen =
            (if 2 ≤ calls + 1 + seen.length then
              .error (.call call.name file (.multipleCalls (calls + 1 + seen.length)))
            else .ok found) ∨
        ∃ before rest, (∀ s ∈ before, s.direct?.isSome = true) ∧
          (seen = before ++ .unreadable :: rest ∧
              settle call file (calls + 1) found seen = .error (.unreadableScript file) ∨
            seen = before ++ .indirect :: rest ∧ settle call file (calls + 1) found seen =
              .error (.call call.name file .unsupportedCallee))
  | [], calls => .inl ⟨nofun, rfl⟩
  | .unreadable :: rest, calls => .inr ⟨[], rest, nofun, .inl ⟨rfl, rfl⟩⟩
  | .indirect :: rest, calls => .inr ⟨[], rest, nofun, .inr ⟨rfl, rfl⟩⟩
  | .direct code arguments :: rest, calls => by
    have count : calls + 1 + (Sighting.direct code arguments :: rest).length =
        calls + 1 + 1 + rest.length := by
      rw [List.length_cons]
      omega
    have step : settle call file (calls + 1) found (.direct code arguments :: rest) =
        settle call file (calls + 1 + 1) found rest := rfl
    rw [step, count]
    rcases settle_found call file found rest (calls + 1) with
      ⟨all, counted⟩ | ⟨before, after, all, ended⟩
    · exact .inl ⟨List.forall_mem_cons.2 ⟨rfl, all⟩, counted⟩
    · refine .inr ⟨.direct code arguments :: before, after, List.forall_mem_cons.2 ⟨rfl, all⟩, ?_⟩
      rcases ended with ⟨rfl, h⟩ | ⟨rfl, h⟩
      · exact .inl ⟨rfl, h⟩
      · exact .inr ⟨rfl, h⟩

/-- **What a search comes to**, in one of four ways. -/
theorem settle_verdict (call : MetaCall) (file : FilePath) (seen : List Sighting) :
    Verdict call file seen (settle call file 0 none seen) := by
  have empty : Passes call [] := ⟨nofun, nofun⟩
  match seen with
  | [] => exact .undeclared empty rfl
  | .unreadable :: rest => exact .stopped _ (.unreadable [] rest empty)
  | .indirect :: rest => exact .stopped _ (.indirect [] rest empty)
  | .direct code arguments :: rest =>
    rcases objectArgument_cases call code arguments with
      ⟨fault, hf, -⟩ | ⟨span, properties, ho, resolves⟩
    · simp only [settle, hf]
      exact .stopped _ (.fault code arguments fault rest hf)
    · simp only [settle, ho]
      have passes (before : List Sighting) (all : ∀ s ∈ before, s.direct?.isSome = true) :
          Passes call (.direct code arguments :: before) := by
        refine ⟨List.forall_mem_cons.2 ⟨rfl, all⟩, ?_⟩
        rintro c ⟨⟩
        exact ⟨_, resolves⟩
      rcases settle_found call file (some (.ofProperties call (span.slice code) properties)) rest 0
        with ⟨all, counted⟩ | ⟨before, after, all, ⟨rfl, ended⟩ | ⟨rfl, ended⟩⟩
      · have length : (directs (.direct code arguments :: rest)).length = 0 + 1 + rest.length := by
          rw [length_directs (passes rest all).direct, List.length_cons]
          omega
        rw [counted]
        split
        · rename_i several
          rw [← length] at several ⊢
          exact .repeated (passes rest all) several
        · rename_i single
          obtain rfl : rest = [] := List.length_eq_zero_iff.1 (by omega)
          exact .declared (code, arguments) _ (passes [] nofun) rfl resolves
      · rw [ended]
        exact .stopped _ (.unreadable _ after (passes before all))
      · rw [ended]
        exact .stopped _ (.indirect _ after (passes before all))

/-- **A search finds metadata exactly if there is one call and nothing else.** -/
theorem settle_eq_some_iff {m : PageMeta} :
    settle call file 0 none seen = .ok (some m) ↔
      (∀ s ∈ seen, s.direct?.isSome = true) ∧ ∃ c, directs seen = [c] ∧ Resolves call c m := by
  have verdict := settle_verdict call file seen
  generalize settle call file 0 none seen = result at verdict
  constructor
  · rintro rfl
    cases verdict with
    | declared c m passes one resolves => exact ⟨passes.direct, c, one, resolves⟩
  · rintro ⟨direct, c, one, resolves⟩
    cases verdict with
    | stopped e stops =>
      have passes : Passes call seen := by
        refine ⟨direct, ?_⟩
        rw [one]
        rintro _ ⟨⟩
        exact ⟨m, resolves⟩
      exact absurd stops (passes.not_stops e)
    | undeclared _ none =>
      rw [one] at none
      cases none
    | declared d n _ only resolved =>
      rw [one] at only
      cases only
      rw [resolved.unique resolves]
    | repeated _ several =>
      rw [one, List.length_singleton] at several
      omega

/-- **A search finds nothing exactly if there is nothing.** -/
theorem settle_eq_none_iff :
    settle call file 0 none seen = .ok none ↔
      (∀ s ∈ seen, s.direct?.isSome = true) ∧ directs seen = [] := by
  have verdict := settle_verdict call file seen
  generalize settle call file 0 none seen = result at verdict
  constructor
  · rintro rfl
    cases verdict with
    | undeclared passes none => exact ⟨passes.direct, none⟩
  · rintro ⟨direct, none⟩
    have passes : Passes call seen := by
      refine ⟨direct, ?_⟩
      rw [none]
      nofun
    cases verdict with
    | stopped e stops => exact absurd stops (passes.not_stops e)
    | undeclared => rfl
    | declared d n _ only =>
      rw [none] at only
      cases only
    | repeated _ several =>
      rw [none, List.length_nil] at several
      omega

/-- **A search that finds several calls ends in an error**: that of the first thing that ends it, or else
the one that gives the number of calls. -/
theorem settle_of_several (several : 2 ≤ (directs seen).length) :
    ∃ e, settle call file 0 none seen = .error e ∧
      (Stops call file seen e ∨ (∀ e', ¬Stops call file seen e') ∧
        e = .call call.name file (.multipleCalls (directs seen).length)) := by
  have verdict := settle_verdict call file seen
  generalize settle call file 0 none seen = result at verdict ⊢
  cases verdict with
  | stopped e stops => exact ⟨e, rfl, .inl stops⟩
  | undeclared _ none =>
    rw [none, List.length_nil] at several
    omega
  | declared c m _ only =>
    rw [only, List.length_singleton] at several
    omega
  | repeated passes _ => exact ⟨_, rfl, .inr ⟨passes.not_stops, rfl⟩⟩

end FileRoutes
