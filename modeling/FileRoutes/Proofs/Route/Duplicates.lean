import FileRoutes.Route.Build

/-!
# Warnings of a build

A build warns of the characters it leaves out of segments, page by page, and after that of the routes
whose name and mode occurred before.

* `Route.duplicates`, `duplicateWarnings`: a warning for each route with the name and the mode of an
  earlier one.
  `duplicateNames_eq` says that these are the warnings of a forest: what was seen before and what a
  search of all routes finds is read off the earlier routes.
* `PageFile.ignored`, `warnings_buildForest`: the warnings of a build, in order.
* `exists_mem_duplicateWarnings`: the warning of a route with the name and the mode of an earlier one.
* `Warning.Reports`: a warning is about a name and a mode. `countP_reports_duplicateWarnings` says how
  often a list of routes is warned of them.
* `countP_reports_buildForest`, `reports_buildForest_iff`: how often a build warns of a name and a mode,
  and when it does.
-/

namespace FileRoutes

variable {name : String} {mode : Mode}

/-! ## All warnings -/

theorem Diagnostics.warnings_warnAll (d : Diagnostics) (warnings : List Warning) :
    (d.warnAll warnings).warnings = d.warnings ++ warnings := by
  unfold Diagnostics.warnings warnAll
  rw [List.filterMap_append, List.filterMap_map]
  congr 1
  exact List.filterMap_some

theorem Diagnostics.warnings_fileError (d : Diagnostics) (file : FilePath) (problem : Problem) :
    (d.fileError file problem).warnings = d.warnings := by
  unfold Diagnostics.warnings fileError
  rw [List.filterMap_append]
  exact List.append_nil _

/-- The warnings of a page: none if a segment is malformed. -/
def PageFile.ignored (serverComponents : Bool) (page : PageFile) : List Warning :=
  let segments := (FileName.segments serverComponents page.relative).1
  match tokenizeAll segments with
  | .ok tokens => ignoredWarnings page.file segments tokens
  | .error _ => []

theorem warnings_insertFile (serverComponents : Bool) (state : Forest Route × Diagnostics)
    (page : PageFile) :
    (insertFile serverComponents state page).2.warnings =
      state.2.warnings ++ page.ignored serverComponents := by
  unfold insertFile PageFile.ignored
  cases tokens : tokenizeAll (FileName.segments serverComponents page.relative).1 with
  | ok found => simp only [tokens, Diagnostics.warnings_warnAll]
  | error error => simp only [tokens, Diagnostics.warnings_fileError, List.append_nil]

theorem warnings_foldl_insertFile (serverComponents : Bool) :
    ∀ (pages : List PageFile) (state : Forest Route × Diagnostics),
      (pages.foldl (insertFile serverComponents) state).2.warnings =
        state.2.warnings ++ pages.flatMap (PageFile.ignored serverComponents)
  | [], state => (List.append_nil _).symm
  | page :: rest, state => by
    rw [List.foldl_cons, warnings_foldl_insertFile serverComponents rest, warnings_insertFile,
      List.flatMap_cons, List.append_assoc]

/-! ## Names seen before -/

theorem Route.carries_iff {route : Route} :
    route.carries name mode = true ↔ route.name = some name ∧ route.mode = mode := by
  unfold carries
  rw [Bool.and_eq_true, beq_iff_eq, beq_iff_eq]

/-- Both routes have names, and the same name and mode. -/
def Route.clashes (a b : Route) : Bool := a.name.isSome && a.name == b.name && a.mode == b.mode

/-- The warning of a single route, if one of the routes before it has its name and mode. -/
def Route.duplicates (earlier : List Route) (route : Route) : List Warning :=
  match route.name, earlier.find? (Route.clashes route) with
  | some name, some first => [.duplicateName name route.mode route.file first.file]
  | _, _ => []

/-- A warning for each route with the name and mode of an earlier one; `earlier` stands before all
the routes. -/
def duplicateWarnings (earlier : List Route) : List Route → List Warning
  | [] => []
  | route :: rest => route.duplicates earlier ++ duplicateWarnings (earlier ++ [route]) rest

/-- A route with the name and the mode clashes with the routes that have them, too. -/
theorem Route.clashes_eq {route : Route} (h : route.carries name mode = true) :
    Route.clashes route = Route.carries name mode := by
  obtain ⟨named, moded⟩ := carries_iff.1 h
  funext other
  unfold clashes carries
  rw [named, moded, Option.isSome_some, Bool.true_and, BEq.comm, BEq.comm (a := mode)]

theorem duplicateWarnings_cons (earlier : List Route) (route : Route) (rest : List Route) :
    duplicateWarnings earlier (route :: rest) =
      route.duplicates earlier ++ duplicateWarnings (earlier ++ [route]) rest := rfl

/-- A position behind some routes leaves out none of them. -/
theorem find?_zipIdx (p : Route → Bool) (position : Nat) :
    ∀ (routes : List Route) (start : Nat), start + routes.length ≤ position →
      ((routes.zipIdx start).find? fun entry => entry.2 != position && p entry.1).map Prod.fst =
        routes.find? p
  | [], _, _ => rfl
  | route :: rest, start, behind => by
    rw [List.length_cons] at behind
    have ih := find?_zipIdx p position rest (start + 1) (by omega)
    have apart : (start != position) = true := bne_iff_ne.2 (by omega)
    rw [List.zipIdx_cons, List.find?_cons, List.find?_cons, apart, Bool.true_and]
    cases p route with
    | true => rfl
    | false => exact ih

/-- If an earlier route has a name and a mode, the first other one that has them is the first of the
earlier ones. -/
theorem otherCarrier?_eq {earlier : List Route} {first : Route}
    (h : earlier.find? (Route.carries name mode) = some first) (rest : List Route) :
    otherCarrier? (earlier ++ rest) earlier.length name mode = some first := by
  have search := find?_zipIdx (Route.carries name mode) _ earlier 0 (Nat.le_of_eq (Nat.zero_add _))
  unfold otherCarrier?
  rw [List.zipIdx_append, List.find?_append, Option.map_or, search, h, Option.some_or]

/-- The names and modes that were seen are those of the earlier routes. -/
def Seen (seen : List (String × Mode)) (earlier : List Route) : Prop :=
  ∀ name mode, seen.contains (name, mode) = earlier.any (Route.carries name mode)

theorem Seen.any_append {seen : List (String × Mode)} {earlier : List Route} (h : Seen seen earlier)
    (route : Route) (name : String) (mode : Mode) :
    (earlier ++ [route]).any (Route.carries name mode) =
      (seen.contains (name, mode) || route.carries name mode) := by
  rw [List.any_append, List.any_cons, List.any_nil, Bool.or_false, h]

/-- A route without a name that was not seen before adds nothing. -/
theorem Seen.skip {seen : List (String × Mode)} {earlier : List Route} (h : Seen seen earlier)
    {route : Route}
    (known : ∀ name, route.name = some name → seen.contains (name, route.mode) = true) :
    Seen seen (earlier ++ [route]) := by
  intro name mode
  rw [h.any_append]
  cases carries : route.carries name mode with
  | false => rw [Bool.or_false]
  | true =>
    obtain ⟨named, rfl⟩ := Route.carries_iff.1 carries
    rw [known name named, Bool.or_true]

theorem Seen.cons {seen : List (String × Mode)} {earlier : List Route} (h : Seen seen earlier)
    {route : Route} (named : route.name = some name) :
    Seen ((name, route.mode) :: seen) (earlier ++ [route]) := by
  intro other mode
  rw [h.any_append, List.contains_cons, Bool.or_comm]
  refine congrArg _ (Bool.eq_iff_iff.2 ?_)
  rw [Route.carries_iff, beq_iff_eq, Prod.mk.injEq, named, Option.some.injEq, eq_comm,
    eq_comm (a := mode)]

/-- **A route is warned of exactly if an earlier one has its name and its mode**, as long as the names
that were seen are those of the earlier routes. -/
theorem nameWarnings_eq :
    ∀ (rest earlier : List Route) (seen : List (String × Mode)), Seen seen earlier →
      nameWarnings (earlier ++ rest) seen (rest.zipIdx earlier.length) =
        duplicateWarnings earlier rest
  | [], _, _, _ => rfl
  | route :: rest, earlier, seen, h => by
    have ih := nameWarnings_eq rest (earlier ++ [route])
    rw [List.append_assoc, List.singleton_append, List.length_append, List.length_singleton] at ih
    rw [List.zipIdx_cons, duplicateWarnings_cons]
    unfold nameWarnings Route.duplicates
    cases named : route.name with
    | none => exact ih seen (h.skip fun name some => absurd (named.symm.trans some) nofun)
    | some name =>
      have carries : route.carries name route.mode = true := Route.carries_iff.2 ⟨named, rfl⟩
      simp only [Route.clashes_eq carries]
      cases before : seen.contains (name, route.mode) with
      | true =>
        have known : ∀ other, route.name = some other → seen.contains (other, route.mode) = true :=
          fun other some => Option.some.inj (named.symm.trans some) ▸ before
        obtain ⟨first, found⟩ := Option.isSome_iff_exists.1
          (List.find?_isSome.2 (List.any_eq_true.1 ((h name route.mode).symm.trans before)))
        rw [if_pos rfl, otherCarrier?_eq found, found, ih seen (h.skip known)]
        rfl
      | false =>
        have none : earlier.find? (Route.carries name route.mode) = none := by
          rw [h, List.any_eq_false] at before
          exact List.find?_eq_none.2 before
        rw [if_neg Bool.false_ne_true, none, ih _ (h.cons named)]
        rfl

/-- **The warnings of a forest** are those of its routes against the earlier ones. -/
theorem duplicateNames_eq (forest : Forest Route) :
    duplicateNames forest = duplicateWarnings [] (Forest.preorder forest) :=
  nameWarnings_eq (Forest.preorder forest) [] [] fun _ _ => rfl

/-- **The warnings of a build**: those of its pages, shorter paths first, and then those of its
routes. -/
theorem warnings_buildForest (serverComponents : Bool) (pages : List PageFile) :
    (buildForest serverComponents pages).2.warnings =
      (byLength pages).flatMap (PageFile.ignored serverComponents) ++
        duplicateWarnings [] (Forest.preorder (buildForest serverComponents pages).1) := by
  have placed := warnings_foldl_insertFile serverComponents (byLength pages) ([], {})
  show Diagnostics.warnings (Diagnostics.warnAll _ _) = _
  rw [Diagnostics.warnings_warnAll, placed, duplicateNames_eq]
  rfl

/-! ## Duplicate names -/

/-- The warning is about the given name and mode. -/
def Warning.Reports (name : String) (mode : Mode) (warning : Warning) : Prop :=
  ∃ file existing, warning = .duplicateName name mode file existing

/-- The warning is about the given name and mode, as a test. -/
def Warning.reports (name : String) (mode : Mode) : Warning → Bool
  | .duplicateName other otherMode _ _ => other == name && otherMode == mode
  | .ignoredCharacter _ _ _ => false

theorem Warning.reports_eq_true_iff {warning : Warning} :
    warning.reports name mode = true ↔ warning.Reports name mode := by
  unfold Reports
  cases warning with
  | duplicateName other otherMode file existing => simp [reports]
  | ignoredCharacter file segment character => simp [reports]

theorem not_reports_of_mem_ignored {serverComponents : Bool} {page : PageFile} {warning : Warning}
    (h : warning ∈ page.ignored serverComponents) : ¬warning.reports name mode = true := by
  unfold PageFile.ignored at h
  simp only at h
  split at h
  · obtain ⟨pair, -, hm⟩ := List.mem_flatMap.1 h
    obtain ⟨character, -, rfl⟩ := List.mem_map.1 hm
    exact Bool.false_ne_true
  · cases h

theorem duplicateWarnings_append :
    ∀ before earlier after : List Route,
      duplicateWarnings earlier (before ++ after) =
        duplicateWarnings earlier before ++ duplicateWarnings (earlier ++ before) after
  | [], earlier, after => by
    rw [List.append_nil]
    rfl
  | route :: before, earlier, after => by
    rw [List.cons_append, duplicateWarnings_cons, duplicateWarnings_cons,
      duplicateWarnings_append before, List.append_assoc, List.append_assoc, List.singleton_append]

/-- The warning of a route with the name and the mode of an earlier one cites the first of those. -/
theorem Route.exists_mem_duplicates {earlier : List Route} {route other : Route}
    (carries : route.carries name mode = true) (hm : other ∈ earlier)
    (ho : other.carries name mode = true) :
    ∃ first ∈ earlier, first.carries name mode = true ∧
      .duplicateName name mode route.file first.file ∈ route.duplicates earlier := by
  obtain ⟨named, moded⟩ := carries_iff.1 carries
  obtain ⟨first, hf⟩ := Option.isSome_iff_exists.1 (List.find?_isSome.2 ⟨other, hm, ho⟩)
  refine ⟨first, List.mem_of_find?_eq_some hf, List.find?_some hf, ?_⟩
  unfold duplicates
  rw [clashes_eq carries, hf, named, moded]
  exact List.mem_singleton_self _

/-- **A route with the name and the mode of an earlier one is warned of**, against an earlier one. -/
theorem exists_mem_duplicateWarnings {before : List Route} {earlier later : Route}
    (after : List Route) (hm : earlier ∈ before) (he : earlier.carries name mode = true)
    (hl : later.carries name mode = true) :
    ∃ first ∈ before, first.carries name mode = true ∧
      .duplicateName name mode later.file first.file ∈
        duplicateWarnings [] (before ++ later :: after) := by
  obtain ⟨first, hf, carries, warned⟩ := Route.exists_mem_duplicates hl hm he
  refine ⟨first, hf, carries, ?_⟩
  rw [duplicateWarnings_append, duplicateWarnings_cons, List.nil_append]
  exact List.mem_append_right _ (List.mem_append_left _ warned)

/-- A route is warned of with its own name and mode, if an earlier route has both. -/
theorem Route.countP_reports_duplicates (earlier : List Route) (route : Route) :
    (route.duplicates earlier).countP (Warning.reports name mode) =
      if route.carries name mode && earlier.any (Route.carries name mode) then 1 else 0 := by
  unfold duplicates
  cases carries : route.carries name mode with
  | true =>
    obtain ⟨named, moded⟩ := carries_iff.1 carries
    rw [clashes_eq carries, named, moded]
    cases found : earlier.find? (Route.carries name mode) with
    | none =>
      have absent : earlier.any (Route.carries name mode) = false :=
        List.any_eq_false.2 (List.find?_eq_none.1 found)
      rw [absent]
      rfl
    | some first =>
      have there : earlier.any (Route.carries name mode) = true :=
        List.any_eq_true.2 ⟨first, List.mem_of_find?_eq_some found, List.find?_some found⟩
      rw [there]
      simp [Warning.reports]
  | false =>
    rw [Bool.false_and, if_neg Bool.false_ne_true, List.countP_eq_zero]
    intro warning hm
    split at hm
    · rename_i own first named found
      rw [List.mem_singleton.1 hm, Warning.reports_eq_true_iff]
      rintro ⟨file, existing, same⟩
      obtain ⟨rfl, rfl, -, -⟩ := Warning.duplicateName.inj same
      rw [carries_iff.2 ⟨named, rfl⟩] at carries
      cases carries
    · cases hm

/-- **How often a name and a mode are warned of**: once for each route that has them, but not for the
first one of all. -/
theorem countP_reports_duplicateWarnings :
    ∀ routes earlier : List Route,
      (duplicateWarnings earlier routes).countP (Warning.reports name mode) =
        routes.countP (Route.carries name mode) -
          if earlier.any (Route.carries name mode) then 0 else 1
  | [], earlier => (Nat.zero_sub _).symm
  | route :: rest, earlier => by
    -- the first route joins those before the list
    have ih := countP_reports_duplicateWarnings rest (earlier ++ [route])
    rw [List.any_append, List.any_cons, List.any_nil, Bool.or_false] at ih
    rw [duplicateWarnings_cons, List.countP_append, Route.countP_reports_duplicates, ih,
      List.countP_cons]
    cases earlier.any (Route.carries name mode) <;> cases route.carries name mode <;> simp
    omega

/-- **A build warns of a name and a mode once less than nodes have them**, and not at all if no node
has. -/
theorem countP_reports_buildForest (serverComponents : Bool) (pages : List PageFile) :
    (buildForest serverComponents pages).2.warnings.countP (Warning.reports name mode) =
      (Forest.preorder (buildForest serverComponents pages).1).countP (Route.carries name mode) - 1 := by
  have ignored : ((byLength pages).flatMap (PageFile.ignored serverComponents)).countP
      (Warning.reports name mode) = 0 := by
    rw [List.countP_eq_zero]
    intro warning hm
    obtain ⟨page, -, hp⟩ := List.mem_flatMap.1 hm
    exact not_reports_of_mem_ignored hp
  rw [warnings_buildForest, List.countP_append, ignored, countP_reports_duplicateWarnings,
    Nat.zero_add]
  rfl

/-- **A build warns of a name and a mode exactly if two of its nodes have them.** -/
theorem reports_buildForest_iff (serverComponents : Bool) (pages : List PageFile) :
    (∃ warning ∈ (buildForest serverComponents pages).2.warnings, warning.Reports name mode) ↔
      2 ≤ (Forest.preorder (buildForest serverComponents pages).1).countP
        (Route.carries name mode) := by
  have count := @countP_reports_buildForest name mode serverComponents pages
  have some : (∃ warning ∈ (buildForest serverComponents pages).2.warnings,
        warning.Reports name mode) ↔
      1 ≤ (buildForest serverComponents pages).2.warnings.countP (Warning.reports name mode) := by
    rw [List.one_le_countP_iff]
    simp only [Warning.reports_eq_true_iff]
  rw [some, count]
  omega

end FileRoutes
