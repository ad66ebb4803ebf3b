import FileRoutes.Proofs.Route.Malformed

/-!
# Warnings of a list of pages

The warnings of a build are known from its pages and from the nodes of its forest: the characters that
are left out of the segments of each accepted page, and then a warning for each node in preorder whose
name and mode an earlier node has.

* `Segment.leftOut`, `PageFile.leftOut`: the characters left out of a segment, and the warnings of an
  accepted page.
* `Route.repeated?`, `duplicateWarnings_eq_filterMap`: the warning of the node at a position.
* `warnings_eq_leftOut_append`: the warnings of a build.
-/

namespace FileRoutes

/-! ## Characters left out -/

/-- The characters that are left out of the parameters of a segment. -/
def Segment.leftOut (segment : String) : List Char :=
  match Segment.tokenize segment with
  | .ok tokens => tokens.ignored
  | .error _ => []

/-- A warning for each character that is left out of a segment of the page, from left to right. -/
def PageFile.leftOut (page : PageFile) : List Warning :=
  (FileName.segments true page.relative).1.flatMap fun segment =>
    (Segment.leftOut segment).map (.ignoredCharacter page.file segment)

example : PageFile.leftOut ⟨"(a-b)/[x y]/[[z!]].vue", ⟨"z.vue"⟩⟩ =
    [.ignoredCharacter ⟨"z.vue"⟩ "[x y]" ' ', .ignoredCharacter ⟨"z.vue"⟩ "[[z!]]" '!'] := by
  decide +kernel

theorem ignoredWarnings_eq (file : FilePath) :
    ∀ {segments : List String} {found : List Segment.Tokens}, tokenizeAll segments = .ok found →
      ignoredWarnings file segments found =
        segments.flatMap fun segment =>
          (Segment.leftOut segment).map (.ignoredCharacter file segment)
  | [], found, read => by
    cases read
    rfl
  | segment :: rest, found, read => by
    obtain ⟨tokens, others, first, more, rfl⟩ := tokenizeAll_cons_iff.1 read
    have ih := ignoredWarnings_eq file more
    have here : Segment.leftOut segment = tokens.ignored := by
      unfold Segment.leftOut
      rw [first]
    unfold ignoredWarnings at ih ⊢
    rw [List.zip_cons_cons, List.flatMap_cons, List.flatMap_cons, ih, here]

/-- The warnings of an accepted page. -/
theorem PageFile.ignored_of_accepted (serverComponents : Bool) {page : PageFile}
    (h : page.accepted = true) : page.ignored serverComponents = page.leftOut := by
  unfold accepted at h
  unfold ignored leftOut
  rw [FileName.segments_fst]
  cases read : tokenizeAll (FileName.segments true page.relative).1 with
  | ok found =>
    simp only [read]
    exact ignoredWarnings_eq page.file read
  | error error =>
    rw [read] at h
    cases h

/-! ## Repeated names -/

/-- The warning of the node at a position in preorder, if it has a name and an earlier node has the
same name and mode: the first node of all that has them is cited. -/
def Route.repeated? (nodes : List Route) (position : Nat) : Option Warning :=
  nodes[position]?.bind fun route => route.name.bind fun name =>
    let first := nodes.findIdx (Route.carries name route.mode)
    if first < position then
      some (.duplicateName name route.mode route.file (nodes[first]?.bind Route.file))
    else none

theorem Route.duplicates_eq (earlier : List Route) (route : Route) (rest : List Route) :
    route.duplicates earlier =
      (repeated? (earlier ++ route :: rest) earlier.length).toList := by
  have own : (earlier ++ route :: rest)[earlier.length]? = some route := by simp
  unfold repeated? duplicates
  rw [own, Option.bind_some]
  cases named : route.name with
  | none => rfl
  | some name =>
    have carries : route.carries name route.mode = true := carries_iff.2 ⟨named, rfl⟩
    rw [clashes_eq carries, List.find?_eq_getElem?_findIdx, Option.bind_some, List.findIdx_append]
    simp only
    by_cases before : earlier.findIdx (Route.carries name route.mode) < earlier.length
    · rw [if_pos before, if_pos before, List.getElem?_append_left before,
        List.getElem?_eq_getElem before]
      rfl
    · rw [if_neg before, if_neg (by omega), List.getElem?_eq_none (Nat.le_of_not_lt before)]
      rfl

/-- **The warnings of routes are those of the nodes at their positions.** -/
theorem duplicateWarnings_eq_filterMap :
    ∀ rest earlier : List Route,
      duplicateWarnings earlier rest =
        (List.range' earlier.length rest.length).filterMap (Route.repeated? (earlier ++ rest))
  | [], earlier => rfl
  | route :: rest, earlier => by
    have ih := duplicateWarnings_eq_filterMap rest (earlier ++ [route])
    rw [List.append_assoc, List.singleton_append, List.length_append, List.length_singleton] at ih
    rw [duplicateWarnings_cons, ih, Route.duplicates_eq earlier route rest, List.length_cons,
      List.range'_succ, List.filterMap_cons]
    cases Route.repeated? (earlier ++ route :: rest) earlier.length <;> rfl

/-! ## Builds -/

/-- **The warnings of a build.** First come those of the accepted pages, in the stable order of the
lengths of their paths: for each segment from left to right, transparent ones included, one warning
for each character that is left out of it. Then come those of the nodes in preorder: one for each node
that has a name and a mode which an earlier node has, citing the first node that has them. So a name
and a mode are warned of once less than nodes have them. -/
theorem warnings_eq_leftOut_append (serverComponents : Bool) (pages : List PageFile) :
    let build := buildForest serverComponents pages
    let nodes := Forest.preorder build.1
    (∃ sorted, StableOrder PageFile.length (pages.filter PageFile.accepted) sorted ∧
      build.2.warnings = sorted.flatMap PageFile.leftOut ++
        (List.range nodes.length).filterMap (Route.repeated? nodes)) ∧
    ∀ name mode, build.2.warnings.countP (Warning.reports name mode) =
      nodes.countP (Route.carries name mode) - 1 := by
  intro build nodes
  have ignored : (byLength (pages.filter PageFile.accepted)).flatMap
      (PageFile.ignored serverComponents) =
        (byLength (pages.filter PageFile.accepted)).flatMap PageFile.leftOut := by
    rw [byLength_filter]
    exact List.flatMap_congr fun page hm =>
      page.ignored_of_accepted serverComponents (List.mem_filter.1 hm).2
  refine ⟨⟨_, stableOrder_byLength _, ?_⟩, fun name mode =>
    countP_reports_buildForest serverComponents pages⟩
  rw [warnings_buildForest, duplicateWarnings_eq_filterMap, ← ignored, byLength_filter,
    flatMap_ignored_filter, List.range_eq_range']
  rfl

end FileRoutes
