import FileRoutes.Proofs.Record.Plan

/-!
# Full paths through ancestors

The walk makes the full path of a route from that of its parent, which has its leading slash by then,
and so does the plan. Joining the paths from the root down and adding the slash at the end comes to
the same, whatever the paths are.

* `Forest.withAbove`: the labels of a forest, each with those above it.
* `Url.joinChars_ne_slash`: joined paths are never a bare slash, so the leading slash of a full path
  can be told from a path; `Url.full_concat` says that a full path may be taken for the paths in it.
* `Segment.hasParam_iff`: a path holds a parameter if a colon in it is not escaped.
* `walk_eq_map_withAbove`: the walk, the plan, and the paths from the root down.
-/

namespace FileRoutes

variable {α : Type}

mutual

/-- The labels in preorder, each with those above it, from the root down. -/
def Tree.withAbove : Tree α → List (List α × α)
  | .node a ts => ([], a) :: (Forest.withAbove ts).map fun entry => (a :: entry.1, entry.2)

/-- The labels in preorder, each with those above it, from the root down. -/
def Forest.withAbove : Forest α → List (List α × α)
  | [] => []
  | t :: ts => t.withAbove ++ Forest.withAbove ts

end

example : Forest.withAbove [.node "a" [.node "b" [.node "c" []]], .node "d" []] =
    [([], "a"), (["a"], "b"), (["a", "b"], "c"), ([], "d")] := rfl

/-! ## Joining -/

namespace Url

variable {base input : List Char}

/-- Joining does not make a bare slash. -/
theorem joinChars_ne_slash (h : base ≠ ['/']) : joinChars base input ≠ ['/'] := by
  unfold joinChars
  split
  · exact h
  · rename_i filled
    split
    · exact fun bare => filled (.inr bare)
    · rename_i started
      intro bare
      -- the base is the slash, or there is one behind it
      cases base with
      | nil => exact started rfl
      | cons c base =>
        rw [List.cons_append, List.cons_append, List.cons.injEq] at bare
        obtain ⟨rfl, bare⟩ := bare
        obtain ⟨rfl, -⟩ := List.append_eq_nil_iff.1 (List.append_eq_nil_iff.1 bare).1
        exact h rfl

theorem foldl_join_ne_slash :
    ∀ (parts : List String) {base : String}, base.toList ≠ ['/'] →
      (parts.foldl join base).toList ≠ ['/']
  | [], _, h => h
  | part :: parts, base, h => by
    refine foldl_join_ne_slash parts ?_
    rw [Part.toList_join]
    exact joinChars_ne_slash h

/-- A leading slash may be put in front before or after joining. -/
theorem leadingSlashChars_joinChars (h : base ≠ ['/']) (input : List Char) :
    leadingSlashChars (joinChars (joinChars [] (leadingSlashChars base)) input) =
      leadingSlashChars (joinChars base input) := by
  -- nothing becomes a bare slash, which joining drops again; the slash stays in front of all else
  by_cases none : base = []
  · subst none
    rfl
  have filled : leadingSlashChars base ≠ ['/'] := by
    unfold leadingSlashChars
    split
    · exact h
    · exact fun bare => none (List.cons.inj bare).2
  rw [nil_joinChars filled]
  by_cases head : base.head? = some '/'
  · have same : leadingSlashChars base = base := if_pos head
    rw [same]
  · have slash : leadingSlashChars base = '/' :: base := if_neg head
    obtain ⟨c, base, rfl⟩ := List.exists_cons_of_ne_nil none
    rw [slash]
    unfold joinChars
    split
    · rw [slash]
      rfl
    · rw [List.getLast?_cons_cons]
      exact (if_neg head).symm

/-- **A full path may be taken for the paths that it goes through.** -/
theorem full_concat (above : List String) (path : String) :
    full [full above, path] = full (above ++ [path]) := by
  apply String.toList_injective
  have joined : (above.foldl join "").toList ≠ ['/'] := foldl_join_ne_slash above (by decide)
  rw [toList_full]
  unfold full leadingSlash
  rw [String.toList_ofList, String.toList_ofList, List.foldl_append, List.foldl_cons, List.foldl_nil,
    Part.toList_join, leadingSlashChars_joinChars joined]

end Url

/-! ## Walking -/

mutual

theorem Tree.walk_eq {given : String} {above : List String}
    (h : ∀ path, Url.full [given, path] = Url.full (above ++ [path])) :
    ∀ t : Tree Route, t.walk Route.fullPath given = t.withAbove.map fun entry =>
      (Url.full (above ++ (entry.1 ++ [entry.2]).map Route.path), entry.2)
  | .node route children => by
    have here : Route.fullPath given route = Url.full (above ++ [route.path]) := h route.path
    have below := Forest.walk_eq (Url.full_concat (above ++ [route.path])) children
    rw [Tree.walk, Tree.withAbove, List.map_cons, List.map_map, here, below]
    simp [Function.comp_def]

/-- The walk below routes, given a path that stands for those of the routes. -/
theorem Forest.walk_eq {given : String} {above : List String}
    (h : ∀ path, Url.full [given, path] = Url.full (above ++ [path])) :
    ∀ forest : Forest Route, Forest.walk Route.fullPath given forest =
      (Forest.withAbove forest).map fun entry =>
        (Url.full (above ++ (entry.1 ++ [entry.2]).map Route.path), entry.2)
  | [] => rfl
  | t :: ts => by
    rw [Forest.walk, Forest.withAbove, List.map_append, Tree.walk_eq h t, Forest.walk_eq h ts]

end

/-! ## Planning -/

namespace Segment

theorem marksParam_iff :
    ∀ {chars : List Char} {previous : Option Char}, marksParam previous chars = true ↔
      ∃ before after, chars = before ++ ':' :: after ∧ before.getLast?.or previous ≠ some '\\'
  | [], previous => by simp [marksParam]
  | c :: rest, previous => by
    rw [marksParam, Bool.or_eq_true, marksParam_iff]
    constructor
    · rintro (here | ⟨before, after, rfl, clear⟩)
      · simp only [Bool.and_eq_true, beq_iff_eq, bne_iff_ne] at here
        obtain ⟨rfl, clear⟩ := here
        exact ⟨[], rest, rfl, clear⟩
      · exact ⟨c :: before, after, rfl, by rwa [getLast?_cons_or]⟩
    · rintro ⟨before, after, split, clear⟩
      cases before with
      | nil =>
        obtain ⟨rfl, rfl⟩ := List.cons.inj split
        exact .inl (by simpa using clear)
      | cons d before =>
        obtain ⟨rfl, rfl⟩ := List.cons.inj split
        exact .inr ⟨before, after, rfl, by rwa [getLast?_cons_or] at clear⟩

/-- A path holds a parameter if there is a colon in it that no backslash precedes. -/
theorem hasParam_iff (path : String) :
    hasParam path = true ↔
      ∃ before after, path.toList = before ++ ':' :: after ∧ before.getLast? ≠ some '\\' := by
  unfold hasParam
  rw [marksParam_iff]
  simp only [Option.or_none]

end Segment

theorem filterMap_planned? (entries : List (String × Route)) :
    entries.filterMap Route.planned? =
      (entries.filter fun entry => entry.2.file.isSome && !Segment.hasParam entry.1).map Prod.fst := by
  induction entries with
  | nil => rfl
  | cons entry rest ih =>
    rw [List.filterMap_cons, List.filter_cons, ih]
    unfold Route.planned?
    cases entry.2.file.isSome && !Segment.hasParam entry.1 <;> rfl

/-- **The walk, the plan and the paths from the root down.** The walk meets each route of a forest at
the full path of the paths from its root down to it. If no page declares anything, the planned paths
are those of the walk at routes with a file, with plain colons, in the order of the walk, and each
once; but for the paths with a colon that no backslash precedes. -/
theorem walk_eq_map_withAbove (override : Bool) (forest : Forest Route) :
    Route.walk forest = (Forest.withAbove forest).map (fun entry =>
      (Url.full ((entry.1 ++ [entry.2]).map Route.path), entry.2)) ∧
    prerenderPaths (normalize override [] forest) =
      (((Route.walk forest).filter fun entry => entry.2.file.isSome && !Segment.hasParam entry.1).map
        fun entry => Segment.unescapeColons entry.1).eraseDups ∧
    ∀ path, Segment.hasParam path = true ↔
      ∃ before after, path.toList = before ++ ':' :: after ∧ before.getLast? ≠ some '\\' := by
  refine ⟨?walk, ?plan, Segment.hasParam_iff⟩
  case walk =>
    have top : ∀ path, Url.full ["", path] = Url.full ([] ++ [path]) := fun _ => rfl
    exact Forest.walk_eq top forest
  case plan =>
    unfold prerenderPaths normalize Route.walk
    rw [distinctTexts_eq_eraseDups, Forest.staticPaths_map, filterMap_planned?, List.map_map]
    rfl

end FileRoutes
