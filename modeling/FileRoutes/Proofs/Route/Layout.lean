import FileRoutes.Proofs.Route.Order
import FileRoutes.Proofs.Route.Placing
import Mathlib.Data.List.Permutation

/-!
# Pages and the pages under them

A page is found by the pages under it by its name and by its path. The path that they ask for is not
built as the path of the page itself is, so the two may differ.

* `Part.Answers`: the last part of a page with which it is found.
* `Part.layoutPath_eq_rawPath_iff`: a page is asked for by the path it has if its last part answers.
* `place_nil`, `place_under`, `place_beside`: placing a route in an empty forest, and next to a single
  page.
* `Forest.Nested`, `Forest.Beside`: a forest of two pages, with one below the other or with two roots.
* `Part.Finds`, `buildForest_pair`: which of the two the forest of two pages is.
-/

namespace FileRoutes

open Url (Clean slashed rooted)

/-! ## Paths that are asked for -/

namespace Part

variable {part : Part} {parts init done qs more : List Part}

/-- The page that ends in the part is found by the pages under it: the part is that of an index page,
or nothing about it is like one. -/
def Answers (part : Part) : Prop :=
  part.path = "/index" ∨
    part.label ≠ Url.indexWord ∧ ¬Url.indexWord.toList <:+ part.path.toList

instance (part : Part) : Decidable part.Answers :=
  inferInstanceAs (Decidable (_ ∨ _ ∧ ¬_))

/-- **A page is asked for by the path it has exactly if its last part answers.** -/
theorem layoutPath_eq_rawPath_iff (hdone : ∀ p ∈ done, p.Sound) (hpart : part.Sound) :
    layoutPath (rawPath done) part = rawPath (done ++ [part]) ↔ part.Answers := by
  have hmore : ∀ p ∈ done ++ [part], p.Sound :=
    List.forall_mem_append.2 ⟨hdone, List.forall_mem_singleton.2 hpart⟩
  have raw : (rawPath (done ++ [part])).toList =
      rooted (slashed (trail done ++ trail [part])) := by
    rw [toList_rawPath hmore, if_neg (by simp), trail_append]
  rw [← String.toList_inj, raw]
  rcases toList_layoutPath_spec hdone hpart with
    ⟨plain, asked⟩ | ⟨index, asked⟩ | ⟨⟨longer, ends⟩, before, hne, asked⟩
  · constructor
    · intro same
      refine .inr ⟨fun index => ?_, plain⟩
      -- an index page has the path of its directory
      rw [asked, trail_index index, List.append_nil] at same
      have clean : ∀ p ∈ trail done ++ [part.piece], Clean p := List.forall_mem_append.2
        ⟨clean_trail hdone, List.forall_mem_singleton.2 hpart.clean⟩
      have length := congrArg List.length
        (Url.rooted_slashed_injective clean (clean_trail hdone) same)
      simp at length
    · rintro (index | ⟨named, -⟩)
      · refine absurd ⟨['/'], ?_⟩ plain
        rw [index]
        rfl
      · rw [asked, trail_singleton named]
  · refine iff_of_true ?_ (.inl index)
    rw [asked, trail_index (hpart.index index), List.append_nil]
  · refine iff_of_false (fun same => ?_) ?_
    · rw [← trail_append, asked] at same
      exact rooted_ne_append_slash hmore hne same.symm
    · rintro (index | ⟨-, plain⟩)
      · exact longer index
      · exact plain ends

end Part

/-! ## Placing next to a single page -/

/-- A route with the name of the given labels, and with the path of its own parts. -/
def Route.built (route : Route) (labels : List String) (own : List Part) : Route :=
  { route with name := some (Part.rawName labels), path := Part.rawPath own }

/-- The name with one more label. -/
theorem Part.extendName_rawName (done : List Part) (part : Part) :
    extendName (rawName (done.map label)) part.label = rawName ((done ++ [part]).map label) := by
  rw [List.map_append]
  exact (rawName_append _ _).symm

/-- In an empty forest a route becomes a root, whatever was taken of its parts. -/
theorem place_nil (route : Route) :
    ∀ (parts : List Part) (labels : List String) (own : List Part),
      place route (Part.rawName labels) (Part.rawPath own) parts [] =
        [.node (route.built (labels ++ parts.map Part.label) (own ++ parts)) []]
  | [], labels, own => by
    rw [List.map_nil, List.append_nil, List.append_nil]
    rfl
  | part :: parts, labels, own => by
    have ih := place_nil route parts (labels ++ [part.label]) (own ++ [part])
    rw [Part.rawName_append, Part.rawPath_append, List.append_assoc, List.append_assoc] at ih
    exact ih

variable {layout : Route} {part : Part}

theorem Part.sound_upTo {init more : List Part} (h : ∀ p ∈ init ++ part :: more, p.Sound) :
    ∀ p ∈ init ++ [part], p.Sound := by
  intro p hp
  apply h p
  rcases List.mem_append.1 hp with hp | hp
  · exact List.mem_append_left _ hp
  · simp [List.mem_singleton.1 hp]

/-- The page is found with the parts up to the given one. -/
def Route.FoundBy (layout : Route) (init : List Part) (part : Part) : Prop :=
  layout.name = some (Part.rawName ((init ++ [part]).map Part.label)) ∧
    layout.path = layoutPath (Part.rawPath init) part

/-- The labels of parts are known by the name they build. -/
theorem Part.map_label_eq_of_rawName {parts qs : List Part} (hp : ∀ p ∈ parts, p.Sound)
    (hq : ∀ q ∈ qs, q.Sound) (h : rawName (parts.map label) = rawName (qs.map label)) :
    parts.map label = qs.map label :=
  rawName_injective (forall_mem_map_label hp) (forall_mem_map_label hq) h

instance (layout : Route) (init : List Part) (part : Part) : Decidable (layout.FoundBy init part) :=
  inferInstanceAs (Decidable (_ ∧ _))

/-- One part next to a single page: the rest goes under the page if the part finds it. -/
theorem place_cons (route : Route) (done : List Part) (part : Part) (parts : List Part) :
    place route (Part.rawName (done.map Part.label)) (Part.rawPath done) (part :: parts)
        [.node layout []] =
      if layout.FoundBy done part then
        [.node layout [.node
          (route.built ((done ++ part :: parts).map Part.label) parts) []]]
      else
        place route (Part.rawName ((done ++ [part]).map Part.label)) (Part.rawPath (done ++ [part]))
          parts [.node layout []] := by
  have name := Part.extendName_rawName done part
  have asked : layout.isLayout (Part.rawName ((done ++ [part]).map Part.label))
      (layoutPath (Part.rawPath done) part) = decide (layout.FoundBy done part) := by
    rw [Bool.eq_iff_iff, decide_eq_true_iff]
    unfold Route.isLayout Route.FoundBy
    rw [Bool.and_eq_true, beq_iff_eq, beq_iff_eq]
  conv_lhs => unfold place
  rw [name, Part.rawPath_append]
  by_cases found : layout.FoundBy done part
  · have below := place_nil route parts ((done ++ [part]).map Part.label) []
    rw [List.nil_append, ← List.map_append, List.append_assoc, List.singleton_append] at below
    simp only [List.findIdx?_singleton, Tree.label, asked, found, decide_true, if_true]
    exact congrArg (fun forest => [Tree.node layout forest]) below
  · simp only [List.findIdx?_singleton, Tree.label, asked, found, decide_false, if_false,
      Bool.false_eq_true]

/-- **A route goes under the page** that its first parts find. -/
theorem place_under (route : Route) {part : Part} {more : List Part} :
    ∀ (init done : List Part), (∀ p ∈ done ++ init ++ part :: more, p.Sound) →
      layout.FoundBy (done ++ init) part →
      place route (Part.rawName (done.map Part.label)) (Part.rawPath done) (init ++ part :: more)
          [.node layout []] =
        [.node layout [.node
          (route.built ((done ++ init ++ part :: more).map Part.label) more) []]]
  | [], done, _, found => by
    rw [List.append_nil] at found
    rw [List.nil_append, place_cons, if_pos found, List.append_nil]
  | first :: init, done, sound, found => by
    -- fewer labels make another name
    have early : ¬layout.FoundBy done first := by
      intro h
      have sound' : ∀ p ∈ done ++ first :: (init ++ part :: more), p.Sound := by simpa using sound
      have same := Part.map_label_eq_of_rawName (Part.sound_upTo sound) (Part.sound_upTo sound')
        (Option.some.inj (found.1.symm.trans h.1))
      have length := congrArg List.length same
      simp at length
    have split : done ++ first :: init = done ++ [first] ++ init := by simp
    rw [split] at sound found
    rw [List.cons_append, place_cons, if_neg early, split]
    exact place_under route init (done ++ [first]) sound found

/-- A route becomes a root beside the page if none of its parts finds it. -/
theorem place_beside (route layout : Route) :
    ∀ (parts done : List Part),
      (∀ init part more, parts = init ++ part :: more → ¬layout.FoundBy (done ++ init) part) →
      place route (Part.rawName (done.map Part.label)) (Part.rawPath done) parts
          [.node layout []] =
        [.node layout [], .node (route.built ((done ++ parts).map Part.label) (done ++ parts)) []]
  | [], done, _ => by
    rw [List.append_nil]
    rfl
  | first :: parts, done, apart => by
    have here := apart [] first parts rfl
    rw [List.append_nil] at here
    have further : ∀ init part more, parts = init ++ part :: more →
        ¬layout.FoundBy (done ++ [first] ++ init) part := by
      intro init part more split
      have below := apart (first :: init) part more (by rw [split]; rfl)
      rwa [List.append_assoc]
    rw [place_cons, if_neg here, place_beside route layout parts (done ++ [first]) further]
    simp

/-! ## Forests of two pages -/

/-- One page is the only root, and the other its only child. -/
def Forest.Nested (upper lower : PageFile) (forest : Forest Route) : Prop :=
  ∃ root child, forest = [.node root [.node child []]] ∧
    root.file = some upper.file ∧ child.file = some lower.file

/-- Both pages are roots. -/
def Forest.Beside (first second : PageFile) (forest : Forest Route) : Prop :=
  ∃ a b, forest = [.node a [], .node b []] ∧
    a.file = some first.file ∧ b.file = some second.file

/-- Some part of the second page finds the first: it has the labels of the first page up to there,
and asks for its path. -/
def Part.Finds (parts further : List Part) : Prop :=
  ∃ init part more, further = init ++ part :: more ∧
    parts.map label = (init ++ [part]).map label ∧ rawPath parts = layoutPath (rawPath init) part

/-- Of two pages either one is placed first. -/
theorem byLength_pair {pages : List PageFile} {a b : PageFile} (both : pages.Perm [a, b]) :
    byLength pages = [a, b] ∨ byLength pages = [b, a] :=
  List.perm_pair.1 ((List.mergeSort_perm pages _).trans both)

/-- Of two pages the one with the shorter path is placed first. -/
theorem byLength_of_shorter {pages : List PageFile} {a b : PageFile} (both : pages.Perm [a, b])
    (shorter : a.relative.utf8ByteSize < b.relative.utf8ByteSize) : byLength pages = [a, b] := by
  rcases byLength_pair both with sorted | sorted
  · exact sorted
  · have ordered := (stableOrder_byLength pages).ascending
    rw [sorted, List.pairwise_pair] at ordered
    exact absurd shorter (Nat.not_lt.2 ordered)

/-- The route of a page before it is placed. -/
def PageFile.seed (serverComponents : Bool) (page : PageFile) : Route :=
  { file := some page.file, mode := (FileName.segments serverComponents page.relative).2 }

/-- Inserting a page places its route by its parts, if there are any. -/
theorem insertFile_fst (serverComponents : Bool) (page : PageFile)
    (state : Forest Route × Diagnostics) :
    (insertFile serverComponents state page).1 =
      match page.parts? serverComponents with
      | some parts => place (page.seed serverComponents) "" "" parts state.1
      | none => state.1 := by
  unfold insertFile PageFile.parts?
  simp only
  cases tokenizeAll (FileName.segments serverComponents page.relative).1 with
  | error error => rfl
  | ok tokens => rfl

/-- **The forest of two pages**: the later page is under the earlier one if its parts find it, and
otherwise beside it. -/
theorem buildForest_pair {serverComponents : Bool} {pages : List PageFile} {a b : PageFile}
    {parts further : List Part} (sorted : byLength pages = [a, b])
    (ha : a.parts? serverComponents = some parts) (hb : b.parts? serverComponents = some further) :
    (Part.Finds parts further → Forest.Nested a b (buildForest serverComponents pages).1) ∧
      (¬Part.Finds parts further → Forest.Beside a b (buildForest serverComponents pages).1) := by
  have sound := a.sound_parts ha
  have sound' := b.sound_parts hb
  let upper := (a.seed serverComponents).built (parts.map Part.label) parts
  let second := b.seed serverComponents
  have root : place (a.seed serverComponents) "" "" parts [] = [.node upper []] :=
    place_nil (a.seed serverComponents) parts [] []
  have built : (buildForest serverComponents pages).1 =
      finish (place second "" "" further [.node upper []]) := by
    unfold buildForest
    rw [sorted]
    simp only [List.foldl_cons, List.foldl_nil, insertFile_fst, ha, hb, root]
    rfl
  rw [built]
  constructor
  · rintro ⟨init, part, more, rfl, labels, asked⟩
    have found : upper.FoundBy init part := by
      refine ⟨?_, asked⟩
      rw [← labels]
      rfl
    exact ⟨_, _, congrArg finish (place_under second init [] sound' found), rfl, rfl⟩
  · intro apart
    have unfound : ∀ init part more, further = init ++ part :: more → ¬upper.FoundBy init part := by
      rintro init part more rfl ⟨name, asked⟩
      exact apart ⟨init, part, more, rfl,
        Part.map_label_eq_of_rawName sound (Part.sound_upTo sound') (Option.some.inj name), asked⟩
    have beside := place_beside second upper further [] unfound
    rw [List.map_nil, List.nil_append] at beside
    exact ⟨_, _, congrArg finish beside, rfl, rfl⟩

end FileRoutes
