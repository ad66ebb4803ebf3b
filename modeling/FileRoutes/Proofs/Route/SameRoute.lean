import FileRoutes.Proofs.Route.Duplicates
import FileRoutes.Proofs.Route.Planted

/-!
# Pages of one route

The same page may be there in two files, with two extensions or in two modes. Nothing keeps the second
of them from being put below the first, where it has the empty path, as the first page's own view.

* `PageFile.SameRoute`: pages with the same parts.
* `PageFile.Answers`: a page that the pages under it find, itself among them.
* `Planted.Settled.child_of_sameRoute`: a page below another one of the same route is its child, with
  an empty path.
* `buildForest_sameRoute_pair`: the forest of two pages of one route.
* `sameRoute_buildForest`: what becomes of the pages of one route in any forest, and which of them are
  warned of.
* `not_forall_sameRoute`: a page in two files, of which one disappears below the other.
-/

namespace FileRoutes

variable {serverComponents : Bool}

/-! ## Pages with the same parts -/

namespace PageFile

/-- Both pages are accepted, and their segments that count have the same labels and the same compiled
texts. -/
def SameRoute (serverComponents : Bool) (a b : PageFile) : Prop :=
  ∃ parts, a.parts? serverComponents = some parts ∧ b.parts? serverComponents = some parts

/-- The last part of the page is one with which it is found by the pages under it. -/
def Answers (serverComponents : Bool) (page : PageFile) : Prop :=
  ∃ init part, page.parts? serverComponents = some (init ++ [part]) ∧ part.Answers

end PageFile

/-- A page is found by another one of its own route if its last part answers. -/
theorem PageFile.finds_iff_answers {page : PageFile} {parts : List Part}
    (h : page.parts? serverComponents = some parts) :
    Part.Finds parts parts ↔ page.Answers serverComponents := by
  have sound := page.sound_parts h
  constructor
  · rintro ⟨init, part, more, split, labels, asked⟩
    -- as many labels as parts, so nothing is left
    have length := congrArg List.length labels
    rw [split] at length
    have none : more = [] := List.length_eq_zero_iff.1 (by simpa using length)
    rw [none] at split
    rw [split] at h sound asked
    obtain ⟨hinit, hpart⟩ := List.forall_mem_append.1 sound
    have asks := Part.layoutPath_eq_rawPath_iff hinit (hpart part List.mem_cons_self)
    exact ⟨init, part, h, asks.1 asked.symm⟩
  · rintro ⟨init, part, h', answers⟩
    obtain rfl : parts = init ++ [part] := Option.some.inj (h.symm.trans h')
    obtain ⟨hinit, hpart⟩ := List.forall_mem_append.1 sound
    have asks := Part.layoutPath_eq_rawPath_iff hinit (hpart part List.mem_cons_self)
    exact ⟨init, part, [], rfl, rfl, (asks.2 answers).symm⟩

/-- **Two pages of one route are parent and child exactly if their last part answers**, and two roots
otherwise. -/
theorem buildForest_sameRoute_pair {pages : List PageFile} {a b : PageFile}
    (sorted : byLength pages = [a, b]) (same : a.SameRoute serverComponents b) :
    (a.Answers serverComponents → Forest.Nested a b (buildForest serverComponents pages).1) ∧
      (¬a.Answers serverComponents →
        Forest.Beside a b (buildForest serverComponents pages).1) := by
  obtain ⟨parts, ha, hb⟩ := same
  rw [← PageFile.finds_iff_answers ha]
  exact buildForest_pair sorted ha hb

/-! ## Below a page of the same route -/

theorem Tree.Each.own_ne_nil {above : List String} {t : Tree Planted}
    (h : t.Each (Planted.Settled serverComponents) above) {u : Tree Planted}
    (hu : u ∈ t.children) : t.label.own ≠ [] := by
  obtain ⟨p, children⟩ := t
  exact (h.1.hosts u hu).own_ne_nil

mutual

theorem Tree.exists_each_of_mem_subtrees {above : List String} {t : Tree Planted} :
    ∀ u : Tree Planted, u.Each (Planted.Settled serverComponents) above → t ∈ u.subtrees →
      ∃ below, t.Each (Planted.Settled serverComponents) below ∧ above.length ≤ below.length
  | .node p children, h, ht => by
    rw [Tree.subtrees] at ht
    rcases List.mem_cons.1 ht with rfl | ht
    · exact ⟨above, h, Nat.le_refl _⟩
    · obtain ⟨below, settled, length⟩ := Forest.exists_each_of_mem_subtrees children h.2 ht
      have upper : above.length ≤ p.labels.length := by
        rw [← h.1.above, Planted.labels, List.map_append, List.length_append]
        exact Nat.le_add_right _ _
      exact ⟨below, settled, Nat.le_trans upper length⟩

/-- Each tree of a forest settles below some labels, and further down these are not fewer. -/
theorem Forest.exists_each_of_mem_subtrees {above : List String} {t : Tree Planted} :
    ∀ forest : Forest Planted, Forest.Each (Planted.Settled serverComponents) above forest →
      t ∈ Forest.subtrees forest →
        ∃ below, t.Each (Planted.Settled serverComponents) below ∧ above.length ≤ below.length
  | [], _, ht => absurd ht List.not_mem_nil
  | u :: us, ⟨hu, hus⟩, ht => by
    rw [Forest.subtrees] at ht
    rcases List.mem_append.1 ht with ht | ht
    · exact Tree.exists_each_of_mem_subtrees u hu ht
    · exact Forest.exists_each_of_mem_subtrees us hus ht

end

/-- **A page below another one of its route** is its child, it has the empty path and no children, and
the last part of both answers. -/
theorem Tree.Each.child_of_sameRoute {above : List String} {t d : Tree Planted}
    (settled : t.Each (Planted.Settled serverComponents) above)
    (hd : d ∈ Forest.subtrees t.children)
    (same : t.label.page.SameRoute serverComponents d.label.page) :
    d ∈ t.children ∧ d.children = [] ∧ d.label.route.path = "" ∧
      t.label.page.Answers serverComponents := by
  obtain ⟨p, children⟩ := t
  obtain ⟨parts, hp, hq⟩ := same
  obtain ⟨node, below⟩ := settled
  have own : parts = p.taken ++ p.own := Option.some.inj (hp.symm.trans node.parts)
  have labels : p.labels.length = parts.length := by rw [own, Planted.labels, List.length_map]
  -- the page takes as many parts on its way down as there are labels above it
  have bound {labels : List String} (hq' : d.Each (Planted.Settled serverComponents) labels) :
      labels.length + d.label.own.length = parts.length ∧
        parts = d.label.taken ++ d.label.own := by
    obtain ⟨q, more⟩ := d
    have split : parts = q.taken ++ q.own := Option.some.inj (hq.symm.trans hq'.1.parts)
    refine ⟨?_, split⟩
    rw [← hq'.1.above, List.length_map, split, List.length_append]
    rfl
  rcases Forest.mem_subtrees_iff.1 hd with child | ⟨u, hu, deeper⟩
  · have here := Forest.each_of_mem below child
    obtain ⟨length, split⟩ := bound here
    have bare : d.label.own = [] := List.length_eq_zero_iff.1 (by omega)
    refine ⟨child, ?_, node.bare d child bare, ?_⟩
    · rw [List.eq_nil_iff_forall_not_mem]
      exact fun v hv => here.own_ne_nil hv bare
    · obtain ⟨init, part, led, asked⟩ := node.hosts d child
      rw [bare, List.append_nil] at split
      rw [← split, own, List.drop_left] at led
      have sound := p.page.sound_parts node.parts
      have hinit : ∀ q ∈ init, q.Sound := fun q hq => sound q (by simp [led, hq])
      have hpart : part.Sound := sound part (by simp [led])
      have answers : part.Answers := by
        rw [led] at asked
        exact (Part.layoutPath_eq_rawPath_iff hinit hpart).1 asked.symm
      refine ⟨p.taken ++ init, part, ?_, answers⟩
      rw [List.append_assoc, ← led]
      exact node.parts
  · -- further down more parts are taken than there are
    have upper := Forest.each_of_mem below hu
    obtain ⟨q, more⟩ := u
    obtain ⟨further, hq', length⟩ := Forest.exists_each_of_mem_subtrees more upper.2 deeper
    obtain ⟨total, -⟩ := bound hq'
    have ne : q.own ≠ [] := by
      rcases Forest.mem_subtrees_iff.1 deeper with hd | ⟨v, hv, -⟩
      · exact upper.own_ne_nil hd
      · exact upper.own_ne_nil hv
    have longer : p.labels.length < q.labels.length := by
      rw [← upper.1.above, Planted.labels, List.length_map, List.length_map, List.length_append]
      exact Nat.lt_add_of_pos_right (List.length_pos_iff.2 ne)
    omega

/-! ## Names of pages of one route -/

section Stands

variable {s t : Tree Planted}

theorem Planted.file_of_stands
    (h : t.label.page.Stands serverComponents (t.map Planted.route)) :
    t.label.route.file = some t.label.page.file := by
  have file := h.file
  rwa [Tree.label_map] at file

theorem Planted.name_of_stands
    (h : t.label.page.Stands serverComponents (t.map Planted.route)) :
    ∃ labels, FileName.labels? t.label.page.relative = some labels ∧
      t.label.route.name =
        if Route.finalizeName ("/".intercalate labels) = "" ∨
            ∃ child ∈ t.children, child.label.route.path = "" then none
        else some (Route.finalizeName ("/".intercalate labels)) := by
  obtain ⟨labels, found, name⟩ := h.name
  refine ⟨labels, found, ?_⟩
  rw [Tree.label_map, Tree.children_map] at name
  simp only [List.mem_map, exists_exists_and_eq_and, Tree.label_map] at name
  exact name

/-- Pages of one route have one name, unless a child with an empty path takes it from one of them. -/
theorem PageFile.SameRoute.name_eq
    (same : s.label.page.SameRoute serverComponents t.label.page)
    (hs : s.label.page.Stands serverComponents (s.map Planted.route))
    (ht : t.label.page.Stands serverComponents (t.map Planted.route))
    (uncovered : ∀ child ∈ s.children ++ t.children, child.label.route.path ≠ "") :
    s.label.route.name = t.label.route.name := by
  obtain ⟨parts, hp, hq⟩ := same
  obtain ⟨labels, found, name⟩ := Planted.name_of_stands hs
  obtain ⟨labels', found', name'⟩ := Planted.name_of_stands ht
  rw [FileName.labels?_eq serverComponents, hp] at found
  rw [FileName.labels?_eq serverComponents, hq, found] at found'
  obtain rfl := Option.some.inj found'
  have bare {children : Forest Planted} (h : ∀ child ∈ children, child.label.route.path ≠ "") :
      ¬∃ child ∈ children, child.label.route.path = "" := by
    rintro ⟨child, hc, empty⟩
    exact h child hc empty
  obtain ⟨left, right⟩ := List.forall_mem_append.1 uncovered
  rw [name, name']
  simp only [bare left, bare right, or_false]

end Stands

/-- **What becomes of the pages of one route.** Any forest is a forest of the accepted pages, one for
one.

A page below another one of the same route is its child with an empty path, and then the other one
has no name; this happens only if the last part of both answers. Two pages of one route and one mode
that have no children with empty paths have one name, and if there is one, the later page is warned of
with it against an earlier one that has both, too.

Of just two pages of one route, the earlier one is the parent of the other if their last part answers,
and both are roots otherwise. -/
theorem sameRoute_buildForest (serverComponents : Bool) (pages : List PageFile) :
    ∃ forest : Forest Planted,
      Forest.map Planted.route forest = (buildForest serverComponents pages).1 ∧
      ((Forest.preorder forest).map Planted.page).Perm (pages.filter PageFile.accepted) ∧
      (∀ t ∈ Forest.subtrees forest,
        t.label.page.Stands serverComponents (t.map Planted.route)) ∧
      (∀ t ∈ Forest.subtrees forest, ∀ d ∈ Forest.subtrees t.children,
        t.label.page.SameRoute serverComponents d.label.page →
          d ∈ t.children ∧ d.children = [] ∧ d.label.route.path = "" ∧
            t.label.route.name = none ∧ t.label.page.Answers serverComponents) ∧
      (∀ s t, [s, t].Sublist (Forest.subtrees forest) →
        s.label.page.SameRoute serverComponents t.label.page →
        s.label.route.mode = t.label.route.mode →
        (∀ child ∈ s.children ++ t.children, child.label.route.path ≠ "") →
          s.label.route.name = t.label.route.name ∧
          ∀ name, t.label.route.name = some name →
            ∃ u, [u, t].Sublist (Forest.subtrees forest) ∧
              u.label.route.carries name t.label.route.mode = true ∧
              .duplicateName name t.label.route.mode (some t.label.page.file)
                  (some u.label.page.file) ∈
                (buildForest serverComponents pages).2.warnings) ∧
      ∀ a b, byLength pages = [a, b] → a.SameRoute serverComponents b →
        (a.Answers serverComponents → Forest.Nested a b (buildForest serverComponents pages).1) ∧
        (¬a.Answers serverComponents →
          Forest.Beside a b (buildForest serverComponents pages).1) := by
  obtain ⟨forest, built, settled, perm⟩ := exists_settled serverComponents pages
  have each : ∀ t ∈ Forest.subtrees forest,
      ∃ above, t.Each (Planted.Settled serverComponents) above := by
    intro t ht
    obtain ⟨above, here, -⟩ := Forest.exists_each_of_mem_subtrees forest settled ht
    exact ⟨above, here⟩
  have stands : ∀ t ∈ Forest.subtrees forest,
      t.label.page.Stands serverComponents (t.map Planted.route) := by
    rintro ⟨p, children⟩ ht
    obtain ⟨above, here⟩ := each _ ht
    exact here.1.stands
  refine ⟨forest, built, perm, stands, ?below, ?warned, fun a b => buildForest_sameRoute_pair⟩
  case below =>
    intro t ht d hd same
    obtain ⟨above, here⟩ := each t ht
    obtain ⟨child, bare, empty, answers⟩ := here.child_of_sameRoute hd same
    obtain ⟨labels, -, name⟩ := Planted.name_of_stands (stands t ht)
    rw [if_pos (.inr ⟨d, child, empty⟩)] at name
    exact ⟨child, bare, empty, name, answers⟩
  case warned =>
    intro s t sub same mode uncovered
    obtain ⟨before, rest, split, hm, more⟩ := List.cons_sublist_iff.1 sub
    obtain ⟨between, after, rfl⟩ := List.append_of_mem (List.singleton_sublist.1 more)
    rw [← List.append_assoc] at split
    have hs := stands s (sub.subset List.mem_cons_self)
    have ht := stands t (sub.subset (List.mem_cons_of_mem _ List.mem_cons_self))
    have names := same.name_eq hs ht uncovered
    refine ⟨names, fun name named => ?_⟩
    obtain ⟨first, hf, carries, found⟩ := exists_mem_duplicateWarnings
      (after.map fun u => u.label.route)
      (List.mem_map_of_mem (f := fun u => u.label.route) (List.mem_append_left between hm))
      (Route.carries_iff.2 ⟨names.trans named, mode⟩) (Route.carries_iff.2 ⟨named, rfl⟩)
    obtain ⟨u, hu, rfl⟩ := List.mem_map.1 hf
    have earlier : [u, t].Sublist (Forest.subtrees forest) := by
      rw [split]
      exact (List.singleton_sublist.2 hu).append (List.singleton_sublist.2 List.mem_cons_self)
    have hu' := stands u (earlier.subset List.mem_cons_self)
    refine ⟨u, earlier, carries, ?_⟩
    rw [Planted.file_of_stands ht, Planted.file_of_stands hu'] at found
    rw [warnings_buildForest, ← built, Forest.preorder_map, ← Forest.map_label_subtrees,
      List.map_map, split, List.map_append, List.map_cons]
    exact List.mem_append_right _ found

/-- A page with two extensions: the second file goes below the first, and nothing is warned of. -/
theorem not_forall_sameRoute :
    (¬∀ (serverComponents : Bool) (pages : List PageFile) (a b : PageFile),
      (pages.map PageFile.file).Nodup → a ∈ pages → b ∈ pages → a ≠ b →
      a.SameRoute serverComponents b →
        ∀ t ∈ Forest.subtrees (buildForest serverComponents pages).1,
          t.label.file = some a.file →
            ∀ route ∈ Forest.preorder t.children, route.file ≠ some b.file) ∧
    ¬∀ (serverComponents : Bool) (pages : List PageFile) (a b : PageFile),
      (pages.map PageFile.file).Nodup → a ∈ pages → b ∈ pages → a ≠ b →
      a.SameRoute serverComponents b →
      (FileName.segments serverComponents a.relative).2 =
          (FileName.segments serverComponents b.relative).2 →
        ∀ labels, FileName.labels? a.relative = some labels →
          Route.finalizeName ("/".intercalate labels) ≠ "" →
          ∃ page ∈ [a, b], ∃ existing,
            .duplicateName (Route.finalizeName ("/".intercalate labels))
                (FileName.segments serverComponents a.relative).2 (some page.file) existing ∈
              (buildForest serverComponents pages).2.warnings := by
  let a : PageFile := ⟨"a.ts", ⟨"/app/pages/a.ts"⟩⟩
  let b : PageFile := ⟨"a.vue", ⟨"/app/pages/a.vue"⟩⟩
  have sorted : byLength [a, b] = [a, b] := List.mergeSort_of_pairwise (by decide)
  have distinct : ([a, b].map PageFile.file).Nodup := by decide
  have same : a.SameRoute true b :=
    ⟨[⟨"a", "/a"⟩], by decide +kernel, by decide +kernel⟩
  have answers : a.Answers true := ⟨[], ⟨"a", "/a"⟩, by decide +kernel, by decide⟩
  constructor
  · intro h
    obtain ⟨root, child, built, upper, lower⟩ := (buildForest_sameRoute_pair sorted same).1 answers
    have apart := h true [a, b] a b distinct (by simp) (by simp) (by decide) same
    rw [built] at apart
    exact apart (.node root [.node child []]) (by simp [Forest.subtrees, Tree.subtrees]) upper child
      (by simp [Tree.children, Forest.preorder, Tree.preorder]) lower
  · intro h
    have silent : (buildForest true [a, b]).2.warnings = [] := by
      unfold buildForest
      rw [sorted]
      decide +kernel
    obtain ⟨page, -, existing, hm⟩ := h true [a, b] a b distinct (by simp) (by simp) (by decide) same
      (by decide +kernel) ["a"] (by decide +kernel) (by decide +kernel)
    rw [silent] at hm
    cases hm

end FileRoutes
