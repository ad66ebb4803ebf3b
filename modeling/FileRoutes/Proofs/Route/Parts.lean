import FileRoutes.Proofs.Segment.Piece
import FileRoutes.Route.Build

/-!
# Parts of routes

The parts of a page file build the name and the path of its route one by one. Names and paths can be
taken apart again: a name into the labels, a path into the pieces of the parts that are no index.

* `Part.Sound`: what holds of the parts that segments give (`Part.sound_ofSegments`).
* `Part.trail`: the pieces that parts add to a path, none for an index.
* `Part.toList_rawPath`, `Part.rawName_injective`: a path by its trail, and the labels by their name.
* `Part.toList_layoutPath_spec`: the path by which a page is asked for.
* `Part.trail_eq_of_layout`: a route that is taken for the page of some parts has their trail.
-/

namespace FileRoutes

open Url (Clean slashed rooted joinChars)

namespace Part

variable {part : Part} {parts done qs : List Part}

/-! ## Sound parts -/

/-- What a part adds to a path, without the slash before it. -/
def piece (part : Part) : List Char := part.path.toList.tail

/-- The label is a name without slashes, the path a clean piece behind a slash, and a path that looks
like that of an index page is one. -/
structure Sound (part : Part) : Prop where
  label_ne : part.label ≠ ""
  slashless : '/' ∉ part.label.toList
  path_eq : part.path.toList = '/' :: part.piece
  clean : Clean part.piece
  index : part.path = "/index" → part.label = Url.indexWord

/-- The path of a part is a spine of one piece. -/
theorem Sound.path_slashed (h : part.Sound) : part.path.toList = slashed [part.piece] := by
  rw [h.path_eq, Url.slashed_cons, Url.slashed_nil, List.append_nil]

theorem sound_mk {tokens : List Segment.Token} (sound : ∀ token ∈ tokens, token.Sound)
    (trace : Segment.transparent tokens = false) (followed : Bool) :
    Sound ⟨Segment.label tokens, Segment.compile tokens followed⟩ := by
  have path := Segment.toList_compile tokens followed
  have here : piece ⟨Segment.label tokens, Segment.compile tokens followed⟩ =
      Segment.piece tokens followed := by
    unfold piece
    rw [path]
    rfl
  refine ⟨Segment.label_ne_empty sound trace, Segment.slashless_label sound, ?_, ?_, fun index => ?_⟩
  · rw [here]
    exact path
  · rw [here]
    exact Segment.clean_piece sound trace followed
  · -- none of the letters of the word has a special meaning
    have word : Segment.piece tokens followed = Url.indexWord.toList := by
      have := congrArg String.toList index
      rw [path] at this
      exact (List.cons.inj this).2
    have plain : ∀ c ∈ Segment.piece tokens followed, c ≠ ':' ∧ c ≠ '\\' ∧ c ≠ '%' := by
      rw [word]
      simp [Url.indexWord]
    exact String.toList_injective ((Segment.label_of_piece followed plain).trans word)

/-- **The parts of segments with sound tokens are sound.** -/
theorem sound_ofSegments :
    ∀ {segments : List Segment.Tokens},
      (∀ segment ∈ segments, ∀ token ∈ segment.tokens, token.Sound) →
        ∀ part ∈ ofSegments segments, part.Sound
  | [], _, part, hm => absurd hm List.not_mem_nil
  | segment :: rest, h, part, hm => by
    have ih := sound_ofSegments fun s hs => h s (List.mem_cons_of_mem _ hs)
    unfold ofSegments at hm
    split at hm
    · exact ih part hm
    · rename_i trace
      rcases List.mem_cons.1 hm with rfl | hm
      · exact sound_mk (h segment List.mem_cons_self) (Bool.eq_false_iff.2 trace) _
      · exact ih part hm

/-! ## Trails -/

/-- The pieces that parts add to a path; an index adds none. -/
def trail (parts : List Part) : List (List Char) :=
  (parts.filter fun part => part.label ≠ Url.indexWord).map piece

theorem trail_append (parts more : List Part) : trail (parts ++ more) = trail parts ++ trail more := by
  unfold trail
  rw [List.filter_append, List.map_append]

theorem trail_index (h : part.label = Url.indexWord) : trail [part] = [] := by
  simp [trail, h]

theorem trail_singleton (h : part.label ≠ Url.indexWord) : trail [part] = [part.piece] := by
  simp [trail, h]

theorem clean_trail (h : ∀ part ∈ parts, part.Sound) : ∀ p ∈ trail parts, Clean p := by
  intro p hp
  obtain ⟨part, hm, rfl⟩ := List.mem_map.1 hp
  exact (h part (List.mem_of_mem_filter hm)).clean

/-- The length of a trail is known by the labels. -/
theorem length_trail (parts : List Part) :
    (trail parts).length = (parts.map Part.label).countP fun label => label ≠ Url.indexWord := by
  unfold trail
  rw [List.length_map, List.countP_map, List.countP_eq_length_filter]
  rfl

/-! ## Paths -/

/-- The path that parts build, before it takes its final form. -/
def rawPath (parts : List Part) : String := parts.foldl extendPath ""

theorem rawPath_append (parts : List Part) (part : Part) :
    rawPath (parts ++ [part]) = extendPath (rawPath parts) part := by
  unfold rawPath
  rw [List.foldl_append]
  rfl

theorem toList_join (base input : String) :
    (Url.join base input).toList = joinChars base.toList input.toList := String.toList_ofList

/-- What parts build is a spine to which more can be joined. -/
theorem slashed_or_rooted {built : List Char}
    (h : built = if parts = [] then [] else rooted (slashed (trail parts))) :
    built = slashed (trail parts) ∨ built = rooted (slashed (trail parts)) := by
  split at h
  · rename_i none
    left
    rw [h, none]
    rfl
  · exact Or.inr h

/-- **The path of parts is the path of their trail**; it is empty only before the first part. -/
theorem toList_rawPath (h : ∀ part ∈ parts, part.Sound) :
    (rawPath parts).toList = if parts = [] then [] else rooted (slashed (trail parts)) := by
  induction parts using List.reverseRecOn with
  | nil => rfl
  | append_singleton parts part ih =>
    have hparts : ∀ p ∈ parts, p.Sound := fun p hp => h p (List.mem_append_left _ hp)
    have hpart : part.Sound := h part (List.mem_append_right _ (List.mem_singleton_self _))
    have ih := ih hparts
    rw [if_neg (List.append_ne_nil_of_right_ne_nil _ (List.cons_ne_nil _ _)), rawPath_append,
      trail_append]
    unfold extendPath
    split
    · rename_i index
      rw [trail_index index, List.append_nil]
      split
      · rename_i empty
        rw [empty] at ih
        split at ih
        · rename_i none
          rw [none]
          rfl
        · have := Url.head?_rooted_slashed (trail parts)
          rw [← ih] at this
          cases this
      · rename_i nonempty
        rw [ih, if_neg]
        rintro rfl
        exact nonempty rfl
    · rename_i named
      have base := slashed_or_rooted ih
      rw [toList_join, hpart.path_slashed, Url.joinChars_slashed base (clean_trail hparts)
        (List.forall_mem_singleton.2 hpart.clean) (List.cons_ne_nil _ _), trail_singleton named,
        Url.rooted_slashed_of_ne_nil (List.append_ne_nil_of_right_ne_nil _ (List.cons_ne_nil _ _))]

/-! ## Names -/

/-- The name that labels build, before it takes its final form. -/
def rawName (labels : List String) : String := labels.foldl extendName ""

theorem rawName_append (labels : List String) (label : String) :
    rawName (labels ++ [label]) = extendName (rawName labels) label := by
  unfold rawName
  rw [List.foldl_append]
  rfl

/-- A name of labels that are not empty is not empty itself. -/
theorem eq_nil_of_rawName_eq_empty {labels : List String} (h : ∀ label ∈ labels, label ≠ "")
    (spine : slashed (labels.map String.toList) =
      if labels = [] then [] else '/' :: (rawName labels).toList)
    (empty : rawName labels = "") : labels = [] := by
  cases labels with
  | nil => rfl
  | cons first rest =>
    rw [if_neg (List.cons_ne_nil _ _), empty, List.map_cons, Url.slashed_cons] at spine
    have blank := (List.append_eq_nil_iff.1 (List.cons.inj spine).2).1
    exact absurd (String.toList_eq_nil_iff.1 blank) (h first List.mem_cons_self)

/-- **A name is the spine of its labels**, without the slash in front. -/
theorem slashed_labels {labels : List String} (h : ∀ label ∈ labels, label ≠ "") :
    slashed (labels.map String.toList) =
      if labels = [] then [] else '/' :: (rawName labels).toList := by
  induction labels using List.reverseRecOn with
  | nil => rfl
  | append_singleton labels label ih =>
    have hlabels : ∀ l ∈ labels, l ≠ "" := fun l hl => h l (List.mem_append_left _ hl)
    have ih := ih hlabels
    have filled := mt (eq_nil_of_rawName_eq_empty hlabels ih)
    rw [if_neg (List.append_ne_nil_of_right_ne_nil _ (List.cons_ne_nil _ _)), rawName_append,
      List.map_append, Url.slashed_append, ih]
    unfold extendName
    cases labels with
    | nil => simp [rawName]
    | cons first rest =>
      rw [if_neg (List.cons_ne_nil _ _), if_neg (filled (List.cons_ne_nil _ _))]
      simp

/-- **The labels are known by their name.** -/
theorem rawName_injective {a b : List String} (ha : ∀ label ∈ a, label ≠ "" ∧ '/' ∉ label.toList)
    (hb : ∀ label ∈ b, label ≠ "" ∧ '/' ∉ label.toList) (h : rawName a = rawName b) : a = b := by
  have nonempty {labels : List String} (hl : ∀ label ∈ labels, label ≠ "" ∧ '/' ∉ label.toList) :
      ∀ label ∈ labels, label ≠ "" := fun label hm => (hl label hm).1
  have slashless {labels : List String} (hl : ∀ label ∈ labels, label ≠ "" ∧ '/' ∉ label.toList) :
      ∀ text ∈ labels.map String.toList, '/' ∉ text := by
    intro text ht
    obtain ⟨label, hm, rfl⟩ := List.mem_map.1 ht
    exact (hl label hm).2
  have spineA := slashed_labels (nonempty ha)
  have spineB := slashed_labels (nonempty hb)
  by_cases empty : a = []
  · have none : rawName b = "" := by
      rw [← h, empty]
      rfl
    rw [empty, eq_nil_of_rawName_eq_empty (nonempty hb) spineB none]
  · have more : b ≠ [] := by
      intro none
      refine empty (eq_nil_of_rawName_eq_empty (nonempty ha) spineA ?_)
      rw [h, none]
      rfl
    have spine : slashed (a.map String.toList) = slashed (b.map String.toList) := by
      rw [spineA, spineB, if_neg empty, if_neg more, h]
    have injective : Function.Injective String.toList := fun _ _ same =>
      String.toList_injective same
    apply List.map_injective_iff.2 injective
    apply Url.slashed_injective ?_ (slashless ha) (slashless hb) spine
    rintro p q rest - hq rfl
    exact hq (List.mem_append_right _ List.mem_cons_self)

/-! ## Layouts -/

/-- A path of clean pieces does not end in a slash unless it is a bare one. -/
theorem rooted_ne_append_slash (h : ∀ part ∈ parts, part.Sound) {before : List Char}
    (hb : before ≠ []) : rooted (slashed (trail parts)) ≠ before ++ ['/'] := by
  intro he
  cases ht : trail parts with
  | nil =>
    rw [ht] at he
    have length := congrArg List.length he
    have positive := List.length_pos_iff.2 hb
    rw [List.length_append] at length
    simp only [Url.slashed_nil, Url.rooted_nil, List.length_singleton] at length
    omega
  | cons p ps =>
    have ne : trail parts ≠ [] := ht ▸ List.cons_ne_nil _ _
    rw [Url.rooted_slashed_of_ne_nil ne] at he
    have last := Url.getLast?_slashed (clean_trail h)
    rw [he] at last
    simp at last

/-- The path of a part in the place of its directory: the path itself, unless it ends like that of an
index page; a bare slash for an index page; or a longer path with a slash at its end. -/
theorem collapseIndexChars_spec (h : part.Sound) :
    (¬Url.indexWord.toList <:+ part.path.toList ∧
        Url.collapseIndexChars part.path.toList = part.path.toList) ∨
      (part.path = "/index" ∧ Url.collapseIndexChars part.path.toList = ['/']) ∨
        (part.path ≠ "/index" ∧ Url.indexWord.toList <:+ part.path.toList) ∧
          ∃ c stem, c ≠ '/' ∧
            Url.collapseIndexChars part.path.toList = '/' :: c :: (stem ++ ['/']) := by
  unfold Url.collapseIndexChars
  split
  · rename_i rest hrest
    have path := Text.stripSuffix?_eq_some_iff.1 hrest
    have slash := h.path_eq.symm.trans path
    rcases rest with - | ⟨d, rest⟩
    · cases slash
    obtain ⟨rfl, piece⟩ := List.cons.inj slash
    right
    rcases rest with - | ⟨c, rest⟩
    · left
      refine ⟨String.toList_injective ?_, rfl⟩
      rw [path]
      rfl
    · right
      have hc : c ≠ '/' := by
        have head := h.clean.head
        rw [piece] at head
        simpa using head
      refine ⟨⟨?_, '/' :: c :: rest, path.symm⟩, c, ?_⟩
      · intro index
        have length := congrArg List.length (path.symm.trans (congrArg String.toList index))
        simp [Url.indexWord] at length
      cases hs : Text.stripSuffix? ['/'] ('/' :: c :: rest) with
      | none => exact ⟨rest, hc, rfl⟩
      | some stem =>
        have stem_eq := Text.stripSuffix?_eq_some_iff.1 hs
        rcases stem with - | ⟨d, stem⟩
        · simp at stem_eq
        obtain ⟨rfl, inner⟩ := List.cons.inj stem_eq
        rcases stem with - | ⟨d, stem⟩
        · exact absurd (List.cons.inj inner).1 hc
        · obtain ⟨rfl, -⟩ := List.cons.inj inner
          exact ⟨stem, hc, rfl⟩
  · rename_i plain
    left
    refine ⟨fun ⟨rest, path⟩ => ?_, rfl⟩
    rw [← path, Text.stripSuffix?_append] at plain
    cases plain

theorem toList_layoutPath (path : String) (part : Part) :
    (layoutPath path part).toList = Url.leadingSlashChars
      (joinChars path.toList (Url.collapseIndexChars part.path.toList)) := by
  unfold layoutPath Url.leadingSlash Url.collapseIndex
  rw [String.toList_ofList, toList_join, String.toList_ofList]

theorem leadingSlashChars_rooted (ps : List (List Char)) :
    Url.leadingSlashChars (rooted (slashed ps)) = rooted (slashed ps) := by
  unfold Url.leadingSlashChars
  rw [if_pos (Url.head?_rooted_slashed ps)]

/-- A joined path ends in a slash if its last part does. -/
theorem exists_leadingSlashChars (base stem : List Char) {c : Char} (hc : c ≠ '/') :
    ∃ before, before ≠ [] ∧ Url.leadingSlashChars
      (joinChars base ('/' :: c :: (stem ++ ['/']))) = before ++ ['/'] := by
  have join : ∃ before, before ≠ [] ∧
      joinChars base ('/' :: c :: (stem ++ ['/'])) = before ++ ['/'] := by
    have filled : ¬('/' :: c :: (stem ++ ['/']) = [] ∨ '/' :: c :: (stem ++ ['/']) = ['/']) := by simp
    have stripped : ('/' :: c :: (stem ++ ['/'])).dropWhile (· == '/') = c :: (stem ++ ['/']) :=
      Url.dropWhile_slash (by simpa using hc)
    unfold joinChars
    rw [if_neg filled, stripped]
    split
    · exact ⟨'/' :: c :: stem, List.cons_ne_nil _ _, rfl⟩
    · refine ⟨base ++ (if base.getLast? = some '/' then [] else ['/']) ++ c :: stem, ?_, ?_⟩
      · exact List.append_ne_nil_of_right_ne_nil _ (List.cons_ne_nil _ _)
      · rw [List.append_assoc _ (c :: stem), List.cons_append]
  obtain ⟨before, hne, hj⟩ := join
  rw [hj]
  unfold Url.leadingSlashChars
  split
  · exact ⟨before, hne, rfl⟩
  · exact ⟨'/' :: before, List.cons_ne_nil _ _, rfl⟩

/-- **The path by which a page is asked for**: that of its trail if nothing about the last part is like
an index page, that of its directory for an index page, and otherwise one that ends in a slash. -/
theorem toList_layoutPath_spec (hdone : ∀ p ∈ done, p.Sound) (hpart : part.Sound) :
    (¬Url.indexWord.toList <:+ part.path.toList ∧
        (layoutPath (rawPath done) part).toList =
          rooted (slashed (trail done ++ [part.piece]))) ∨
      (part.path = "/index" ∧
        (layoutPath (rawPath done) part).toList = rooted (slashed (trail done))) ∨
        (part.path ≠ "/index" ∧ Url.indexWord.toList <:+ part.path.toList) ∧
          ∃ before, before ≠ [] ∧ (layoutPath (rawPath done) part).toList = before ++ ['/'] := by
  have base := toList_rawPath hdone
  rw [toList_layoutPath]
  rcases collapseIndexChars_spec hpart with ⟨plain, kept⟩ | ⟨index, bare⟩ | ⟨longer, c, stem, hc, open_⟩
  · left
    refine ⟨plain, ?_⟩
    have nonempty : trail done ++ [part.piece] ≠ [] :=
      List.append_ne_nil_of_right_ne_nil _ (List.cons_ne_nil _ _)
    have led := leadingSlashChars_rooted (trail done ++ [part.piece])
    rw [Url.rooted_slashed_of_ne_nil nonempty] at led ⊢
    rw [kept, hpart.path_slashed, Url.joinChars_slashed (slashed_or_rooted base)
      (clean_trail hdone) (List.forall_mem_singleton.2 hpart.clean) (List.cons_ne_nil _ _), led]
  · right
    left
    refine ⟨index, ?_⟩
    rw [bare, Url.joinChars_slash, base]
    split
    · rename_i none
      rw [none]
      rfl
    · exact leadingSlashChars_rooted _
  · right
    right
    obtain ⟨before, hne, hb⟩ := exists_leadingSlashChars (rawPath done).toList stem hc
    exact ⟨longer, before, hne, by rw [open_, hb]⟩

/-- **A route that is taken for the page of some parts has their trail.** Its name has the labels of
the parts, and its path is the layout path of the last part. -/
theorem trail_eq_of_layout (hqs : ∀ q ∈ qs, q.Sound) (hdone : ∀ p ∈ done, p.Sound)
    (hpart : part.Sound) (labels : qs.map Part.label = (done ++ [part]).map Part.label)
    (path : rawPath qs = layoutPath (rawPath done) part) : trail qs = trail (done ++ [part]) := by
  have ne : qs ≠ [] := by
    rintro rfl
    simp at labels
  have spine := congrArg String.toList path
  rw [toList_rawPath hqs, if_neg ne] at spine
  have count := length_trail qs
  rw [labels, ← length_trail, trail_append, List.length_append] at count
  rw [trail_append]
  rcases toList_layoutPath_spec hdone hpart with ⟨-, asked⟩ | ⟨index, asked⟩ | ⟨-, before, hne, asked⟩
  · -- the path is that of one part more
    have clean : ∀ p ∈ trail done ++ [part.piece], Clean p := List.forall_mem_append.2
      ⟨clean_trail hdone, List.forall_mem_singleton.2 hpart.clean⟩
    have same := Url.rooted_slashed_injective (clean_trail hqs) clean (spine.trans asked)
    by_cases index : part.label = Url.indexWord
    · -- an index adds no piece, so there would be one piece too many
      rw [trail_index index, same] at count
      simp at count
    · rw [same, trail_singleton index]
  · rw [trail_index (hpart.index index), List.append_nil]
    exact Url.rooted_slashed_injective (clean_trail hqs) (clean_trail hdone) (spine.trans asked)
  · exact absurd (spine.trans asked) (rooted_ne_append_slash hqs hne)

end Part

end FileRoutes
