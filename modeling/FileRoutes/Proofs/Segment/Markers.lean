import FileRoutes.Proofs.Segment.ReadBack

/-!
# Parameters of route paths

What parameters a route path has is read off its text: each colon that no backslash precedes starts
the name of one, and the mark behind the name tells its kind.

* `Segment.kindOf?`, `Segment.marker?`: the parameter whose name and mark a text starts with.
* `Segment.markers`, `Segment.pathParams`: what the unescaped colons of a path start, in order.
* `Segment.reading?`, `Segment.readings`: the same, with which of the two marks a catchall has;
  `Segment.catchalls`: the catchalls of a path with their marks.
* `Segment.readings_fragment`: a token shows itself if it is a parameter, and nothing otherwise.
* `Segment.readings_piece`, `Segment.readings_rooted`: so do the tokens of a segment, and those of
  all segments of a path; `Segment.markers_rooted`, `Segment.catchalls_rooted` are the cases of the
  parameters without the marks, and of the catchalls.
-/

namespace FileRoutes.Segment

open Url (slashed rooted)

variable {token : Token} {previous : Option Char} {a : List Char}

/-! ## Reading -/

/-- The kind of parameter with the mark that a text starts with. -/
def kindOf? (text : List Char) : Option Kind :=
  if "?".toList.isPrefixOf text then some .optional
  else if "()".toList.isPrefixOf text then some .dynamic
  else if "(.*)*".toList.isPrefixOf text || "([^/]*)*".toList.isPrefixOf text then some .catchall
  else none

/-- The parameter with the name and the mark that a text starts with. -/
def marker? (text : List Char) : Option Token :=
  (kindOf? (text.dropWhile isNameChar)).map fun kind =>
    ⟨kind, String.ofList (text.takeWhile isNameChar)⟩

/-- What stands behind each unescaped colon: a parameter, or nothing that could be read as one;
`previous` is the character before the text. -/
def markers (previous : Option Char) : List Char → List (Option Token)
  | [] => []
  | c :: rest =>
    if c = ':' ∧ previous ≠ some '\\' then marker? rest :: markers (some c) rest
    else markers (some c) rest

/-- What stands behind each unescaped colon of a route path. -/
def pathParams (path : String) : List (Option Token) := markers none path.toList

example : pathParams "/at\\:5/:id()-:page?/:rest(.*)*" =
    [some ⟨.dynamic, "id"⟩, some ⟨.optional, "page"⟩, some ⟨.catchall, "rest"⟩] := by
  decide +kernel

/-- The parameter with the name and the mark that a text starts with, and whether the mark is that of
a catchall that stays within its segment. -/
def reading? (text : List Char) : Option (Token × Bool) :=
  (marker? text).map fun token => (token, "([^/]*)*".toList.isPrefixOf (text.dropWhile isNameChar))

/-- What stands behind each unescaped colon, with its mark. -/
def readings (previous : Option Char) : List Char → List (Option (Token × Bool))
  | [] => []
  | c :: rest =>
    if c = ':' ∧ previous ≠ some '\\' then reading? rest :: readings (some c) rest
    else readings (some c) rest

/-- The name of a catchall, and whether it stays within its segment. -/
def catchall? (reading : Option (Token × Bool)) : Option (String × Bool) :=
  reading.bind fun (token, confined) =>
    if token.kind = .catchall then some (token.value, confined) else none

/-- The catchalls of a route path by their names, each with whether it stays within its segment. -/
def catchalls (path : String) : List (String × Bool) :=
  (readings none path.toList).filterMap catchall?

example : catchalls "/at\\:5(.*)*/:lang([^/]*)*/:page?/:rest(.*)*" =
    [("lang", true), ("rest", false)] := by
  decide +kernel

/-- The parameters are those of the readings. -/
theorem map_readings : ∀ (text : List Char) (previous : Option Char),
    (readings previous text).map (Option.map Prod.fst) = markers previous text
  | [], _ => rfl
  | c :: rest, previous => by
    have ih := map_readings rest (some c)
    have read : (reading? rest).map Prod.fst = marker? rest := by simp [reading?, Function.comp_def]
    unfold readings markers
    split
    · rw [List.map_cons, ih, read]
    · exact ih

/-! ## Text without parameters -/

/-- Nothing is read from a text whose colons are all escaped. -/
theorem readings_append (unmarked : marksParam previous a = false) (rest : List Char) :
    readings previous (a ++ rest) = readings (a.getLast?.or previous) rest := by
  induction a generalizing previous with
  | nil => simp
  | cons c a ih =>
    rw [marksParam, Bool.or_eq_false_iff] at unmarked
    have quiet : ¬(c = ':' ∧ previous ≠ some '\\') := by
      simpa using unmarked.1
    rw [List.cons_append, readings, if_neg quiet, ih unmarked.2, getLast?_cons_or]

/-! ## Tokens -/

theorem kindOf?_mark {kind : Kind} (h : kind.isParam = true) (followed : Bool) (rest : List Char) :
    kindOf? (mark followed kind ++ rest) = some kind := by
  cases kind with
  | static => cases h
  | group => cases h
  | dynamic => simp [kindOf?, mark]
  | optional => simp [kindOf?, mark]
  | catchall => cases followed <;> simp [kindOf?, mark]

/-- A parameter as it is read in a path. -/
def Token.reading (followed : Bool) (token : Token) : Option (Token × Bool) :=
  some (token, followed && token.kind == .catchall)

theorem isPrefixOf_mark {kind : Kind} (h : kind.isParam = true) (followed : Bool)
    (rest : List Char) :
    "([^/]*)*".toList.isPrefixOf (mark followed kind ++ rest) = (followed && kind == .catchall) := by
  cases kind with
  | static => cases h
  | group => cases h
  | dynamic => simp [mark, List.isPrefixOf_cons_cons]
  | optional => simp [mark, List.isPrefixOf_cons_cons]
  | catchall => cases followed <;> simp [mark, List.isPrefixOf_cons_cons]

/-- A parameter is read back from its name and its mark. -/
theorem reading?_written (h : token.isParam = true)
    (named : ∀ c ∈ token.value.toList, isNameChar c = true) (followed : Bool) (rest : List Char) :
    reading? (token.value.toList ++ (mark followed token.kind ++ rest)) = token.reading followed := by
  have stop : ∀ c ∈ (mark followed token.kind ++ rest).head?, isNameChar c = false :=
    not_isNameChar_mark h
  have name : (mark followed token.kind ++ rest).takeWhile isNameChar = [] ∧
      (mark followed token.kind ++ rest).dropWhile isNameChar =
        mark followed token.kind ++ rest := by
    cases hm : mark followed token.kind ++ rest with
    | nil => exact ⟨rfl, rfl⟩
    | cons c more =>
      have foreign : ¬isNameChar c = true := by
        rw [stop c (by rw [hm]; rfl)]
        exact Bool.false_ne_true
      exact ⟨List.takeWhile_cons_of_neg foreign, List.dropWhile_cons_of_neg foreign⟩
  unfold reading? marker?
  rw [List.takeWhile_append_of_pos named, List.dropWhile_append_of_pos named, name.1, name.2,
    kindOf?_mark h, List.append_nil, String.ofList_toList, Option.map_some, Option.map_some,
    isPrefixOf_mark h]
  rfl

theorem not_mem_mark (followed : Bool) (kind : Kind) : ':' ∉ mark followed kind := by
  cases kind <;> cases followed <;> simp [mark]

/-- Names and marks have no colons. -/
theorem colonless_written (named : ∀ c ∈ token.value.toList, isNameChar c = true) (followed : Bool) :
    ∀ c ∈ token.value.toList ++ mark followed token.kind, c ≠ ':' := by
  rintro c hc rfl
  rcases List.mem_append.1 hc with hc | hc
  · have name := named _ hc
    revert name
    decide
  · exact not_mem_mark followed token.kind hc

/-- What is read of the parameters among tokens. -/
def shownReadings (followed : Bool) (tokens : List Token) : List (Option (Token × Bool)) :=
  (tokens.filter Token.isParam).map (Token.reading followed)

/-- **A token shows itself in the path if it is a parameter**, and nothing otherwise. -/
theorem readings_fragment (h : previous ≠ some '\\')
    (named : token.kind ≠ .static → ∀ c ∈ token.value.toList, isNameChar c = true)
    (followed : Bool) (rest : List Char) :
    readings previous ((token.fragment followed).toList ++ rest) =
      shownReadings followed [token] ++
        readings ((token.fragment followed).toList.getLast?.or previous) rest := by
  unfold shownReadings
  by_cases param : token.isParam = true
  · have named := named (by rintro literal; simp [Token.isParam, literal, Kind.isParam] at param)
    have quiet := marksParam_of_free (colonless_written named followed) (some ':')
    rw [List.filter_cons_of_pos param, toList_fragment_of_isParam param, List.cons_append, readings,
      if_pos ⟨rfl, h⟩, List.append_assoc, reading?_written param named, ← List.append_assoc,
      readings_append quiet, getLast?_cons_or]
    rfl
  · have quiet : marksParam previous (token.fragment followed).toList = false := by
      rw [marksParam_fragment h]
      exact Bool.eq_false_iff.2 param
    rw [List.filter_cons_of_neg param, readings_append quiet]
    rfl

theorem shownReadings_append (followed : Bool) (a b : List Token) :
    shownReadings followed (a ++ b) = shownReadings followed a ++ shownReadings followed b := by
  unfold shownReadings
  rw [List.filter_append, List.map_append]

/-- **The tokens of a segment show its parameters**, in order. -/
theorem readings_piece (followed : Bool) (rest : List Char) :
    ∀ (tokens : List Token) (previous : Option Char), previous ≠ some '\\' →
      (∀ token ∈ tokens, token.kind ≠ .static → ∀ c ∈ token.value.toList, isNameChar c = true) →
        readings previous (piece tokens followed ++ rest) =
          shownReadings followed tokens ++
            readings ((piece tokens followed).getLast?.or previous) rest
  | [], _, _, _ => rfl
  | token :: tokens, previous, h, named => by
    obtain ⟨here, further⟩ := List.forall_mem_cons.1 named
    have clear : (token.fragment followed).toList.getLast?.or previous ≠ some '\\' := by
      intro last
      rcases Option.or_eq_some_iff.1 last with last | ⟨-, last⟩
      · exact getLast?_fragment token followed last
      · exact h last
    have ih := readings_piece followed rest tokens _ clear further
    unfold piece at ih ⊢
    rw [List.flatMap_cons, List.append_assoc, readings_fragment h here, ih, List.getLast?_append,
      Option.or_assoc, ← List.append_assoc, ← shownReadings_append, List.singleton_append]

/-! ## Paths -/

/-- The names of the parameters have the characters of names only. -/
def Named (placed : List Placed) : Prop :=
  ∀ segment ∈ placed, ∀ token ∈ segment.tokens, token.kind ≠ .static →
    ∀ c ∈ token.value.toList, isNameChar c = true

/-- A spine shows the parameters of its segments. -/
theorem readings_slashed : ∀ (placed : List Placed) (previous : Option Char), Named placed →
    readings previous (slashed (pieces placed)) =
      placed.flatMap fun segment => shownReadings segment.followed segment.tokens
  | [], _, _ => rfl
  | segment :: placed, previous, named => by
    obtain ⟨here, further⟩ := List.forall_mem_cons.1 named
    have ih := readings_slashed placed
      ((piece segment.tokens segment.followed).getLast?.or (some '/')) further
    rw [pieces_cons, Url.slashed_cons, readings, if_neg (by simp),
      readings_piece segment.followed _ segment.tokens _ (by simp) here, ih, List.flatMap_cons]

/-- **The path of a spine shows the parameters of its segments**, each as what it is. -/
theorem readings_rooted (placed : List Placed) (named : Named placed) :
    readings none (rooted (slashed (pieces placed))) =
      placed.flatMap fun segment => shownReadings segment.followed segment.tokens := by
  cases placed with
  | nil => rfl
  | cons segment rest =>
    rw [pieces_cons, Url.rooted_slashed_of_ne_nil (List.cons_ne_nil _ _)]
    exact readings_slashed (segment :: rest) none named

/-- The parameters among the tokens of segments, in order. -/
def params (segments : List (List Token)) : List Token :=
  segments.flatMap fun tokens => tokens.filter Token.isParam

/-- The parameters in the path of a spine are those of its segments. -/
theorem markers_rooted (placed : List Placed) (named : Named placed) :
    markers none (rooted (slashed (pieces placed))) =
      (params (placed.map Placed.tokens)).map some := by
  rw [← map_readings, readings_rooted placed named, List.map_flatMap]
  unfold params shownReadings
  rw [List.flatMap_map, List.map_flatMap]
  simp [Token.reading, Function.comp_def]

/-- The catchalls of a segment, which stay within it if it is followed by another one. -/
def shownCatchalls (segment : Placed) : List (String × Bool) :=
  (segment.tokens.filter fun token => token.kind == .catchall).map fun token =>
    (token.value, segment.followed)

theorem filterMap_shownReadings (followed : Bool) (tokens : List Token) :
    (shownReadings followed tokens).filterMap catchall? = shownCatchalls ⟨tokens, followed⟩ := by
  unfold shownReadings shownCatchalls
  rw [List.filterMap_map, List.filterMap_filter, ← List.filterMap_eq_map, List.filterMap_filter]
  refine List.filterMap_congr fun token _ => ?_
  obtain ⟨kind, value⟩ := token
  cases kind <;> simp [Token.isParam, Kind.isParam, Token.reading, catchall?]

/-- The catchalls in the path of a spine are those of its segments. -/
theorem catchalls_rooted (placed : List Placed) (named : Named placed) :
    (readings none (rooted (slashed (pieces placed)))).filterMap catchall? =
      placed.flatMap shownCatchalls := by
  rw [readings_rooted placed named, List.filterMap_flatMap]
  exact List.flatMap_congr fun segment _ => filterMap_shownReadings segment.followed segment.tokens

end FileRoutes.Segment
