import FileRoutes.Proofs.Segment.Spelling

/-!
# Brackets left open

A segment may end before a bracket or a parenthesis in it is closed. That is an error for a dynamic
parameter only; anything else counts as if it had been closed.

* `Place.enclosing?`: the kind of the brackets or parentheses around a place.
* `Scan.Steady`: outside all brackets, there is text of the current token exactly if it is literal
  text. One character keeps this (`Scan.step_steady`), and so does a text (`Scan.run_steady`).
* `Scan.run_before_unclosed`: where the reading of a segment ends whose last bracket is open.
* `exists_error_iff_of_run`: when a segment is rejected that is read to its end.
* `unterminated_rejected_iff`: when a segment with an open bracket is rejected.
* `not_forall_unterminated_rejected`: an optional parameter may stay open.
-/

namespace FileRoutes.Segment

variable {segment : String} {previous : Option Char} {c : Char} {kind : Kind} {s next : Scan}

/-- The kind of the brackets or parentheses around a place. -/
def Place.enclosing? : Place → Option Kind
  | .outside | .within .static => none
  | .within kind => some kind

theorem Place.enclosing?_eq_some_iff {place : Place} :
    place.enclosing? = some kind ↔ place = .within kind ∧ kind ≠ .static := by
  rcases place with _ | _ | _ | _ | _ | _ <;> cases kind <;> simp [Place.enclosing?]

theorem Place.enclosing?_eq_none_iff {place : Place} :
    place.enclosing? = none ↔ place = .outside ∨ place = .within .static := by
  rcases place with _ | _ | _ | _ | _ | _ <;> simp [Place.enclosing?]

/-! ## Between two tokens -/

namespace Scan

/-- Outside brackets the current token has text exactly if it is literal text. -/
structure Steady (s : Scan) : Prop where
  outside : s.place = .outside → s.buffer = []
  literal : s.place = .within .static → s.buffer ≠ []

theorem steady_of_within (place : s.place = .within kind) (enclosed : kind ≠ .static) : s.Steady := by
  constructor
  · intro outside
    simp [outside] at place
  · intro literal
    rw [literal, Place.within.injEq] at place
    exact absurd place.symm enclosed

theorem stepOutside_steady (h : s.Steady) (c : Char) : (s.stepOutside c).Steady := by
  unfold stepOutside
  split
  · exact steady_of_within rfl nofun
  split
  · exact steady_of_within rfl nofun
  split
  · rename_i outside
    split
    · exact ⟨h.outside, h.literal⟩
    · exact ⟨nofun, fun _ => List.cons_ne_nil c []⟩
  · rename_i inside
    constructor
    · intro outside
      exact absurd outside inside
    · intro _
      exact List.append_ne_nil_of_right_ne_nil _ (List.cons_ne_nil c [])

theorem stepEnclosed_steady (enclosed : kind ≠ .static)
    (hs : stepEnclosed segment kind previous s c = .ok next) : next.Steady := by
  unfold stepEnclosed at hs
  have still : (if c = '[' ∧ kind = .dynamic then Kind.optional else kind) ≠ .static := by
    split
    · exact nofun
    · exact enclosed
  generalize (if c = '[' ∧ kind = .dynamic then Kind.optional else kind) = kind at hs still
  have closed (s : Scan) : ({ s.flush with place := .outside } : Scan).Steady :=
    ⟨fun _ => flush_buffer s, nofun⟩
  simp only at hs
  split at hs
  · split at hs <;> cases hs
    exact closed _
  split at hs
  · split at hs <;> cases hs
    exact closed _
  split at hs
  · cases hs
    exact steady_of_within rfl still
  split at hs <;> cases hs <;> exact steady_of_within rfl still

/-- **One character keeps the reading steady.** -/
theorem step_steady (h : s.Steady) (hs : step segment previous s c = .ok next) : next.Steady := by
  unfold step at hs
  split at hs
  · cases hs
    exact stepOutside_steady h c
  · cases hs
    exact stepOutside_steady h c
  · rename_i enclosing inside place
    refine stepEnclosed_steady ?_ hs
    unfold noticeCatchall
    split
    · exact nofun
    · unfold Scan.kind
      rw [place]
      exact fun literal => inside (literal ▸ rfl)

/-- **A text keeps the reading steady.** -/
theorem run_steady {text : List Char} (h : s.Steady) (hs : run segment previous s text = .ok next) :
    next.Steady :=
  run_keeps (fun _ _ _ _ _ steady => step_steady steady) h hs

/-- The reading is steady at the start. -/
theorem steady_start : ({} : Scan).Steady := ⟨fun _ => rfl, nofun⟩

/-- Outside all brackets the reading rests between two tokens. -/
theorem rests_of_run {before : List Char} (h : run segment none {} before = .ok s)
    (free : s.place.enclosing? = none) : Rests s s.flush.tokens s.ignored := by
  have steady := run_steady steady_start h
  obtain ⟨place, buffer, tokens, ignored⟩ := s
  rcases place with _ | kind
  · obtain rfl : buffer = [] := steady.outside rfl
    exact .outside tokens ignored
  · cases kind with
    | static =>
      have filled : buffer ≠ [] := steady.literal rfl
      rw [flush_tokens_eq, if_neg filled]
      exact .literal buffer tokens ignored filled
    | _ => cases free

/-! ## Open brackets -/

/-- **The reading of a segment whose last bracket is open** ends in that bracket, with the whole name
and with the tokens before it. -/
theorem run_before_unclosed {before text foreign : List Char} {token : Token}
    (h : run segment none {} before = .ok s) (free : s.place.enclosing? = none)
    (unclosed : token.Unclosed text foreign) (name : IsName token.value.toList) :
    run segment none {} (before ++ text) =
      .ok ⟨.within token.kind, token.value.toList, s.flush.tokens, s.ignored ++ foreign⟩ := by
  rw [run_append, h]
  exact run_unclosed (rests_of_run h free) unclosed name

end Scan

theorem Token.Unclosed.kind_ne {token : Token} {text foreign : List Char}
    (h : token.Unclosed text foreign) : token.kind ≠ .static := by
  cases h <;> exact nofun

/-- A segment that is read to its end is rejected if a dynamic parameter is open there, or if a
catchall has other parameters beside it. -/
theorem exists_error_iff_of_run (h : Scan.run segment none {} segment.toList = .ok s) :
    (∃ error, tokenize segment = .error error) ↔
      s.place = .within .dynamic ∨ Crowded s.flush.tokens := by
  have accepted : (∃ tokens, tokenize segment = .ok tokens) ↔
      s.place ≠ .within .dynamic ∧ ¬Crowded s.flush.tokens := by
    simp [tokenize_eq_ok_iff, h]
  rw [exists_error_iff, accepted, not_and_or, not_not, not_not]

/-- **When a bracket that is left open is an error.** A segment whose reading ends in brackets or in
parentheses is rejected if and only if they are those of a dynamic parameter, or the segment has a
catchall and another parameter, the open one included. So it is for the name of a parameter or of a
group behind any text that leaves no bracket open: behind one bracket it is always rejected, and behind
two brackets, of which one may be closed, behind the dots of a catchall and behind a parenthesis it is
rejected only next to a catchall, or as one next to a parameter. -/
theorem unterminated_rejected_iff (segment : String) :
    (∀ s kind, Scan.run segment none {} segment.toList = .ok s → s.place.enclosing? = some kind →
      ((∃ error, tokenize segment = .error error) ↔
        kind = .dynamic ∨ Crowded s.flush.tokens)) ∧
    ∀ (before text foreign : List Char) (s : Scan) (token : Token),
      segment.toList = before ++ text → Scan.run segment none {} before = .ok s →
        s.place.enclosing? = none → token.Unclosed text foreign → IsName token.value.toList →
          ((∃ error, tokenize segment = .error error) ↔
            token.kind = .dynamic ∨ Crowded (s.flush.tokens ++ [token])) := by
  have rejected : ∀ s kind, Scan.run segment none {} segment.toList = .ok s →
      s.place.enclosing? = some kind →
        ((∃ error, tokenize segment = .error error) ↔
          kind = .dynamic ∨ Crowded s.flush.tokens) := by
    intro s kind h enclosed
    rw [exists_error_iff_of_run h, (Place.enclosing?_eq_some_iff.1 enclosed).1, Place.within.injEq]
  refine ⟨rejected, fun before text foreign s token split h free unclosed name => ?_⟩
  have ends := Scan.run_before_unclosed h free unclosed name
  rw [← split] at ends
  rw [rejected _ token.kind ends (Place.enclosing?_eq_some_iff.2 ⟨rfl, unclosed.kind_ne⟩)]
  rw [Scan.flush_tokens_eq, if_neg name.filled, String.ofList_toList]
  rfl

/-- An optional parameter with one of its two brackets closed is read to the end, and not rejected. -/
theorem unterminated_rejected_iff_half :
    let half : Scan := ⟨.within .optional, "id".toList, [⟨.static, "post-"⟩], ['!']⟩
    let token : Token := ⟨.optional, "id"⟩
    Scan.run "post-[[id!]" none {} "post-[[id!]".toList = .ok half ∧
      half.place.enclosing? = some .optional ∧ token.Unclosed "[[id!]".toList ['!'] ∧
      ((∃ error, tokenize "post-[[id!]" = .error error) ↔
        token.kind = .dynamic ∨ Crowded [⟨.static, "post-"⟩, token]) ∧
      ¬∃ error, tokenize "post-[[id!]" = .error error := by
  intro half token
  have read : Scan.run "post-[[id!]" none {} "post-[[id!]".toList = .ok half := by rfl
  have inner : Interspersed "id".toList ['!'] "id!".toList :=
    .name 'i' (.name 'd' (.foreign '!' rfl .nil))
  have unclosed : token.Unclosed "[[id!]".toList ['!'] := .half inner
  obtain ⟨whole, behind⟩ := unterminated_rejected_iff "post-[[id!]"
  refine ⟨read, rfl, unclosed, ?_, ?_⟩
  · exact behind "post-".toList _ _ ⟨.within .static, "post-".toList, [], []⟩ token rfl rfl rfl
      unclosed (by decide)
  · rw [whole half .optional read rfl]
    rintro (dynamic | ⟨catchall, hm, kind, -⟩)
    · cases dynamic
    · revert catchall
      decide

/-- A segment may have tokens although its last bracket is open. -/
theorem not_forall_unterminated_rejected :
    ¬∀ (segment : String) (tokens : Tokens) (s : Scan), tokenize segment = .ok tokens →
      Scan.run segment none {} segment.toList = .ok s → s.place.enclosing? = none := by
  intro all
  have free := all "[[id" ⟨[⟨.optional, "id"⟩], []⟩ ⟨.within .optional, "id".toList, [], []⟩ rfl rfl
  cases free

end FileRoutes.Segment
