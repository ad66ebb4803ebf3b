import FileRoutes.Segment.Tokenize

/-!
# Tokens of a segment

What holds of every token that a segment is read into.

* `getLast?_cons_or`: the character that a reader has behind it, one step further.
* `Token.From`: the text of a token is not empty and consists of characters of the segment, and only
  literal text may have characters that names do not have.
* `Scan.run_keeps`: what one character keeps, a text keeps.
* `Scan.Sound`: so it is for the tokens read so far and for the text of the current one; one
  character keeps this (`Scan.step_sound`), and so does a text (`Scan.run_sound`).
* `tokenize_eq_ok_iff`: when a segment has tokens, and which ones.
* `tokenize_from`: the tokens of a segment are from it.
* `Token.Sound`, `tokenize_sound`: the text of a token of a segment without slashes has none.
-/

namespace FileRoutes.Segment

variable {segment : String} {previous : Option Char} {c : Char} {kind : Kind} {s next : Scan}

/-- The character before what follows a text, if `previous` stands before the text. -/
theorem getLast?_cons_or (c : Char) (a : List Char) (previous : Option Char) :
    (c :: a).getLast?.or previous = a.getLast?.or (some c) := by
  rw [List.getLast?_cons, Option.some_or, Option.or_some]

theorem ne_slash_of_isNameChar (h : isNameChar c = true) : c ≠ '/' := by
  rintro rfl
  revert h
  decide

/-- The text of a token is not empty and consists of characters of the segment; the name of a
parameter and the label of a group have the characters of names only. -/
structure Token.From (segment : String) (token : Token) : Prop where
  value_ne : token.value.toList ≠ []
  chars : ∀ c ∈ token.value.toList, c ∈ segment.toList
  named : token.kind ≠ .static → ∀ c ∈ token.value.toList, isNameChar c = true

/-- The text of a token is not empty and has no slash; the name of a parameter and the label of a
group have the characters of names only. -/
structure Token.Sound (token : Token) : Prop where
  value_ne : token.value.toList ≠ []
  slashless : '/' ∉ token.value.toList
  named : token.kind ≠ .static → ∀ c ∈ token.value.toList, isNameChar c = true

namespace Scan

/-- The tokens read so far are sound, and the current one becomes sound as soon as it has text. -/
structure Sound (segment : String) (s : Scan) : Prop where
  tokens : ∀ token ∈ s.tokens, token.From segment
  chars : ∀ c ∈ s.buffer, c ∈ segment.toList
  named : s.kind ≠ .static → ∀ c ∈ s.buffer, isNameChar c = true

theorem flush_buffer (s : Scan) : s.flush.buffer = [] := by
  unfold flush
  split
  · rename_i h
    exact List.isEmpty_iff.1 h
  · rfl

theorem flush_tokens (h : Sound segment s) : ∀ token ∈ s.flush.tokens, token.From segment := by
  unfold flush
  split
  · exact h.tokens
  · rename_i filled
    intro token hm
    rcases List.mem_append.1 hm with hm | hm
    · exact h.tokens token hm
    · obtain rfl := List.mem_singleton.1 hm
      have text : (String.ofList s.buffer).toList = s.buffer := String.toList_ofList
      constructor
      · intro empty
        rw [text] at empty
        exact filled (List.isEmpty_iff.2 empty)
      · rw [text]
        exact h.chars
      · intro hk
        rw [text]
        exact h.named hk

theorem sound_of_empty (tokens : ∀ token ∈ s.tokens, token.From segment) (empty : s.buffer = []) :
    Sound segment s := by
  constructor
  · exact tokens
  · intro c hm
    rw [empty] at hm
    exact absurd hm List.not_mem_nil
  · intro _ c hm
    rw [empty] at hm
    exact absurd hm List.not_mem_nil

theorem enter_sound (h : Sound segment s) (kind : Kind) : Sound segment (s.enter kind) :=
  sound_of_empty (flush_tokens h) (flush_buffer s)

theorem push_sound (h : Sound segment s) (hc : c ∈ segment.toList)
    (name : s.kind ≠ .static → isNameChar c = true) : Sound segment (s.push c) := by
  constructor
  · exact h.tokens
  · intro d hm
    rcases List.mem_append.1 hm with hm | hm
    · exact h.chars d hm
    · rw [List.mem_singleton.1 hm]
      exact hc
  · intro hk d hm
    rcases List.mem_append.1 hm with hm | hm
    · exact h.named hk d hm
    · rw [List.mem_singleton.1 hm]
      exact name hk

theorem promote_sound (h : Sound segment s) (dynamic : s.endsDynamic = true) :
    Sound segment s.promote := by
  refine ⟨?_, h.chars, h.named⟩
  intro token hm
  unfold promote at hm
  rcases List.mem_append.1 hm with hm | hm
  · exact h.tokens token ((List.dropLast_sublist _).subset hm)
  · unfold endsDynamic at dynamic
    cases hlast : s.tokens.getLast? with
    | none => simp [hlast] at hm
    | some last =>
      -- the last token was a parameter before, so its text is a name already
      have param : last.kind = .dynamic := by simpa [hlast] using dynamic
      have sound := h.tokens last (List.mem_of_getLast? hlast)
      obtain rfl : token = { last with kind := .optional } := by simpa [hlast] using hm
      exact ⟨sound.value_ne, sound.chars, fun _ => sound.named (by simp [param])⟩

/-- One character outside brackets. -/
theorem stepOutside_sound (h : Sound segment s) (open_ : s.kind = .static)
    (hc : c ∈ segment.toList) : Sound segment (s.stepOutside c) := by
  unfold stepOutside
  split
  · exact enter_sound h .dynamic
  split
  · exact enter_sound h .group
  split
  · split
    · rename_i mark
      exact promote_sound h mark.2
    · constructor
      · exact h.tokens
      · intro d hm
        rw [List.mem_singleton.1 hm]
        exact hc
      · intro hk
        exact absurd rfl hk
  · exact push_sound h hc fun hk => absurd open_ hk

/-- One character inside brackets. -/
theorem stepEnclosed_sound (h : Sound segment s) (named : ∀ c ∈ s.buffer, isNameChar c = true)
    (hc : c ∈ segment.toList) (hs : stepEnclosed segment kind previous s c = .ok next) :
    Sound segment next := by
  unfold stepEnclosed at hs
  generalize (if c = '[' ∧ kind = .dynamic then Kind.optional else kind) = kind at hs
  have here : Sound segment { s with place := .within kind } := ⟨h.tokens, h.chars, fun _ => named⟩
  simp only at hs
  split at hs
  · split at hs
    · cases hs
    · cases hs
      exact sound_of_empty (flush_tokens here) (flush_buffer _)
  split at hs
  · split at hs
    · cases hs
    · cases hs
      exact sound_of_empty (flush_tokens here) (flush_buffer _)
  split at hs
  · rename_i name
    cases hs
    exact push_sound here hc fun _ => name
  split at hs
  · cases hs
    exact ⟨here.tokens, here.chars, here.named⟩
  · cases hs
    exact here

/-- **One character keeps the reading sound.** -/
theorem step_sound (h : Sound segment s) (hc : c ∈ segment.toList)
    (hs : step segment previous s c = .ok next) : Sound segment next := by
  unfold step at hs
  split at hs
  · rename_i place
    cases hs
    exact stepOutside_sound h (by simp [Scan.kind, place]) hc
  · rename_i place
    cases hs
    exact stepOutside_sound h (by simp [Scan.kind, place]) hc
  · rename_i enclosing inside place
    have named : ∀ c ∈ s.buffer, isNameChar c = true := by
      apply h.named
      unfold Scan.kind
      rw [place]
      intro hk
      exact inside (hk ▸ rfl)
    refine stepEnclosed_sound ?_ ?_ hc hs
    · unfold noticeCatchall
      split
      · exact sound_of_empty h.tokens rfl
      · exact h
    · unfold noticeCatchall
      split
      · intro c hm
        exact absurd hm List.not_mem_nil
      · exact named

/-- **What every character of a text keeps, the text keeps.** -/
theorem run_keeps {P : Scan → Prop} :
    ∀ {text : List Char} {previous : Option Char} {s next : Scan},
      (∀ c ∈ text, ∀ {previous s next}, P s → step segment previous s c = .ok next → P next) →
        P s → run segment previous s text = .ok next → P next
  | [], _, _, _, _, h, hs => by
    cases hs
    exact h
  | c :: rest, previous, s, next, keeps, h, hs => by
    unfold run at hs
    cases hstep : step segment previous s c with
    | error e => simp [hstep, bind, Except.bind] at hs
    | ok after =>
      rw [hstep] at hs
      have here : P after := keeps c List.mem_cons_self h hstep
      exact run_keeps (fun d hd => keeps d (List.mem_cons_of_mem _ hd)) here hs

/-- **A text of characters of the segment keeps the reading sound.** -/
theorem run_sound {text : List Char} (h : Sound segment s) (chars : ∀ c ∈ text, c ∈ segment.toList)
    (hs : run segment previous s text = .ok next) : Sound segment next :=
  run_keeps (fun c hc _ _ _ sound => step_sound sound (chars c hc)) h hs

end Scan

/-! ## The outcome -/

/-- A catchall has other parameters beside it. -/
def Crowded (tokens : List Token) : Prop :=
  ∃ token ∈ tokens, token.kind = .catchall ∧ 2 ≤ tokens.countP Token.isParam

theorem checkCatchall_eq_ok_iff {tokens : List Token} :
    checkCatchall segment tokens = .ok () ↔ ¬Crowded tokens := by
  unfold checkCatchall
  split
  · rename_i catchall found
    have kind : catchall.kind = .catchall := by simpa using List.find?_some found
    split
    · rename_i many
      exact iff_of_false nofun fun alone =>
        alone ⟨catchall, List.mem_of_find?_eq_some found, kind, many⟩
    · rename_i few
      exact iff_of_true rfl fun ⟨_, _, _, many⟩ => few many
  · rename_i none
    refine iff_of_true rfl fun ⟨token, hm, kind, _⟩ => ?_
    simpa [kind] using List.find?_eq_none.1 none token hm

theorem Scan.flush_tokens_eq (s : Scan) :
    s.flush.tokens =
      if s.buffer = [] then s.tokens else s.tokens ++ [⟨s.kind, String.ofList s.buffer⟩] := by
  unfold Scan.flush
  simp only [List.isEmpty_iff]
  split <;> rfl

theorem Scan.flush_ignored (s : Scan) : s.flush.ignored = s.ignored := by
  unfold Scan.flush
  split <;> rfl

/-- **When a segment has tokens**: it is read to its end, no dynamic parameter is open there, and a
catchall stands alone. -/
theorem tokenize_eq_ok_iff {tokens : Tokens} :
    tokenize segment = .ok tokens ↔
      ∃ s, Scan.run segment none {} segment.toList = .ok s ∧ s.place ≠ .within .dynamic ∧
        ¬Crowded s.flush.tokens ∧ tokens = ⟨s.flush.tokens, s.ignored⟩ := by
  unfold tokenize
  cases hr : Scan.run segment none {} segment.toList with
  | error e => simp [bind, Except.bind]
  | ok s =>
    simp only [bind, Except.bind, Except.ok.injEq, exists_eq_left']
    split
    · rename_i dynamic
      exact iff_of_false nofun fun h => h.1 dynamic
    · rename_i closed
      cases hc : checkCatchall segment s.flush.tokens with
      | error e =>
        refine iff_of_false nofun fun h => ?_
        rw [checkCatchall_eq_ok_iff.2 h.2.1] at hc
        cases hc
      | ok _ =>
        have alone := checkCatchall_eq_ok_iff.1 hc
        simp only [pure, Except.pure, Except.ok.injEq, Scan.flush_ignored, ne_eq, closed, alone,
          not_false_eq_true, true_and, eq_comm]

/-- A segment is rejected if it has no tokens. -/
theorem exists_error_iff :
    (∃ error, tokenize segment = .error error) ↔ ¬∃ tokens, tokenize segment = .ok tokens := by
  cases tokenize segment with
  | error e => simp
  | ok tokens => simp

/-- **The tokens of a segment are from it.** -/
theorem tokenize_from {tokens : Tokens} (h : tokenize segment = .ok tokens) :
    ∀ token ∈ tokens.tokens, token.From segment := by
  obtain ⟨s, hr, -, -, rfl⟩ := tokenize_eq_ok_iff.1 h
  have start : Scan.Sound segment {} :=
    Scan.sound_of_empty (fun token hm => absurd hm List.not_mem_nil) rfl
  exact Scan.flush_tokens (Scan.run_sound start (fun _ hc => hc) hr)

/-- **The tokens of a segment without slashes are sound.** -/
theorem tokenize_sound {tokens : Tokens} (slashless : '/' ∉ segment.toList)
    (h : tokenize segment = .ok tokens) : ∀ token ∈ tokens.tokens, token.Sound := by
  intro token hm
  obtain ⟨value_ne, chars, named⟩ := tokenize_from h token hm
  exact ⟨value_ne, fun hs => slashless (chars _ hs), named⟩

end FileRoutes.Segment
