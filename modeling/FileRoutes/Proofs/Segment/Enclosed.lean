import FileRoutes.Proofs.Segment.Spelling

/-!
# Closed brackets

What a segment is read into that consists of one pair of brackets or parentheses around a text. It is
a single token of the kind that the brackets stand for, unless the text starts with three dots: these
make a catchall of whatever they stand in, which then ends at the first closing square bracket.

* `afterDots`: a text behind the dots of catchalls.
* `Kind.behind`: the kind of token that text in the brackets of a kind belongs to.
* `Scan.Inside`: the reading stands in brackets and has read some characters of names. One plain
  character keeps this (`Scan.step_inside`), and so does a plain text (`Scan.run_inside`).
* `map_tokens_group`, `map_tokens_single`, `map_tokens_doubled`: the tokens of a text in parentheses, in
  brackets and in doubled brackets.
* `yieldsOne_enclosed_iff`: when there is at most one token, which is of the right kind.
* `not_forall_yieldsOne`: a group may become a parameter, and a closing bracket may become literal text.
-/

namespace FileRoutes.Segment

variable {segment : String} {previous : Option Char} {c : Char} {kind : Kind} {s next : Scan}
  {text names : List Char} {tokens : List Token}

/-! ## Dots -/

/-- Three dots, which start a catchall. -/
def dots : List Char := ['.', '.', '.']

/-- The text without the dots of catchalls in front. -/
def afterDots : List Char → List Char
  | '.' :: '.' :: '.' :: rest => afterDots rest
  | text => text

theorem afterDots_of_clear (clear : ¬dots <+: text) : afterDots text = text := by
  unfold afterDots
  split
  · rename_i rest
    exact absurd (List.prefix_append dots rest) clear
  · rfl

/-- One more character, with which the dots of a catchall may be complete. -/
theorem afterDots_append_singleton (text : List Char) (c : Char) :
    afterDots (text ++ [c]) = if afterDots text ++ [c] = dots then [] else afterDots text ++ [c] := by
  fun_induction afterDots text with
  | case1 rest ih => exact ih
  | case2 text clear =>
    split
    · rename_i whole
      rw [whole]
      rfl
    · rename_i partly
      apply afterDots_of_clear
      intro start
      rcases List.prefix_concat_iff.1 start with whole | ⟨rest, rfl⟩
      · exact partly whole.symm
      · exact clear rest rfl

/-- Only dots, in threes, leave nothing behind them. -/
theorem afterDots_eq_nil_iff : afterDots text = [] ↔ ∃ n, text = List.replicate (3 * n) '.' := by
  constructor
  · intro h
    fun_induction afterDots text with
    | case1 rest ih =>
      obtain ⟨n, rfl⟩ := ih h
      exact ⟨n + 1, rfl⟩
    | case2 text clear => exact ⟨0, h⟩
  · rintro ⟨n, rfl⟩
    induction n with
    | zero => rfl
    | succ n ih => exact ih

/-- The kind of the token that text in the brackets of a kind belongs to. -/
def Kind.behind (names : List Char) (kind : Kind) : Kind := if dots <+: names then .catchall else kind

theorem Kind.behind_append_singleton (names : List Char) (c : Char) (kind : Kind) :
    kind.behind (names ++ [c]) =
      if afterDots names ++ [c] = dots then .catchall else kind.behind names := by
  unfold Kind.behind
  by_cases start : dots <+: names
  · have longer : dots <+: names ++ [c] := start.trans (List.prefix_append names [c])
    rw [if_pos start, if_pos longer, ite_self]
  · rw [afterDots_of_clear start, if_neg start]
    have iff : dots <+: names ++ [c] ↔ names ++ [c] = dots := by
      rw [List.prefix_concat_iff, or_iff_left start, eq_comm]
    simp only [iff]

theorem Kind.behind_ne_static (hk : kind ≠ .static) : kind.behind names ≠ .static := by
  unfold Kind.behind
  split
  · exact nofun
  · exact hk

theorem Kind.isParam_behind (hk : kind.isParam = true) : (kind.behind names).isParam = true := by
  unfold Kind.behind
  split
  · rfl
  · exact hk

/-! ## Inside brackets -/

/-- A character without a meaning of its own: neither a square bracket nor a parenthesis. -/
def isPlainChar (c : Char) : Bool := c != '[' && c != ']' && c != '(' && c != ')'

theorem isPlainChar_iff : isPlainChar c = true ↔ c ≠ '[' ∧ c ≠ ']' ∧ c ≠ '(' ∧ c ≠ ')' := by
  simp [isPlainChar, and_assoc]

namespace Scan

/-- The reading stands in the brackets of a kind, of which the characters of names were these. What
the dots of a catchall change is noticed at the next character, so the state is given as it is then. -/
structure Inside (kind : Kind) (names : List Char) (tokens : List Token) (s : Scan) : Prop where
  enclosed : s.place ≠ .outside ∧ s.place ≠ .within .static
  noticed : ∃ ignored,
    s.noticeCatchall = ⟨.within (kind.behind names), afterDots names, tokens, ignored⟩

theorem step_enclosed (h : s.place ≠ .outside ∧ s.place ≠ .within .static) :
    step segment previous s c =
      stepEnclosed segment s.noticeCatchall.kind previous s.noticeCatchall c := by
  obtain ⟨place, buffer, tokens, ignored⟩ := s
  rcases place with _ | _ | _ | _ | _ | _
  · exact absurd rfl h.1
  · exact absurd rfl h.2
  all_goals rfl

/-- The next character inside brackets. -/
theorem Inside.step_eq (h : Inside kind names tokens s) (segment : String) :
    ∃ ignored, ∀ previous c, step segment previous s c =
      stepEnclosed segment (kind.behind names) previous
        ⟨.within (kind.behind names), afterDots names, tokens, ignored⟩ c := by
  obtain ⟨ignored, noticed⟩ := h.noticed
  refine ⟨ignored, fun previous c => ?_⟩
  rw [step_enclosed h.enclosed, noticed]
  rfl

theorem enclosed_within (hk : kind ≠ .static) :
    Place.within kind ≠ .outside ∧ Place.within kind ≠ .within .static :=
  ⟨nofun, fun same => hk (Place.within.inj same)⟩

/-- The state after the brackets were opened. -/
theorem inside_start (hk : kind ≠ .static) (tokens : List Token) (ignored : List Char) :
    Inside kind [] tokens ⟨.within kind, [], tokens, ignored⟩ :=
  ⟨enclosed_within hk, ignored, rfl⟩

/-- A character of a name inside brackets. -/
theorem inside_push (hk : kind ≠ .static) (tokens : List Token) (ignored : List Char) (c : Char) :
    Inside kind (names ++ [c]) tokens
      ⟨.within (kind.behind names), afterDots names ++ [c], tokens, ignored⟩ := by
  refine ⟨enclosed_within (Kind.behind_ne_static hk), ignored, ?_⟩
  rw [Kind.behind_append_singleton, afterDots_append_singleton]
  unfold noticeCatchall
  by_cases whole : afterDots names ++ [c] = dots
  · rw [if_pos whole, if_pos whole]
    exact if_pos whole
  · rw [if_neg whole, if_neg whole]
    exact if_neg whole

/-- Nothing is noticed twice. -/
theorem inside_still (hk : kind ≠ .static) (tokens : List Token) (ignored : List Char) :
    Inside kind names tokens ⟨.within (kind.behind names), afterDots names, tokens, ignored⟩ := by
  refine ⟨enclosed_within (Kind.behind_ne_static hk), ignored, ?_⟩
  have clear : afterDots names ≠ dots := by
    fun_induction afterDots names with
    | case1 rest ih => exact ih
    | case2 text clear =>
      rintro rfl
      exact clear [] rfl
  exact if_neg clear

/-- **One plain character inside brackets**: it is read if it is one of a name, and passed over
otherwise. -/
theorem step_inside (segment : String) (previous : Option Char) (hk : kind ≠ .static)
    (h : Inside kind names tokens s) (plain : isPlainChar c = true) :
    ∃ next, step segment previous s c = .ok next ∧
      Inside kind (names ++ [c].filter isNameChar) tokens next := by
  obtain ⟨square, closing, -, round⟩ := isPlainChar_iff.1 plain
  obtain ⟨ignored, step⟩ := h.step_eq segment
  rw [step]
  by_cases name : isNameChar c = true
  · rw [List.filter_cons_of_pos name, List.filter_nil]
    refine ⟨_, ?_, inside_push hk tokens ignored c⟩
    simp [stepEnclosed, square, closing, round, name, push]
  · rw [List.filter_cons_of_neg name, List.filter_nil, List.append_nil]
    by_cases param : (kind.behind names).isParam = true
    · refine ⟨_, ?_, inside_still hk tokens (ignored ++ [c])⟩
      simp [stepEnclosed, square, closing, round, name, param]
    · refine ⟨_, ?_, inside_still hk tokens ignored⟩
      simp [stepEnclosed, square, closing, round, name, param]

/-- **A plain text inside brackets.** -/
theorem run_inside (segment : String) (hk : kind ≠ .static) :
    ∀ (text : List Char) (previous : Option Char) (names : List Char) (s : Scan),
      (∀ c ∈ text, isPlainChar c = true) → Inside kind names tokens s →
        ∃ next, run segment previous s text = .ok next ∧
          Inside kind (names ++ text.filter isNameChar) tokens next
  | [], previous, names, s, _, h => ⟨s, rfl, by rwa [List.filter_nil, List.append_nil]⟩
  | c :: text, previous, names, s, plain, h => by
    obtain ⟨here, further⟩ := List.forall_mem_cons.1 plain
    obtain ⟨mid, step, inside⟩ := step_inside segment previous hk h here
    obtain ⟨next, read, ends⟩ := run_inside segment hk text (some c) _ mid further inside
    refine ⟨next, (run_cons step).trans read, ?_⟩
    rwa [List.append_assoc, ← List.filter_append, List.singleton_append] at ends

/-! ## Closing brackets -/

/-- The first of two closing brackets does nothing. -/
theorem Inside.step_first (segment : String) (hk : kind ≠ .static) (h : Inside kind names tokens s)
    (optional : kind.behind names = .optional) (first : previous ≠ some ']') :
    ∃ next, step segment previous s ']' = .ok next ∧ Inside kind names tokens next := by
  obtain ⟨ignored, step⟩ := h.step_eq segment
  refine ⟨_, ?_, inside_still hk tokens ignored⟩
  rw [step]
  simp [stepEnclosed, optional, first, isNameChar]

/-- A bracket that closes brackets without a name. -/
theorem Inside.step_empty (h : Inside kind names tokens s)
    (param : (kind.behind names).isParam = true)
    (ends : kind.behind names ≠ .optional ∨ previous = some ']') (empty : afterDots names = []) :
    step segment previous s ']' = .error (.emptyParam segment) := by
  obtain ⟨ignored, step⟩ := h.step_eq segment
  rw [step]
  simp [stepEnclosed, param, ends, empty]

/-- A bracket that closes brackets with a name. -/
theorem Inside.step_name (segment : String) (h : Inside kind names tokens s)
    (param : (kind.behind names).isParam = true)
    (ends : kind.behind names ≠ .optional ∨ previous = some ']') (name : afterDots names ≠ []) :
    ∃ ignored, step segment previous s ']' = .ok ⟨.outside, [],
      tokens ++ [⟨kind.behind names, String.ofList (afterDots names)⟩], ignored⟩ := by
  obtain ⟨ignored, step⟩ := h.step_eq segment
  refine ⟨ignored, ?_⟩
  rw [step]
  simp [stepEnclosed, param, ends, name, flush, Scan.kind]

end Scan

/-! ## A single pair of brackets -/

/-- The characters of names in a text. -/
def nameChars (text : String) : List Char := text.toList.filter isNameChar

/-- What the tokens of a segment are, if it is read to its end. -/
theorem map_tokens_of_run (h : Scan.run segment none {} segment.toList = .ok s)
    (closed : s.place ≠ .within .dynamic) (alone : ¬Crowded s.flush.tokens) :
    (tokenize segment).map Tokens.tokens = .ok s.flush.tokens := by
  rw [tokenize_eq_ok_iff.2 ⟨s, h, closed, alone, rfl⟩]
  rfl

theorem map_tokens_of_error {error : Error}
    (h : Scan.run segment none {} segment.toList = .error error) :
    (tokenize segment).map Tokens.tokens = .error error := by
  unfold tokenize
  rw [h]
  rfl

/-- One parameter is not too many. -/
theorem not_crowded_of_countP (h : tokens.countP Token.isParam ≤ 1) : ¬Crowded tokens :=
  fun ⟨_, _, _, many⟩ => by omega

variable {x : String} {opening closing : List Char}

/-- A plain text behind opening brackets is read up to the closing ones. -/
theorem run_bracketed (hk : kind ≠ .static) (plain : ∀ c ∈ x.toList, isPlainChar c = true)
    (opens : Scan.run segment none {} opening = .ok ⟨.within kind, [], [], []⟩)
    (h : segment.toList = opening ++ (x.toList ++ closing)) :
    ∃ s, Scan.Inside kind (nameChars x) [] s ∧
      Scan.run segment none {} segment.toList =
        Scan.run segment (x.toList.getLast?.or opening.getLast?) s closing := by
  obtain ⟨s, read, inside⟩ := Scan.run_inside segment hk x.toList opening.getLast? [] _ plain
    (Scan.inside_start hk [] [])
  refine ⟨s, inside, ?_⟩
  rw [h, Scan.run_append, opens, Option.or_none]
  refine (Scan.run_append segment x.toList closing _ _).trans ?_
  rw [read]
  rfl

/-- **The tokens of a text in parentheses.** -/
theorem map_tokens_group (plain : ∀ c ∈ x.toList, isPlainChar c = true) :
    (tokenize ("(" ++ x ++ ")")).map Tokens.tokens =
      if dots <+: nameChars x then
        .ok (if afterDots (nameChars x) = [] then []
          else [⟨.catchall, String.ofList (afterDots (nameChars x))⟩])
      else if nameChars x = [] then .error (.emptyGroup ("(" ++ x ++ ")"))
      else .ok [⟨.group, String.ofList (nameChars x)⟩] := by
  generalize hs : "(" ++ x ++ ")" = segment
  have text : segment.toList = ['('] ++ (x.toList ++ [')']) := by simp [← hs]
  have opens : Scan.run segment none {} ['('] = .ok ⟨.within .group, [], [], []⟩ := rfl
  obtain ⟨s, inside, read⟩ := run_bracketed (by decide) plain opens text
  obtain ⟨ignored, step⟩ := inside.step_eq segment
  unfold Kind.behind at step
  split
  · rename_i start
    -- the parenthesis closes nothing any more: it is passed over
    have passed : Scan.run segment none {} segment.toList =
        .ok ⟨.within .catchall, afterDots (nameChars x), [], ignored ++ [')']⟩ := by
      rw [read]
      refine Scan.run_cons ?_
      rw [step, if_pos start]
      simp [Scan.stepEnclosed, Kind.isParam, isNameChar]
    rw [map_tokens_of_run passed (by simp), Scan.flush_tokens_eq, List.nil_append]
    · rfl
    · rw [Scan.flush_tokens_eq]
      split
      · exact not_crowded_of_countP (Nat.zero_le 1)
      · exact not_crowded_of_countP List.countP_le_length
  · rename_i clear
    rw [if_neg clear, afterDots_of_clear clear] at step
    split
    · rename_i empty
      refine map_tokens_of_error ?_
      rw [read]
      refine Scan.run_error ?_
      rw [step]
      simp [Scan.stepEnclosed, Kind.isParam, empty]
    · rename_i filled
      have closed : Scan.run segment none {} segment.toList =
          .ok ⟨.outside, [], [⟨.group, String.ofList (nameChars x)⟩], ignored⟩ := by
        rw [read]
        refine Scan.run_cons ?_
        rw [step]
        simp [Scan.stepEnclosed, filled, Scan.flush, Scan.kind]
      rw [map_tokens_of_run closed (by simp) (not_crowded_of_countP List.countP_le_length)]
      rfl

/-- **The tokens of a text in brackets.** -/
theorem map_tokens_single (plain : ∀ c ∈ x.toList, isPlainChar c = true) :
    (tokenize ("[" ++ x ++ "]")).map Tokens.tokens =
      if afterDots (nameChars x) = [] then .error (.emptyParam ("[" ++ x ++ "]"))
      else .ok [⟨Kind.behind (nameChars x) .dynamic,
        String.ofList (afterDots (nameChars x))⟩] := by
  generalize hs : "[" ++ x ++ "]" = segment
  have text : segment.toList = ['['] ++ (x.toList ++ [']']) := by simp [← hs]
  have opens : Scan.run segment none {} ['['] = .ok ⟨.within .dynamic, [], [], []⟩ := rfl
  obtain ⟨s, inside, read⟩ := run_bracketed (by decide) plain opens text
  have param : (Kind.behind (nameChars x) .dynamic).isParam = true := Kind.isParam_behind rfl
  have once : Kind.behind (nameChars x) .dynamic ≠ .optional := by
    unfold Kind.behind
    split <;> exact nofun
  split
  · rename_i empty
    refine map_tokens_of_error ?_
    rw [read]
    exact Scan.run_error (inside.step_empty param (.inl once) empty)
  · rename_i name
    obtain ⟨ignored, closed⟩ := inside.step_name segment param (.inl once) name
    have whole : Scan.run segment none {} segment.toList =
        .ok ⟨.outside, [], [⟨_, String.ofList (afterDots (nameChars x))⟩], ignored⟩ :=
      read.trans (Scan.run_cons closed)
    rw [map_tokens_of_run whole (by simp) (not_crowded_of_countP List.countP_le_length)]
    rfl

theorem getLast?_or_ne (plain : ∀ c ∈ x.toList, isPlainChar c = true)
    (first : opening.getLast? ≠ some ']') :
    x.toList.getLast?.or opening.getLast? ≠ some ']' := by
  cases last : x.toList.getLast? with
  | none => exact first
  | some c =>
    have ⟨_, closing, _⟩ := isPlainChar_iff.1 (plain c (List.mem_of_getLast? last))
    simpa using closing

/-- **The tokens of a text in doubled brackets.** -/
theorem map_tokens_doubled (plain : ∀ c ∈ x.toList, isPlainChar c = true) :
    (tokenize ("[[" ++ x ++ "]]")).map Tokens.tokens =
      if afterDots (nameChars x) = [] then .error (.emptyParam ("[[" ++ x ++ "]]"))
      else if dots <+: nameChars x then
        .ok [⟨.catchall, String.ofList (afterDots (nameChars x))⟩, ⟨.static, "]"⟩]
      else .ok [⟨.optional, String.ofList (nameChars x)⟩] := by
  generalize hs : "[[" ++ x ++ "]]" = segment
  have text : segment.toList = ['[', '['] ++ (x.toList ++ [']', ']']) := by simp [← hs]
  have opens : Scan.run segment none {} ['[', '['] = .ok ⟨.within .optional, [], [], []⟩ := rfl
  obtain ⟨s, inside, read⟩ := run_bracketed (by decide) plain opens text
  have param : (Kind.behind (nameChars x) .optional).isParam = true := Kind.isParam_behind rfl
  by_cases start : dots <+: nameChars x
  · -- the first bracket closes the catchall, and the second one is literal text
    have catchall : Kind.behind (nameChars x) .optional = .catchall := if_pos start
    have once : Kind.behind (nameChars x) .optional ≠ .optional := by
      rw [catchall]
      exact nofun
    split
    · rename_i empty
      refine map_tokens_of_error ?_
      rw [read]
      exact Scan.run_error (inside.step_empty param (.inl once) empty)
    · rename_i name
      obtain ⟨ignored, closed⟩ := inside.step_name segment param (.inl once) name
      rw [catchall] at closed
      have whole : Scan.run segment none {} segment.toList =
          .ok ⟨.within .static, [']'],
            [⟨.catchall, String.ofList (afterDots (nameChars x))⟩], ignored⟩ :=
        read.trans (Scan.run_cons closed)
      rw [map_tokens_of_run whole (by simp) (not_crowded_of_countP (Nat.le_refl 1))]
      rfl
  · -- the first bracket does nothing, and the second one closes the optional parameter
    have optional : Kind.behind (nameChars x) .optional = .optional := if_neg start
    obtain ⟨next, still, inside⟩ := inside.step_first segment (by decide) optional
      (getLast?_or_ne plain (show ['[', '['].getLast? ≠ some ']' by decide))
    rw [Scan.run_cons still] at read
    split
    · rename_i empty
      refine map_tokens_of_error ?_
      rw [read]
      exact Scan.run_error (inside.step_empty param (.inr rfl) empty)
    · rename_i name
      obtain ⟨ignored, closed⟩ := inside.step_name segment param (.inr rfl) name
      rw [optional, afterDots_of_clear start] at closed
      have whole := read.trans (Scan.run_cons closed)
      rw [map_tokens_of_run whole (by simp) (not_crowded_of_countP List.countP_le_length)]
      rfl

/-! ## One token of the right kind -/

/-- If the segment is accepted, it has exactly one token, for which the test holds. -/
def YieldsOne (p : Token → Bool) (segment : String) : Prop :=
  ∀ tokens, tokenize segment = .ok tokens → ∃ token, tokens.tokens = [token] ∧ p token = true

theorem yieldsOne_of_error {p : Token → Bool} {error : Error}
    (h : (tokenize segment).map Tokens.tokens = .error error) : YieldsOne p segment := by
  intro tokens accepted
  rw [accepted] at h
  cases h

theorem yieldsOne_iff_of_ok {p : Token → Bool}
    (h : (tokenize segment).map Tokens.tokens = .ok tokens) :
    YieldsOne p segment ↔ ∃ token, tokens = [token] ∧ p token = true := by
  cases accepted : tokenize segment with
  | error e =>
    rw [accepted] at h
    cases h
  | ok all =>
    obtain rfl : all.tokens = tokens := by simpa [accepted, Except.map] using h
    simp [YieldsOne, accepted]

/-- **When a pair of brackets yields one token of its own kind.** A text without brackets and
parentheses yields, if it is accepted, exactly one group in parentheses if and only if it does not
start with three dots, not counting what is passed over; exactly one parameter in brackets, in any
case; and exactly one parameter in doubled brackets if and only if it does not start with three dots
or has only dots, in threes. -/
theorem yieldsOne_enclosed_iff (x : String) (plain : ∀ c ∈ x.toList, isPlainChar c = true) :
    (YieldsOne Token.isGroup ("(" ++ x ++ ")") ↔ ¬dots <+: nameChars x) ∧
      YieldsOne Token.isParam ("[" ++ x ++ "]") ∧
      (YieldsOne Token.isParam ("[[" ++ x ++ "]]") ↔
        ¬dots <+: nameChars x ∨ ∃ n, nameChars x = List.replicate (3 * n) '.') := by
  refine ⟨?_, ?_, ?_⟩
  · have tokens := map_tokens_group plain
    by_cases start : dots <+: nameChars x
    · rw [if_pos start] at tokens
      refine iff_of_false (fun yields => ?_) (not_not_intro start)
      obtain ⟨token, single, group⟩ := (yieldsOne_iff_of_ok tokens).1 yields
      split at single
      · cases single
      · cases single
        cases group
    · rw [if_neg start] at tokens
      refine iff_of_true ?_ start
      split at tokens
      · exact yieldsOne_of_error tokens
      · exact (yieldsOne_iff_of_ok tokens).2 ⟨_, rfl, rfl⟩
  · have tokens := map_tokens_single plain
    split at tokens
    · exact yieldsOne_of_error tokens
    · exact (yieldsOne_iff_of_ok tokens).2 ⟨_, rfl, Kind.isParam_behind rfl⟩
  · rw [← afterDots_eq_nil_iff]
    have tokens := map_tokens_doubled plain
    split at tokens
    · rename_i empty
      exact iff_of_true (yieldsOne_of_error tokens) (.inr empty)
    · rename_i name
      split at tokens
      · rename_i start
        refine iff_of_false (fun yields => ?_) (not_or_intro (not_not_intro start) name)
        obtain ⟨token, single, -⟩ := (yieldsOne_iff_of_ok tokens).1 yields
        cases single
      · rename_i start
        exact iff_of_true ((yieldsOne_iff_of_ok tokens).2 ⟨_, rfl, rfl⟩) (.inl start)

/-- Two dots are not three, whatever stands between them and the third. -/
theorem yieldsOne_enclosed_iff_two_dots :
    let x := ".-.a."
    (∀ c ∈ x.toList, isPlainChar c = true) ∧ YieldsOne Token.isGroup ("(" ++ x ++ ")") ∧
      YieldsOne Token.isParam ("[" ++ x ++ "]") ∧ YieldsOne Token.isParam ("[[" ++ x ++ "]]") := by
  intro x
  have plain : ∀ c ∈ x.toList, isPlainChar c = true := List.all_eq_true.1 (by decide)
  have clear : ¬dots <+: nameChars x := by decide
  obtain ⟨group, single, doubled⟩ := yieldsOne_enclosed_iff x plain
  exact ⟨plain, group.2 clear, single, doubled.2 (.inl clear)⟩

/-- A group may become a parameter, and a closing bracket may become literal text. -/
theorem not_forall_yieldsOne :
    ¬(∀ x : String, (∀ c ∈ x.toList, isPlainChar c = true) →
      YieldsOne Token.isGroup ("(" ++ x ++ ")")) ∧
    ¬∀ x : String, (∀ c ∈ x.toList, isPlainChar c = true) →
      YieldsOne Token.isParam ("[[" ++ x ++ "]]") := by
  have plain : ∀ c ∈ "...a".toList, isPlainChar c = true := List.all_eq_true.1 (by decide)
  constructor
  · intro all
    obtain ⟨token, single, group⟩ := all "...a" plain ⟨[⟨.catchall, "a"⟩], [')']⟩ rfl
    cases single
    cases group
  · intro all
    obtain ⟨token, single, -⟩ :=
      all "...a" plain ⟨[⟨.catchall, "a"⟩, ⟨.static, "]"⟩], []⟩ rfl
    cases single

end FileRoutes.Segment
