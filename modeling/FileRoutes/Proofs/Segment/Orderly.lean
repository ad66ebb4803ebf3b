import FileRoutes.Proofs.Segment.Enclosed
import FileRoutes.Proofs.Segment.Piece
import FileRoutes.Proofs.Segment.Unclosed

/-!
# Order among tokens

What a segment is read into is orderly, whether its brackets are closed or not: no token is empty, no
token could have been read in another way where it stands, and nothing with a meaning is left out.

* `Token.Precedes`: two tokens that may stand next to each other.
* `Token.Plain`: the text of a token has no sign of a token of another kind.
* `Scan.Orderly`: so it is for the tokens read so far and for the current one; one character keeps this
  (`Scan.step_orderly`), and so does a text.
* `Orderly`: what is true of the tokens of a segment and of the characters that were left out.
* `tokenize_orderly`: it is true of every segment that has tokens, which is transparent exactly if its
  label is empty.
-/

namespace FileRoutes.Segment

variable {segment : String} {previous : Option Char} {c : Char} {kind : Kind} {s next : Scan}

/-- The first token may stand before the second one: literal text is not cut in two, and a question mark
behind a dynamic parameter belongs to the parameter. -/
structure Token.Precedes (first second : Token) : Prop where
  apart : first.kind = .static → second.kind ≠ .static
  unmarked : first.kind = .dynamic → second.kind = .static → second.value.toList.head? ≠ some '?'

/-- Literal text opens no brackets, and the name of a dynamic parameter does not start like a catchall. -/
structure Token.Plain (token : Token) : Prop where
  literal : token.kind = .static → '[' ∉ token.value.toList ∧ '(' ∉ token.value.toList
  undotted : token.kind = .dynamic → ¬['.', '.', '.'] <+: token.value.toList

theorem Token.plain_of_kind {token : Token} (static : token.kind ≠ .static)
    (dynamic : token.kind ≠ .dynamic) : token.Plain :=
  ⟨fun h => absurd h static, fun h => absurd h dynamic⟩

/-- Anything may stand before a token that is no literal text. -/
theorem Token.precedes_of_kind (first : Token) {second : Token} (h : second.kind ≠ .static) :
    first.Precedes second :=
  ⟨fun _ => h, fun _ literal => absurd literal h⟩

/-- Tokens with one more behind them. -/
theorem isChain_concat {tokens : List Token} {token : Token} (h : tokens.IsChain Token.Precedes)
    (last : ∀ first ∈ tokens.getLast?, first.Precedes token) :
    (tokens ++ [token]).IsChain Token.Precedes := by
  refine List.isChain_append.2 ⟨h, .singleton token, fun first hf second hs => ?_⟩
  obtain rfl : token = second := by simpa using hs
  exact last first hf

namespace Scan

/-- The tokens read so far are orderly, and the current one becomes so as soon as it ends. A dynamic
parameter may have the dots of a catchall, which are noticed at the next character. -/
structure Orderly (s : Scan) : Prop where
  plain : ∀ token ∈ s.tokens, token.Plain
  chain : s.tokens.IsChain Token.Precedes
  outside : s.place = .outside → ∀ last ∈ s.tokens.getLast?, last.kind ≠ .static
  literal : s.place = .within .static → ('[' ∉ s.buffer ∧ '(' ∉ s.buffer) ∧
    ∀ last ∈ s.tokens.getLast?, last.Precedes ⟨.static, String.ofList s.buffer⟩
  dynamic : s.place = .within .dynamic → s.buffer = ['.', '.', '.'] ∨ ¬['.', '.', '.'] <+: s.buffer
  ignored : ∀ c ∈ s.ignored, isForeign c = true

theorem orderly_start : ({} : Scan).Orderly where
  plain _ h := absurd h List.not_mem_nil
  chain := .nil
  outside _ _ h := by cases h
  literal h := by cases h
  dynamic h := by cases h
  ignored _ h := absurd h List.not_mem_nil

/-- The state behind brackets that are opened, or that go on. -/
theorem orderly_within {buffer ignored : List Char} {tokens : List Token}
    (plain : ∀ token ∈ tokens, token.Plain) (chain : tokens.IsChain Token.Precedes)
    (hk : kind ≠ .static)
    (dynamic : kind = .dynamic → buffer = ['.', '.', '.'] ∨ ¬['.', '.', '.'] <+: buffer)
    (foreign : ∀ c ∈ ignored, isForeign c = true) :
    Orderly ⟨.within kind, buffer, tokens, ignored⟩ where
  plain := plain
  chain := chain
  outside h := by cases h
  literal h := absurd (Place.within.inj h) hk
  dynamic h := dynamic (Place.within.inj h)
  ignored := foreign

/-- The current token, if it has text and is not a catchall in disguise. -/
theorem Orderly.current (h : s.Orderly) (steady : s.Steady) (filled : s.buffer ≠ [])
    (noticed : s.place = .within .dynamic → s.buffer ≠ ['.', '.', '.']) :
    (⟨s.kind, String.ofList s.buffer⟩ : Token).Plain ∧
      ∀ last ∈ s.tokens.getLast?, last.Precedes ⟨s.kind, String.ofList s.buffer⟩ := by
  obtain ⟨place, buffer, tokens, ignored⟩ := s
  rcases place with _ | kind
  · exact absurd (steady.outside rfl) filled
  · by_cases static : kind = .static
    · subst static
      obtain ⟨brackets, last⟩ := h.literal rfl
      refine ⟨⟨fun _ => ?_, nofun⟩, last⟩
      rwa [String.toList_ofList]
    · refine ⟨⟨fun literal => absurd literal static, fun dynamic => ?_⟩, fun last _ => ?_⟩
      · have place : Place.within kind = .within .dynamic := congrArg Place.within dynamic
        rw [String.toList_ofList]
        exact (h.dynamic place).resolve_left (noticed place)
      · exact last.precedes_of_kind static

/-- The tokens with the current one. -/
theorem Orderly.flush (h : s.Orderly) (steady : s.Steady)
    (noticed : s.place = .within .dynamic → s.buffer ≠ ['.', '.', '.']) :
    (∀ token ∈ s.flush.tokens, token.Plain) ∧ s.flush.tokens.IsChain Token.Precedes := by
  rw [flush_tokens_eq]
  split
  · exact ⟨h.plain, h.chain⟩
  · rename_i filled
    obtain ⟨plain, last⟩ := h.current steady filled noticed
    refine ⟨fun token hm => ?_, isChain_concat h.chain last⟩
    rcases List.mem_append.1 hm with hm | hm
    · exact h.plain token hm
    · rw [List.mem_singleton.1 hm]
      exact plain

/-! ## One character outside brackets -/

theorem enter_orderly (h : s.Orderly) (steady : s.Steady) (free : s.place.enclosing? = none)
    (hk : kind ≠ .static) : (s.enter kind).Orderly := by
  have noticed : s.place = .within .dynamic → s.buffer ≠ ['.', '.', '.'] := by
    intro dynamic
    rw [dynamic] at free
    cases free
  obtain ⟨plain, chain⟩ := h.flush steady noticed
  have empty := flush_buffer s
  have foreign : ∀ c ∈ s.flush.ignored, isForeign c = true := by
    rw [flush_ignored]
    exact h.ignored
  exact orderly_within plain chain hk (fun _ => .inr (by rw [empty]; decide)) foreign

/-- A question mark behind a dynamic parameter. -/
theorem promote_orderly (h : s.Orderly) (outside : s.place = .outside) (dynamic : s.endsDynamic = true) :
    s.promote.Orderly := by
  unfold endsDynamic at dynamic
  obtain ⟨last, hl, -⟩ := (Option.any_eq_true _ _).1 dynamic
  have tokens : s.promote.tokens = s.tokens.dropLast ++ [{ last with kind := .optional }] := by
    unfold promote
    rw [hl]
    rfl
  have optional : ({ last with kind := .optional } : Token).kind ≠ .static := nofun
  constructor
  · intro token hm
    rw [tokens] at hm
    rcases List.mem_append.1 hm with hm | hm
    · exact h.plain token (List.dropLast_subset _ hm)
    · rw [List.mem_singleton.1 hm]
      exact Token.plain_of_kind optional nofun
  · rw [tokens]
    exact isChain_concat h.chain.dropLast fun first _ => first.precedes_of_kind optional
  · intro _ token hm
    rw [tokens, List.getLast?_concat] at hm
    exact Option.some.inj hm ▸ optional
  · intro literal
    have place : s.place = .within .static := literal
    rw [outside] at place
    cases place
  · intro open_
    have place : s.place = .within .dynamic := open_
    rw [outside] at place
    cases place
  · exact h.ignored

theorem stepOutside_orderly (h : s.Orderly) (steady : s.Steady) (free : s.place.enclosing? = none)
    (c : Char) : (s.stepOutside c).Orderly := by
  unfold stepOutside
  split
  · exact enter_orderly h steady free nofun
  split
  · exact enter_orderly h steady free nofun
  rename_i square round
  split
  · rename_i outside
    split
    · rename_i mark
      exact promote_orderly h outside mark.2
    · rename_i unmarked
      refine ⟨h.plain, h.chain, nofun, fun _ => ⟨?_, fun last hl => ?_⟩, nofun, h.ignored⟩
      · simp [Ne.symm square, Ne.symm round]
      · refine ⟨fun static => absurd static (h.outside outside last hl), fun dynamic _ => ?_⟩
        rintro mark
        refine unmarked ⟨by simpa using mark, ?_⟩
        unfold endsDynamic
        rw [hl]
        simpa using dynamic
  · rename_i inside
    have place : s.place = .within .static :=
      (Place.enclosing?_eq_none_iff.1 free).resolve_left inside
    obtain ⟨brackets, last⟩ := h.literal place
    have filled := steady.literal place
    refine ⟨h.plain, h.chain, fun outside => absurd outside inside, fun _ => ⟨?_, fun token hl => ?_⟩,
      fun dynamic => ?_, h.ignored⟩
    · simpa [push, Ne.symm square, Ne.symm round] using brackets
    · -- the text begins as it did before
      obtain ⟨apart, unmarked⟩ := last token hl
      refine ⟨apart, fun dynamic _ => ?_⟩
      obtain ⟨first, rest, hb⟩ := List.exists_cons_of_ne_nil filled
      have before := unmarked dynamic rfl
      simpa [push, hb] using before
    · have other : s.place = .within .dynamic := dynamic
      rw [place] at other
      cases other

/-! ## One character inside brackets -/

/-- Behind the dots of a catchall the brackets are those of a catchall. -/
theorem noticeCatchall_orderly (h : s.Orderly) (place : s.place = .within kind) (hk : kind ≠ .static) :
    s.noticeCatchall.Orderly ∧ s.noticeCatchall.buffer ≠ ['.', '.', '.'] ∧
      ∃ kind, s.noticeCatchall.place = .within kind ∧ kind ≠ .static := by
  unfold noticeCatchall
  split
  · exact ⟨orderly_within h.plain h.chain nofun nofun h.ignored, nofun, .catchall, rfl, nofun⟩
  · rename_i noticed
    exact ⟨h, noticed, kind, place, hk⟩

/-- A bracket or a parenthesis that closes what is open. -/
theorem close_orderly (h : s.Orderly) (place : s.place = .within kind) (hk : kind ≠ .static)
    (filled : s.buffer ≠ []) (noticed : kind = .dynamic → s.buffer ≠ ['.', '.', '.']) :
    ({ s.flush with place := .outside } : Scan).Orderly := by
  have steady := steady_of_within place hk
  obtain ⟨plain, chain⟩ := h.flush steady fun dynamic =>
    noticed (Place.within.inj (place.symm.trans dynamic))
  have current : s.kind = kind := by
    unfold Scan.kind
    rw [place]
  refine ⟨plain, chain, fun _ last hl => ?_, nofun, nofun, ?_⟩
  · have closed : s.flush.tokens.getLast? = some last := hl
    rw [flush_tokens_eq, if_neg filled, List.getLast?_concat, current] at closed
    exact Option.some.inj closed ▸ hk
  · show ∀ c ∈ s.flush.ignored, isForeign c = true
    rw [flush_ignored]
    exact h.ignored

theorem stepEnclosed_orderly (h : s.Orderly) (place : s.place = .within kind) (hk : kind ≠ .static)
    (noticed : kind = .dynamic → s.buffer ≠ ['.', '.', '.'])
    (hs : stepEnclosed segment kind previous s c = .ok next) : next.Orderly := by
  unfold stepEnclosed at hs
  have still : (if c = '[' ∧ kind = .dynamic then Kind.optional else kind) ≠ .static := by
    split
    · exact nofun
    · exact hk
  have clear : (if c = '[' ∧ kind = .dynamic then Kind.optional else kind) = .dynamic →
      ¬['.', '.', '.'] <+: s.buffer := by
    intro dynamic
    have same : kind = .dynamic := by
      split at dynamic
      · cases dynamic
      · exact dynamic
    exact (h.dynamic (same ▸ place)).resolve_left (noticed same)
  generalize (if c = '[' ∧ kind = .dynamic then Kind.optional else kind) = kind at hs still clear
  have undotted (dynamic : kind = .dynamic) : s.buffer ≠ ['.', '.', '.'] := by
    intro whole
    exact clear dynamic (whole ▸ List.prefix_rfl)
  have here : Orderly { s with place := .within kind } :=
    orderly_within h.plain h.chain still (fun dynamic => .inr (clear dynamic)) h.ignored
  simp only at hs
  split at hs
  · split at hs <;> cases hs
    rename_i filled
    exact close_orderly here rfl still (fun empty => filled (List.isEmpty_iff.2 empty)) undotted
  split at hs
  · split at hs <;> cases hs
    rename_i filled
    exact close_orderly here rfl still (fun empty => filled (List.isEmpty_iff.2 empty)) undotted
  split at hs
  · cases hs
    refine orderly_within h.plain h.chain still (fun dynamic => ?_) h.ignored
    -- the dots of a catchall may be complete with this character
    by_cases whole : s.buffer ++ [c] = ['.', '.', '.']
    · exact .inl whole
    · refine .inr fun dots => ?_
      rcases List.prefix_concat_iff.1 dots with all | before
      · exact whole all.symm
      · exact clear dynamic before
  rename_i closing _ name
  split at hs
  · rename_i passed
    cases hs
    refine orderly_within h.plain h.chain still (fun dynamic => .inr (clear dynamic)) ?_
    intro d hd
    rcases List.mem_append.1 hd with hd | hd
    · exact h.ignored d hd
    · rw [List.mem_singleton.1 hd]
      exact isForeign_iff.2 ⟨Bool.eq_false_iff.2 name, passed.2⟩
  · cases hs
    exact here

/-- **One character keeps the reading orderly.** -/
theorem step_orderly (h : s.Orderly ∧ s.Steady) (hs : step segment previous s c = .ok next) :
    next.Orderly ∧ next.Steady := by
  refine ⟨?_, step_steady h.2 hs⟩
  obtain ⟨h, steady⟩ := h
  cases free : s.place.enclosing? with
  | none =>
    have outside : step segment previous s c = .ok (s.stepOutside c) := by
      unfold step
      rcases Place.enclosing?_eq_none_iff.1 free with place | place <;> rw [place]
    obtain rfl : s.stepOutside c = next := Except.ok.inj (outside.symm.trans hs)
    exact stepOutside_orderly h steady free c
  | some kind =>
    obtain ⟨place, hk⟩ := Place.enclosing?_eq_some_iff.1 free
    obtain ⟨orderly, noticed, kind', place', hk'⟩ := noticeCatchall_orderly h place hk
    rw [step_enclosed (place ▸ enclosed_within hk), Scan.kind, place'] at hs
    exact stepEnclosed_orderly orderly place' hk' (fun _ => noticed) hs

end Scan

/-! ## Segments -/

/-- Tokens and left-out characters that a segment may be read into. Every token has text. Parameter names
and group labels have the characters of names only, literal text opens no brackets, and no dynamic
parameter starts like a catchall. Tokens that stand next to each other may do so, a catchall is the only
parameter, and what is left out are characters of no meaning. -/
structure Orderly (tokens : List Token) (ignored : List Char) : Prop where
  filled : ∀ token ∈ tokens, token.value ≠ ""
  named : ∀ token ∈ tokens, token.kind ≠ .static → ∀ c ∈ token.value.toList, isNameChar c = true
  plain : ∀ token ∈ tokens, token.Plain
  chain : tokens.IsChain Token.Precedes
  alone : ∀ token ∈ tokens, token.kind = .catchall → tokens.countP Token.isParam = 1
  ignored : ∀ c ∈ ignored, isForeign c = true

/-- A catchall that is not crowded is the only parameter. -/
theorem countP_isParam_of_not_crowded {tokens : List Token} {token : Token} (h : ¬Crowded tokens)
    (hm : token ∈ tokens) (catchall : token.kind = .catchall) : tokens.countP Token.isParam = 1 := by
  have param : token.isParam = true := by
    unfold Token.isParam
    rw [catchall]
    rfl
  have some : 0 < tokens.countP Token.isParam := List.countP_pos_iff.2 ⟨token, hm, param⟩
  have few : ¬2 ≤ tokens.countP Token.isParam := fun many => h ⟨token, hm, catchall, many⟩
  omega

/-- **Whatever a segment is read into is orderly**, also if brackets in it are left open or closed in the
wrong place. So the segment adds nothing to paths exactly if it adds nothing to names. -/
theorem tokenize_orderly {tokens : Tokens} (h : tokenize segment = .ok tokens) :
    Orderly tokens.tokens tokens.ignored ∧
      (transparent tokens.tokens = true ↔ label tokens.tokens = "") := by
  have found := tokenize_from h
  obtain ⟨s, run, closed, alone, rfl⟩ := tokenize_eq_ok_iff.1 h
  obtain ⟨orderly, steady⟩ : s.Orderly ∧ s.Steady :=
    Scan.run_keeps (fun _ _ _ _ _ before => Scan.step_orderly before)
      ⟨Scan.orderly_start, Scan.steady_start⟩ run
  obtain ⟨plain, chain⟩ := orderly.flush steady fun dynamic => absurd dynamic closed
  refine ⟨⟨fun token hm => ?_, fun token hm => (found token hm).named, plain, chain,
    fun token hm => countP_isParam_of_not_crowded alone hm, orderly.ignored⟩, ?_⟩
  · exact mt String.toList_eq_nil_iff.2 (found token hm).value_ne
  · exact (label_eq_empty_iff fun token hm => (found token hm).value_ne).symm

/-- A group, a dynamic parameter with a blank in it, literal text, an optional parameter whose inner
bracket stands in its name, a question mark that marks nothing, and a parenthesis that is left open. -/
theorem tokenize_orderly_odd :
    let segment := "(shop)[i d]x[a[b]]?(g"
    let tokens : Tokens := ⟨[⟨.group, "shop"⟩, ⟨.dynamic, "id"⟩, ⟨.static, "x"⟩, ⟨.optional, "ab"⟩,
      ⟨.static, "?"⟩, ⟨.group, "g"⟩], [' ']⟩
    tokenize segment = .ok tokens ∧ Orderly tokens.tokens tokens.ignored ∧
      (transparent tokens.tokens = true ↔ label tokens.tokens = "") := by
  intro segment tokens
  have read : tokenize segment = .ok tokens := by decide +kernel
  exact ⟨read, tokenize_orderly read⟩

end FileRoutes.Segment
