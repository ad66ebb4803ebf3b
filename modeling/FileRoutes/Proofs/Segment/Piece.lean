import FileRoutes.Proofs.Route.Spine
import FileRoutes.Proofs.Segment.Tokens
import FileRoutes.Segment.Compile

/-!
# Segments as pieces of route paths

The tokens of a segment add a clean piece to a route path and a label without slashes to its name.

* `Segment.piece`: what the tokens add to the path, without the leading slash.
* `Segment.clean_piece`: the piece is clean if the segment is not transparent.
* `Segment.label_ne_empty`, `Segment.slashless_label`: its label is not empty and has no slash;
  `Segment.label_eq_empty_iff` says when a label is empty.
* `Segment.label_of_piece`: a piece that has no character with a special meaning is the label.
-/

namespace FileRoutes.Segment

open Url (Tame Clean)

variable {token : Token} {tokens : List Token} {followed : Bool} {text : List Char} {c : Char}

/-- What tokens add to a route path, without the slash before it. -/
def piece (tokens : List Token) (followed : Bool) : List Char :=
  tokens.flatMap fun token => (token.fragment followed).toList

theorem toList_compile (tokens : List Token) (followed : Bool) :
    (compile tokens followed).toList = '/' :: piece tokens followed := by
  unfold compile piece
  rw [String.toList_append, String.toList_join, List.flatMap_map]
  rfl

theorem toList_label (tokens : List Token) :
    (label tokens).toList =
      (tokens.filter fun token => !token.isGroup).flatMap fun token => token.value.toList := by
  unfold label
  rw [String.toList_join, List.flatMap_map]

/-! ## Literal text -/

theorem isAlphanum_hexDigit : ∀ n < 16, (hexDigit n).isAlphanum = true := by decide

/-- A triplet has no characters besides the percent sign and hexadecimal digits. -/
theorem not_mem_percent (sign : c ≠ '%') (digit : c.isAlphanum = false) (byte : UInt8) :
    c ∉ percent byte := by
  have small : byte.toNat < 256 := byte.toNat_lt
  have other {n : Nat} (hn : n < 16) : c ≠ hexDigit n := by
    rintro rfl
    rw [isAlphanum_hexDigit n hn] at digit
    cases digit
  intro hc
  simp only [percent, List.mem_cons, List.not_mem_nil, or_false] at hc
  rcases hc with rfl | hc | hc
  · exact sign rfl
  · exact other (by omega) hc
  · exact other (by omega) hc

/-- Written-out text has neither slashes, as long as the text has none, nor carets. -/
theorem encodeChar_free (slash : c ≠ '/') : ∀ d ∈ encodeChar c, d ≠ '/' ∧ d ≠ '^' := by
  intro d hd
  unfold encodeChar at hd
  split at hd
  · simp only [List.mem_cons, List.not_mem_nil, or_false] at hd
    rcases hd with rfl | rfl <;> decide
  split at hd
  · rename_i plain
    obtain rfl := List.mem_singleton.1 hd
    refine ⟨slash, ?_⟩
    rintro rfl
    revert plain
    decide
  · obtain ⟨byte, -, hb⟩ := List.mem_flatMap.1 hd
    constructor
    · rintro rfl
      exact not_mem_percent (by decide) (by decide) byte hb
    · rintro rfl
      exact not_mem_percent (by decide) (by decide) byte hb

theorem encodeChar_ne_nil (c : Char) : encodeChar c ≠ [] := by
  unfold encodeChar
  split
  · simp
  split
  · simp
  · obtain ⟨byte, rest, hb⟩ := List.exists_cons_of_ne_nil (String.utf8EncodeChar_ne_nil (c := c))
    simp [hb, percent]

theorem encodeStatic_free (slashless : '/' ∉ text) :
    ∀ d ∈ (encodeStatic (String.ofList text)).toList, d ≠ '/' ∧ d ≠ '^' := by
  intro d hd
  unfold encodeStatic at hd
  rw [String.toList_ofList, String.toList_ofList] at hd
  obtain ⟨c, hc, hd⟩ := List.mem_flatMap.1 hd
  exact encodeChar_free (fun he => slashless (he ▸ hc)) d hd

/-- Text that is written without colons, percent signs and backslashes is written as it is. -/
theorem encodeChar_eq_self (h : ∀ d ∈ encodeChar c, d ≠ '\\' ∧ d ≠ '%') : encodeChar c = [c] := by
  unfold encodeChar at h ⊢
  split
  · rename_i colon
    rw [if_pos colon] at h
    exact absurd rfl (h '\\' List.mem_cons_self).1
  split
  · rfl
  · rename_i colon plain
    rw [if_neg colon, if_neg plain] at h
    obtain ⟨byte, rest, hb⟩ := List.exists_cons_of_ne_nil (String.utf8EncodeChar_ne_nil (c := c))
    refine absurd rfl (h '%' ?_).2
    rw [hb]
    exact List.mem_cons_self

/-! ## Fragments -/

/-- The pattern of a catchall that is followed by another segment holds a slash behind a caret. -/
theorem tame_followed : Tame "([^/]*)*".toList := by
  refine ⟨by decide, by decide, by decide, ?_⟩
  simp [List.isChain_cons_cons]

theorem free_of_named {value : String} (h : ∀ c ∈ value.toList, isNameChar c = true) :
    ∀ c ∈ value.toList, c ≠ '/' ∧ c ≠ '^' := by
  intro c hc
  refine ⟨ne_slash_of_isNameChar (h c hc), ?_⟩
  rintro rfl
  have := h _ hc
  revert this
  decide

theorem tame_fragment (h : token.Sound) : Tame (token.fragment followed).toList := by
  obtain ⟨kind, value⟩ := token
  have colon : Tame [':'] := Url.tame_of_free (by simp)
  have round : Tame ['(', ')'] := Url.tame_of_free (by simp)
  have mark : Tame ['?'] := Url.tame_of_free (by simp)
  have rest : Tame "(.*)*".toList := Url.tame_of_free (by simp)
  cases kind with
  | static =>
    refine Url.tame_of_free ?_
    have := encodeStatic_free h.slashless
    rwa [String.ofList_toList] at this
  | group => exact Url.tame_nil
  | dynamic =>
    have name := Url.tame_of_free (free_of_named (h.named (by simp)))
    simpa [Token.fragment] using colon.append (name.append round)
  | optional =>
    have name := Url.tame_of_free (free_of_named (h.named (by simp)))
    simpa [Token.fragment] using colon.append (name.append mark)
  | catchall =>
    have name := Url.tame_of_free (free_of_named (h.named (by simp)))
    cases followed with
    | true => simpa [Token.fragment] using colon.append (name.append tame_followed)
    | false => simpa [Token.fragment] using colon.append (name.append rest)

theorem fragment_ne_nil (h : token.value.toList ≠ []) (trace : token.isGroup = false) :
    (token.fragment followed).toList ≠ [] := by
  obtain ⟨kind, value⟩ := token
  cases kind with
  | static =>
    obtain ⟨c, rest, hc⟩ := List.exists_cons_of_ne_nil h
    simp only at hc
    simp [Token.fragment, encodeStatic, hc, encodeChar_ne_nil]
  | group => cases trace
  | dynamic => simp [Token.fragment]
  | optional => simp [Token.fragment]
  | catchall => simp [Token.fragment]

/-! ## Segments -/

theorem tame_piece (followed : Bool) :
    ∀ {tokens : List Token}, (∀ token ∈ tokens, token.Sound) → Tame (piece tokens followed)
  | [], _ => Url.tame_nil
  | token :: rest, h => by
    have ih := tame_piece followed fun t hm => h t (List.mem_cons_of_mem _ hm)
    exact (tame_fragment (h token List.mem_cons_self)).append ih

theorem exists_of_not_transparent (h : transparent tokens = false) :
    ∃ token ∈ tokens, token.isGroup = false := by
  unfold transparent at h
  simpa using List.all_eq_false.1 h

/-- **A segment that is not transparent adds a clean piece to the path.** -/
theorem clean_piece (h : ∀ token ∈ tokens, token.Sound) (trace : transparent tokens = false)
    (followed : Bool) : Clean (piece tokens followed) := by
  obtain ⟨token, hm, hg⟩ := exists_of_not_transparent trace
  refine ⟨tame_piece followed h, ?_⟩
  intro empty
  exact fragment_ne_nil (h token hm).value_ne hg (List.flatMap_eq_nil_iff.1 empty token hm)

/-- Tokens that have text have the empty label exactly if they are group labels only. -/
theorem label_eq_empty_iff (filled : ∀ token ∈ tokens, token.value.toList ≠ []) :
    label tokens = "" ↔ transparent tokens = true := by
  constructor
  · intro empty
    by_contra trace
    obtain ⟨token, hm, hg⟩ := exists_of_not_transparent (Bool.eq_false_iff.2 trace)
    have text := toList_label tokens
    rw [empty] at text
    have kept : token ∈ tokens.filter fun token => !token.isGroup :=
      List.mem_filter.2 ⟨hm, by simp [hg]⟩
    exact filled token hm (List.flatMap_eq_nil_iff.1 text.symm token kept)
  · intro groups
    have none : (tokens.filter fun token => !token.isGroup) = [] := by
      refine List.filter_eq_nil_iff.2 fun token hm => ?_
      simp [List.all_eq_true.1 groups token hm]
    rw [← String.toList_inj, toList_label, none]
    rfl

theorem label_ne_empty (h : ∀ token ∈ tokens, token.Sound) (trace : transparent tokens = false) :
    label tokens ≠ "" := by
  intro empty
  rw [label_eq_empty_iff fun token hm => (h token hm).value_ne, trace] at empty
  cases empty

theorem slashless_label (h : ∀ token ∈ tokens, token.Sound) : '/' ∉ (label tokens).toList := by
  rw [toList_label]
  intro hm
  obtain ⟨token, ht, hs⟩ := List.mem_flatMap.1 hm
  exact (h token (List.mem_of_mem_filter ht)).slashless hs

/-- **A piece without special characters is the label.** Parameters are written with a colon, and
characters that cannot stand for themselves with a percent sign or a backslash. -/
theorem label_of_piece (followed : Bool) :
    ∀ {tokens : List Token}, (∀ c ∈ piece tokens followed, c ≠ ':' ∧ c ≠ '\\' ∧ c ≠ '%') →
      (label tokens).toList = piece tokens followed
  | [], _ => rfl
  | token :: rest, h => by
    have ih : (label rest).toList = piece rest followed :=
      label_of_piece followed fun c hc => h c (List.mem_append_right _ hc)
    have here : ∀ c ∈ (token.fragment followed).toList, c ≠ ':' ∧ c ≠ '\\' ∧ c ≠ '%' :=
      fun c hc => h c (List.mem_append_left _ hc)
    rw [toList_label] at ih ⊢
    obtain ⟨kind, value⟩ := token
    cases kind with
    | static =>
      have same : (encodeStatic value).toList = value.toList := by
        unfold encodeStatic
        rw [String.toList_ofList]
        refine (List.flatMap_congr fun c hc => encodeChar_eq_self fun d hd => ?_).trans
          (List.flatMap_singleton' _)
        refine (here d ?_).2
        simp only [Token.fragment, encodeStatic, String.toList_ofList]
        exact List.mem_flatMap.2 ⟨c, hc, hd⟩
      show value.toList ++ _ = (encodeStatic value).toList ++ piece rest followed
      rw [same]
      exact congrArg (value.toList ++ ·) ih
    | group => exact ih
    | dynamic => exact absurd rfl (here ':' (by simp [Token.fragment])).1
    | optional => exact absurd rfl (here ':' (by simp [Token.fragment])).1
    | catchall => exact absurd rfl (here ':' (by simp [Token.fragment])).1

end FileRoutes.Segment
