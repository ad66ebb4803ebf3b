import FileRoutes.Proofs.Segment.Piece

/-!
# Literal text in pieces of route paths

A colon of a route path that no backslash precedes comes from a parameter, and a path without
parameters is the percent-encoded text of its segments once the backslashes are taken out.

* `Segment.percentEncode`: literal text with its unsafe bytes as percent triplets and plain colons.
* `Segment.plainText`: the percent-encoded literal text of a segment.
* `Segment.marksParam_piece`, `Segment.unescape_piece`: the colons of one piece.
* `Segment.Placed`, `Segment.pieces`: segments in their places, and what they add to a path there.
* `Segment.marksParam_rooted`, `Segment.unescape_rooted`: the colons of a path of pieces.
-/

namespace FileRoutes.Segment

open Url (slashed rooted)

variable {token : Token} {tokens : List Token} {followed : Bool} {previous : Option Char} {c d : Char}
  {a b : List Char}

/-! ## Percent-encoded text -/

/-- One character of percent-encoded text. A colon is plain. -/
def percentChar (c : Char) : List Char :=
  if isPlain c then [c] else (String.utf8EncodeChar c).flatMap percent

/-- Literal text with its unsafe bytes as percent triplets. -/
def percentEncode (text : String) : String := String.ofList (text.toList.flatMap percentChar)

/-- The percent-encoded literal text of a segment. -/
def plainText (tokens : List Token) : String :=
  String.join ((tokens.filter fun token => token.kind = .static).map fun token =>
    percentEncode token.value)

example : plainText [⟨.group, "g"⟩, ⟨.static, "a: \\"⟩] = "a:%20%5C" := by decide +kernel

/-- Percent-encoded text has no backslashes, and no colons but those of the text itself. -/
theorem percentChar_free (hd : d ∈ percentChar c) : d ≠ '\\' ∧ (c ≠ ':' → d ≠ ':') := by
  unfold percentChar at hd
  split at hd
  · rename_i plain
    obtain rfl := List.mem_singleton.1 hd
    refine ⟨?_, id⟩
    rintro rfl
    revert plain
    decide
  · obtain ⟨byte, -, hb⟩ := List.mem_flatMap.1 hd
    constructor
    · rintro rfl
      exact not_mem_percent (by decide) (by decide) byte hb
    · rintro - rfl
      exact not_mem_percent (by decide) (by decide) byte hb

theorem encodeChar_of_ne (h : c ≠ ':') : encodeChar c = percentChar c := if_neg h

/-! ## Unescaped colons -/

theorem marksParam_append (previous : Option Char) (b : List Char) :
    ∀ a : List Char, marksParam previous (a ++ b) =
      (marksParam previous a || marksParam (a.getLast?.or previous) b)
  | [] => by simp [marksParam]
  | c :: a => by
    have ih := marksParam_append (some c) b a
    rw [List.cons_append, marksParam, marksParam, ih, getLast?_cons_or, Bool.or_assoc]

theorem marksParam_of_free (h : ∀ d ∈ a, d ≠ ':') (previous : Option Char) :
    marksParam previous a = false := by
  induction a generalizing previous with
  | nil => rfl
  | cons c rest ih =>
    have hc := h c List.mem_cons_self
    rw [marksParam, ih fun d hd => h d (List.mem_cons_of_mem _ hd)]
    simp [hc]

/-- No colon of literal text marks a parameter. -/
theorem marksParam_encodeChar (c : Char) (previous : Option Char) :
    marksParam previous (encodeChar c) = false := by
  by_cases colon : c = ':'
  · subst colon
    simp [encodeChar, marksParam]
  · rw [encodeChar_of_ne colon]
    exact marksParam_of_free (fun d hd => (percentChar_free hd).2 colon) previous

theorem marksParam_encodeStatic (text : String) (previous : Option Char) :
    marksParam previous (encodeStatic text).toList = false := by
  unfold encodeStatic
  rw [String.toList_ofList]
  induction text.toList generalizing previous with
  | nil => rfl
  | cons c rest ih =>
    rw [List.flatMap_cons, marksParam_append, marksParam_encodeChar, ih]
    rfl

/-- What a token adds does not end in a backslash, so it escapes nothing that follows. -/
theorem getLast?_encodeChar (c : Char) : (encodeChar c).getLast? ≠ some '\\' := by
  by_cases colon : c = ':'
  · subst colon
    decide
  · rw [encodeChar_of_ne colon]
    intro last
    exact (percentChar_free (List.mem_of_getLast? last)).1 rfl

theorem getLast?_fragment (token : Token) (followed : Bool) :
    (token.fragment followed).toList.getLast? ≠ some '\\' := by
  obtain ⟨kind, value⟩ := token
  have last {mark : List Char} (filled : mark ≠ []) (clear : mark.getLast? ≠ some '\\') :
      (':' :: (value.toList ++ mark)).getLast? ≠ some '\\' := by
    rw [← List.cons_append, List.getLast?_append_of_ne_nil _ filled]
    exact clear
  cases kind with
  | static =>
    show (encodeStatic value).toList.getLast? ≠ some '\\'
    unfold encodeStatic
    rw [String.toList_ofList]
    induction value.toList with
    | nil => simp
    | cons c rest ih =>
      rw [List.flatMap_cons, List.getLast?_append]
      intro last
      rcases Option.or_eq_some_iff.1 last with last | ⟨-, last⟩
      · exact ih last
      · exact getLast?_encodeChar c last
  | group => simp [Token.fragment]
  | dynamic => simpa [Token.fragment] using @last ['(', ')'] (by simp) (by simp)
  | optional => simpa [Token.fragment] using @last ['?'] (by simp) (by simp)
  | catchall =>
    cases followed with
    | true => simpa [Token.fragment] using @last "([^/]*)*".toList (by simp) (by simp)
    | false => simpa [Token.fragment] using @last "(.*)*".toList (by simp) (by simp)

/-- A token marks a parameter if it is one. -/
theorem marksParam_fragment (h : previous ≠ some '\\') (token : Token) (followed : Bool) :
    marksParam previous (token.fragment followed).toList = token.isParam := by
  obtain ⟨kind, value⟩ := token
  cases kind with
  | static => exact marksParam_encodeStatic value previous
  | group => rfl
  | dynamic => simp [Token.fragment, marksParam, h, Token.isParam, Kind.isParam]
  | optional => simp [Token.fragment, marksParam, h, Token.isParam, Kind.isParam]
  | catchall => simp [Token.fragment, marksParam, h, Token.isParam, Kind.isParam]

/-- **A piece marks a parameter if one of its tokens is one.** -/
theorem marksParam_piece (followed : Bool) :
    ∀ (tokens : List Token) (previous : Option Char), previous ≠ some '\\' →
      marksParam previous (piece tokens followed) = tokens.any Token.isParam
  | [], _, _ => rfl
  | token :: rest, previous, h => by
    have clear : (token.fragment followed).toList.getLast?.or previous ≠ some '\\' := by
      intro last
      rcases Option.or_eq_some_iff.1 last with last | ⟨-, last⟩
      · exact getLast?_fragment token followed last
      · exact h last
    have ih := marksParam_piece followed rest _ clear
    unfold piece at ih ⊢
    rw [List.flatMap_cons, marksParam_append, marksParam_fragment h, ih, List.any_cons]

/-! ## Escaped colons -/

theorem unescape_cons (h : c ≠ '\\') (rest : List Char) :
    unescape (c :: rest) = c :: unescape rest := by
  conv_lhs => unfold unescape
  split
  · rename_i he
    exact absurd (List.cons.inj he).1 h
  · rename_i he
    rw [(List.cons.inj he).1, (List.cons.inj he).2]
  · rename_i he
    cases he

theorem unescape_append_of_free (h : ∀ d ∈ a, d ≠ '\\') (rest : List Char) :
    unescape (a ++ rest) = a ++ unescape rest := by
  induction a with
  | nil => rfl
  | cons c a ih =>
    rw [List.cons_append, unescape_cons (h c List.mem_cons_self),
      ih fun d hd => h d (List.mem_cons_of_mem _ hd), List.cons_append]

theorem unescape_encodeChar (c : Char) (rest : List Char) :
    unescape (encodeChar c ++ rest) = percentChar c ++ unescape rest := by
  by_cases colon : c = ':'
  · subst colon
    rfl
  · rw [encodeChar_of_ne colon]
    exact unescape_append_of_free (fun d hd => (percentChar_free hd).1) rest

/-- Literal text without its backslashes is percent-encoded. -/
theorem unescape_encodeStatic (text : String) (rest : List Char) :
    unescape ((encodeStatic text).toList ++ rest) =
      (percentEncode text).toList ++ unescape rest := by
  unfold encodeStatic percentEncode
  rw [String.toList_ofList, String.toList_ofList]
  induction text.toList with
  | nil => rfl
  | cons c text ih =>
    rw [List.flatMap_cons, List.flatMap_cons, List.append_assoc, unescape_encodeChar, ih,
      List.append_assoc]

theorem toList_plainText (tokens : List Token) :
    (plainText tokens).toList =
      (tokens.filter fun token => token.kind = .static).flatMap fun token =>
        (percentEncode token.value).toList := by
  unfold plainText
  rw [String.toList_join, List.flatMap_map]

/-- **A piece without parameters is the percent-encoded text of its segment**, once the backslashes
are taken out. -/
theorem unescape_piece (followed : Bool) (rest : List Char) :
    ∀ {tokens : List Token}, tokens.any Token.isParam = false →
      unescape (piece tokens followed ++ rest) = (plainText tokens).toList ++ unescape rest
  | [], _ => rfl
  | token :: tokens, h => by
    rw [List.any_cons, Bool.or_eq_false_iff] at h
    have ih := unescape_piece followed rest h.2
    rw [toList_plainText] at ih ⊢
    unfold piece at ih ⊢
    rw [List.flatMap_cons, List.append_assoc]
    obtain ⟨kind, value⟩ := token
    cases kind with
    | static =>
      show unescape ((encodeStatic value).toList ++ _) = _
      rw [unescape_encodeStatic, ih]
      simp
    | group => simpa [Token.fragment] using ih
    | dynamic => cases h.1
    | optional => cases h.1
    | catchall => cases h.1

/-! ## Spines -/

/-- A segment in its place: its tokens, and whether it is followed by another segment. -/
structure Placed where
  tokens : List Token
  followed : Bool

/-- What segments add to a path. -/
def pieces (placed : List Placed) : List (List Char) :=
  placed.map fun segment => piece segment.tokens segment.followed

theorem pieces_cons (segment : Placed) (rest : List Placed) :
    pieces (segment :: rest) = piece segment.tokens segment.followed :: pieces rest := rfl

/-- A spine marks a parameter if a token of its segments is one. -/
theorem marksParam_slashed : ∀ (placed : List Placed) (previous : Option Char),
    marksParam previous (slashed (pieces placed)) =
      (placed.map Placed.tokens).any fun tokens => tokens.any Token.isParam
  | [], _ => rfl
  | segment :: rest, previous => by
    have ih := marksParam_slashed rest
    rw [pieces_cons, Url.slashed_cons, marksParam, marksParam_append, ih,
      marksParam_piece segment.followed segment.tokens _ (by simp), List.map_cons, List.any_cons]
    rfl

/-- A spine without parameters is that of the percent-encoded texts, once the backslashes are taken
out. -/
theorem unescape_slashed : ∀ placed : List Placed,
    ((placed.map Placed.tokens).any fun tokens => tokens.any Token.isParam) = false →
      unescape (slashed (pieces placed)) =
        slashed ((placed.map Placed.tokens).map fun tokens => (plainText tokens).toList)
  | [], _ => rfl
  | segment :: rest, plain => by
    rw [List.map_cons, List.any_cons, Bool.or_eq_false_iff] at plain
    have ih := unescape_slashed rest plain.2
    rw [pieces_cons, Url.slashed_cons, unescape_cons (by decide),
      unescape_piece segment.followed _ plain.1, ih, List.map_cons, List.map_cons, Url.slashed_cons]

/-- **The path of a spine holds a parameter if a token of its segments is one.** -/
theorem marksParam_rooted (placed : List Placed) :
    marksParam none (rooted (slashed (pieces placed))) =
      (placed.map Placed.tokens).any fun tokens => tokens.any Token.isParam := by
  cases placed with
  | nil => rfl
  | cons segment rest =>
    rw [pieces_cons, Url.rooted_slashed_of_ne_nil (List.cons_ne_nil _ _)]
    exact marksParam_slashed (segment :: rest) none

/-- **The path of a spine without parameters is that of the percent-encoded texts**, once the
backslashes are taken out. -/
theorem unescape_rooted (placed : List Placed)
    (plain : ((placed.map Placed.tokens).any fun tokens => tokens.any Token.isParam) = false) :
    unescape (rooted (slashed (pieces placed))) =
      rooted (slashed ((placed.map Placed.tokens).map fun tokens => (plainText tokens).toList)) := by
  cases placed with
  | nil => rfl
  | cons segment rest =>
    rw [pieces_cons, Url.rooted_slashed_of_ne_nil (List.cons_ne_nil _ _), ← pieces_cons,
      unescape_slashed (segment :: rest) plain, Url.rooted_slashed_of_ne_nil]
    exact List.cons_ne_nil _ _

end FileRoutes.Segment
