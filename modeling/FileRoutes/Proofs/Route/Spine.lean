import FileRoutes.Route.Url
import Mathlib.Data.List.Chain

/-!
# Spines of route paths

Route paths are made of pieces with a slash before each. A piece may hold slashes of its own, in the
pattern of a parameter, but only behind a caret; so the pieces can be read back from the path.

* `Url.Tame`: a text that brings no slash of a path with it; `Url.Clean` pieces are not empty besides.
* `Url.slashed`: the pieces with a slash before each. `Url.slashed_injective` reads them back.
* `Url.rooted`: the path of a spine, which is a bare slash if there are no pieces.
* `Url.joinChars_slashed`, `Url.joinChars_relative`: joining paths appends their pieces.
* `Url.hasDoubledSlash_rooted`: a path of clean pieces has no doubled slash.
-/

namespace FileRoutes.Url

variable {a b base p q rest : List Char} {ps qs : List (List Char)}

/-! ## Pieces -/

/-- A text that neither starts nor ends with a slash, nor ends with a caret, and in which slashes
stand behind carets only. -/
structure Tame (text : List Char) : Prop where
  head : text.head? ≠ some '/'
  last : text.getLast? ≠ some '/'
  open_ : text.getLast? ≠ some '^'
  guarded : text.IsChain fun a b => b = '/' → a = '^'

/-- A piece of a route path: tame and not empty. -/
structure Clean (piece : List Char) : Prop extends Tame piece where
  ne_nil : piece ≠ []

theorem tame_nil : Tame [] := ⟨by simp, by simp, by simp, .nil⟩

/-- A text without slashes and carets is tame. -/
theorem tame_of_free (h : ∀ c ∈ a, c ≠ '/' ∧ c ≠ '^') : Tame a := by
  constructor
  · intro head
    exact (h _ (List.mem_of_mem_head? head)).1 rfl
  · intro last
    exact (h _ (List.mem_of_getLast? last)).1 rfl
  · intro last
    exact (h _ (List.mem_of_getLast? last)).2 rfl
  · induction a with
    | nil => exact .nil
    | cons c rest ih =>
      have ih := ih fun d hd => h d (List.mem_cons_of_mem _ hd)
      cases rest with
      | nil => exact .singleton c
      | cons d rest =>
        have hd := (h d (List.mem_cons_of_mem _ List.mem_cons_self)).1
        exact List.isChain_cons_cons.2 ⟨fun slash => absurd slash hd, ih⟩

theorem Tame.append (ha : Tame a) (hb : Tame b) : Tame (a ++ b) := by
  constructor
  · rw [List.head?_append]
    cases hh : a.head? with
    | none => simpa using hb.head
    | some c => simpa [hh] using ha.head
  · rw [List.getLast?_append]
    cases hl : b.getLast? with
    | none => simpa using ha.last
    | some c => simpa [hl] using hb.last
  · rw [List.getLast?_append]
    cases hl : b.getLast? with
    | none => simpa using ha.open_
    | some c => simpa [hl] using hb.open_
  · refine List.isChain_append.2 ⟨ha.guarded, hb.guarded, ?_⟩
    intro x _ y hy slash
    exact absurd (slash ▸ hy) hb.head

/-- A clean piece does not go on behind a slash after another clean piece. -/
theorem Clean.ne_append_slash (hp : Clean p) (hq : Tame q) (rest : List Char) :
    q ≠ p ++ '/' :: rest := by
  rintro rfl
  obtain ⟨-, -, joint⟩ := List.isChain_append.1 hq.guarded
  obtain ⟨c, hc⟩ := Option.ne_none_iff_exists'.1 (mt List.getLast?_eq_none_iff.1 hp.ne_nil)
  have caret : c = '^' := joint c hc '/' rfl rfl
  exact hp.open_ (caret ▸ hc)

/-! ## Spines -/

/-- The pieces with a slash before each. -/
def slashed (pieces : List (List Char)) : List Char := pieces.flatMap fun piece => '/' :: piece

@[simp] theorem slashed_nil : slashed [] = [] := rfl

@[simp] theorem slashed_cons (piece : List Char) (pieces : List (List Char)) :
    slashed (piece :: pieces) = '/' :: (piece ++ slashed pieces) := rfl

theorem slashed_append (ps qs : List (List Char)) : slashed (ps ++ qs) = slashed ps ++ slashed qs :=
  List.flatMap_append

theorem slashed_eq_nil_iff : slashed ps = [] ↔ ps = [] := by
  cases ps with
  | nil => simp
  | cons p ps => simp

/-- What follows a piece in a spine is nothing or starts with a slash, so a piece that does not go on
behind a slash after another one does not go on after it at all. -/
theorem eq_nil_of_slashed_eq_append {more : List Char} (uncut : ∀ rest, q ≠ p ++ '/' :: rest)
    (longer : q = p ++ more) (h : slashed ps = more ++ rest) : more = [] := by
  cases more with
  | nil => rfl
  | cons c more =>
    cases ps with
    | nil => cases h
    | cons p' ps =>
      rw [slashed_cons, List.cons_append, List.cons.injEq] at h
      exact absurd (h.1 ▸ longer) (uncut more)

/-- Pieces of which none goes on behind a slash after another are read back from their spine. -/
theorem slashed_injective {P : List Char → Prop}
    (uncut : ∀ p q rest, P p → P q → q ≠ p ++ '/' :: rest) :
    ∀ {ps qs : List (List Char)}, (∀ p ∈ ps, P p) → (∀ q ∈ qs, P q) →
      slashed ps = slashed qs → ps = qs
  | [], qs, _, _, h => (slashed_eq_nil_iff.1 h.symm).symm
  | p :: ps, [], _, _, h => by cases h
  | p :: ps, q :: qs, hps, hqs, h => by
    have hp := hps p List.mem_cons_self
    have hq := hqs q List.mem_cons_self
    simp only [slashed_cons, List.cons.injEq, true_and] at h
    -- the longer of the two first pieces would go on behind a slash
    have same : p = q := by
      rcases List.append_eq_append_iff.1 h with ⟨more, longer, hs⟩ | ⟨more, longer, hs⟩
      · have none := eq_nil_of_slashed_eq_append (fun rest => uncut p q rest hp hq) longer hs
        rw [longer, none, List.append_nil]
      · have none := eq_nil_of_slashed_eq_append (fun rest => uncut q p rest hq hp) longer hs
        rw [longer, none, List.append_nil]
    subst same
    have rest := slashed_injective uncut (fun p hm => hps p (List.mem_cons_of_mem _ hm))
      (fun q hm => hqs q (List.mem_cons_of_mem _ hm)) (List.append_cancel_left h)
    rw [rest]

/-- Clean pieces are read back from their spine. -/
theorem slashed_injective_of_clean (hp : ∀ p ∈ ps, Clean p) (hq : ∀ q ∈ qs, Clean q)
    (h : slashed ps = slashed qs) : ps = qs :=
  slashed_injective (fun _ _ rest hp hq => hp.ne_append_slash hq.toTame rest) hp hq h

theorem getLast?_slashed (h : ∀ p ∈ ps, Clean p) : (slashed ps).getLast? ≠ some '/' := by
  induction ps with
  | nil => simp
  | cons p ps ih =>
    have ih := ih fun p hm => h p (List.mem_cons_of_mem _ hm)
    have hp := h p List.mem_cons_self
    rw [slashed_cons, ← List.cons_append, List.getLast?_append]
    cases hl : (slashed ps).getLast? with
    | some c => simpa [hl] using ih
    | none =>
      rw [Option.none_or, List.getLast?_cons_of_ne_nil hp.ne_nil]
      exact hp.last

theorem slashed_ne_slash (h : ∀ p ∈ ps, Clean p) : slashed ps ≠ ['/'] := by
  intro bare
  apply getLast?_slashed h
  rw [bare]
  rfl

/-- The path of a spine; without pieces it is a bare slash. -/
def rooted (spine : List Char) : List Char := if spine = [] then ['/'] else spine

@[simp] theorem rooted_nil : rooted [] = ['/'] := rfl

theorem rooted_slashed_of_ne_nil (h : ps ≠ []) : rooted (slashed ps) = slashed ps :=
  if_neg (mt slashed_eq_nil_iff.1 h)

theorem head?_rooted_slashed (ps : List (List Char)) : (rooted (slashed ps)).head? = some '/' := by
  cases ps with
  | nil => rfl
  | cons p ps => rfl

/-- The spine of a path of clean pieces is known by the path. -/
theorem rooted_slashed_injective (hp : ∀ p ∈ ps, Clean p) (hq : ∀ q ∈ qs, Clean q)
    (h : rooted (slashed ps) = rooted (slashed qs)) : ps = qs := by
  refine slashed_injective_of_clean hp hq ?_
  unfold rooted at h
  split at h
  · rename_i hps
    split at h
    · rename_i hqs
      rw [hps, hqs]
    · exact absurd h.symm (slashed_ne_slash hq)
  · split at h
    · exact absurd h (slashed_ne_slash hp)
    · exact h

/-! ## Joining -/

theorem dropWhile_slash (h : a.head? ≠ some '/') : ('/' :: a).dropWhile (· == '/') = a := by
  cases a with
  | nil => rfl
  | cons c a =>
    rw [List.dropWhile_cons_of_pos rfl]
    exact List.dropWhile_cons_of_neg (by simpa using h)

theorem head?_append_slashed (hp : Clean p) (qs : List (List Char)) :
    (p ++ slashed qs).head? ≠ some '/' := by
  rw [List.head?_append_of_ne_nil _ hp.ne_nil]
  exact hp.head

/-- A spine with a piece is no input that a join passes over. -/
theorem slashed_filled (hp : Clean p) (ps : List (List Char)) :
    ¬(slashed (p :: ps) = [] ∨ slashed (p :: ps) = ['/']) := by
  rintro (h | h)
  · cases h
  · simp [hp.ne_nil] at h

/-- Joining appends the pieces of the input to those of the base. -/
theorem joinChars_slashed (hb : base = slashed ps ∨ base = rooted (slashed ps))
    (hps : ∀ p ∈ ps, Clean p) (hqs : ∀ q ∈ qs, Clean q) (hne : qs ≠ []) :
    joinChars base (slashed qs) = slashed (ps ++ qs) := by
  obtain ⟨q, qs, rfl⟩ := List.exists_cons_of_ne_nil hne
  have hq := hqs q List.mem_cons_self
  unfold joinChars
  rw [if_neg (slashed_filled hq qs), slashed_append]
  have stripped := dropWhile_slash (head?_append_slashed hq qs)
  rw [← slashed_cons] at stripped
  split
  · rename_i empty
    have none : ps = [] := by
      rcases hb with hb | hb
      · exact slashed_eq_nil_iff.1 (hb.symm.trans empty)
      · have head := head?_rooted_slashed ps
        rw [← hb, empty] at head
        cases head
    rw [none, slashed_nil, List.nil_append]
  · rename_i nonempty
    rw [stripped]
    cases ps with
    | nil =>
      -- the base is a bare slash, which the join does not repeat
      have bare : base = ['/'] := hb.resolve_left nonempty
      rw [bare]
      rfl
    | cons p ps =>
      have spine : base = slashed (p :: ps) := hb.elim id id
      rw [spine, if_neg (getLast?_slashed hps), slashed_cons q qs, List.append_assoc]
      rfl

/-- So it does if the input has lost its first slash. -/
theorem joinChars_relative (hps : ∀ p ∈ ps, Clean p) (hp : Clean p) (hqs : ∀ q ∈ qs, Clean q) :
    joinChars (rooted (slashed ps)) (p ++ slashed qs) = slashed (ps ++ p :: qs) := by
  have hne : p :: qs ≠ [] := List.cons_ne_nil _ _
  rw [← joinChars_slashed (Or.inr rfl) hps (List.forall_mem_cons.2 ⟨hp, hqs⟩) hne]
  have head := head?_append_slashed hp qs
  have filled : ¬(p ++ slashed qs = [] ∨ p ++ slashed qs = ['/']) := by
    rintro (h | h)
    · exact hp.ne_nil (List.append_eq_nil_iff.1 h).1
    · exact head (h ▸ rfl)
  have nonempty : rooted (slashed ps) ≠ [] := by
    intro h
    have head := head?_rooted_slashed ps
    simp [h] at head
  have kept : (p ++ slashed qs).dropWhile (· == '/') = p ++ slashed qs := by
    cases hs : p ++ slashed qs with
    | nil => rfl
    | cons c rest =>
      rw [hs] at head
      exact List.dropWhile_cons_of_neg (by simpa using head)
  unfold joinChars
  rw [if_neg filled, if_neg (slashed_filled hp qs), if_neg nonempty, if_neg nonempty, kept, slashed_cons,
    dropWhile_slash head]

theorem joinChars_slash (base : List Char) : joinChars base ['/'] = base := rfl

theorem nil_joinChars (h : a ≠ ['/']) : joinChars [] a = a := by
  unfold joinChars
  split
  · rename_i empty
    exact (empty.resolve_right h).symm
  · rw [if_pos rfl]

/-! ## Doubled slashes -/

/-- Of two adjacent characters of a path of clean pieces at most one is a slash. -/
theorem isChain_slashed (h : ∀ p ∈ ps, Clean p) :
    (slashed ps).IsChain fun a b => a = '/' → b ≠ '/' := by
  induction ps with
  | nil => exact .nil
  | cons p ps ih =>
    have ih := ih fun p hm => h p (List.mem_cons_of_mem _ hm)
    have hp := h p List.mem_cons_self
    have inner : ('/' :: p).IsChain fun a b => a = '/' → b ≠ '/' := by
      refine List.isChain_cons.2 ⟨?_, hp.guarded.imp ?_⟩
      · intro c hc _ slash
        exact hp.head (slash ▸ hc)
      · intro a b guard slash again
        have caret : a = '^' := guard again
        rw [slash] at caret
        exact absurd caret (by decide)
    rw [slashed_cons, ← List.cons_append]
    refine List.isChain_append.2 ⟨inner, ih, ?_⟩
    intro c hc d _ slash _
    rw [List.getLast?_cons_of_ne_nil hp.ne_nil] at hc
    exact hp.last (slash ▸ hc)

theorem occursIn_eq_false (h : a.IsChain fun a b => a = '/' → b ≠ '/') :
    Text.occursIn ['/', '/'] a = false := by
  induction a with
  | nil => rfl
  | cons c rest ih =>
    have ih := ih h.tail
    cases rest with
    | nil => simp [Text.occursIn, Text.stripPrefix?]
    | cons d rest =>
      have apart : c = '/' → d ≠ '/' := (List.isChain_cons_cons.1 h).1
      unfold Text.occursIn
      rw [ih, Bool.or_false]
      by_cases hc : '/' = c
      · simp [Text.stripPrefix?, (apart hc.symm).symm]
      · simp [Text.stripPrefix?, hc]

/-- **A path of clean pieces has no doubled slash.** -/
theorem hasDoubledSlash_rooted (h : ∀ p ∈ ps, Clean p) :
    hasDoubledSlash (String.ofList (rooted (slashed ps))) = false := by
  unfold hasDoubledSlash
  rw [String.toList_ofList]
  cases ps with
  | nil => rfl
  | cons p ps => exact occursIn_eq_false (isChain_slashed h)

end FileRoutes.Url
