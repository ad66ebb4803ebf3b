import FileRoutes.Text.Unicode

/-!
# Cutting texts

Texts are cut as lists of characters.

* `splitOn`: the pieces between the occurrences of a separator; `splitOn_intercalate` reads pieces
  back from their join.
* `splitLast?`: the parts before and after the last occurrence of a separator.
* `stripPrefix?`, `stripSuffix?`: what is left of a text after a fixed beginning or before a fixed
  ending.
* `occursIn`: whether a text holds another one.
* `trim`: a text without the white space at its ends.
-/

namespace FileRoutes.Text

/-- The pieces between the occurrences of a separator; there is always at least one. -/
def splitOn (separator : Char) : List Char → List (List Char)
  | [] => [[]]
  | c :: rest =>
    if c = separator then [] :: splitOn separator rest
    else match splitOn separator rest with
      | [] => [[c]]
      | piece :: pieces => (c :: piece) :: pieces

/-- The parts before and after the last occurrence of a separator. -/
def splitLast? (separator : Char) : List Char → Option (List Char × List Char)
  | [] => none
  | c :: rest =>
    match splitLast? separator rest with
    | some (before, after) => some (c :: before, after)
    | none => if c = separator then some ([], rest) else none

/-- What follows a fixed beginning. -/
def stripPrefix? : (beginning text : List Char) → Option (List Char)
  | [], text => some text
  | _ :: _, [] => none
  | b :: beginning, c :: text => if b = c then stripPrefix? beginning text else none

/-- What stands before a fixed ending. -/
def stripSuffix? (ending text : List Char) : Option (List Char) :=
  (stripPrefix? ending.reverse text.reverse).map List.reverse

/-- The needle stands somewhere in the text. -/
def occursIn (needle : List Char) : (text : List Char) → Bool
  | [] => needle.isEmpty
  | c :: rest => (stripPrefix? needle (c :: rest)).isSome || occursIn needle rest

/-- A text without the white space at its ends. -/
def trim (text : List Char) : List Char :=
  ((text.dropWhile Unicode.isWhiteSpace).reverse.dropWhile Unicode.isWhiteSpace).reverse

/-! ## Beginnings and endings -/

theorem stripPrefix?_append (beginning rest : List Char) :
    stripPrefix? beginning (beginning ++ rest) = some rest := by
  induction beginning with
  | nil => rfl
  | cons b beginning ih => simpa [stripPrefix?] using ih

theorem stripPrefix?_eq_some_iff {beginning text rest : List Char} :
    stripPrefix? beginning text = some rest ↔ text = beginning ++ rest := by
  refine ⟨fun h => ?_, fun h => h ▸ stripPrefix?_append beginning rest⟩
  induction beginning generalizing text with
  | nil => simpa [stripPrefix?] using h
  | cons b beginning ih =>
    cases text with
    | nil => simp [stripPrefix?] at h
    | cons c text =>
      by_cases hc : b = c
      · simp only [stripPrefix?, hc, if_true] at h
        simp [hc, ih h]
      · simp [stripPrefix?, hc] at h

theorem stripSuffix?_append (rest ending : List Char) :
    stripSuffix? ending (rest ++ ending) = some rest := by
  simp [stripSuffix?, stripPrefix?_append]

theorem stripSuffix?_eq_some_iff {ending text rest : List Char} :
    stripSuffix? ending text = some rest ↔ text = rest ++ ending := by
  refine ⟨fun h => ?_, fun h => h ▸ stripSuffix?_append rest ending⟩
  obtain ⟨r, hr, rfl⟩ := Option.map_eq_some_iff.1 h
  have := congrArg List.reverse (stripPrefix?_eq_some_iff.1 hr)
  simpa using this

/-! ## Separators -/

theorem splitOn_ne_nil (separator : Char) (text : List Char) : splitOn separator text ≠ [] := by
  cases text with
  | nil => simp [splitOn]
  | cons c rest =>
    simp only [splitOn]
    split
    · simp
    · split <;> simp

/-- A piece without the separator is read back. -/
theorem splitOn_append_separator {separator : Char} {piece : List Char} (h : separator ∉ piece)
    (rest : List Char) :
    splitOn separator (piece ++ separator :: rest) = piece :: splitOn separator rest := by
  induction piece with
  | nil => simp [splitOn]
  | cons c piece ih =>
    have hc : c ≠ separator := fun e => h (by simp [e])
    have hp : separator ∉ piece := fun hm => h (List.mem_cons_of_mem _ hm)
    simp [splitOn, hc, ih hp]

theorem splitOn_eq_singleton {separator : Char} {text : List Char} (h : separator ∉ text) :
    splitOn separator text = [text] := by
  induction text with
  | nil => rfl
  | cons c text ih =>
    have hc : c ≠ separator := fun e => h (by simp [e])
    have ht : separator ∉ text := fun hm => h (List.mem_cons_of_mem _ hm)
    simp [splitOn, hc, ih ht]

/-- **Pieces without the separator are read back from their join.** -/
theorem splitOn_intercalate {separator : Char} :
    ∀ {pieces : List (List Char)}, pieces ≠ [] → (∀ piece ∈ pieces, separator ∉ piece) →
      splitOn separator ([separator].intercalate pieces) = pieces
  | [piece], _, h => by
    rw [List.intercalate_singleton, splitOn_eq_singleton (h piece List.mem_cons_self)]
  | piece :: next :: rest, _, h => by
    have ih := splitOn_intercalate (List.cons_ne_nil next rest) fun p hp =>
      h p (List.mem_cons_of_mem _ hp)
    rw [List.intercalate_cons_cons, List.append_assoc, List.singleton_append,
      splitOn_append_separator (h piece List.mem_cons_self), ih]

theorem splitOn_eq_nil_singleton_iff {separator : Char} {text : List Char} :
    splitOn separator text = [[]] ↔ text = [] := by
  cases text with
  | nil => simp [splitOn]
  | cons c rest =>
    simp only [splitOn]
    split
    · simp [splitOn_ne_nil]
    · split <;> simp

theorem splitLast?_eq_none_iff {separator : Char} {text : List Char} :
    splitLast? separator text = none ↔ separator ∉ text := by
  induction text with
  | nil => simp [splitLast?]
  | cons c rest ih =>
    simp only [splitLast?, List.mem_cons, not_or]
    cases h : splitLast? separator rest with
    | none =>
      have hr := ih.1 h
      by_cases hc : c = separator
      · simp [hc]
      · simp [hc, hr, Ne.symm hc]
    | some parts =>
      have hr : separator ∈ rest := by
        refine Decidable.byContradiction fun hn => ?_
        simp [ih.2 hn] at h
      simp [hr]

theorem splitLast?_append {separator : Char} (before : List Char) {after : List Char}
    (h : separator ∉ after) :
    splitLast? separator (before ++ separator :: after) = some (before, after) := by
  induction before with
  | nil => simp [splitLast?, splitLast?_eq_none_iff.2 h]
  | cons c before ih => simp [splitLast?, ih]

end FileRoutes.Text
