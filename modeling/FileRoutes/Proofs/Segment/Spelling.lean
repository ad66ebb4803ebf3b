import FileRoutes.Proofs.Segment.Tokens
import Mathlib.Data.List.Chain

/-!
# Spelling segments

Reading a segment undoes writing it. Literal text stands for itself, parameters and groups stand in
their brackets, and the brackets of a parameter may hold other characters besides, which are passed
over and reported.

* `Interspersed`: the characters of a name with others in between.
* `Token.Spelled`, `Spells`: the texts that a token, and a list of tokens, may be written as;
  `Token.Unclosed`: those that lack the end.
* `WellFormed`: what keeps tokens apart that are written one after the other.
* `Scan.Rests`: where the reading stands between two tokens; `Scan.run_spelled` reads one token from
  there to there, `Scan.run_spells` a list of them.
* `tokenize_eq_of_spells`: a segment that spells well-formed tokens is read as these tokens.
-/

namespace FileRoutes.Segment

/-! ## Spellings -/

/-- A character that the brackets of a parameter pass over: neither one of a name nor a square
bracket. -/
def isForeign (c : Char) : Bool := !isNameChar c && c != '[' && c != ']'

/-- The text has the characters of a name in their order, with the foreign ones before, between and
behind them. -/
inductive Interspersed : (name foreign text : List Char) → Prop where
  | nil : Interspersed [] [] []
  | name {name foreign text : List Char} (c : Char) (rest : Interspersed name foreign text) :
      Interspersed (c :: name) foreign (c :: text)
  | foreign {name foreign text : List Char} (c : Char) (h : isForeign c = true)
      (rest : Interspersed name foreign text) : Interspersed name (c :: foreign) (c :: text)

/-- The text spells the token, with foreign characters in its brackets. An optional parameter has
doubled brackets or a question mark behind them. -/
inductive Token.Spelled : Token → (text foreign : List Char) → Prop where
  | static (value : String) : Spelled ⟨.static, value⟩ value.toList []
  | dynamic {value : String} {foreign text : List Char}
      (h : Interspersed value.toList foreign text) :
      Spelled ⟨.dynamic, value⟩ ('[' :: (text ++ [']'])) foreign
  | doubled {value : String} {foreign text : List Char}
      (h : Interspersed value.toList foreign text) :
      Spelled ⟨.optional, value⟩ ('[' :: '[' :: (text ++ [']', ']'])) foreign
  | marked {value : String} {foreign text : List Char}
      (h : Interspersed value.toList foreign text) :
      Spelled ⟨.optional, value⟩ ('[' :: (text ++ [']', '?'])) foreign
  | catchall {value : String} {foreign text : List Char}
      (h : Interspersed (['.', '.'] ++ '.' :: value.toList) foreign text) :
      Spelled ⟨.catchall, value⟩ ('[' :: (text ++ [']'])) foreign
  | group (value : String) : Spelled ⟨.group, value⟩ ('(' :: (value.toList ++ [')'])) []

/-- The text opens the brackets of the token and does not close them; of doubled brackets one may be
closed. -/
inductive Token.Unclosed : Token → (text foreign : List Char) → Prop where
  | dynamic {value : String} {foreign text : List Char}
      (h : Interspersed value.toList foreign text) : Unclosed ⟨.dynamic, value⟩ ('[' :: text) foreign
  | doubled {value : String} {foreign text : List Char}
      (h : Interspersed value.toList foreign text) :
      Unclosed ⟨.optional, value⟩ ('[' :: '[' :: text) foreign
  | half {value : String} {foreign text : List Char}
      (h : Interspersed value.toList foreign text) :
      Unclosed ⟨.optional, value⟩ ('[' :: '[' :: (text ++ [']'])) foreign
  | catchall {value : String} {foreign text : List Char}
      (h : Interspersed (['.', '.'] ++ '.' :: value.toList) foreign text) :
      Unclosed ⟨.catchall, value⟩ ('[' :: text) foreign
  | group (value : String) : Unclosed ⟨.group, value⟩ ('(' :: value.toList) []

/-- The text spells the tokens one after the other. -/
inductive Spells : List Token → (text foreign : List Char) → Prop where
  | nil : Spells [] [] []
  | cons {token : Token} {rest : List Token} {text foreign text' foreign' : List Char}
      (first : token.Spelled text foreign) (others : Spells rest text' foreign') :
      Spells (token :: rest) (text ++ text') (foreign ++ foreign')

/-- The name of a parameter or the label of a group: it is not empty, has characters of names only, and
does not start like a catchall. -/
structure IsName (text : List Char) : Prop where
  filled : text ≠ []
  named : ∀ c ∈ text, isNameChar c = true
  clear : ¬['.', '.', '.'] <+: text

theorem IsName.ne_dots {text : List Char} (h : IsName text) : text ≠ ['.', '.', '.'] :=
  fun he => h.clear (he ▸ List.prefix_rfl)

/-- Literal text that is not empty and opens no bracket. -/
structure IsLiteral (text : List Char) : Prop where
  filled : text ≠ []
  square : '[' ∉ text
  round : '(' ∉ text

/-- Tokens that stay apart when they are written one after the other. Literal text neither follows
other literal text nor looks like the mark of a dynamic parameter before it, and a catchall is the only
parameter if there is one. -/
structure WellFormed (tokens : List Token) : Prop where
  named : ∀ token ∈ tokens, token.kind ≠ .static → IsName token.value.toList
  literal : ∀ token ∈ tokens, token.kind = .static → IsLiteral token.value.toList
  apart : tokens.IsChain fun a b => a.kind = .static → b.kind ≠ .static
  unmarked : tokens.IsChain fun a b =>
    a.kind = .dynamic → b.kind = .static → b.value.toList.head? ≠ some '?'
  alone : ∀ token ∈ tokens, token.kind = .catchall → tokens.countP Token.isParam = 1

instance (text : List Char) : Decidable (IsName text) :=
  decidable_of_iff (text ≠ [] ∧ text.all isNameChar = true ∧ ¬['.', '.', '.'] <+: text)
    ⟨fun ⟨filled, named, clear⟩ => ⟨filled, List.all_eq_true.1 named, clear⟩,
      fun ⟨filled, named, clear⟩ => ⟨filled, List.all_eq_true.2 named, clear⟩⟩

instance (text : List Char) : Decidable (IsLiteral text) :=
  decidable_of_iff (text ≠ [] ∧ '[' ∉ text ∧ '(' ∉ text)
    ⟨fun ⟨filled, square, round⟩ => ⟨filled, square, round⟩, fun ⟨filled, square, round⟩ =>
      ⟨filled, square, round⟩⟩

instance (tokens : List Token) : Decidable (WellFormed tokens) :=
  decidable_of_iff
    ((∀ token ∈ tokens, token.kind ≠ .static → IsName token.value.toList) ∧
      (∀ token ∈ tokens, token.kind = .static → IsLiteral token.value.toList) ∧
      (tokens.IsChain fun a b => a.kind = .static → b.kind ≠ .static) ∧
      (tokens.IsChain fun a b =>
        a.kind = .dynamic → b.kind = .static → b.value.toList.head? ≠ some '?') ∧
      ∀ token ∈ tokens, token.kind = .catchall → tokens.countP Token.isParam = 1)
    ⟨fun ⟨named, literal, apart, unmarked, alone⟩ => ⟨named, literal, apart, unmarked, alone⟩,
      fun ⟨named, literal, apart, unmarked, alone⟩ => ⟨named, literal, apart, unmarked, alone⟩⟩

/-- Text around one character of a name. -/
theorem Interspersed.split {name foreign text : List Char} (h : Interspersed name foreign text) :
    ∀ {before after : List Char} {c : Char}, name = before ++ c :: after →
      ∃ text₁ text₂ foreign₁ foreign₂,
        text = text₁ ++ c :: text₂ ∧ foreign = foreign₁ ++ foreign₂ ∧
          Interspersed before foreign₁ text₁ ∧ Interspersed after foreign₂ text₂ := by
  induction h with
  | nil =>
    intro before after c he
    simp at he
  | name d rest ih =>
    intro before after c he
    cases before with
    | nil =>
      obtain ⟨rfl, rfl⟩ := List.cons.inj he
      exact ⟨[], _, [], _, rfl, rfl, .nil, rest⟩
    | cons b before =>
      obtain ⟨rfl, he'⟩ := List.cons.inj he
      obtain ⟨text₁, text₂, foreign₁, foreign₂, rfl, rfl, first, second⟩ := ih he'
      exact ⟨d :: text₁, text₂, foreign₁, foreign₂, rfl, rfl, .name d first, second⟩
  | foreign d hd rest ih =>
    intro before after c he
    obtain ⟨text₁, text₂, foreign₁, foreign₂, rfl, rfl, first, second⟩ := ih he
    exact ⟨d :: text₁, text₂, d :: foreign₁, foreign₂, rfl, rfl, .foreign d hd first, second⟩

theorem Interspersed.ne_nil {name foreign text : List Char} (h : Interspersed name foreign text)
    (filled : name ≠ []) : text ≠ [] := by
  cases h with
  | nil => exact absurd rfl filled
  | name c rest => exact List.cons_ne_nil _ _
  | foreign c hc rest => exact List.cons_ne_nil _ _

theorem interspersed_self : ∀ name : List Char, Interspersed name [] name
  | [] => .nil
  | c :: name => .name c (interspersed_self name)

/-! ## Characters in brackets -/

/-- A character of a name is neither a bracket nor anything else with a meaning. -/
theorem isNameChar_ne {c : Char} (h : isNameChar c = true) : c ≠ '[' ∧ c ≠ ']' ∧ c ≠ ')' := by
  refine ⟨?_, ?_, ?_⟩ <;>
  · rintro rfl
    revert h
    decide

theorem isForeign_iff {c : Char} :
    isForeign c = true ↔ isNameChar c = false ∧ c ≠ '[' ∧ c ≠ ']' := by
  simp [isForeign, and_assoc]

theorem getLast?_cons_ne {c d : Char} {text : List Char} (head : c ≠ d)
    (tail : text.getLast? ≠ some d) : (c :: text).getLast? ≠ some d := by
  cases text with
  | nil => simpa using head
  | cons b text => rwa [List.getLast?_cons_cons]

/-- No text between brackets ends in a closing bracket. -/
theorem Interspersed.getLast?_ne {name foreign text : List Char}
    (h : Interspersed name foreign text) (named : ∀ c ∈ name, isNameChar c = true) :
    text.getLast? ≠ some ']' := by
  induction h with
  | nil => simp
  | name c rest ih =>
    have ih := ih fun d hd => named d (List.mem_cons_of_mem _ hd)
    exact getLast?_cons_ne (isNameChar_ne (named c List.mem_cons_self)).2.1 ih
  | foreign c hc rest ih => exact getLast?_cons_ne (isForeign_iff.1 hc).2.2 (ih named)

/-- What begins a text without dots in front is not the sign of a catchall. -/
theorem ne_dots_of_clear {text more : List Char} (clear : ¬['.', '.', '.'] <+: text ++ more) :
    text ≠ ['.', '.', '.'] := by
  rintro rfl
  exact clear (List.prefix_append _ _)

theorem Kind.ne_of_isParam {kind : Kind} (h : kind.isParam = true) :
    kind ≠ .static ∧ kind ≠ .group := by
  constructor <;>
  · rintro rfl
    cases h

namespace Scan

variable {segment : String} {previous : Option Char} {c : Char} {kind : Kind}
  {buffer ignored : List Char} {tokens : List Token}

/-! ## Steps -/

/-- A text is read in two parts. -/
theorem run_append (segment : String) :
    ∀ (a b : List Char) (previous : Option Char) (s : Scan),
      run segment previous s (a ++ b) =
        (run segment previous s a).bind fun next => run segment (a.getLast?.or previous) next b
  | [], _, _, _ => rfl
  | c :: a, b, previous, s => by
    rw [List.cons_append, run, run, getLast?_cons_or]
    cases step segment previous s c with
    | error e => rfl
    | ok next => exact run_append segment a b (some c) next

theorem run_cons {s next : Scan} {rest : List Char} (h : step segment previous s c = .ok next) :
    run segment previous s (c :: rest) = run segment (some c) next rest := by
  rw [run, h]
  rfl

theorem run_error {s : Scan} {error : Error} {rest : List Char}
    (h : step segment previous s c = .error error) :
    run segment previous s (c :: rest) = .error error := by
  rw [run, h]
  rfl

/-- Within brackets that are no catchall in disguise. -/
theorem step_within (hk : kind ≠ .static) (hb : buffer ≠ ['.', '.', '.']) :
    step segment previous ⟨.within kind, buffer, tokens, ignored⟩ c =
      stepEnclosed segment kind previous ⟨.within kind, buffer, tokens, ignored⟩ c := by
  cases kind with
  | static => exact absurd rfl hk
  | dynamic => simp [step, noticeCatchall, hb, Scan.kind]
  | optional => simp [step, noticeCatchall, hb, Scan.kind]
  | catchall => simp [step, noticeCatchall, hb, Scan.kind]
  | group => simp [step, noticeCatchall, hb, Scan.kind]

/-- Three dots at the start of a bracket have made it a catchall at the next character. -/
theorem run_dots (rest : List Char) :
    run segment previous ⟨.within .dynamic, ['.', '.', '.'], tokens, ignored⟩ (c :: rest) =
      run segment previous ⟨.within .catchall, [], tokens, ignored⟩ (c :: rest) := rfl

theorem step_name (hk : kind ≠ .static) (hb : buffer ≠ ['.', '.', '.']) (hc : isNameChar c = true) :
    step segment previous ⟨.within kind, buffer, tokens, ignored⟩ c =
      .ok ⟨.within kind, buffer ++ [c], tokens, ignored⟩ := by
  obtain ⟨opening, closing, round⟩ := isNameChar_ne hc
  rw [step_within hk hb]
  simp [stepEnclosed, opening, closing, round, hc, push]

theorem step_foreign (hk : kind.isParam = true) (hb : buffer ≠ ['.', '.', '.'])
    (hc : isForeign c = true) :
    step segment previous ⟨.within kind, buffer, tokens, ignored⟩ c =
      .ok ⟨.within kind, buffer, tokens, ignored ++ [c]⟩ := by
  have foreign := isForeign_iff.1 hc
  have param := Kind.ne_of_isParam hk
  rw [step_within param.1 hb]
  simp [stepEnclosed, foreign, param.2, hk]

/-- The closing bracket of a dynamic parameter or a catchall ends the token. -/
theorem step_close {value : String} (hk : kind.isParam = true) (once : kind ≠ .optional)
    (name : IsName value.toList) :
    step segment previous ⟨.within kind, value.toList, tokens, ignored⟩ ']' =
      .ok ⟨.outside, [], tokens ++ [⟨kind, value⟩], ignored⟩ := by
  rw [step_within (Kind.ne_of_isParam hk).1 name.ne_dots]
  simp [stepEnclosed, hk, once, mt String.toList_eq_nil_iff.2 name.filled, flush, Scan.kind]

/-- The first of two closing brackets does nothing. -/
theorem step_closing (hb : buffer ≠ ['.', '.', '.']) (first : previous ≠ some ']') :
    step segment previous ⟨.within .optional, buffer, tokens, ignored⟩ ']' =
      .ok ⟨.within .optional, buffer, tokens, ignored⟩ := by
  rw [step_within (by decide) hb]
  simp [stepEnclosed, first, isNameChar]

/-- The second of two closing brackets ends an optional parameter. -/
theorem step_closed {value : String} (name : IsName value.toList) :
    step segment (some ']') ⟨.within .optional, value.toList, tokens, ignored⟩ ']' =
      .ok ⟨.outside, [], tokens ++ [⟨.optional, value⟩], ignored⟩ := by
  rw [step_within (by decide) name.ne_dots]
  simp [stepEnclosed, Kind.isParam, mt String.toList_eq_nil_iff.2 name.filled, flush, Scan.kind]

/-- The closing parenthesis ends a group. -/
theorem step_ungroup {value : String} (name : IsName value.toList) :
    step segment previous ⟨.within .group, value.toList, tokens, ignored⟩ ')' =
      .ok ⟨.outside, [], tokens ++ [⟨.group, value⟩], ignored⟩ := by
  rw [step_within (by decide) name.ne_dots]
  simp [stepEnclosed, mt String.toList_eq_nil_iff.2 name.filled, flush, Scan.kind]

/-- A question mark behind a dynamic parameter makes it optional. -/
theorem step_mark (value : String) :
    step segment previous ⟨.outside, [], tokens ++ [⟨.dynamic, value⟩], ignored⟩ '?' =
      .ok ⟨.outside, [], tokens ++ [⟨.optional, value⟩], ignored⟩ := by
  simp [step, stepOutside, endsDynamic, promote]

/-- The text between brackets, as long as it does not start like a catchall; only those of parameters
pass foreign characters over. -/
theorem run_interspersed (hk : kind ≠ .static) {name foreign text : List Char}
    (h : Interspersed name foreign text) :
    ∀ (previous : Option Char) (buffer ignored : List Char), (foreign ≠ [] → kind.isParam = true) →
      (∀ c ∈ name, isNameChar c = true) → ¬['.', '.', '.'] <+: buffer ++ name →
        run segment previous ⟨.within kind, buffer, tokens, ignored⟩ text =
          .ok ⟨.within kind, buffer ++ name, tokens, ignored ++ foreign⟩ := by
  induction h with
  | nil =>
    intro previous buffer ignored _ _ _
    rw [List.append_nil, List.append_nil]
    rfl
  | name c rest ih =>
    intro previous buffer ignored passed named clear
    have hc := named c List.mem_cons_self
    have next := ih (some c) (buffer ++ [c]) ignored passed
      (fun d hm => named d (List.mem_cons_of_mem _ hm)) (by simpa using clear)
    rw [run_cons (step_name hk (ne_dots_of_clear clear) hc)]
    simpa using next
  | foreign c hc rest ih =>
    intro previous buffer ignored passed named clear
    have param := passed (List.cons_ne_nil _ _)
    have next := ih (some c) buffer (ignored ++ [c]) (fun _ => param) named clear
    rw [run_cons (step_foreign param (ne_dots_of_clear clear) hc)]
    simpa using next

/-- The name of a parameter, from the start of its brackets. -/
theorem run_name (hk : kind.isParam = true) {name foreign text : List Char}
    (h : Interspersed name foreign text) (valid : IsName name) (previous : Option Char)
    (ignored : List Char) :
    run segment previous ⟨.within kind, [], tokens, ignored⟩ text =
      .ok ⟨.within kind, name, tokens, ignored ++ foreign⟩ :=
  run_interspersed (Kind.ne_of_isParam hk).1 h previous [] ignored (fun _ => hk) valid.named
    valid.clear

/-- Literal text goes on until a bracket opens. -/
theorem run_literal (segment : String) (tokens : List Token) (ignored : List Char) :
    ∀ (text : List Char) (previous : Option Char) (buffer : List Char),
      '[' ∉ text → '(' ∉ text →
        run segment previous ⟨.within .static, buffer, tokens, ignored⟩ text =
          .ok ⟨.within .static, buffer ++ text, tokens, ignored⟩
  | [], previous, buffer, _, _ => by
    rw [List.append_nil]
    rfl
  | c :: text, previous, buffer, square, round => by
    have here : step segment previous ⟨.within .static, buffer, tokens, ignored⟩ c =
        .ok ⟨.within .static, buffer ++ [c], tokens, ignored⟩ := by
      have opening : c ≠ '[' := fun he => square (he ▸ List.mem_cons_self)
      have paren : c ≠ '(' := fun he => round (he ▸ List.mem_cons_self)
      simp [step, stepOutside, opening, paren, push]
    have next := run_literal segment tokens ignored text (some c) (buffer ++ [c])
      (fun hm => square (List.mem_cons_of_mem _ hm)) fun hm => round (List.mem_cons_of_mem _ hm)
    rw [run_cons here]
    simpa using next

/-! ## One token -/

/-- The reading stands between two tokens, with these tokens read: outside brackets, or in literal
text that may still go on. -/
inductive Rests : Scan → (done : List Token) → (ignored : List Char) → Prop where
  | outside (done : List Token) (ignored : List Char) :
      Rests ⟨.outside, [], done, ignored⟩ done ignored
  | literal (text : List Char) (tokens : List Token) (ignored : List Char) (filled : text ≠ []) :
      Rests ⟨.within .static, text, tokens, ignored⟩ (tokens ++ [⟨.static, String.ofList text⟩])
        ignored

variable {s : Scan} {done : List Token}

theorem Rests.flush_tokens (h : Rests s done ignored) : s.flush.tokens = done := by
  cases h with
  | outside => rfl
  | literal text tokens ignored filled => simp [flush, filled, Scan.kind]

theorem Rests.ignored_eq (h : Rests s done ignored) : s.ignored = ignored := by
  cases h <;> rfl

/-- An opening bracket ends literal text. -/
theorem Rests.run_open (h : Rests s done ignored) (rest : List Char) :
    run segment previous s ('[' :: rest) =
      run segment (some '[') ⟨.within .dynamic, [], done, ignored⟩ rest := by
  refine run_cons ?_
  cases h with
  | outside => rfl
  | literal text tokens ignored filled => simp [step, stepOutside, enter, flush, filled, Scan.kind]

theorem Rests.run_group (h : Rests s done ignored) (rest : List Char) :
    run segment previous s ('(' :: rest) =
      run segment (some '(') ⟨.within .group, [], done, ignored⟩ rest := by
  refine run_cons ?_
  cases h with
  | outside => rfl
  | literal text tokens ignored filled => simp [step, stepOutside, enter, flush, filled, Scan.kind]

/-- The name of a parameter in doubled brackets, of which the inner one was opened. -/
theorem run_doubled_open (h : Rests s done ignored) {value : String} {foreign text : List Char}
    (inner : Interspersed value.toList foreign text) (name : IsName value.toList) :
    run segment previous s ('[' :: '[' :: text) =
      .ok ⟨.within .optional, value.toList, done, ignored ++ foreign⟩ := by
  have again : step segment (some '[') ⟨.within .dynamic, [], done, ignored⟩ '[' =
      .ok ⟨.within .optional, [], done, ignored⟩ := rfl
  rw [h.run_open, run_cons again, run_name rfl inner name]

/-- The dots and the name of a catchall: up to the second dot it might be a dynamic parameter, and the
third one is noticed at the character behind it. -/
theorem run_catchall_open (h : Rests s done ignored) {value : String} {foreign text : List Char}
    (inner : Interspersed (['.', '.'] ++ '.' :: value.toList) foreign text)
    (name : IsName value.toList) :
    run segment previous s ('[' :: text) =
      .ok ⟨.within .catchall, value.toList, done, ignored ++ foreign⟩ := by
  obtain ⟨dots, named, foreign₁, foreign₂, rfl, rfl, first, second⟩ := inner.split rfl
  obtain ⟨c, named, rfl⟩ := List.exists_cons_of_ne_nil (second.ne_nil name.filled)
  have third (previous : Option Char) : step segment previous
      ⟨.within .dynamic, ['.', '.'], done, ignored ++ foreign₁⟩ '.' =
        .ok ⟨.within .dynamic, ['.', '.', '.'], done, ignored ++ foreign₁⟩ :=
    step_name (by decide) (by decide) rfl
  have noticed : run segment (some '.')
      ⟨.within .dynamic, ['.', '.', '.'], done, ignored ++ foreign₁⟩ (c :: named) =
        .ok ⟨.within .catchall, value.toList, done, ignored ++ (foreign₁ ++ foreign₂)⟩ := by
    rw [run_dots, ← List.append_assoc]
    exact run_name rfl second name (some '.') (ignored ++ foreign₁)
  rw [h.run_open, run_append,
    run_interspersed (by decide) first _ [] ignored (fun _ => rfl) (by simp [isNameChar])
      (by decide), List.nil_append]
  exact (run_cons (third _)).trans noticed

/-- **A token whose brackets are open** is the one that is being read, with its whole name. -/
theorem run_unclosed {token : Token} (h : Rests s done ignored) {text foreign : List Char}
    (unclosed : token.Unclosed text foreign) (name : IsName token.value.toList) :
    run segment previous s text =
      .ok ⟨.within token.kind, token.value.toList, done, ignored ++ foreign⟩ := by
  cases unclosed with
  | dynamic inner => rw [h.run_open, run_name rfl inner name]
  | doubled inner => exact run_doubled_open h inner name
  | @half value foreign text inner =>
    have ends : ('[' :: '[' :: text).getLast? ≠ some ']' :=
      getLast?_cons_ne (by decide) (getLast?_cons_ne (by decide) (inner.getLast?_ne name.named))
    have single : ('[' :: '[' :: text).getLast?.or previous ≠ some ']' := by
      intro last
      rcases Option.or_eq_some_iff.1 last with last | ⟨empty, -⟩
      · exact ends last
      · simp at empty
    have split : '[' :: '[' :: (text ++ [']']) = '[' :: '[' :: text ++ [']'] := by simp
    rw [split, run_append, run_doubled_open h inner name]
    exact run_cons (step_closing name.ne_dots single)
  | catchall inner => exact run_catchall_open h inner name
  | group value =>
    have inner := interspersed_self value.toList
    rw [h.run_group, run_interspersed (by decide) inner _ [] ignored (fun filled => absurd rfl filled)
      name.named name.clear, List.nil_append]

/-- A dynamic parameter in its brackets. -/
theorem run_dynamic (h : Rests s done ignored) {value : String} {foreign text : List Char}
    (inner : Interspersed value.toList foreign text) (name : IsName value.toList) :
    run segment previous s ('[' :: (text ++ [']'])) =
      .ok ⟨.outside, [], done ++ [⟨.dynamic, value⟩], ignored ++ foreign⟩ := by
  rw [← List.cons_append, run_append, run_unclosed h (.dynamic inner) name]
  exact run_cons (step_close rfl (by simp) name)

/-- An optional parameter in doubled brackets. -/
theorem run_doubled (h : Rests s done ignored) {value : String} {foreign text : List Char}
    (inner : Interspersed value.toList foreign text) (name : IsName value.toList) :
    run segment previous s ('[' :: '[' :: (text ++ [']', ']'])) =
      .ok ⟨.outside, [], done ++ [⟨.optional, value⟩], ignored ++ foreign⟩ := by
  have split : '[' :: '[' :: (text ++ [']', ']']) = '[' :: '[' :: (text ++ [']']) ++ [']'] := by simp
  have last : ('[' :: '[' :: (text ++ [']'])).getLast?.or previous = some ']' := by
    simp [List.getLast?_cons]
  rw [split, run_append, run_unclosed h (.half inner) name, last]
  exact run_cons (step_closed name)

/-- A catchall in its brackets. -/
theorem run_catchall (h : Rests s done ignored) {value : String} {foreign text : List Char}
    (inner : Interspersed (['.', '.'] ++ '.' :: value.toList) foreign text)
    (name : IsName value.toList) :
    run segment previous s ('[' :: (text ++ [']'])) =
      .ok ⟨.outside, [], done ++ [⟨.catchall, value⟩], ignored ++ foreign⟩ := by
  rw [← List.cons_append, run_append, run_unclosed h (.catchall inner) name]
  exact run_cons (step_close rfl (by simp) name)

/-- A group in its parentheses. -/
theorem run_grouped (h : Rests s done ignored) {value : String} (name : IsName value.toList) :
    run segment previous s ('(' :: (value.toList ++ [')'])) =
      .ok ⟨.outside, [], done ++ [⟨.group, value⟩], ignored⟩ := by
  rw [← List.cons_append, run_append, run_unclosed h (.group value) name, List.append_nil]
  exact run_cons (step_ungroup name)

/-- Literal text, behind anything but literal text and a dynamic parameter that would take a question
mark for its own. -/
theorem run_static (h : Rests s done ignored) {value : String} (literal : IsLiteral value.toList)
    (apart : ∀ last ∈ done.getLast?, last.kind ≠ .static)
    (unmarked : ∀ last ∈ done.getLast?, last.kind = .dynamic → value.toList.head? ≠ some '?') :
    run segment previous s value.toList = .ok ⟨.within .static, value.toList, done, ignored⟩ := by
  obtain ⟨filled, square, round⟩ := literal
  obtain ⟨c, rest, hv⟩ := List.exists_cons_of_ne_nil filled
  rw [hv] at square round unmarked ⊢
  have opening : c ≠ '[' := fun he => square (he ▸ List.mem_cons_self)
  have paren : c ≠ '(' := fun he => round (he ▸ List.mem_cons_self)
  cases h with
  | literal text tokens ignored _ =>
    exact absurd rfl (apart ⟨.static, String.ofList text⟩ (by simp))
  | outside =>
    have free : ¬(c = '?' ∧ Scan.endsDynamic ⟨.outside, [], done, ignored⟩ = true) := by
      rintro ⟨rfl, dynamic⟩
      unfold endsDynamic at dynamic
      cases hl : done.getLast? with
      | none => simp [hl] at dynamic
      | some last => exact unmarked last hl (by simpa [hl] using dynamic) rfl
    have begin_ : step segment previous ⟨.outside, [], done, ignored⟩ c =
        .ok ⟨.within .static, [c], done, ignored⟩ := by
      simp [step, stepOutside, opening, paren, free]
    rw [run_cons begin_]
    exact run_literal segment done ignored rest (some c) [c]
      (fun hm => square (List.mem_cons_of_mem _ hm)) fun hm => round (List.mem_cons_of_mem _ hm)

/-- **One token is read back from each of its spellings**, unless it runs into the token before it. -/
theorem run_spelled {token : Token} {text foreign : List Char} (h : Rests s done ignored)
    (spelled : token.Spelled text foreign)
    (named : token.kind ≠ .static → IsName token.value.toList)
    (literal : token.kind = .static → IsLiteral token.value.toList)
    (apart : ∀ last ∈ done.getLast?, last.kind = .static → token.kind ≠ .static)
    (unmarked : ∀ last ∈ done.getLast?, last.kind = .dynamic → token.kind = .static →
      token.value.toList.head? ≠ some '?') :
    ∃ next, run segment previous s text = .ok next ∧
      Rests next (done ++ [token]) (ignored ++ foreign) := by
  cases spelled with
  | static value =>
    have rests := Rests.literal value.toList done ignored (literal rfl).filled
    rw [String.ofList_toList] at rests
    rw [List.append_nil]
    exact ⟨_, run_static h (literal rfl) (fun last hl hk => apart last hl hk rfl)
      fun last hl hk => unmarked last hl hk rfl, rests⟩
  | dynamic inner => exact ⟨_, run_dynamic h inner (named Kind.noConfusion), .outside _ _⟩
  | doubled inner => exact ⟨_, run_doubled h inner (named Kind.noConfusion), .outside _ _⟩
  | @marked value foreign text inner =>
    have split : '[' :: (text ++ [']', '?']) = '[' :: (text ++ [']']) ++ ['?'] := by simp
    refine ⟨_, ?_, .outside _ _⟩
    rw [split, run_append, run_dynamic h inner (named Kind.noConfusion)]
    exact run_cons (step_mark value)
  | catchall inner => exact ⟨_, run_catchall h inner (named Kind.noConfusion), .outside _ _⟩
  | group value =>
    rw [List.append_nil]
    exact ⟨_, run_grouped h (named Kind.noConfusion), .outside _ _⟩

/-! ## A list of tokens -/

/-- **A list of tokens is read back from each of its spellings.** -/
theorem run_spells (segment : String) {tokens : List Token} {text foreign : List Char}
    (spells : Spells tokens text foreign) :
    ∀ (previous : Option Char) (s : Scan) (done : List Token) (ignored : List Char),
      Rests s done ignored → WellFormed (done ++ tokens) →
        ∃ next, run segment previous s text = .ok next ∧
          Rests next (done ++ tokens) (ignored ++ foreign) := by
  induction spells with
  | nil =>
    intro previous s done ignored h _
    rw [List.append_nil, List.append_nil]
    exact ⟨s, rfl, h⟩
  | @cons token rest text foreign text' foreign' first others ih =>
    intro previous s done ignored h wf
    have here : token ∈ done ++ token :: rest := List.mem_append_right _ List.mem_cons_self
    obtain ⟨-, -, apart⟩ := List.isChain_append.1 wf.apart
    obtain ⟨-, -, unmarked⟩ := List.isChain_append.1 wf.unmarked
    obtain ⟨mid, read, rests⟩ := run_spelled h first (wf.named token here)
      (wf.literal token here) (fun last hl => apart last hl token rfl)
      fun last hl => unmarked last hl token rfl
    have shift : done ++ token :: rest = (done ++ [token]) ++ rest := by simp
    rw [shift] at wf ⊢
    rw [run_append, read, ← List.append_assoc]
    exact ih _ mid (done ++ [token]) (ignored ++ foreign) rests wf

end Scan

theorem checkCatchall_of_alone {segment : String} {tokens : List Token}
    (alone : ∀ token ∈ tokens, token.kind = .catchall → tokens.countP Token.isParam = 1) :
    checkCatchall segment tokens = .ok () := by
  apply checkCatchall_eq_ok_iff.2
  rintro ⟨catchall, hm, kind, many⟩
  have single := alone catchall hm kind
  omega

/-- **Reading undoes spelling.** A segment that spells well-formed tokens is read as exactly these
tokens, and what is reported as left out are the foreign characters in its brackets, in their
order. -/
theorem tokenize_eq_of_spells {segment : String} {tokens : List Token} {foreign : List Char}
    (wf : WellFormed tokens) (spells : Spells tokens segment.toList foreign) :
    tokenize segment = .ok ⟨tokens, foreign⟩ := by
  obtain ⟨s, read, rests⟩ :=
    Scan.run_spells segment spells none {} [] [] (.outside [] []) wf
  simp only [List.nil_append] at rests
  have closed : s.place ≠ .within .dynamic := by
    cases rests <;> simp
  unfold tokenize
  simp only [read, bind, Except.bind, if_neg closed, rests.flush_tokens,
    checkCatchall_of_alone wf.alone]
  have ignored : s.flush.ignored = s.ignored := by
    unfold Scan.flush
    split <;> rfl
  rw [ignored, rests.ignored_eq]
  rfl

/-- Literal text, a dynamic parameter, an optional one in doubled brackets, a question mark that marks
nothing, a group, and an optional parameter with a mark. -/
theorem tokenize_eq_of_spells_mixed :
    let tokens : List Token := [⟨.static, "post-"⟩, ⟨.dynamic, "uid"⟩, ⟨.optional, "lang"⟩,
      ⟨.static, "?x"⟩, ⟨.group, "g"⟩, ⟨.optional, "z"⟩]
    WellFormed tokens ∧ Spells tokens "post-[u-id][[lang]]?x(g)[z!]?".toList ['-', '!'] ∧
      tokenize "post-[u-id][[lang]]?x(g)[z!]?" = .ok ⟨tokens, ['-', '!']⟩ := by
  intro tokens
  have wf : WellFormed tokens := by decide
  have uid : Interspersed "uid".toList ['-'] "u-id".toList :=
    .name 'u' (.foreign '-' rfl (.name 'i' (.name 'd' .nil)))
  have lang : Interspersed "lang".toList [] "lang".toList :=
    .name 'l' (.name 'a' (.name 'n' (.name 'g' .nil)))
  have z : Interspersed "z".toList ['!'] "z!".toList := .name 'z' (.foreign '!' rfl .nil)
  have spells := Spells.cons (.static "post-") (.cons (.dynamic uid) (.cons (.doubled lang)
    (.cons (.static "?x") (.cons (.group "g") (.cons (.marked z) .nil)))))
  exact ⟨wf, spells, tokenize_eq_of_spells wf spells⟩

end FileRoutes.Segment
