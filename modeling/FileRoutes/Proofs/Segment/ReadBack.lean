import FileRoutes.Proofs.Segment.Literal

/-!
# Reading pieces of route paths back

The piece that a segment adds to a route path tells its tokens, up to what leaves no trace: group
labels, the borders between literal texts, and how literal text was spelled before it was encoded.

* `Segment.merge`: tokens with neighbouring literal texts joined.
* `Segment.shown`: what tokens show in a route path; `Segment.written_shown` says that the piece is
  written from it.
* `Token.Legible`: what keeps a token apart from the next one. The tokens that are shown are legible
  (`Segment.legible_shown`), and no two literal texts among them are neighbours.
* `Segment.literal_unique`, `Segment.name_unique`, `Segment.mark_unique`: where literal text, a name and
  a mark end.
* `Segment.written_injective`: legible tokens are told by what is written.
* `Segment.compile_eq_iff`: two segments have one route path if and only if they show the same.
-/

namespace FileRoutes.Segment

variable {token : Token} {tokens : List Token} {followed : Bool} {segment : String}

/-! ## What tokens show -/

/-- A token before others; literal text is joined with the literal text after it. -/
def join (token : Token) : List Token → List Token
  | next :: rest =>
    if token.kind = .static ∧ next.kind = .static then
      ⟨.static, token.value ++ next.value⟩ :: rest
    else token :: next :: rest
  | [] => [token]

/-- The tokens, neighbouring literal texts being joined. -/
def merge (tokens : List Token) : List Token := tokens.foldr join []

theorem merge_cons (token : Token) (tokens : List Token) :
    merge (token :: tokens) = join token (merge tokens) := rfl

/-- The token with literal text as it stands in a route path. -/
def Token.encoded (token : Token) : Token :=
  if token.kind = .static then ⟨.static, encodeStatic token.value⟩ else token

/-- What tokens show in a route path: no group labels, one literal text for neighbouring ones, and
literal text encoded. -/
def shown (tokens : List Token) : List Token :=
  (merge (tokens.filter fun token => !token.isGroup)).map Token.encoded

example : shown [⟨.static, "a "⟩, ⟨.group, "g"⟩, ⟨.static, "b"⟩, ⟨.dynamic, "id"⟩] =
    [⟨.static, "a%20b"⟩, ⟨.dynamic, "id"⟩] := by decide +kernel

/-- What a token that is shown adds to the route path. -/
def Token.written (followed : Bool) (token : Token) : List Char :=
  if token.kind = .static then token.value.toList else (token.fragment followed).toList

theorem written_encoded (token : Token) (followed : Bool) :
    token.encoded.written followed = (token.fragment followed).toList := by
  obtain ⟨kind, value⟩ := token
  cases kind <;> rfl

/-- Either two literal texts are joined, or the token comes before the others as it is. -/
theorem join_cases (token : Token) (tokens : List Token) :
    (∃ a b rest, token = ⟨.static, a⟩ ∧ tokens = ⟨.static, b⟩ :: rest ∧
        join token tokens = ⟨.static, a ++ b⟩ :: rest) ∨
      join token tokens = token :: tokens ∧
        ∀ next ∈ tokens.head?, ¬(token.kind = .static ∧ next.kind = .static) := by
  cases tokens with
  | nil => exact .inr ⟨rfl, by simp⟩
  | cons next rest =>
    by_cases both : token.kind = .static ∧ next.kind = .static
    · refine .inl ⟨token.value, next.value, rest, ?_, ?_, if_pos both⟩
      · rw [← both.1]
      · rw [← both.2]
    · exact .inr ⟨if_neg both, by simpa using both⟩

theorem piece_join (token : Token) (tokens : List Token) (followed : Bool) :
    piece (join token tokens) followed = piece (token :: tokens) followed := by
  rcases join_cases token tokens with ⟨a, b, rest, rfl, rfl, he⟩ | ⟨he, -⟩
  · rw [he]
    simp [piece, Token.fragment, encodeStatic_append]
  · rw [he]

theorem piece_merge (followed : Bool) :
    ∀ tokens : List Token, piece (merge tokens) followed = piece tokens followed
  | [] => rfl
  | token :: rest => by
    have ih := piece_merge followed rest
    rw [merge_cons, piece_join]
    unfold piece at ih ⊢
    rw [List.flatMap_cons, List.flatMap_cons, ih]

theorem piece_filter (followed : Bool) :
    ∀ tokens : List Token,
      piece (tokens.filter fun token => !token.isGroup) followed = piece tokens followed
  | [] => rfl
  | token :: rest => by
    have ih := piece_filter followed rest
    unfold piece at ih ⊢
    obtain ⟨kind, value⟩ := token
    cases kind <;> simpa [Token.isGroup, Token.fragment] using ih

/-- **The piece of a segment is written from what its tokens show.** -/
theorem written_shown (tokens : List Token) (followed : Bool) :
    (shown tokens).flatMap (Token.written followed) = piece tokens followed := by
  unfold shown
  rw [List.flatMap_map, ← piece_filter, ← piece_merge]
  unfold piece
  exact List.flatMap_congr fun token _ => written_encoded token followed

/-! ## Legible tokens -/

/-- A token that ends where it seems to: literal text has no colon that could start a parameter and no
backslash at its end that could escape one, and a name has the characters of names only. -/
structure Token.Legible (token : Token) : Prop where
  traced : token.isGroup = false
  literal : token.kind = .static → token.value.toList ≠ [] ∧
    marksParam none token.value.toList = false ∧ token.value.toList.getLast? ≠ some '\\'
  named : token.kind ≠ .static → ∀ c ∈ token.value.toList, isNameChar c = true

/-- No literal text comes right after another. -/
def Alternating (tokens : List Token) : Prop :=
  tokens.IsChain fun token next => ¬(token.kind = .static ∧ next.kind = .static)

/-- A property of tokens that joining keeps holds of all tokens after merging. -/
theorem forall_merge {P : Token → Prop}
    (joined : ∀ a b, P ⟨.static, a⟩ → P ⟨.static, b⟩ → P ⟨.static, a ++ b⟩) :
    ∀ {tokens : List Token}, (∀ token ∈ tokens, P token) → ∀ token ∈ merge tokens, P token
  | [], h => h
  | token :: rest, h => by
    obtain ⟨here, further⟩ := List.forall_mem_cons.1 h
    have ih := forall_merge joined further
    rw [merge_cons]
    rcases join_cases token (merge rest) with ⟨a, b, others, rfl, hm, he⟩ | ⟨he, -⟩
    · rw [hm, List.forall_mem_cons] at ih
      rw [he, List.forall_mem_cons]
      exact ⟨joined a b here ih.1, ih.2⟩
    · rw [he, List.forall_mem_cons]
      exact ⟨here, ih⟩

theorem alternating_merge : ∀ tokens : List Token, Alternating (merge tokens)
  | [] => .nil
  | token :: rest => by
    have ih := alternating_merge rest
    rw [merge_cons]
    rcases join_cases token (merge rest) with ⟨a, b, others, rfl, hm, he⟩ | ⟨he, apart⟩
    · rw [he]
      rw [hm] at ih
      unfold Alternating at ih ⊢
      rw [List.isChain_cons] at ih ⊢
      exact ih
    · rw [he]
      exact List.isChain_cons.2 ⟨apart, ih⟩

theorem filter_isParam_merge :
    ∀ tokens : List Token, (merge tokens).filter Token.isParam = tokens.filter Token.isParam
  | [] => rfl
  | token :: rest => by
    have ih := filter_isParam_merge rest
    rw [merge_cons]
    rcases join_cases token (merge rest) with ⟨a, b, others, rfl, hm, he⟩ | ⟨he, -⟩
    · have literal (text : String) : ¬(⟨.static, text⟩ : Token).isParam = true := nofun
      rw [hm, List.filter_cons_of_neg (literal b)] at ih
      rw [he, List.filter_cons_of_neg (literal _), List.filter_cons_of_neg (literal a), ih]
    · rw [he, List.filter_cons, List.filter_cons, ih]

/-- The parameters are shown as they are. -/
theorem filter_isParam_shown (tokens : List Token) :
    (shown tokens).filter Token.isParam = tokens.filter Token.isParam := by
  have isParam_encoded : Token.isParam ∘ Token.encoded = Token.isParam := by
    funext ⟨kind, value⟩
    cases kind <;> rfl
  have encoded : ∀ token ∈ tokens.filter Token.isParam, token.encoded = token := by
    rintro ⟨kind, value⟩ h
    cases kind with
    | static => cases (List.mem_filter.1 h).2
    | _ => rfl
  have traced : (fun token : Token => token.isParam && !token.isGroup) = Token.isParam := by
    funext ⟨kind, value⟩
    cases kind <;> rfl
  unfold shown
  rw [List.filter_map, isParam_encoded, filter_isParam_merge, List.filter_filter, traced,
    List.map_congr_left encoded, List.map_id']

/-- **The tokens that are shown are legible.** -/
theorem legible_shown (h : ∀ token ∈ tokens, token.From segment) :
    ∀ token ∈ shown tokens, token.Legible := by
  have merged : ∀ token ∈ merge (tokens.filter fun token => !token.isGroup),
      token.isGroup = false ∧ token.value.toList ≠ [] ∧
        (token.kind ≠ .static → ∀ c ∈ token.value.toList, isNameChar c = true) := by
    refine forall_merge (fun a b ha hb => ⟨rfl, by simp [ha.2.1], fun hk => absurd rfl hk⟩) ?_
    intro token hm
    obtain ⟨hm, traced⟩ := List.mem_filter.1 hm
    exact ⟨by simpa using traced, (h token hm).value_ne, (h token hm).named⟩
  intro token hm
  obtain ⟨⟨kind, value⟩, source, rfl⟩ := List.mem_map.1 hm
  obtain ⟨traced, value_ne, named⟩ := merged _ source
  cases kind with
  | static =>
    have filled : ((⟨.static, value⟩ : Token).fragment false).toList ≠ [] :=
      fragment_ne_nil value_ne rfl
    exact ⟨rfl, fun _ => ⟨filled, marksParam_encodeStatic value none,
      getLast?_fragment ⟨.static, value⟩ false⟩, fun hk => absurd rfl hk⟩
  | _ => exact ⟨traced, nofun, named⟩

theorem alternating_shown (tokens : List Token) : Alternating (shown tokens) := by
  unfold shown Alternating
  rw [List.isChain_map]
  have kept : ∀ token : Token, token.encoded.kind = token.kind := by
    rintro ⟨kind, value⟩
    cases kind <;> rfl
  simp only [kept]
  exact alternating_merge _

/-! ## Where tokens end -/

variable {a b rest rest' : List Char}

/-- What may come after literal text: nothing, or the colon of a parameter. -/
def Opens (rest : List Char) : Prop := ∀ c ∈ rest.head?, c = ':'

/-- Two texts are the same if neither goes on into what comes after the other. -/
theorem append_unique (apart : ∀ c more, b = a ++ c :: more → c ∉ rest.head?)
    (apart' : ∀ c more, a = b ++ c :: more → c ∉ rest'.head?) (h : a ++ rest = b ++ rest') :
    a = b ∧ rest = rest' := by
  rcases List.append_eq_append_iff.1 h with ⟨more, hb, hr⟩ | ⟨more, ha, hr⟩
  · cases more with
    | nil => exact ⟨by simpa using hb.symm, by simpa using hr⟩
    | cons c more => exact absurd (by simp [hr]) (apart c more hb)
  · cases more with
    | nil => exact ⟨by simpa using ha, by simpa using hr.symm⟩
    | cons c more => exact absurd (by simp [hr]) (apart' c more ha)

/-- Literal text ends at the first colon that is not escaped. -/
theorem literal_unique (ha : marksParam none a = false) (hb : marksParam none b = false)
    (la : a.getLast? ≠ some '\\') (lb : b.getLast? ≠ some '\\')
    (opens : Opens rest) (opens' : Opens rest') (h : a ++ rest = b ++ rest') :
    a = b ∧ rest = rest' := by
  have stops {a more : List Char} (la : a.getLast? ≠ some '\\')
      (unmarked : marksParam none (a ++ ':' :: more) = false) : False := by
    rw [marksParam_append, Bool.or_eq_false_iff] at unmarked
    simp [marksParam, la] at unmarked
  refine append_unique (fun c more he hc => ?_) (fun c more he hc => ?_) h
  · obtain rfl := opens c hc
    exact stops la (he ▸ hb)
  · obtain rfl := opens' c hc
    exact stops lb (he ▸ ha)

/-- A name ends at the first character that names do not have. -/
theorem name_unique (ha : ∀ c ∈ a, isNameChar c = true) (hb : ∀ c ∈ b, isNameChar c = true)
    (ends : ∀ c ∈ rest.head?, isNameChar c = false) (ends' : ∀ c ∈ rest'.head?, isNameChar c = false)
    (h : a ++ rest = b ++ rest') : a = b ∧ rest = rest' := by
  refine append_unique (fun c more he hc => ?_) (fun c more he hc => ?_) h
  · have name := hb c (by simp [he])
    rw [ends c hc] at name
    cases name
  · have name := ha c (by simp [he])
    rw [ends' c hc] at name
    cases name

/-- The mark of a kind of parameter. -/
def mark (followed : Bool) : Kind → List Char
  | .dynamic => ['(', ')']
  | .optional => ['?']
  | .catchall => if followed then "([^/]*)*".toList else "(.*)*".toList
  | .static | .group => []

theorem toList_fragment_of_isParam (h : token.isParam = true) (followed : Bool) :
    (token.fragment followed).toList = ':' :: (token.value.toList ++ mark followed token.kind) := by
  obtain ⟨kind, value⟩ := token
  cases kind with
  | static => cases h
  | group => cases h
  | dynamic => simp [Token.fragment, mark]
  | optional => simp [Token.fragment, mark]
  | catchall => cases followed <;> simp [Token.fragment, mark]

/-- A mark starts with a character that names do not have. -/
theorem not_isNameChar_mark {kind : Kind} (h : kind.isParam = true) :
    ∀ c ∈ (mark followed kind ++ rest).head?, isNameChar c = false := by
  cases kind with
  | static => cases h
  | group => cases h
  | dynamic => simp [mark]; decide
  | optional => simp [mark]; decide
  | catchall => cases followed <;> simp [mark] <;> decide

/-- No mark is the beginning of another. -/
theorem mark_unique {kind kind' : Kind} (h : kind.isParam = true) (h' : kind'.isParam = true)
    (he : mark followed kind ++ rest = mark followed kind' ++ rest') :
    kind = kind' ∧ rest = rest' := by
  cases kind <;> cases kind' <;> cases followed <;> simp_all [mark, Kind.isParam]

/-! ## Telling tokens by what is written -/

theorem token_eq {one other : Token} (kind : one.kind = other.kind)
    (text : one.value.toList = other.value.toList) : one = other := by
  obtain ⟨_, value⟩ := one
  obtain ⟨_, value'⟩ := other
  rw [Token.mk.injEq]
  exact ⟨kind, String.toList_inj.1 text⟩

theorem Token.Legible.isParam (h : token.Legible) (param : token.kind ≠ .static) :
    token.isParam = true := by
  have traced := h.traced
  obtain ⟨kind, value⟩ := token
  cases kind with
  | static => exact absurd rfl param
  | group => cases traced
  | _ => rfl

theorem Token.Legible.written_param (h : token.Legible) (followed : Bool)
    (param : token.kind ≠ .static) :
    token.written followed = ':' :: (token.value.toList ++ mark followed token.kind) := by
  unfold Token.written
  rw [if_neg param, toList_fragment_of_isParam (h.isParam param)]

/-- Literal text does not start as a parameter does. -/
theorem Token.Legible.exists_written (h : token.Legible) (followed : Bool)
    (literal : token.kind = .static) :
    ∃ c text, token.written followed = c :: text ∧ c ≠ ':' := by
  obtain ⟨filled, unmarked, -⟩ := h.literal literal
  obtain ⟨c, text, hc⟩ := List.exists_cons_of_ne_nil filled
  refine ⟨c, text, ?_, ?_⟩
  · unfold Token.written
    rw [if_pos literal, hc]
  · rintro rfl
    rw [hc] at unmarked
    simp [marksParam] at unmarked

theorem Token.Legible.written_ne_nil (h : token.Legible) (followed : Bool) :
    token.written followed ≠ [] := by
  by_cases literal : token.kind = .static
  · obtain ⟨c, text, written, -⟩ := h.exists_written followed literal
    simp [written]
  · simp [h.written_param followed literal]

/-- What is written after literal text is nothing or starts with the colon of a parameter. -/
theorem opens_written (followed : Bool) (legible : ∀ token ∈ tokens, token.Legible)
    (apart : ∀ next ∈ tokens.head?, next.kind ≠ .static) :
    Opens (tokens.flatMap (Token.written followed)) := by
  cases tokens with
  | nil => simp [Opens]
  | cons next rest =>
    have param := (legible next List.mem_cons_self).written_param followed (apart next rfl)
    rw [List.flatMap_cons, param]
    simp [Opens]

/-- The first tokens are the same, and so is what is written after them. -/
theorem written_cons_unique {one other : Token} {as bs : List Token}
    (ha : ∀ token ∈ one :: as, token.Legible) (hb : ∀ token ∈ other :: bs, token.Legible)
    (alta : Alternating (one :: as)) (altb : Alternating (other :: bs))
    (h : (one :: as).flatMap (Token.written followed) =
      (other :: bs).flatMap (Token.written followed)) :
    one = other ∧ as.flatMap (Token.written followed) = bs.flatMap (Token.written followed) := by
  obtain ⟨la, ha⟩ := List.forall_mem_cons.1 ha
  obtain ⟨lb, hb⟩ := List.forall_mem_cons.1 hb
  rw [List.flatMap_cons, List.flatMap_cons] at h
  by_cases sa : one.kind = .static <;> by_cases sb : other.kind = .static
  · have opens := opens_written followed ha fun next hn hk =>
      (List.isChain_cons.1 alta).1 next hn ⟨sa, hk⟩
    have opens' := opens_written followed hb fun next hn hk =>
      (List.isChain_cons.1 altb).1 next hn ⟨sb, hk⟩
    unfold Token.written at h
    rw [if_pos sa, if_pos sb] at h
    obtain ⟨-, ua, ea⟩ := la.literal sa
    obtain ⟨-, ub, eb⟩ := lb.literal sb
    obtain ⟨text, further⟩ := literal_unique ua ub ea eb opens opens' h
    exact ⟨token_eq (sa.trans sb.symm) text, further⟩
  · obtain ⟨c, text, written, colon⟩ := la.exists_written followed sa
    rw [written, lb.written_param followed sb] at h
    exact absurd (List.cons.inj h).1 colon
  · obtain ⟨c, text, written, colon⟩ := lb.exists_written followed sb
    rw [written, la.written_param followed sa] at h
    exact absurd (List.cons.inj h).1.symm colon
  · rw [la.written_param followed sa, lb.written_param followed sb, List.cons_append, List.cons_append,
      List.append_assoc, List.append_assoc] at h
    have pa := la.isParam sa
    have pb := lb.isParam sb
    obtain ⟨name, marked⟩ := name_unique (la.named sa) (lb.named sb) (not_isNameChar_mark pa)
      (not_isNameChar_mark pb) (List.cons.inj h).2
    obtain ⟨kind, further⟩ := mark_unique pa pb marked
    exact ⟨token_eq kind name, further⟩

/-- **Legible tokens are told by what is written.** -/
theorem written_injective :
    ∀ {a b : List Token}, (∀ token ∈ a, token.Legible) → (∀ token ∈ b, token.Legible) →
      Alternating a → Alternating b →
      a.flatMap (Token.written followed) = b.flatMap (Token.written followed) → a = b
  | [], [], _, _, _, _, _ => rfl
  | [], token :: rest, _, hb, _, _, h => by
    have here := (List.append_eq_nil_iff.1 h.symm).1
    exact absurd here ((hb token List.mem_cons_self).written_ne_nil followed)
  | token :: rest, [], ha, _, _, _, h => by
    have here := (List.append_eq_nil_iff.1 h).1
    exact absurd here ((ha token List.mem_cons_self).written_ne_nil followed)
  | one :: as, other :: bs, ha, hb, alta, altb, h => by
    obtain ⟨rfl, further⟩ := written_cons_unique ha hb alta altb h
    rw [written_injective (List.forall_mem_cons.1 ha).2 (List.forall_mem_cons.1 hb).2
      (List.isChain_cons.1 alta).2 (List.isChain_cons.1 altb).2 further]

/-- **Two segments have one route path if and only if they show the same.** In particular their
parameters are the same, by kind and by name, in the same order. -/
theorem compile_eq_iff {a b : String} {s t : Tokens} (ha : tokenize a = .ok s)
    (hb : tokenize b = .ok t) (followed : Bool) :
    (compile s.tokens followed = compile t.tokens followed ↔ shown s.tokens = shown t.tokens) ∧
      (compile s.tokens followed = compile t.tokens followed →
        s.tokens.filter Token.isParam = t.tokens.filter Token.isParam) := by
  have iff : compile s.tokens followed = compile t.tokens followed ↔
      shown s.tokens = shown t.tokens := by
    rw [← String.toList_inj, toList_compile, toList_compile, List.cons_inj_right, ← written_shown,
      ← written_shown]
    constructor
    · exact written_injective (legible_shown (tokenize_from ha)) (legible_shown (tokenize_from hb))
        (alternating_shown _) (alternating_shown _)
    · intro same
      rw [same]
  refine ⟨iff, fun same => ?_⟩
  rw [← filter_isParam_shown, iff.1 same, filter_isParam_shown]

/-- A group label and the border between two literal texts leave no trace, and an escaped space is
compiled like a plain one. A parameter that is spelled out in literal text is told apart. -/
theorem compile_eq_iff_grouped :
    let grouped : List Token :=
      [⟨.static, "a "⟩, ⟨.group, "g"⟩, ⟨.static, "b-"⟩, ⟨.optional, "id"⟩]
    let plain : List Token := [⟨.static, "a%20b-"⟩, ⟨.optional, "id"⟩]
    let literal : List Token := [⟨.static, "a b-:id?"⟩]
    tokenize "a (g)b-[[id]]" = .ok ⟨grouped, []⟩ ∧ tokenize "a%20b-[id]?" = .ok ⟨plain, []⟩ ∧
      tokenize "a b-:id?" = .ok ⟨literal, []⟩ ∧
      compile grouped false = compile plain false ∧ compile grouped false ≠ compile literal false := by
  intro grouped plain literal
  have first : tokenize "a (g)b-[[id]]" = .ok ⟨grouped, []⟩ := by rfl
  have second : tokenize "a%20b-[id]?" = .ok ⟨plain, []⟩ := by rfl
  have third : tokenize "a b-:id?" = .ok ⟨literal, []⟩ := by rfl
  have same : shown grouped = shown plain := by decide +kernel
  have apart : shown grouped ≠ shown literal := by decide +kernel
  exact ⟨first, second, third, (compile_eq_iff first second false).1.2 same,
    fun h => apart ((compile_eq_iff first third false).1.1 h)⟩

end FileRoutes.Segment
