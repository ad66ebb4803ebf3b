import FileRoutes.Proofs.Segment.Literal
import FileRoutes.Script.Alphabet

/-!
# Percent-decoding of route paths

Literal text in a route path is read back by taking out the backslashes and decoding the percent
triplets. Percent signs of the text are not encoded, so the triplets of the text are decoded with
those that stand for its unsafe bytes; no others come up where the two meet.

* `Segment.percentDecode`: the bytes that percent-encoded bytes stand for.
* `Segment.exists_of_digits?`: where two digits in a row come from, if each item has one byte or starts
  with a byte that is no digit.
* `Segment.encodeByte`: a byte as it is written; `Segment.percentDecode_flatMap_encodeByte` says that
  writing bytes does not change what they stand for.
* `Segment.bytes_percentEncode`: the bytes of percent-encoded text.
* `Segment.Escaped`: plain text in which backslashes and colons go together, as literal text in a route
  path is (`Segment.Escaped.encodeStatic`).
* `Segment.percentDecode_encodeStatic`: literal text in a route path.
-/

namespace FileRoutes.Segment

open Script (hexValue?)

variable {α : Type} {b high low byte : UInt8} {rest more : List UInt8} {c : Char} {n : Nat}

/-! ## Decoding -/

/-- The UTF-8 bytes of a text. -/
def bytes (text : String) : List UInt8 := text.toUTF8.data.toList

/-- The value of a byte as a hexadecimal digit. -/
def digit? (b : UInt8) : Option Nat := hexValue? (Char.ofUInt8 b)

/-- The byte that two hexadecimal digits spell. -/
def digits? (high low : UInt8) : Option UInt8 :=
  (digit? high).bind fun h => (digit? low).map fun l => UInt8.ofNat (16 * h + l)

theorem digits?_eq_some_iff :
    digits? high low = some byte ↔
      ∃ h l, digit? high = some h ∧ digit? low = some l ∧ UInt8.ofNat (16 * h + l) = byte := by
  simp [digits?, Option.bind_eq_some_iff]

/-- The code of the percent sign. -/
def sign : UInt8 := 0x25

/-- The bytes that percent-encoded bytes stand for. A percent sign with two hexadecimal digits behind it
stands for the byte that these spell, and any other byte for itself. -/
def percentDecode : List UInt8 → List UInt8
  | b :: high :: low :: rest =>
    match if b = sign then digits? high low else none with
    | some byte => byte :: percentDecode rest
    | none => b :: percentDecode (high :: low :: rest)
  | rest => rest

example : percentDecode (bytes "a%20b%2%C3%A9%") = bytes "a b%2é%" := by decide +kernel

theorem percentDecode_triplet (h : digits? high low = some byte) (rest : List UInt8) :
    percentDecode (sign :: high :: low :: rest) = byte :: percentDecode rest := by
  rw [percentDecode, if_pos rfl, h]

/-- A byte stands for itself unless it is a percent sign with two digits behind it. -/
theorem percentDecode_cons
    (h : ∀ high low more, b = sign → rest = high :: low :: more → digits? high low = none) :
    percentDecode (b :: rest) = b :: percentDecode rest := by
  match rest with
  | [] => rfl
  | [_] => rfl
  | high :: low :: more =>
    have none : (if b = sign then digits? high low else none) = none := by
      split
      · rename_i here
        exact h high low more here rfl
      · rfl
    rw [percentDecode, none]

theorem percentDecode_append {front : List UInt8} (h : ∀ b ∈ front, b ≠ sign) (rest : List UInt8) :
    percentDecode (front ++ rest) = front ++ percentDecode rest := by
  induction front with
  | nil => rfl
  | cons b front ih =>
    have hb := h b List.mem_cons_self
    rw [List.cons_append, percentDecode_cons fun _ _ _ here => absurd here hb,
      ih fun d hd => h d (List.mem_cons_of_mem _ hd), List.cons_append]

/-- Two digits in a row are the bytes of two items, if each item has one byte or starts with a byte
that is no digit. -/
theorem exists_of_digits? {f : α → List UInt8}
    (hf : ∀ a, ∃ b tail, f a = b :: tail ∧ (tail = [] ∨ digit? b = none)) {items : List α}
    (split : items.flatMap f = high :: low :: more) (digits : digits? high low = some byte) :
    ∃ x y others, items = x :: y :: others ∧ f x = [high] ∧ f y = [low] := by
  obtain ⟨h, l, first, second, -⟩ := digits?_eq_some_iff.1 digits
  cases items with
  | nil => cases split
  | cons x items =>
    obtain ⟨b, tail, hx, alone⟩ := hf x
    rw [List.flatMap_cons, hx, List.cons_append, List.cons.injEq] at split
    obtain ⟨rfl, split⟩ := split
    obtain rfl := alone.resolve_right (by simp [first])
    cases items with
    | nil => cases split
    | cons y items =>
      obtain ⟨b', tail, hy, alone⟩ := hf y
      rw [List.nil_append, List.flatMap_cons, hy, List.cons_append, List.cons.injEq] at split
      obtain ⟨rfl, split⟩ := split
      obtain rfl := alone.resolve_right (by simp [second])
      exact ⟨x, y, items, rfl, hx, hy⟩

/-! ## Encoding of bytes -/

/-- A byte as it is written: by itself if it is plain, and else as a triplet. -/
def encodeByte (b : UInt8) : List UInt8 :=
  if isPlain (Char.ofUInt8 b) then [b] else (percent b).map Char.toUInt8

theorem toNat_ofUInt8 (b : UInt8) : (Char.ofUInt8 b).toNat = b.toNat := UInt8.toNat_toUInt32 b

theorem ofUInt8_toUInt8 (h : c.toNat < 128) : Char.ofUInt8 c.toUInt8 = c := by
  apply Char.toNat_inj.1
  rw [toNat_ofUInt8]
  show c.toNat % 256 = c.toNat
  omega

theorem lt_of_isPlain (h : isPlain c = true) : c.toNat < 128 := by
  simp only [isPlain, Bool.and_eq_true, decide_eq_true_eq] at h
  omega

theorem digit?_hexDigit : ∀ n < 16, digit? (hexDigit n).toUInt8 = some n := by decide

/-- The digits of a triplet spell its byte. -/
theorem exists_map_percent (b : UInt8) :
    ∃ high low, (percent b).map Char.toUInt8 = [sign, high, low] ∧ digits? high low = some b := by
  have small : b.toNat < 256 := b.toNat_lt
  refine ⟨_, _, rfl, ?_⟩
  unfold digits?
  rw [digit?_hexDigit _ (by omega), digit?_hexDigit _ (by omega)]
  simp only [Option.bind_some, Option.map_some, Nat.div_add_mod, UInt8.ofNat_toNat]

theorem encodeByte_cases (b : UInt8) :
    encodeByte b = [b] ∨ b ≠ sign ∧
      ∃ high low, encodeByte b = [sign, high, low] ∧ digits? high low = some b := by
  unfold encodeByte
  split
  · exact .inl rfl
  · rename_i other
    refine .inr ⟨?_, exists_map_percent b⟩
    rintro rfl
    exact other (by decide)

/-- A byte is written as one byte, or with a percent sign in front, which is no digit. -/
theorem encodeByte_eq_cons (b : UInt8) :
    ∃ d tail, encodeByte b = d :: tail ∧ (tail = [] ∨ digit? d = none) := by
  rcases encodeByte_cases b with same | ⟨-, high, low, triplet, -⟩
  · exact ⟨b, [], same, .inl rfl⟩
  · exact ⟨sign, [high, low], triplet, .inr (by decide)⟩

theorem eq_of_encodeByte {d : UInt8} (h : encodeByte b = [d]) : b = d := by
  rcases encodeByte_cases b with same | ⟨-, high, low, triplet, -⟩
  · exact (List.cons.inj (same.symm.trans h)).1
  · rw [triplet] at h
    cases h

theorem lt_of_hexValue? (h : hexValue? c = some n) : c.toNat < 128 := by
  have top : c ≤ 'f' := by
    unfold hexValue? at h
    split at h
    · rename_i range
      exact Char.le_trans range.2 (by decide)
    split at h
    · rename_i range
      exact range.2
    split at h
    · rename_i range
      exact Char.le_trans range.2 (by decide)
    · cases h
  have code : c.toNat ≤ 'f'.toNat := Char.le_def.1 top
  exact Nat.lt_of_le_of_lt code (by decide)

theorem isPlain_of_hexValue? (h : hexValue? c = some n) : isPlain c = true := by
  have ascii : ∀ m < 128, (hexValue? (Char.ofNat m)).isSome = true →
      isPlain (Char.ofNat m) = true := by
    decide +kernel
  have here := ascii c.toNat (lt_of_hexValue? h)
  rw [Char.ofNat_toNat, h] at here
  exact here rfl

/-- Digits are plain, so they are written by themselves. -/
theorem encodeByte_of_digit? (h : digit? b = some n) : encodeByte b = [b] :=
  if_pos (isPlain_of_hexValue? h)

/-- Writing the bytes behind a byte makes no triplet that was not there. -/
theorem percentDecode_encodeByte_append
    (h : ∀ high low more, b = sign → rest = high :: low :: more → digits? high low = none) :
    percentDecode (encodeByte b ++ rest.flatMap encodeByte) =
      b :: percentDecode (rest.flatMap encodeByte) := by
  rcases encodeByte_cases b with same | ⟨-, high, low, triplet, spelled⟩
  · rw [same, List.singleton_append]
    refine percentDecode_cons fun high low more here split => ?_
    rw [Option.eq_none_iff_forall_ne_some]
    intro byte digits
    obtain ⟨x, y, others, rfl, hx, hy⟩ := exists_of_digits? encodeByte_eq_cons split digits
    rw [h high low others here (by rw [eq_of_encodeByte hx, eq_of_encodeByte hy])] at digits
    cases digits
  · rw [triplet]
    exact percentDecode_triplet spelled _

/-- **Writing bytes does not change what they stand for.** -/
theorem percentDecode_flatMap_encodeByte (bs : List UInt8) :
    percentDecode (bs.flatMap encodeByte) = percentDecode bs := by
  induction bs using percentDecode.induct with
  | case1 b high low rest byte spelled ih =>
    split at spelled
    · rename_i here
      subst here
      obtain ⟨h, l, first, second, -⟩ := digits?_eq_some_iff.1 spelled
      have triplet : (sign :: high :: low :: rest).flatMap encodeByte =
          sign :: high :: low :: rest.flatMap encodeByte := by
        rw [List.flatMap_cons, List.flatMap_cons, List.flatMap_cons, encodeByte_of_digit? first,
          encodeByte_of_digit? second]
        rfl
      rw [triplet, percentDecode_triplet spelled, percentDecode_triplet spelled, ih]
    · cases spelled
  | case2 b high low rest none ih =>
    have alone : ∀ high' low' more, b = sign → high :: low :: rest = high' :: low' :: more →
        digits? high' low' = Option.none := by
      rintro _ _ _ here ⟨⟩
      rwa [if_pos here] at none
    rw [List.flatMap_cons, percentDecode_encodeByte_append alone, ih, percentDecode_cons alone]
  | case3 rest short =>
    match rest with
    | [] => rfl
    | [a] =>
      rw [List.flatMap_cons, percentDecode_encodeByte_append (by simp)]
      rfl
    | [a, b] =>
      rw [List.flatMap_cons, percentDecode_encodeByte_append (by simp), List.flatMap_cons,
        percentDecode_encodeByte_append (by simp)]
      rfl
    | a :: b :: c :: more => exact absurd rfl (short a b c more)

/-! ## Encoding of texts -/

theorem bytes_eq (text : String) : bytes text = text.toList.flatMap String.utf8EncodeChar := by
  unfold bytes
  rw [String.toUTF8, ← String.utf8Encode_toList, List.utf8Encode, List.toList_data_toByteArray]

theorem utf8EncodeChar_of_lt (h : c.toNat < 128) : String.utf8EncodeChar c = [c.toUInt8] :=
  if_pos (Nat.le_of_lt_succ h)

/-- The bytes of a character beyond ASCII are beyond ASCII, too. -/
theorem le_of_mem_utf8EncodeChar (h : 128 ≤ c.toNat) (hb : b ∈ String.utf8EncodeChar c) :
    128 ≤ b.toNat := by
  have large : ¬c.val.toNat ≤ 127 := Nat.not_le.2 h
  unfold String.utf8EncodeChar at hb
  simp only [if_neg large] at hb
  split at hb
  · simp only [List.mem_cons, List.not_mem_nil, or_false] at hb
    rcases hb with rfl | rfl <;> rw [UInt8.toNat_ofNat'] <;> omega
  split at hb
  · simp only [List.mem_cons, List.not_mem_nil, or_false] at hb
    rcases hb with rfl | rfl | rfl <;> rw [UInt8.toNat_ofNat'] <;> omega
  · simp only [List.mem_cons, List.not_mem_nil, or_false] at hb
    rcases hb with rfl | rfl | rfl | rfl <;> rw [UInt8.toNat_ofNat'] <;> omega

theorem lt_of_digit? (h : digit? b = some n) : b.toNat < 128 :=
  toNat_ofUInt8 b ▸ lt_of_hexValue? h

/-- A character has one byte, or its bytes are no digits. -/
theorem utf8EncodeChar_eq_cons (c : Char) :
    ∃ d tail, String.utf8EncodeChar c = d :: tail ∧ (tail = [] ∨ digit? d = none) := by
  by_cases ascii : c.toNat < 128
  · exact ⟨_, [], utf8EncodeChar_of_lt ascii, .inl rfl⟩
  · obtain ⟨d, tail, hd⟩ := List.exists_cons_of_ne_nil (String.utf8EncodeChar_ne_nil (c := c))
    refine ⟨d, tail, hd, .inr (Option.eq_none_iff_forall_ne_some.2 fun n digit => ?_)⟩
    have large : 128 ≤ d.toNat :=
      le_of_mem_utf8EncodeChar (Nat.le_of_not_lt ascii) (hd ▸ List.mem_cons_self)
    exact Nat.not_lt.2 large (lt_of_digit? digit)

/-- A character with one byte, which is a digit, is that digit. -/
theorem hexValue?_of_utf8EncodeChar (h : String.utf8EncodeChar c = [b]) (digit : digit? b = some n) :
    hexValue? c = some n := by
  have ascii : c.toNat < 128 := by
    by_contra large
    have mem : b ∈ String.utf8EncodeChar c := h ▸ List.mem_cons_self
    exact Nat.not_lt.2 (le_of_mem_utf8EncodeChar (Nat.le_of_not_lt large) mem) (lt_of_digit? digit)
  rw [utf8EncodeChar_of_lt ascii, List.cons.injEq] at h
  rw [← h.1, digit?, ofUInt8_toUInt8 ascii] at digit
  exact digit

/-- A text without triplets stands for itself. -/
theorem percentDecode_flatMap_utf8EncodeChar :
    ∀ {chars : List Char}, (∀ before high low after, chars = before ++ '%' :: high :: low :: after →
        hexValue? high = none ∨ hexValue? low = none) →
      percentDecode (chars.flatMap String.utf8EncodeChar) = chars.flatMap String.utf8EncodeChar
  | [], _ => rfl
  | c :: rest, free => by
    have freeRest : ∀ before high low after, rest = before ++ '%' :: high :: low :: after →
        hexValue? high = none ∨ hexValue? low = none :=
      fun before high low after split => free (c :: before) high low after (congrArg (c :: ·) split)
    have ih := percentDecode_flatMap_utf8EncodeChar freeRest
    rw [List.flatMap_cons]
    by_cases ascii : c.toNat < 128
    · rw [utf8EncodeChar_of_lt ascii, List.singleton_append]
      rw [percentDecode_cons fun high low more here split => ?_, ih]
      rw [Option.eq_none_iff_forall_ne_some]
      intro byte digits
      obtain ⟨x, y, others, rfl, hx, hy⟩ := exists_of_digits? utf8EncodeChar_eq_cons split digits
      obtain ⟨h, l, first, second, -⟩ := digits?_eq_some_iff.1 digits
      have percent : c = '%' := by
        rw [← ofUInt8_toUInt8 ascii, here]
        decide
      have none := free [] x y others (by rw [percent]; rfl)
      rw [hexValue?_of_utf8EncodeChar hx first, hexValue?_of_utf8EncodeChar hy second] at none
      rcases none with none | none <;> cases none
    · rw [percentDecode_append, ih]
      rintro b hb rfl
      exact absurd (le_of_mem_utf8EncodeChar (Nat.le_of_not_lt ascii) hb) (by decide)

theorem encodeByte_of_mem_utf8EncodeChar (h : isPlain c = false)
    (hb : b ∈ String.utf8EncodeChar c) : encodeByte b = (percent b).map Char.toUInt8 := by
  refine if_neg fun plain => ?_
  by_cases ascii : c.toNat < 128
  · rw [utf8EncodeChar_of_lt ascii, List.mem_singleton] at hb
    rw [hb, ofUInt8_toUInt8 ascii, h] at plain
    cases plain
  · have large := le_of_mem_utf8EncodeChar (Nat.le_of_not_lt ascii) hb
    have small := lt_of_isPlain plain
    rw [toNat_ofUInt8] at small
    omega

theorem isPlain_hexDigit : ∀ n < 16, isPlain (hexDigit n) = true := by decide

theorem isPlain_of_mem_percent (hc : c ∈ percent b) : isPlain c = true := by
  have small : b.toNat < 256 := b.toNat_lt
  simp only [percent, List.mem_cons, List.not_mem_nil, or_false] at hc
  rcases hc with rfl | rfl | rfl
  · decide
  · exact isPlain_hexDigit _ (by omega)
  · exact isPlain_hexDigit _ (by omega)

theorem flatMap_utf8EncodeChar_percent (b : UInt8) :
    (percent b).flatMap String.utf8EncodeChar = (percent b).map Char.toUInt8 := by
  rw [List.map_eq_flatMap]
  exact List.flatMap_congr fun c hc =>
    utf8EncodeChar_of_lt (lt_of_isPlain (isPlain_of_mem_percent hc))

/-- A character is written byte by byte. -/
theorem flatMap_utf8EncodeChar_percentChar (c : Char) :
    (percentChar c).flatMap String.utf8EncodeChar =
      (String.utf8EncodeChar c).flatMap encodeByte := by
  unfold percentChar
  cases plain : isPlain c with
  | true =>
    have ascii := lt_of_isPlain plain
    have self : encodeByte c.toUInt8 = [c.toUInt8] := if_pos (by rwa [ofUInt8_toUInt8 ascii])
    rw [if_pos rfl, List.flatMap_singleton, utf8EncodeChar_of_lt ascii, List.flatMap_singleton, self]
  | false =>
    rw [if_neg Bool.false_ne_true, List.flatMap_assoc]
    refine List.flatMap_congr fun b hb => ?_
    rw [encodeByte_of_mem_utf8EncodeChar plain hb, flatMap_utf8EncodeChar_percent]

/-- **Percent-encoded text is written byte by byte.** -/
theorem bytes_percentEncode (text : String) :
    bytes (percentEncode text) = (bytes text).flatMap encodeByte := by
  rw [bytes_eq, bytes_eq, percentEncode, String.toList_ofList, List.flatMap_assoc, List.flatMap_assoc]
  exact List.flatMap_congr fun c _ => flatMap_utf8EncodeChar_percentChar c

/-! ## Escaped text -/

/-- Text with no characters but plain ones and backslashes, in which every colon is right behind a
backslash and every backslash right before a colon. -/
structure Escaped (text : List Char) : Prop where
  plain : ∀ c ∈ text, isPlain c = true ∨ c = '\\'
  colon : ∀ before after, text = before ++ ':' :: after → before.getLast? = some '\\'
  backslash : ∀ before after, text = before ++ '\\' :: after → after.head? = some ':'

namespace Escaped

variable {a b : List Char}

theorem of_free (h : ∀ d ∈ a, isPlain d = true ∧ d ≠ ':' ∧ d ≠ '\\') : Escaped a where
  plain d hd := .inl (h d hd).1
  colon before after split := absurd rfl (h ':' (by simp [split])).2.1
  backslash before after split := absurd rfl (h '\\' (by simp [split])).2.2

/-- A character of two texts, in the first one or in the second. -/
theorem split_append {before after : List Char} (h : a ++ b = before ++ c :: after) :
    (∃ more, a = before ++ c :: more ∧ after = more ++ b) ∨
      ∃ more, before = a ++ more ∧ b = more ++ c :: after := by
  rcases List.append_eq_append_iff.1 h with ⟨more, rfl, rest⟩ | ⟨more, rfl, rest⟩
  · exact .inr ⟨more, rfl, rest⟩
  · cases more with
    | nil => exact .inr ⟨[], by simp, rest.symm⟩
    | cons d more =>
      obtain ⟨rfl, rfl⟩ := List.cons.inj rest
      exact .inl ⟨more, rfl, rfl⟩

theorem append (ha : Escaped a) (hb : Escaped b) : Escaped (a ++ b) where
  plain d hd := (List.mem_append.1 hd).elim (ha.plain d) (hb.plain d)
  colon before after split := by
    rcases split_append split with ⟨more, here, -⟩ | ⟨more, rfl, here⟩
    · exact ha.colon before more here
    · rw [List.getLast?_append, hb.colon more after here]
      rfl
  backslash before after split := by
    rcases split_append split with ⟨more, here, rfl⟩ | ⟨more, -, here⟩
    · rw [List.head?_append, ha.backslash before more here]
      rfl
    · exact hb.backslash more after here

theorem encodeChar (c : Char) : Escaped (encodeChar c) := by
  by_cases colon : c = ':'
  · subst colon
    have written : Segment.encodeChar ':' = ['\\', ':'] := rfl
    rw [written]
    constructor
    · rw [List.forall_mem_cons, List.forall_mem_singleton]
      exact ⟨.inr rfl, .inl (by decide)⟩
    · rintro (_ | ⟨d, _ | ⟨e, before⟩⟩) after split
      · cases split
      · rw [← (List.cons.inj split).1]
        rfl
      · simp at split
    · rintro (_ | ⟨d, _ | ⟨e, before⟩⟩) after split
      · rw [← (List.cons.inj split).2]
        rfl
      · simp at split
      · simp at split
  · rw [encodeChar_of_ne colon]
    refine of_free fun d hd => ⟨?_, (percentChar_free hd).2 colon, (percentChar_free hd).1⟩
    unfold percentChar at hd
    split at hd
    · rename_i plain
      rwa [List.mem_singleton.1 hd]
    · obtain ⟨byte, -, hb⟩ := List.mem_flatMap.1 hd
      exact isPlain_of_mem_percent hb

theorem encodeStatic (text : String) : Escaped (encodeStatic text).toList := by
  unfold Segment.encodeStatic
  rw [String.toList_ofList]
  induction text.toList with
  | nil => exact of_free fun _ h => absurd h List.not_mem_nil
  | cons c rest ih => exact (encodeChar c).append ih

end Escaped

/-! ## Literal text -/

/-- Literal text in a route path, with plain colons, has the bytes of percent-encoded text. -/
theorem bytes_unescapeColons_encodeStatic (text : String) :
    bytes (unescapeColons (encodeStatic text)) = (bytes text).flatMap encodeByte := by
  have plain := unescape_encodeStatic text []
  rw [List.append_nil] at plain
  rw [← bytes_percentEncode, unescapeColons, plain, unescape, List.append_nil, String.ofList_toList]

/-- **Literal text is read back from a route path.** It is written in printable ASCII without
delimiters, but for the backslashes that escape its colons, of which there are no others. Taking these
out and decoding the percent triplets gives what decoding the triplets of the text itself gives: the
text, if there are none in it. Texts are written one after the other. -/
theorem percentDecode_encodeStatic (text other : String) :
    Escaped (encodeStatic text).toList ∧
    percentDecode (bytes (unescapeColons (encodeStatic text))) = percentDecode (bytes text) ∧
    ((∀ before high low after, text.toList = before ++ '%' :: high :: low :: after →
        hexValue? high = none ∨ hexValue? low = none) →
      percentDecode (bytes (unescapeColons (encodeStatic text))) = bytes text) ∧
    encodeStatic (text ++ other) = encodeStatic text ++ encodeStatic other := by
  have decoded : percentDecode (bytes (unescapeColons (encodeStatic text))) =
      percentDecode (bytes text) := by
    rw [bytes_unescapeColons_encodeStatic, percentDecode_flatMap_encodeByte]
  refine ⟨.encodeStatic text, decoded, fun free => ?_, encodeStatic_append text other⟩
  rw [decoded, bytes_eq]
  exact percentDecode_flatMap_utf8EncodeChar free

/-- A percent sign that starts no triplet is read back, and so are a colon and an accented letter. -/
theorem percentDecode_encodeStatic_sign :
    (∀ before high low after, "é%:a".toList = before ++ '%' :: high :: low :: after →
      hexValue? high = none ∨ hexValue? low = none) ∧
    encodeStatic "é%:a" = "%C3%A9%\\:a" ∧
    percentDecode (bytes (unescapeColons (encodeStatic "é%:a"))) = bytes "é%:a" := by
  have free : ∀ before high low after, "é%:a".toList = before ++ '%' :: high :: low :: after →
      hexValue? high = none ∨ hexValue? low = none := by
    have chars : "é%:a".toList = ['é', '%', ':', 'a'] := by decide +kernel
    rw [chars]
    rintro (_ | ⟨c, _ | ⟨d, before⟩⟩) high low after split
    · simp at split
    · simp only [List.cons_append, List.nil_append, List.cons.injEq] at split
      obtain ⟨-, -, rfl, -⟩ := split
      exact .inl (by decide)
    · have lengths := congrArg List.length split
      simp at lengths
      omega
  exact ⟨free, by decide +kernel, (percentDecode_encodeStatic "é%:a" "").2.2.1 free⟩

end FileRoutes.Segment
