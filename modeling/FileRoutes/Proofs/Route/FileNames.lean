import FileRoutes.Route.FileName
import Mathlib.Data.List.Basic
import Mathlib.Data.List.Induction

/-!
# Names of page files, read back

The path of a page file is spelled from its segments, the mark of its mode and its extension. Reading
cuts at the last slash and the last dot and then looks for a mark, although dots and marks may stand in
the segments as well.

* `FileName.spell`, `FileName.toList_spell`: the path of a page file, from its segments and its
  extension.
* `FileName.stripExtension_above`: the path without its extension; `FileName.stem` is what is left of
  the file name.
* `FileName.splitMode_eq_iff`: the marked name that a segment and a mode are read from.
* `FileName.segments_spell_eq`, `FileName.segments_spell`: the segments of a path that was spelled.
* `FileName.slashless_segments`, `FileName.segments_eq`: what holds of the segments of every path, and
  what becomes of server pages without a mode of their own.
* `FileName.spellMarked`, `FileName.segments_spellMarked_iff`: the path with the mark of a mode, and
  when it is read back.
-/

namespace FileRoutes

/-- The mode of a page where server pages have a mode of their own, or else that of all pages. -/
def Mode.shown (serverComponents : Bool) (mode : Mode) : Mode :=
  if mode = .server ∧ serverComponents = false then .all else mode

namespace FileName

/-! ## Spelled file names -/

/-- The path of a page file. -/
def spell (segments : List String) (extension : String) : String :=
  "/".intercalate segments ++ "." ++ extension

/-- The directories of a path, each with the slash after it. -/
def above (directories : List (List Char)) : List Char := directories.flatMap fun d => d ++ ['/']

variable {directories : List (List Char)} {name after : List Char}

theorem intercalate_append_singleton (name : List Char) :
    ∀ directories : List (List Char),
      ['/'].intercalate (directories ++ [name]) = above directories ++ name
  | [] => by simp [above]
  | [directory] => by simp [above]
  | directory :: next :: rest => by
    have ih := intercalate_append_singleton name (next :: rest)
    rw [List.cons_append] at ih
    rw [List.cons_append, List.cons_append, List.intercalate_cons_cons, ih]
    simp [above]

theorem toList_spell (front : List String) (last extension : String) :
    (spell (front ++ [last]) extension).toList =
      above (front.map String.toList) ++ (last.toList ++ '.' :: extension.toList) := by
  unfold spell
  rw [String.toList_append, String.toList_append, String.toList_intercalate, List.map_append,
    List.map_singleton, show ("/" : String).toList = ['/'] from rfl, intercalate_append_singleton]
  simp

/-! ## Slashes and the extension -/

theorem slashless_splitOn :
    ∀ (text : List Char), ∀ piece ∈ Text.splitOn '/' text, '/' ∉ piece
  | [], piece, hm => by
    rw [List.mem_singleton.1 hm]
    exact List.not_mem_nil
  | c :: rest, piece, hm => by
    have ih := slashless_splitOn rest
    unfold Text.splitOn at hm
    split at hm
    · rcases List.mem_cons.1 hm with rfl | hm
      · exact List.not_mem_nil
      · exact ih piece hm
    · rename_i slash
      split at hm
      · rename_i none
        exact absurd none (Text.splitOn_ne_nil '/' rest)
      · rename_i first others some_
        rw [some_] at ih
        rcases List.mem_cons.1 hm with rfl | hm
        · intro hs
          rcases List.mem_cons.1 hs with he | hs
          · exact slash he.symm
          · exact ih first List.mem_cons_self hs
        · exact ih piece (List.mem_cons_of_mem _ hm)

theorem splitOn_above (hn : '/' ∉ name) (hd : ∀ directory ∈ directories, '/' ∉ directory) :
    Text.splitOn '/' (above directories ++ name) = directories ++ [name] := by
  rw [← intercalate_append_singleton]
  refine Text.splitOn_intercalate (by simp) fun piece hp => ?_
  rcases List.mem_append.1 hp with hp | hp
  · exact hd piece hp
  · rw [List.mem_singleton.1 hp]
    exact hn

theorem splitDirectory_above (directories : List (List Char)) (hn : '/' ∉ name) :
    splitDirectory (above directories ++ name) = (above directories, name) := by
  unfold splitDirectory
  induction directories using List.reverseRecOn with
  | nil =>
    rw [show above [] ++ name = name from rfl, Text.splitLast?_eq_none_iff.2 hn]
    rfl
  | append_singleton rest directory _ =>
    have cut : above (rest ++ [directory]) = (above rest ++ directory) ++ ['/'] := by simp [above]
    rw [cut, List.append_assoc, List.singleton_append, Text.splitLast?_append _ hn]

/-- What is left of a file name without its extension. An extension that is all of the name stays. -/
def stem (name after : List Char) : List Char := if name = [] then '.' :: after else name

theorem slashless_stem (hn : '/' ∉ name) (slash : '/' ∉ after) : '/' ∉ stem name after := by
  unfold stem
  split
  · simp [slash]
  · exact hn

/-- **Only the extension of the file name is taken off**, whatever dots stand before it. -/
theorem stripExtension_above (directories : List (List Char)) (hn : '/' ∉ name)
    (slash : '/' ∉ after) (dot : '.' ∉ after) :
    stripExtension (above directories ++ (name ++ '.' :: after)) =
      above directories ++ stem name after := by
  have whole : '/' ∉ name ++ '.' :: after := by simp [hn, slash]
  unfold stripExtension
  rw [splitDirectory_above directories whole]
  simp only [Text.splitLast?_append name dot]
  cases name <;> rfl

/-! ## Marks of modes -/

/-- The mark of a mode at the end of a file name. The mode of all pages has none. -/
def markOf : Mode → List Char
  | .all => []
  | .client => clientMark
  | .server => serverMark

theorem stripSuffix?_eq_none {ending : List Char} (h : ¬ending <:+ name) :
    Text.stripSuffix? ending name = none := by
  cases found : Text.stripSuffix? ending name with
  | none => rfl
  | some base => exact absurd ⟨base, (Text.stripSuffix?_eq_some_iff.1 found).symm⟩ h

/-- A name does not end in two marks. -/
theorem not_serverMark_suffix (base : List Char) : ¬serverMark <:+ base ++ clientMark := by
  rintro ⟨other, same⟩
  have length : serverMark.length = clientMark.length := by decide
  obtain ⟨-, marks⟩ := List.append_inj' same length
  exact absurd marks (by decide)

/-- **A name is read as a segment and a mode** if it is the segment with the mark of the mode; for the
mode of all pages, the segment must have no mark of another one. -/
theorem splitMode_eq_iff {base : List Char} {mode : Mode} :
    splitMode true name = (base, mode) ↔
      name = base ++ markOf mode ∧
        (mode = .all → ∀ mark ∈ [serverMark, clientMark], ¬mark <:+ base) := by
  constructor
  · intro read
    unfold splitMode at read
    split at read
    · rename_i server
      obtain ⟨rfl, rfl⟩ := Prod.mk.inj read
      exact ⟨Text.stripSuffix?_eq_some_iff.1 server, nofun⟩
    · rename_i client
      obtain ⟨rfl, rfl⟩ := Prod.mk.inj read
      exact ⟨Text.stripSuffix?_eq_some_iff.1 client, nofun⟩
    · rename_i noServer noClient
      obtain ⟨rfl, rfl⟩ := Prod.mk.inj read
      refine ⟨(List.append_nil name).symm, fun _ mark hm => ?_⟩
      rintro ⟨base, rfl⟩
      have cut : Text.stripSuffix? mark (base ++ mark) = none := by
        rcases List.mem_pair.1 hm with rfl | rfl
        · exact noServer
        · exact noClient
      rw [Text.stripSuffix?_append] at cut
      cases cut
  · rintro ⟨rfl, plain⟩
    unfold splitMode
    cases mode with
    | all =>
      have unmarked := plain rfl
      rw [markOf, List.append_nil, stripSuffix?_eq_none (unmarked serverMark (by simp)),
        stripSuffix?_eq_none (unmarked clientMark (by simp))]
    | client =>
      rw [markOf, stripSuffix?_eq_none (not_serverMark_suffix base), Text.stripSuffix?_append]
    | server =>
      rw [markOf, Text.stripSuffix?_append]
      rfl

theorem splitMode_eq (serverComponents : Bool) (name : List Char) :
    splitMode serverComponents name =
      ((splitMode true name).1, (splitMode true name).2.shown serverComponents) := by
  unfold splitMode
  split <;> cases serverComponents <;> rfl

/-- A name without a mark of a mode is kept. -/
theorem splitMode_fst (serverComponents : Bool)
    (plain : ∀ mark ∈ [serverMark, clientMark], ¬mark <:+ name) :
    (splitMode serverComponents name).1 = name := by
  have all : splitMode true name = (name, .all) :=
    splitMode_eq_iff.2 ⟨(List.append_nil name).symm, fun _ => plain⟩
  rw [splitMode_eq, all]

theorem slashless_splitMode (serverComponents : Bool) (hn : '/' ∉ name) :
    '/' ∉ (splitMode serverComponents name).1 := by
  obtain ⟨base, mode, read⟩ : ∃ base mode, splitMode true name = (base, mode) := ⟨_, _, rfl⟩
  obtain ⟨rfl, -⟩ := splitMode_eq_iff.1 read
  rw [splitMode_eq, read]
  exact fun hm => hn (List.mem_append_left _ hm)

/-! ## Segments -/

/-- Segments have no slashes. -/
theorem slashless_segments (serverComponents : Bool) (path : String) :
    ∀ segment ∈ (segments serverComponents path).1, '/' ∉ segment.toList := by
  intro segment hm
  unfold segments segmentChars at hm
  obtain ⟨piece, hp, rfl⟩ := List.mem_map.1 hm
  rw [String.toList_ofList]
  have pieces := slashless_splitOn (stripExtension path.toList)
  rcases List.mem_append.1 hp with hp | hp
  · exact pieces piece ((List.dropLast_sublist _).subset hp)
  · rw [List.mem_singleton.1 hp]
    refine slashless_splitMode serverComponents ?_
    cases hl : (Text.splitOn '/' (stripExtension path.toList)).getLast? with
    | none => exact List.not_mem_nil
    | some last => exact pieces last (List.mem_of_getLast? hl)

/-- **How server pages are taken does not change the segments**, and only their mode is another. -/
theorem segments_eq (serverComponents : Bool) (path : String) :
    segments serverComponents path =
      ((segments true path).1, (segments true path).2.shown serverComponents) := by
  unfold segments segmentChars
  simp only [splitMode_eq serverComponents]

/-- The segments of a file do not depend on how server pages are taken. -/
theorem segments_fst (serverComponents : Bool) (path : String) :
    (segments serverComponents path).1 = (segments true path).1 := by
  rw [segments_eq]

/-- The segments and the mode of a spelled path: its directories, and what is read from the stem of
the file name. -/
theorem segments_spell_eq (serverComponents : Bool) {front : List String} {last extension : String}
    (hf : ∀ segment ∈ front, '/' ∉ segment.toList) (hl : '/' ∉ last.toList)
    (slash : '/' ∉ extension.toList) (dot : '.' ∉ extension.toList) :
    segments serverComponents (spell (front ++ [last]) extension) =
      let read := splitMode serverComponents (stem last.toList extension.toList)
      (front ++ [String.ofList read.1], read.2) := by
  have pieces := splitOn_above (slashless_stem hl slash) (List.forall_mem_map.2 hf)
  have back : (front.map String.toList).map String.ofList = front := by
    rw [List.map_map]
    exact (List.map_congr_left fun segment _ => String.ofList_toList).trans (List.map_id _)
  unfold segments segmentChars
  simp only [toList_spell, stripExtension_above _ hl slash dot, pieces, List.getLast?_append,
    List.getLast?_singleton, Option.some_or, Option.getD_some, List.dropLast_concat, List.map_append,
    List.map_singleton, back]

/-- **The segments of a spelled path**: the directories, and what is left of the file name; all of it
if the file name is not empty and has no mark of a mode. -/
theorem segments_spell (serverComponents : Bool) {front : List String} {last extension : String}
    (hf : ∀ segment ∈ front, '/' ∉ segment.toList) (hl : '/' ∉ last.toList)
    (slash : '/' ∉ extension.toList) (dot : '.' ∉ extension.toList) :
    ∃ base, (segments serverComponents (spell (front ++ [last]) extension)).1 = front ++ [base] ∧
      (last ≠ "" → (∀ mark ∈ [serverMark, clientMark], ¬mark <:+ last.toList) → base = last) := by
  refine ⟨_, congrArg Prod.fst (segments_spell_eq serverComponents hf hl slash dot),
    fun filled plain => ?_⟩
  have kept : stem last.toList extension.toList = last.toList :=
    if_neg fun empty => filled (String.toList_eq_nil_iff.1 empty)
  rw [kept, splitMode_fst serverComponents plain, String.ofList_toList]

/-! ## Marked file names -/

/-- The path of a page file of a mode. -/
def spellMarked (segments : List String) (mode : Mode) (extension : String) : String :=
  "/".intercalate segments ++ String.ofList (markOf mode) ++ "." ++ extension

/-- The last segment can be told from the mark of the mode: where there is none, the segment is not
empty, so that the file name is not all extension, and has no mark itself. -/
def Legible (mode : Mode) (last : String) : Prop :=
  mode = .all → last ≠ "" ∧ ∀ mark ∈ [serverMark, clientMark], ¬mark <:+ last.toList

/-- The mark may be taken as a part of the last segment. -/
theorem spellMarked_concat (front : List String) (last : String) (mode : Mode) (extension : String) :
    spellMarked (front ++ [last]) mode extension =
      spell (front ++ [last ++ String.ofList (markOf mode)]) extension := by
  apply String.toList_injective
  rw [toList_spell]
  unfold spellMarked
  simp only [String.toList_append, String.toList_intercalate, List.map_append, List.map_singleton,
    show ("/" : String).toList = ['/'] from rfl, intercalate_append_singleton]
  simp

/-- The stem of a marked name is read as the segment and the mode exactly if the two can be told. -/
theorem splitMode_stem_iff {mode : Mode} {last : String} (after : List Char) :
    splitMode true (stem (last.toList ++ markOf mode) after) = (last.toList, mode) ↔
      Legible mode last := by
  rw [splitMode_eq_iff]
  unfold stem Legible
  by_cases bare : last.toList ++ markOf mode = []
  · -- the name is all extension, and what is read from it is not empty
    obtain ⟨empty, unmarked⟩ := List.append_eq_nil_iff.1 bare
    have all : mode = .all := by
      cases mode with
      | all => rfl
      | client => cases unmarked
      | server => cases unmarked
    subst all
    rw [if_pos bare, bare]
    refine iff_of_false (fun read => nomatch read.1) fun legible => ?_
    exact (legible rfl).1 (String.toList_eq_nil_iff.1 empty)
  · rw [if_neg bare]
    constructor
    · rintro ⟨-, plain⟩ rfl
      refine ⟨fun empty => bare ?_, plain rfl⟩
      rw [empty]
      rfl
    · intro legible
      exact ⟨rfl, fun all => (legible all).2⟩

/-- **File names are read back.** The path of a page file, spelled from any segments without slashes,
a mode and an extension without dots and slashes, is read as these segments and this mode exactly if
the last segment can be told from the mark of the mode. It is then read as the same segments where
server pages have no mode of their own, with the mode of all pages in place of theirs. -/
theorem segments_spellMarked_iff (mode : Mode) {pieces : List String} {extension : String}
    (filled : pieces ≠ []) (slashless : ∀ piece ∈ pieces, '/' ∉ piece.toList)
    (slash : '/' ∉ extension.toList) (dot : '.' ∉ extension.toList) :
    let path := spellMarked pieces mode extension
    (segments true path = (pieces, mode) ↔ Legible mode (pieces.getLast filled)) ∧
      (Legible mode (pieces.getLast filled) →
        segments false path = (pieces, if mode = .server then .all else mode)) := by
  obtain ⟨front, last, rfl⟩ : ∃ front last, pieces = front ++ [last] :=
    ⟨_, _, (List.dropLast_append_getLast filled).symm⟩
  intro path
  obtain ⟨hf, hl⟩ := List.forall_mem_append.1 slashless
  have hm : '/' ∉ (last ++ String.ofList (markOf mode)).toList := by
    have unslashed : '/' ∉ markOf mode := by cases mode <;> decide
    simpa [unslashed] using hl
  have read : segments true path = (front ++ [last], mode) ↔ Legible mode last := by
    rw [← splitMode_stem_iff extension.toList]
    have spelled := segments_spell_eq true hf hm slash dot
    rw [String.toList_append, String.toList_ofList] at spelled
    rw [show path = _ from spellMarked_concat front last mode extension, spelled]
    simp only [Prod.ext_iff, List.append_cancel_left_eq, List.cons.injEq, and_true]
    rw [← String.toList_inj, String.toList_ofList]
  rw [List.getLast_append_singleton]
  refine ⟨read, fun legible => ?_⟩
  rw [segments_eq, read.2 legible]
  simp [Mode.shown]

/-- Dots and other marks in the segments do not matter, behind the mark of a mode or before it. -/
theorem segments_spellMarked_iff_dotted :
    let server := spellMarked ["v1.2", "[...slug].client"] .server "vue"
    let all := spellMarked ["a.server", ".hidden"] .all "d"
    server = "v1.2/[...slug].client.server.vue" ∧ all = "a.server/.hidden.d" ∧
      segments true server = (["v1.2", "[...slug].client"], .server) ∧
      segments false server = (["v1.2", "[...slug].client"], .all) ∧
      segments true all = (["a.server", ".hidden"], .all) := by
  intro server all
  have marked := segments_spellMarked_iff .server (List.cons_ne_nil "v1.2" ["[...slug].client"])
    (by decide) (show '/' ∉ "vue".toList by decide) (by decide)
  have plain := segments_spellMarked_iff .all (List.cons_ne_nil "a.server" [".hidden"])
    (by decide) (show '/' ∉ "d".toList by decide) (by decide)
  have hidden : Legible .all ".hidden" := fun _ => by decide
  exact ⟨rfl, rfl, marked.1.2 nofun, marked.2 nofun, plain.1.2 hidden⟩

end FileName

end FileRoutes
