import FileRoutes.Proofs.Route.Params

/-!
# Catchalls of pages

A catchall stays within its segment if the file name goes on behind it, even if what follows adds
nothing to the path; if nothing follows, it takes the rest of the address.

* `Segment.writes`: a segment is neither transparent nor the literal text of an index.
* `FileName.writtenCatchalls`: the catchalls of the segments that add to the path, each confined to
  its segment if another one comes after it; `FileName.catchalls_fullPath?`: these are the catchalls
  of the full path.
* `FileName.dueCatchalls`: all catchalls of a file, each confined to its segment if a later one
  writes text; `FileName.writtenCatchalls_eq_iff`: when both are the same.
* `catchalls_walk_buildForest`: the catchalls of the full paths in a built forest.
* `not_forall_catchalls`: an index page behind a catchall confines it.
-/

namespace FileRoutes

open Segment (Token shownCatchalls)

/-- The segment is one that should add text to the path: it is neither transparent nor the literal
text of an index. -/
def Segment.writes (tokens : List Token) : Bool :=
  !transparent tokens && (label tokens != Url.indexWord || tokens.any Token.isParam)

/-! ## The catchalls of a segment -/

namespace Segment

variable {tokens : List Token}

theorem shownCatchalls_eq_nil_iff {segment : Placed} :
    shownCatchalls segment = [] ↔ ¬∃ token ∈ segment.tokens, token.kind = .catchall := by
  simp [shownCatchalls]

theorem shownCatchalls_inj (has : ∃ token ∈ tokens, token.kind = .catchall) {a b : Bool} :
    shownCatchalls ⟨tokens, a⟩ = shownCatchalls ⟨tokens, b⟩ ↔ a = b := by
  obtain ⟨token, hm, kind⟩ := has
  have shows : token ∈ tokens.filter fun token => token.kind == .catchall :=
    List.mem_filter.2 ⟨hm, by simp [kind]⟩
  constructor
  · intro same
    exact (Prod.mk.inj (List.map_inj_left.1 same token shows)).2
  · intro same
    rw [same]

/-- A segment with a catchall adds to the path unless it is labelled as an index. -/
theorem contributes_iff_of_catchall (has : ∃ token ∈ tokens, token.kind = .catchall) :
    contributes tokens = true ↔ label tokens ≠ Url.indexWord := by
  obtain ⟨token, hm, kind⟩ := has
  have visible : transparent tokens = false := by
    rw [transparent, List.all_eq_false]
    exact ⟨token, hm, by simp [Token.isGroup, kind]⟩
  simp [contributes, visible]

end Segment

/-! ## The catchalls of a file -/

namespace FileName

variable {relative full : String} {found : List Segment.Tokens}

/-- A segment comes after that should add text to the path. -/
def goesOnWriting (rest : List Segment.Tokens) : Bool :=
  rest.any fun later => Segment.writes later.tokens

/-- The catchalls of the segments that add to the path. -/
def writtenCatchalls (found : List Segment.Tokens) : List (String × Bool) :=
  (placedContributing found).flatMap shownCatchalls

/-- The catchalls of a file, as they should be written. -/
def dueCatchalls (found : List Segment.Tokens) : List (String × Bool) :=
  (placed goesOnWriting found).flatMap shownCatchalls

/-- The full path of a file has the catchalls of the segments that add to it. -/
theorem catchalls_fullPath? (read : tokenizeAll (segments true relative).1 = .ok found)
    (spelled : fullPath? relative = some full) :
    Segment.catchalls full = writtenCatchalls found := by
  unfold Segment.catchalls
  rw [toList_fullPath? read spelled]
  exact Segment.catchalls_rooted _ (named_placedContributing read)

theorem writtenCatchalls_cons (segment : Segment.Tokens) (rest : List Segment.Tokens) :
    writtenCatchalls (segment :: rest) =
      (if Segment.contributes segment.tokens then shownCatchalls ⟨segment.tokens, goesOn rest⟩
        else []) ++ writtenCatchalls rest := by
  unfold writtenCatchalls
  rw [placedContributing_cons]
  split <;> simp

theorem dueCatchalls_cons (segment : Segment.Tokens) (rest : List Segment.Tokens) :
    dueCatchalls (segment :: rest) =
      shownCatchalls ⟨segment.tokens, goesOnWriting rest⟩ ++ dueCatchalls rest := by
  simp [dueCatchalls, placed]

/-- No catchall is written twice. -/
theorem length_writtenCatchalls_le :
    ∀ found : List Segment.Tokens, (writtenCatchalls found).length ≤ (dueCatchalls found).length
  | [] => Nat.le_refl 0
  | segment :: rest => by
    have ih := length_writtenCatchalls_le rest
    have here : (shownCatchalls ⟨segment.tokens, goesOn rest⟩).length =
        (shownCatchalls ⟨segment.tokens, goesOnWriting rest⟩).length := by
      simp [shownCatchalls]
    rw [writtenCatchalls_cons, dueCatchalls_cons, List.length_append, List.length_append]
    split
    · omega
    · simp only [List.length_nil]
      omega

theorem goesOn_eq_iff (rest : List Segment.Tokens) :
    goesOn rest = goesOnWriting rest ↔
      rest = [] ∨ ∃ later ∈ rest, Segment.writes later.tokens = true := by
  cases rest <;> simp [goesOn, goesOnWriting]

/-- The catchalls of one segment are written as they should be if it is not labelled as an index and
nothing comes after it, or something that writes text. -/
theorem shownCatchalls_eq_iff (tokens : List Token) (rest : List Segment.Tokens) :
    (if Segment.contributes tokens then shownCatchalls ⟨tokens, goesOn rest⟩ else []) =
        shownCatchalls ⟨tokens, goesOnWriting rest⟩ ↔
      ((∃ token ∈ tokens, token.kind = .catchall) →
        Segment.label tokens ≠ Url.indexWord ∧
          (rest = [] ∨ ∃ later ∈ rest, Segment.writes later.tokens = true)) := by
  rw [← goesOn_eq_iff]
  by_cases has : ∃ token ∈ tokens, token.kind = .catchall
  · have filled : shownCatchalls ⟨tokens, goesOnWriting rest⟩ ≠ [] := by
      rw [Ne, Segment.shownCatchalls_eq_nil_iff]
      exact not_not_intro has
    rw [imp_iff_right has]
    by_cases index : Segment.label tokens = Url.indexWord
    · have silent : ¬Segment.contributes tokens = true := by
        rw [Segment.contributes_iff_of_catchall has]
        exact not_not_intro index
      rw [if_neg silent]
      exact iff_of_false filled.symm fun h => h.1 index
    · rw [if_pos ((Segment.contributes_iff_of_catchall has).2 index), and_iff_right index]
      exact Segment.shownCatchalls_inj has
  · have none (followed : Bool) : shownCatchalls ⟨tokens, followed⟩ = [] :=
      Segment.shownCatchalls_eq_nil_iff.2 has
    rw [none, none, ite_self]
    exact iff_of_true rfl fun h => absurd h has

/-- **The catchalls are written as they should be** exactly if no segment with a catchall is labelled
as an index, and each is the last one or has one behind it that writes text. -/
theorem writtenCatchalls_eq_iff :
    ∀ found : List Segment.Tokens, writtenCatchalls found = dueCatchalls found ↔
      ∀ segment rest, segment :: rest <:+ found → (∃ token ∈ segment.tokens, token.kind = .catchall) →
        Segment.label segment.tokens ≠ Url.indexWord ∧
          (rest = [] ∨ ∃ later ∈ rest, Segment.writes later.tokens = true)
  | [] => by
    refine iff_of_true rfl fun segment rest suffix => ?_
    exact absurd (List.suffix_nil.1 suffix) (List.cons_ne_nil _ _)
  | first :: others => by
    have ih := writtenCatchalls_eq_iff others
    have here := shownCatchalls_eq_iff first.tokens others
    have shorter := length_writtenCatchalls_le others
    rw [writtenCatchalls_cons, dueCatchalls_cons]
    constructor
    · intro same segment rest suffix
      -- neither part can be longer than it should be, so both are as long
      have lengths := congrArg List.length same
      rw [List.length_append, List.length_append] at lengths
      have part : (if Segment.contributes first.tokens then
          shownCatchalls ⟨first.tokens, goesOn others⟩ else []).length ≤
            (shownCatchalls ⟨first.tokens, goesOnWriting others⟩).length := by
        split <;> simp [shownCatchalls]
      obtain ⟨now, later⟩ := List.append_inj same (by omega)
      rcases List.suffix_cons_iff.1 suffix with whole | suffix
      · obtain ⟨rfl, rfl⟩ := List.cons.inj whole
        exact here.1 now
      · exact ih.1 later segment rest suffix
    · intro all
      have now := here.2 (all first others List.suffix_rfl)
      have later := ih.2 fun segment rest suffix =>
        all segment rest (suffix.trans (List.suffix_cons first others))
      rw [now, later]

end FileName

/-! ## Built forests -/

/-- **What catchalls the full path of a page has.** The walk through the forest of any list of files
meets each well-formed file once, at a full path whose unescaped colons start the catchalls of the
segments that are neither transparent nor labelled as an index, in order, each confined to its segment
exactly if another segment comes after it. They are all catchalls of the file, each confined exactly
if a later segment is neither transparent nor the literal text of an index, if and only if no segment
with a catchall is labelled as an index, and each is the last segment or has such a later one. -/
theorem catchalls_walk_buildForest (serverComponents : Bool) (pages : List PageFile) :
    ∃ visited : List PageFile,
      List.Forall₂ (fun entry page => entry.2.file = some page.file ∧
          ∃ found, tokenizeAll (FileName.segments true page.relative).1 = .ok found ∧
            Segment.catchalls entry.1 = FileName.writtenCatchalls found ∧
            (Segment.catchalls entry.1 = FileName.dueCatchalls found ↔
              ∀ segment rest, segment :: rest <:+ found →
                (∃ token ∈ segment.tokens, token.kind = .catchall) →
                  Segment.label segment.tokens ≠ Url.indexWord ∧
                    (rest = [] ∨ ∃ later ∈ rest, Segment.writes later.tokens = true)))
        (Route.walk (buildForest serverComponents pages).1) visited ∧
      visited.Perm (pages.filter PageFile.accepted) := by
  obtain ⟨visited, walk, perm⟩ := exists_visited serverComponents pages
  refine ⟨visited, walk.imp fun entry page here => ⟨here.file, ?_⟩, perm⟩
  obtain ⟨found, read⟩ := here.exists_found
  have written := FileName.catchalls_fullPath? read here.full
  refine ⟨found, read, written, ?_⟩
  rw [written]
  exact FileName.writtenCatchalls_eq_iff found

/-- An index page behind a catchall confines it, although it adds nothing to the path. -/
theorem not_forall_catchalls :
    ¬∀ (serverComponents : Bool) (pages : List PageFile),
      ∃ visited : List PageFile,
        List.Forall₂ (fun entry page => entry.2.file = some page.file ∧
            ∃ found, tokenizeAll (FileName.segments true page.relative).1 = .ok found ∧
              Segment.catchalls entry.1 = FileName.dueCatchalls found)
          (Route.walk (buildForest serverComponents pages).1) visited ∧
        visited.Perm (pages.filter PageFile.accepted) := by
  intro h
  let page : PageFile := ⟨"[...a]/index.vue", ⟨"/app/pages/[...a]/index.vue"⟩⟩
  have walk : (Route.walk (buildForest true [page]).1).map Prod.fst = ["/:a([^/]*)*"] := by
    rw [buildForest_singleton]
    decide +kernel
  have read : tokenizeAll (FileName.segments true page.relative).1 =
      .ok [⟨[⟨.catchall, "a"⟩], []⟩, ⟨[⟨.static, "index"⟩], []⟩] := by decide +kernel
  obtain ⟨entry, path, -, found, read', all⟩ :=
    exists_entry_singleton (by decide +kernel) walk (h true [page])
  obtain rfl := Except.ok.inj (read.symm.trans read')
  rw [path] at all
  exact absurd all (by decide +kernel)

end FileRoutes
