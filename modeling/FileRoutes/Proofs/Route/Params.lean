import FileRoutes.Proofs.Record.Plan
import FileRoutes.Proofs.Segment.Markers
import Mathlib.Data.List.Flatten

/-!
# Parameters of pages

The full path of a page has the parameters of the segments that add to it. A segment with the label of
an index adds nothing, so the parameters in it are lost; all others are kept.

* `Segment.params_filter_eq_iff`: leaving segments out loses no parameters if they have none.
* `FileName.toList_fullPath?`: the full path that a file name spells is that of the segments that add
  to it; `FileName.pathParams_fullPath?`: so are its parameters.
* `FileName.params_contributing_iff`: when these are all parameters of the file.
* `pathParams_walk_buildForest`: the parameters of the full paths in a built forest.
* `exists_entry_singleton`: where a page that is alone is met.
* `not_forall_pathParams`: a parameter that is called `index` is lost.
-/

namespace FileRoutes

open Url (slashed rooted)
open Segment (Token params pathParams)

/-! ## Segments left out -/

namespace Segment

theorem params_cons (tokens : List Token) (segments : List (List Token)) :
    params (tokens :: segments) = tokens.filter Token.isParam ++ params segments := rfl

/-- Leaving segments out loses no parameters exactly if these segments have none. -/
theorem params_filter_eq_iff (keep : List Token → Bool) :
    ∀ segments : List (List Token), params (segments.filter keep) = params segments ↔
      ∀ tokens ∈ segments, keep tokens = false → tokens.filter Token.isParam = []
  | [] => by simp [params]
  | tokens :: rest => by
    have ih := params_filter_eq_iff keep rest
    rw [List.forall_mem_cons, ← ih, params_cons]
    by_cases kept : keep tokens = true
    · rw [List.filter_cons_of_pos kept, params_cons, List.append_cancel_left_eq]
      simp [kept]
    · rw [List.filter_cons_of_neg kept]
      have left_out : keep tokens = false := Bool.eq_false_iff.2 kept
      constructor
      · intro same
        have shorter : (params (rest.filter keep)).length ≤ (params rest).length :=
          (List.filter_sublist.flatMap _).length_le
        have lengths := congrArg List.length same
        rw [List.length_append] at lengths
        have none : tokens.filter Token.isParam = [] := List.eq_nil_of_length_eq_zero (by omega)
        exact ⟨fun _ => none, by rwa [none, List.nil_append] at same⟩
      · rintro ⟨none, same⟩
        rw [none left_out, List.nil_append, same]

theorem filter_isParam_of_transparent {tokens : List Token} (h : transparent tokens = true) :
    tokens.filter Token.isParam = [] := by
  rw [List.filter_eq_nil_iff]
  intro token hm
  have group := List.all_eq_true.1 h token hm
  obtain ⟨kind, value⟩ := token
  cases kind with
  | group => exact Bool.false_ne_true
  | _ => cases group

end Segment

/-! ## File names -/

namespace FileName

variable {relative full : String} {found : List Segment.Tokens}

/-- The full path of a file is that of the segments that add to it. -/
theorem toList_fullPath? (read : tokenizeAll (segments true relative).1 = .ok found)
    (spelled : fullPath? relative = some full) :
    full.toList = rooted (slashed (Segment.pieces (placedContributing found))) := by
  unfold fullPath? at spelled
  rw [read] at spelled
  obtain rfl := Option.some.inj spelled
  rw [toList_join_pieces, toList_pathPieces]

theorem named_placedContributing (read : tokenizeAll (segments true relative).1 = .ok found) :
    Segment.Named (placedContributing found) := by
  have sound := tokenizeAll_sound (slashless_segments true relative) read
  intro segment hm token ht
  have kept : segment.tokens ∈ contributing found := by
    rw [← map_tokens_placedContributing]
    exact List.mem_map_of_mem hm
  obtain ⟨source, hs, same⟩ := List.mem_map.1 (List.mem_of_mem_filter kept)
  exact (sound source hs token (same ▸ ht)).named

/-- The full path of a file has the parameters of the segments that add to it. -/
theorem pathParams_fullPath? (read : tokenizeAll (segments true relative).1 = .ok found)
    (spelled : fullPath? relative = some full) :
    pathParams full = (params (contributing found)).map some := by
  unfold pathParams
  rw [toList_fullPath? read spelled, Segment.markers_rooted _ (named_placedContributing read),
    map_tokens_placedContributing]

/-- These are all parameters of the file exactly if no segment with the label of an index has one. -/
theorem params_contributing_iff (found : List Segment.Tokens) :
    params (contributing found) = params (found.map Segment.Tokens.tokens) ↔
      ∀ segment ∈ found, Segment.label segment.tokens = Url.indexWord →
        segment.tokens.filter Token.isParam = [] := by
  unfold contributing
  rw [Segment.params_filter_eq_iff, List.forall_mem_map]
  refine forall₂_congr fun segment _ => ?_
  unfold Segment.contributes
  by_cases trace : Segment.transparent segment.tokens = true
  · simp [Segment.filter_isParam_of_transparent trace]
  · simp [trace]

end FileName

/-! ## Built forests -/

/-- **What parameters the full path of a page has.** The walk through the forest of any list of files
meets each well-formed file once, at a full path whose unescaped colons start the parameters of the
segments that are neither transparent nor labelled as an index, in order, with their names and kinds,
and nothing else. These are all parameters of the file exactly if no segment that is labelled as an
index has any. -/
theorem pathParams_walk_buildForest (serverComponents : Bool) (pages : List PageFile) :
    ∃ visited : List PageFile,
      List.Forall₂ (fun entry page => entry.2.file = some page.file ∧
          ∃ found, tokenizeAll (FileName.segments true page.relative).1 = .ok found ∧
            pathParams entry.1 = (params (FileName.contributing found)).map some ∧
            (pathParams entry.1 = (params (found.map Segment.Tokens.tokens)).map some ↔
              ∀ segment ∈ found, Segment.label segment.tokens = Url.indexWord →
                segment.tokens.filter Token.isParam = []))
        (Route.walk (buildForest serverComponents pages).1) visited ∧
      visited.Perm (pages.filter PageFile.accepted) := by
  obtain ⟨visited, walk, perm⟩ := exists_visited serverComponents pages
  refine ⟨visited, walk.imp fun entry page here => ⟨here.file, ?_⟩, perm⟩
  obtain ⟨found, read⟩ := here.exists_found
  have kept := FileName.pathParams_fullPath? read here.full
  refine ⟨found, read, kept, ?_⟩
  rw [kept, List.map_inj_right fun _ _ => Option.some.inj]
  exact FileName.params_contributing_iff found

theorem buildForest_singleton (serverComponents : Bool) (page : PageFile) :
    (buildForest serverComponents [page]).1 = finish (insertFile serverComponents ([], {}) page).1 := by
  have sorted : byLength [page] = [page] := List.mergeSort_singleton page
  unfold buildForest
  rw [sorted]
  rfl

/-- A page that is alone is met at the only path of the walk. -/
theorem exists_entry_singleton {Met : String × Route → PageFile → Prop} {serverComponents : Bool}
    {page : PageFile} {path : String} (accepted : page.accepted = true)
    (walk : (Route.walk (buildForest serverComponents [page]).1).map Prod.fst = [path])
    (h : ∃ visited : List PageFile,
      List.Forall₂ Met (Route.walk (buildForest serverComponents [page]).1) visited ∧
        visited.Perm ([page].filter PageFile.accepted)) :
    ∃ entry, entry.1 = path ∧ Met entry page := by
  obtain ⟨visited, entries, perm⟩ := h
  rw [List.filter_cons_of_pos accepted, List.filter_nil, List.perm_singleton] at perm
  subst perm
  obtain ⟨entry, rest, met, -, entries⟩ := List.forall₂_cons_right_iff.1 entries
  rw [entries, List.map_cons] at walk
  exact ⟨entry, (List.cons.inj walk).1, met⟩

/-- A page whose only parameter is called `index` has the path of an index page. -/
theorem not_forall_pathParams :
    ¬∀ (serverComponents : Bool) (pages : List PageFile),
      ∃ visited : List PageFile,
        List.Forall₂ (fun entry page => entry.2.file = some page.file ∧
            ∃ found, tokenizeAll (FileName.segments true page.relative).1 = .ok found ∧
              pathParams entry.1 = (params (found.map Segment.Tokens.tokens)).map some)
          (Route.walk (buildForest serverComponents pages).1) visited ∧
        visited.Perm (pages.filter PageFile.accepted) := by
  intro h
  let page : PageFile := ⟨"[index].vue", ⟨"/app/pages/[index].vue"⟩⟩
  have walk : (Route.walk (buildForest true [page]).1).map Prod.fst = ["/"] := by
    rw [buildForest_singleton]
    decide +kernel
  have read : tokenizeAll (FileName.segments true page.relative).1 =
      .ok [⟨[⟨.dynamic, "index"⟩], []⟩] := by decide +kernel
  obtain ⟨entry, root, -, found, read', all⟩ :=
    exists_entry_singleton (by decide +kernel) walk (h true [page])
  obtain rfl := Except.ok.inj (read.symm.trans read')
  rw [root] at all
  exact absurd all (by decide +kernel)

end FileRoutes
