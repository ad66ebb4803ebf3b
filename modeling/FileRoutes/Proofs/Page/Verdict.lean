import FileRoutes.Proofs.Page.Component
import FileRoutes.Proofs.Page.Search

/-!
# What the calls of a page come to

A page declares its metadata by one direct call of the reserved name. What a search through its sightings
comes to is said here of the scripts of the page and their top-level statements.

* `SourceKind.scriptsRead`, `ScriptBlock.directCalls`: the scripts that mention the name, and the direct
  calls in them.
* `ScriptBlock.Clear`: a script can be read, and no call in it goes through a member of the name.
* `sightings_eq`: the sightings of a page are those of the scripts that mention the name.
* `extractWith_iff`: when a page has metadata, when it has none, and what the error is if it has two calls
  or more.
-/

namespace FileRoutes

open Script Sighting

variable {parse : Dialect → String → Option Program} {call : MetaCall} {file : FilePath}
  {kind : SourceKind} {source name : String} {blocks : List ScriptBlock}

/-! ## Scripts and calls -/

/-- The scripts of a page that mention a name. -/
def SourceKind.scriptsRead (kind : SourceKind) (name source : String) : List ScriptBlock :=
  (kind.blocks source).filter fun block => mentions name block.code

/-- The arguments of a statement that is a call of a name and nothing more. -/
def Script.Stmt.callOf? (name : String) : Stmt → Option (List Expr)
  | .expression (.call (.identifier callee) arguments) =>
    if callee = name then some arguments else none
  | _ => none

/-- The statement is a call through a member of a name and nothing more. -/
inductive Script.Stmt.CallsMember (name : String) : Stmt → Prop where
  | member (object : Expr) (arguments : List Expr) :
    CallsMember name (.expression (.call (.member object name) arguments))
  | index (object : Expr) (arguments : List Expr) :
    CallsMember name (.expression (.call (.index object (.string name)) arguments))

/-- The direct calls in a script, in source order: the code of the script, and the arguments. -/
def ScriptBlock.directCalls (parse : Dialect → String → Option Program) (name : String)
    (block : ScriptBlock) : List (String × List Expr) :=
  (((parse block.dialect block.code).getD []).filterMap (Stmt.callOf? name)).map (block.code, ·)

/-- A script can be read, and no top-level statement of it is a call through a member of a name. -/
def ScriptBlock.Clear (parse : Dialect → String → Option Program) (name : String)
    (block : ScriptBlock) : Prop :=
  ∃ program, parse block.dialect block.code = some program ∧ ∀ s ∈ program, ¬s.CallsMember name

/-! ## Sightings of scripts -/

/-- The sighting of a statement is its direct call, if it is one. -/
theorem bind_direct?_sighting? (name code : String) (s : Stmt) :
    (sighting? name code s).bind Sighting.direct? = (s.callOf? name).map (code, ·) := by
  unfold sighting?
  split
  · rename_i callee arguments
    unfold sightingOfCall? Stmt.callOf?
    cases callee with
    | identifier callee =>
      dsimp only
      split <;> rfl
    | member object property =>
      dsimp only
      split <;> rfl
    | index object key =>
      cases key with
      | string property =>
        dsimp only
        split <;> rfl
      | _ => rfl
    | _ => rfl
  · rename_i other
    unfold Stmt.callOf?
    split
    · exact absurd rfl (other _ _)
    · rfl

/-- The sighting of a statement is no direct call only if the call goes through a member of the name. -/
theorem direct?_sighting?_iff (name code : String) (s : Stmt) :
    (∀ x ∈ sighting? name code s, x.direct?.isSome = true) ↔ ¬s.CallsMember name := by
  constructor
  · rintro all (⟨object, arguments⟩ | ⟨object, arguments⟩)
    · cases all .indirect (if_pos rfl)
    · cases all .indirect (if_pos rfl)
  · intro none x hx
    unfold sighting? at hx
    split at hx
    · rename_i callee arguments
      unfold sightingOfCall? at hx
      split at hx
      · split at hx
        · cases hx
          rfl
        · cases hx
      · split at hx
        · rename_i same
          subst same
          exact absurd (.member _ arguments) none
        · cases hx
      · split at hx
        · rename_i same
          subst same
          exact absurd (.index _ arguments) none
        · cases hx
      · cases hx
    · cases hx

theorem directs_sightings (mentioned : ∀ block ∈ blocks, mentions name block.code = true) :
    directs (blocks.flatMap (ScriptBlock.sightings parse name)) =
      blocks.flatMap (ScriptBlock.directCalls parse name) := by
  unfold directs
  rw [List.filterMap_flatMap]
  refine List.flatMap_congr fun block hb => ?_
  rw [ScriptBlock.sightings, if_pos (mentioned block hb), ScriptBlock.directCalls]
  cases parse block.dialect block.code with
  | none => rfl
  | some program =>
    rw [List.filterMap_filterMap, Option.getD_some, List.map_filterMap]
    exact List.filterMap_congr fun s _ => bind_direct?_sighting? name block.code s

theorem forall_mem_sightings_iff
    (mentioned : ∀ block ∈ blocks, mentions name block.code = true) :
    (∀ s ∈ blocks.flatMap (ScriptBlock.sightings parse name), s.direct?.isSome = true) ↔
      ∀ block ∈ blocks, block.Clear parse name := by
  rw [List.forall_mem_flatMap]
  refine forall₂_congr fun block hb => ?_
  rw [ScriptBlock.sightings, if_pos (mentioned block hb), ScriptBlock.Clear]
  cases parse block.dialect block.code with
  | none =>
    refine iff_of_false (fun h => ?_) (by rintro ⟨program, h, -⟩; cases h)
    cases h .unreadable List.mem_cons_self
  | some program =>
    have statements : (∀ x ∈ program.filterMap (sighting? name block.code), x.direct?.isSome = true) ↔
        ∀ s ∈ program, ¬s.CallsMember name := by
      simp only [← direct?_sighting?_iff name block.code, List.mem_filterMap]
      exact ⟨fun h s hs x hx => h x ⟨s, hs, hx⟩, fun h x ⟨s, hs, hx⟩ => h s hs x hx⟩
    rw [statements]
    constructor
    · intro none
      exact ⟨program, rfl, none⟩
    · rintro ⟨read, h, none⟩
      exact Option.some.inj h ▸ none

/-- A page mentions the name if one of its scripts does. -/
theorem mentions_of_mem_blocks {block : ScriptBlock} (h : block ∈ kind.blocks source)
    (mentioned : mentions name block.code = true) : mentions name source = true := by
  rw [mentions, Text.occursIn_eq_true_iff] at mentioned ⊢
  exact mentioned.trans (SourceKind.infix_of_mem_blocks h)

/-- **The sightings of a page are those of the scripts that mention the name.** -/
theorem sightings_eq (hk : SourceKind.ofFile? file = some kind) :
    sightings parse name file source =
      (kind.scriptsRead name source).flatMap (ScriptBlock.sightings parse name) := by
  have unread : ∀ block : ScriptBlock, ¬mentions name block.code = true →
      block.sightings parse name = [] := fun block h => if_neg h
  have all : (kind.scriptsRead name source).flatMap (ScriptBlock.sightings parse name) =
      (kind.blocks source).flatMap (ScriptBlock.sightings parse name) := by
    unfold SourceKind.scriptsRead
    induction kind.blocks source with
    | nil => rfl
    | cons block blocks ih =>
      by_cases mentioned : mentions name block.code = true
      · rw [List.filter_cons, if_pos mentioned, List.flatMap_cons, List.flatMap_cons, ih]
      · rw [List.filter_cons, if_neg mentioned, List.flatMap_cons, unread block mentioned, ih]
        rfl
  simp only [sightings, hk]
  split
  · exact all.symm
  · rename_i absent
    rw [all, eq_comm, List.flatMap_eq_nil_iff]
    exact fun block hb => unread block fun mentioned => absent (mentions_of_mem_blocks hb mentioned)

/-! ## Pages -/

/-- **When a page declares metadata, and when it fails to.** Consider a page with scripts, however these
are read, and of its scripts those that mention the reserved name. The page has metadata if and only if
the scripts can be read, none of their top-level statements is a call through a member of the name, and
there is exactly one direct call, whose metadata it has. It has none, without an error, if and only if
this is so with no direct call. With two direct calls or more there is an error: that of the first thing
in source order that ends the search, and if nothing does, one that gives the number of all direct
calls. -/
theorem extractWith_iff (hk : SourceKind.ofFile? file = some kind)
    (parse : Dialect → String → Option Program) (call : MetaCall) (source : String) :
    let blocks := kind.scriptsRead call.name source
    let calls := blocks.flatMap (ScriptBlock.directCalls parse call.name)
    let seen := blocks.flatMap (ScriptBlock.sightings parse call.name)
    (∀ m, extractWith parse call file source = .ok (some m) ↔
      (∀ block ∈ blocks, block.Clear parse call.name) ∧ ∃ c, calls = [c] ∧ Resolves call c m) ∧
    (extractWith parse call file source = .ok none ↔
      (∀ block ∈ blocks, block.Clear parse call.name) ∧ calls = []) ∧
    (2 ≤ calls.length → ∃ e, extractWith parse call file source = .error e ∧
      (Stops call file seen e ∨ (∀ e', ¬Stops call file seen e') ∧
        e = .call call.name file (.multipleCalls calls.length))) := by
  intro blocks calls seen
  have mentioned : ∀ block ∈ blocks, mentions call.name block.code = true :=
    fun block hb => (List.mem_filter.1 hb).2
  have hcalls : directs seen = calls := directs_sightings mentioned
  have hclear : (∀ s ∈ seen, s.direct?.isSome = true) ↔
      ∀ block ∈ blocks, block.Clear parse call.name := forall_mem_sightings_iff mentioned
  have searched : extractWith parse call file source = settle call file 0 none seen := by
    rw [extractWith, sightings_eq hk]
  rw [searched, ← hclear, ← hcalls]
  exact ⟨fun m => settle_eq_some_iff, settle_eq_none_iff, settle_of_several⟩

/-- A component with two calls in two scripts, the second of which could not be resolved. -/
theorem extractWith_iff_component :
    let page := "<script>definePageMeta(\x7b\x7d)</script><script setup>definePageMeta(1)</script>"
    let blocks := SourceKind.component.scriptsRead "definePageMeta" page
    let calls := blocks.flatMap (ScriptBlock.directCalls Script.parse "definePageMeta")
    let seen := blocks.flatMap (ScriptBlock.sightings Script.parse "definePageMeta")
    SourceKind.ofFile? ⟨"page.vue"⟩ = some .component ∧ calls.length = 2 ∧
    (∀ m, extractWith Script.parse {} ⟨"page.vue"⟩ page = .ok (some m) ↔
      (∀ block ∈ blocks, block.Clear Script.parse "definePageMeta") ∧
        ∃ c, calls = [c] ∧ Resolves {} c m) ∧
    (extractWith Script.parse {} ⟨"page.vue"⟩ page = .ok none ↔
      (∀ block ∈ blocks, block.Clear Script.parse "definePageMeta") ∧ calls = []) ∧
    (2 ≤ calls.length → ∃ e, extractWith Script.parse {} ⟨"page.vue"⟩ page = .error e ∧
      (Stops {} ⟨"page.vue"⟩ seen e ∨ (∀ e', ¬Stops {} ⟨"page.vue"⟩ seen e') ∧
        e = .call "definePageMeta" ⟨"page.vue"⟩ (.multipleCalls calls.length))) := by
  intro page blocks calls seen
  have hk : SourceKind.ofFile? ⟨"page.vue"⟩ = some .component := by decide
  exact ⟨hk, by decide +kernel, extractWith_iff hk Script.parse {} page⟩

end FileRoutes
