import FileRoutes.Proofs.Service.Use

/-!
# Interleaved rebuilds

Rebuilds of one service may be under way side by side, on other threads or from within an edit of
the routes. Between the start of a rebuild and its end, any others may start, end or fail.

* `Rebuild`: what became of a rebuild so far.
* `Session`: a service with the rebuilds started on it; `Session.Step` is one thing that happens.
* `Session.Ordered`: rebuilds are numbered in the order in which they start, and the current build is
  that of the latest one as soon as that has finished. Every step keeps this (`Step.ordered`).
* `Session.Serves`, `Session.serves_rebuildWith`: an edit that rebuilds takes such steps, to any depth;
  so does one whose rebuild fails, by `Session.serves_tryRebuildWith`.
* `Session.current_of_reaches`: the current build only ever makes way for one that started later, and
  a finished build is held back by later starts only.
-/

namespace FileRoutes

/-- What became of a rebuild that was started. -/
inductive Rebuild where
  | inFlight (draft : Draft)
  | finished (build : Build)
  | failed (draft : Draft)

/-- The generation that a rebuild took when it started. -/
def Rebuild.generation : Rebuild → Nat
  | .inFlight draft => draft.generation
  | .finished build => build.generation
  | .failed draft => draft.generation

/-- A service, and the rebuilds started on it in the order in which they started. -/
structure Session where
  service : Service
  rebuilds : List Rebuild := []

namespace Session

/-- One thing that happens in a session: a rebuild starts, or one in flight finishes with whatever
routes its edit has left, or fails. Besides, extraction for a rebuild or for a module may leave the
extractor in any state. -/
inductive Step (s : Session) : Session → Prop where
  | start (disk : Disk) (pages : List PageFile) :
      Step s
        ⟨(s.service.start disk pages).2, s.rebuilds ++ [.inFlight (s.service.start disk pages).1]⟩
  | finish (before : List Rebuild) (draft : Draft) (after : List Rebuild) (forest : Forest Route)
      (found : s.rebuilds = before ++ .inFlight draft :: after) :
      Step s
        ⟨(s.service.finish draft forest).2,
          before ++ .finished (s.service.finish draft forest).1 :: after⟩
  | fail (before : List Rebuild) (draft : Draft) (after : List Rebuild)
      (found : s.rebuilds = before ++ .inFlight draft :: after) :
      Step s ⟨s.service, before ++ .failed draft :: after⟩
  | extract (extractor : Extractor) : Step s ⟨{ s.service with extractor }, s.rebuilds⟩

/-- Any number of steps, in any order. -/
def Reaches : Session → Session → Prop := Relation.ReflTransGen Step

/-! ## The order of rebuilds -/

/-- The rebuilds are numbered in their order, the service counts them, the current build is one of
theirs, and it is that of the last one if that has finished. -/
structure Ordered (s : Session) : Prop where
  numbered : s.rebuilds.map Rebuild.generation = List.range' 1 s.rebuilds.length
  counted : s.service.generation = s.rebuilds.length
  current_mem : ∀ build, s.service.current = some build → .finished build ∈ s.rebuilds
  current_last : ∀ build, s.rebuilds.getLast? = some (.finished build) →
    s.service.current = some build

variable {s t : Session} {before after : List Rebuild} {rebuild : Rebuild} {draft : Draft}

/-- The generation of a rebuild counts those that started before it. -/
theorem Ordered.generation_eq (h : s.Ordered) (found : s.rebuilds = before ++ rebuild :: after) :
    rebuild.generation = before.length + 1 := by
  have here := congrArg (·[before.length]?) h.numbered
  simp only [found, List.map_append, List.map_cons] at here
  rw [List.getElem?_append_right (by simp), List.getElem?_range' (by simp)] at here
  simp at here
  omega

/-- A rebuild in flight is the latest one if none has started after it. -/
theorem Ordered.isLatest_eq (h : s.Ordered)
    (found : s.rebuilds = before ++ .inFlight draft :: after) :
    s.service.isLatest draft.generation = after.isEmpty := by
  have number : draft.generation = before.length + 1 := h.generation_eq found
  have count : s.service.generation = before.length + (after.length + 1) := by
    rw [h.counted, found, List.length_append, List.length_cons]
  unfold Service.isLatest
  rw [number, count]
  cases after with
  | nil => simp
  | cons later rest => simp

/-- Finishing a rebuild makes its build the current one, unless another rebuild has started since. -/
theorem Ordered.current_finish (h : s.Ordered)
    (found : s.rebuilds = before ++ .inFlight draft :: after) (forest : Forest Route) :
    (s.service.finish draft forest).2.current =
      if after.isEmpty then some (s.service.finish draft forest).1 else s.service.current := by
  unfold Service.finish
  simp only [h.isLatest_eq found]
  split
  · rfl
  · rfl

/-- The numbers stay when something becomes of one rebuild. -/
theorem Ordered.numbered_replace (h : s.Ordered) (other : Rebuild)
    (found : s.rebuilds = before ++ rebuild :: after)
    (same : other.generation = rebuild.generation) :
    (before ++ other :: after).map Rebuild.generation =
        List.range' 1 (before ++ other :: after).length ∧
      s.service.generation = (before ++ other :: after).length := by
  have numbered := h.numbered
  have counted := h.counted
  simp only [found, List.map_append, List.map_cons, List.length_append, List.length_cons] at *
  rw [same]
  exact ⟨numbered, counted⟩

/-- A finished rebuild is another one than that in flight. -/
theorem mem_replace {build : Build} (other : Rebuild)
    (hm : .finished build ∈ before ++ .inFlight draft :: after) :
    .finished build ∈ before ++ other :: after := by
  rcases List.mem_append.1 hm with hm | hm
  · exact List.mem_append_left _ hm
  · rcases List.mem_cons.1 hm with he | hm
    · cases he
    · exact List.mem_append_right _ (List.mem_cons_of_mem _ hm)

/-- What becomes of one rebuild leaves the last one as it is, if that is another. -/
theorem getLast?_replace (rebuild other : Rebuild) (more : after.isEmpty = false) :
    (before ++ other :: after).getLast? = (before ++ rebuild :: after).getLast? := by
  cases after with
  | nil => cases more
  | cons later rest => simp [List.getLast?_append, List.getLast?_cons_cons]

theorem ordered_new {options : Options} {loader : Loader} {fresh : Service}
    (valid : Service.new options loader = .ok fresh) : Ordered ⟨fresh, []⟩ := by
  rw [Service.new_spec valid]
  constructor
  · rfl
  · rfl
  · intro build hc
    cases hc
  · intro build hl
    cases hl

/-- **Every step keeps the rebuilds in order.** -/
theorem Step.ordered (step : Step s t) (h : s.Ordered) : t.Ordered := by
  cases step with
  | start disk pages =>
    have next : (s.service.start disk pages).1.generation = s.rebuilds.length + 1 :=
      congrArg (· + 1) h.counted
    have range : List.range' 1 (s.rebuilds.length + 1) =
        List.range' 1 s.rebuilds.length ++ [s.rebuilds.length + 1] := by
      rw [List.range'_concat, Nat.one_mul, Nat.add_comm]
    constructor
    · simp only [List.map_append, List.map_cons, List.map_nil, List.length_append,
        List.length_singleton, h.numbered, range, Rebuild.generation, next]
    · simpa using h.counted
    · intro build hc
      exact List.mem_append_left _ (h.current_mem build hc)
    · intro build hl
      simp at hl
  | finish before draft after forest found =>
    have current := h.current_finish found forest
    obtain ⟨numbered, counted⟩ :=
      h.numbered_replace (.finished (s.service.finish draft forest).1) found rfl
    constructor
    · exact numbered
    · obtain ⟨current, hc⟩ := Service.finish_snd s.service draft forest
      rw [hc]
      exact counted
    · intro build hc
      simp only [current] at hc
      split at hc
      · cases hc
        exact List.mem_append_right _ List.mem_cons_self
      · exact mem_replace _ (found ▸ h.current_mem build hc)
    · intro build hl
      simp only [current]
      split
      · rename_i none
        obtain rfl := List.isEmpty_iff.1 none
        simp only [List.getLast?_append, List.getLast?_singleton, Option.some_or,
          Option.some.injEq, Rebuild.finished.injEq] at hl
        rw [hl]
      · rename_i more
        rw [getLast?_replace (.inFlight draft) _ (Bool.eq_false_iff.2 more), ← found] at hl
        exact h.current_last build hl
  | fail before draft after found =>
    obtain ⟨numbered, counted⟩ := h.numbered_replace (.failed draft) found rfl
    constructor
    · exact numbered
    · exact counted
    · intro build hc
      exact mem_replace _ (found ▸ h.current_mem build hc)
    · intro build hl
      cases more : after.isEmpty with
      | true =>
        obtain rfl := List.isEmpty_iff.1 more
        simp at hl
      | false =>
        rw [getLast?_replace (.inFlight draft) _ more, ← found] at hl
        exact h.current_last build hl
  | extract extractor => exact ⟨h.numbered, h.counted, h.current_mem, h.current_last⟩

/-- Every session that steps lead to from an ordered one is ordered. -/
theorem Reaches.ordered (run : Reaches s t) (h : s.Ordered) : t.Ordered := by
  induction run with
  | refl => exact h
  | tail _ step ih => exact step.ordered ih

/-! ## The current build -/

/-- The current build is the same as before, or it has given way to one of a later generation. -/
def Advances (earlier later : Option Build) : Prop :=
  later = earlier ∨
    ∃ build, later = some build ∧ ∀ old, earlier = some old → old.generation < build.generation

theorem Advances.trans {a b c : Option Build} (hab : Advances a b) (hbc : Advances b c) :
    Advances a c := by
  rcases hbc with rfl | ⟨new, rfl, hnew⟩
  · exact hab
  rcases hab with rfl | ⟨mid, rfl, hmid⟩
  · exact Or.inr ⟨new, rfl, hnew⟩
  · exact Or.inr ⟨new, rfl, fun old ho => Nat.lt_trans (hmid old ho) (hnew mid rfl)⟩

/-- A finished rebuild has an earlier generation than one in flight that started last. -/
theorem Ordered.generation_lt {build : Build} (h : s.Ordered)
    (found : s.rebuilds = before ++ [.inFlight draft]) (hm : .finished build ∈ s.rebuilds) :
    build.generation < draft.generation := by
  have increasing : (s.rebuilds.map Rebuild.generation).Pairwise (· < ·) := by
    rw [h.numbered]
    exact List.pairwise_lt_range'
  rw [found] at hm increasing
  rw [List.map_append, List.pairwise_append] at increasing
  have earlier : .finished build ∈ before := by
    rcases List.mem_append.1 hm with hm | hm
    · exact hm
    · cases List.mem_singleton.1 hm
  exact increasing.2.2 _ (List.mem_map_of_mem earlier) _ (List.mem_singleton_self _)

/-- **A step replaces the current build by a later one, if at all.** -/
theorem Step.advances (step : Step s t) (h : s.Ordered) :
    Advances s.service.current t.service.current := by
  cases step with
  | start disk pages => exact Or.inl rfl
  | finish before draft after forest found =>
    have current := h.current_finish found forest
    cases none : after.isEmpty with
    | false =>
      rw [none] at current
      exact Or.inl current
    | true =>
      rw [none] at current
      obtain rfl := List.isEmpty_iff.1 none
      exact Or.inr ⟨_, current, fun old ho => h.generation_lt found (h.current_mem old ho)⟩
  | fail before draft after found => exact Or.inl rfl
  | extract extractor => exact Or.inl rfl

theorem Reaches.advances (run : Reaches s t) (h : s.Ordered) :
    Advances s.service.current t.service.current := by
  induction run with
  | refl => exact Or.inl rfl
  | tail before step ih => exact ih.trans (step.advances (Reaches.ordered before h))

/-! ## Rebuilds within edits -/

/-- A use of the service takes steps of the session, and sees the rebuilds through that it starts. -/
def Serves (use : Service → Service) : Prop :=
  ∀ s : Session, ∃ more, Reaches s ⟨use s.service, s.rebuilds ++ more⟩

theorem serves_id : Serves id := fun s => ⟨[], by rw [List.append_nil]; exact .refl⟩

/-- **A rebuild around an edit is a run of steps**, as long as the edit is: its start, whatever the
edit does, and its end. -/
theorem reaches_rebuildWith (s : Session) (disk : Disk) (pages : List PageFile)
    {hook : Forest Route → Service → Forest Route × Service}
    (uses : ∀ forest, Serves fun service => (hook forest service).2) :
    ∃ more, Reaches s ⟨(s.service.rebuildWith disk pages hook).2,
      s.rebuilds ++ .finished (s.service.rebuildWith disk pages hook).1 :: more⟩ := by
  let draft := (s.service.start disk pages).1
  let edited := hook draft.forest (s.service.start disk pages).2
  obtain ⟨more, run⟩ := uses draft.forest
    ⟨(s.service.start disk pages).2, s.rebuilds ++ [.inFlight draft]⟩
  rw [List.append_assoc, List.singleton_append] at run
  have last := Step.finish (s := ⟨edited.2, s.rebuilds ++ .inFlight draft :: more⟩)
    s.rebuilds draft more edited.1 rfl
  exact ⟨more, (run.head (.start disk pages)).tail last⟩

/-- So rebuilds may stand within the edits of others, to any depth. -/
theorem serves_rebuildWith (disk : Disk) (pages : List PageFile)
    {hook : Forest Route → Service → Forest Route × Service}
    (uses : ∀ forest, Serves fun service => (hook forest service).2) :
    Serves fun service => (service.rebuildWith disk pages hook).2 := fun s =>
  (reaches_rebuildWith s disk pages uses).elim fun _ run => ⟨_, run⟩

/-- A rebuild whose workers do not start is a step of its own, and a failure. -/
theorem serves_tryRebuildWith (fault : Option String) (disk : Disk) (pages : List PageFile)
    {hook : Forest Route → Service → Forest Route × Service}
    (uses : ∀ forest, Serves fun service => (hook forest service).2) :
    Serves fun service => (service.tryRebuildWith fault disk pages hook).2 := by
  intro s
  rcases s.service.tryRebuildWith_eq fault disk pages hook with ⟨_, _, _, failed⟩ | ⟨_, rebuilt⟩
  · simp only [failed]
    have started : Step s _ := .start disk []
    have ended := Step.fail (s := ⟨(s.service.start disk []).2, _⟩) s.rebuilds
      (s.service.start disk []).1 [] rfl
    rw [Service.start_nil] at started ended
    exact ⟨_, (Relation.ReflTransGen.single started).tail ended⟩
  · simp only [rebuilt]
    exact serves_rebuildWith disk pages uses s

theorem serves_rebuild (disk : Disk) (pages : List PageFile) :
    Serves fun service => (service.rebuild disk pages).2 :=
  serves_rebuildWith disk pages fun _ => serves_id

/-- **Only the latest build is current.** Let rebuilds start, finish and fail in any order on a new
service; a rebuild with others in its edit is a case of this. No two of them have the same
generation. From then on the current build stays or gives way to builds of ever later generations. A
rebuild that finishes makes its build the current one if no other has started after it, and leaves
the current one as it is otherwise. Once the rebuild that started last has finished, its build is the
current one, even if others are still in flight. -/
theorem current_of_reaches {options : Options} {loader : Loader} {fresh : Service}
    (valid : Service.new options loader = .ok fresh) {s : Session} (run : Reaches ⟨fresh, []⟩ s) :
    (∀ disk pages hook, (∀ forest, Serves fun service => (hook forest service).2) →
      ∃ more, Reaches s ⟨(s.service.rebuildWith disk pages hook).2,
        s.rebuilds ++ .finished (s.service.rebuildWith disk pages hook).1 :: more⟩) ∧
      (s.rebuilds.map Rebuild.generation).Nodup ∧
      (∀ t, Reaches s t → Advances s.service.current t.service.current) ∧
      (∀ before draft after forest, s.rebuilds = before ++ .inFlight draft :: after →
        (s.service.finish draft forest).2.current =
          if after.isEmpty then some (s.service.finish draft forest).1 else s.service.current) ∧
      (∀ build, s.rebuilds.getLast? = some (.finished build) → s.service.current = some build) := by
  have ordered := Reaches.ordered run (ordered_new valid)
  refine ⟨fun disk pages hook uses => reaches_rebuildWith s disk pages uses, ?_,
    fun t later => Reaches.advances later ordered, ?_, ordered.current_last⟩
  · rw [ordered.numbered]
    exact List.nodup_range'
  · intro before draft after forest found
    exact ordered.current_finish found forest

/-- A rebuild is superseded by one within its edit: it finishes last and has the earlier generation,
so the current build stays. -/
theorem current_of_nested :
    let pages : List PageFile := [⟨"index.vue", ⟨"index.vue"⟩⟩]
    let again (forest : Forest Route) (service : Service) : Forest Route × Service :=
      (forest, (service.rebuild {} pages).2)
    ∃ fresh newer, Service.new {} .source = .ok fresh ∧
      (fresh.rebuildWith {} pages again).1.generation = 1 ∧ newer.generation = 2 ∧
      (fresh.rebuildWith {} pages again).2.current = some newer := by
  intro pages again
  let fresh : Service := { extractor := { call := Options.metaCall {} } }
  have valid : Service.new {} .source = .ok fresh := rfl
  let older := (fresh.start {} pages).1
  let newer := ((fresh.start {} pages).2.start {} pages).1
  let both := ((fresh.start {} pages).2.start {} pages).2
  let inner := both.finish newer newer.forest
  have run : Reaches ⟨fresh, []⟩ ⟨inner.2, [.inFlight older, .finished inner.1]⟩ :=
    ((Relation.ReflTransGen.single (.start {} pages)).tail (.start {} pages)).tail
      (.finish [.inFlight older] newer [] newer.forest rfl)
  obtain ⟨-, -, -, finish, last⟩ := current_of_reaches valid run
  have kept := finish [] older [.finished inner.1] older.forest rfl
  exact ⟨fresh, inner.1, valid, rfl, rfl, kept.trans (last inner.1 rfl)⟩

end Session

end FileRoutes
