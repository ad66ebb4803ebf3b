import FileRoutes.Route.Build
import Mathlib.Data.List.Basic

/-!
# Order of page files

Page files are placed in the order of the lengths of their paths, and files with paths of one length
in the order in which they are listed. This tells the order, so leaving out files does not change that
of the others.

* `StableOrder`: items by ascending keys, those of each key as they were.
* `StableOrder.unique`: there is one such order. `StableOrder.filter`: it is kept where items are left
  out.
* `stableOrder_byLength`: the order in which files are placed; `byLength_filter`: that of some of them.
-/

namespace FileRoutes

variable {α : Type} {key : α → Nat} {items sorted other : List α}

/-- The items in the stable order of a key: the keys ascend, and the items of each key stand as they
were. -/
structure StableOrder (key : α → Nat) (items sorted : List α) : Prop where
  ascending : sorted.Pairwise fun a b => key a ≤ key b
  stable : ∀ n, sorted.filter (key · == n) = items.filter (key · == n)

/-- The first of some items with ascending keys has the least key. -/
theorem key_le_of_mem {first a : α} (ascending : (first :: items).Pairwise fun a b => key a ≤ key b)
    (h : a ∈ first :: items) : key first ≤ key a := by
  rcases List.mem_cons.1 h with rfl | h
  · exact Nat.le_refl _
  · exact (List.pairwise_cons.1 ascending).1 a h

theorem mem_of_filter_key {a : α}
    (same : ∀ n, items.filter (key · == n) = other.filter (key · == n)) (h : a ∈ items) :
    a ∈ other := by
  have level : a ∈ items.filter (key · == key a) := List.mem_filter.2 ⟨h, beq_self_eq_true _⟩
  rw [same] at level
  exact List.mem_of_mem_filter level

/-- Items with ascending keys are told by the items of each key. -/
theorem eq_of_filter_key :
    ∀ {items others : List α}, items.Pairwise (fun a b => key a ≤ key b) →
      others.Pairwise (fun a b => key a ≤ key b) →
      (∀ n, items.filter (key · == n) = others.filter (key · == n)) → items = others
  | [], [], _, _, _ => rfl
  | [], b :: others, _, _, h => by
    have here := h (key b)
    simp at here
  | a :: items, [], _, _, h => by
    have here := h (key a)
    simp at here
  | a :: items, b :: others, ha, hb, h => by
    -- each of the two first items is among the others, so their keys are the same
    have there : a ∈ b :: others := mem_of_filter_key h List.mem_cons_self
    have here : b ∈ a :: items := mem_of_filter_key (fun n => (h n).symm) List.mem_cons_self
    have same : key a = key b := Nat.le_antisymm (key_le_of_mem ha here) (key_le_of_mem hb there)
    have first := h (key a)
    rw [List.filter_cons_of_pos (by simp), List.filter_cons_of_pos (by simp [same])] at first
    obtain rfl := (List.cons.inj first).1
    refine congrArg (a :: ·) (eq_of_filter_key ha.tail hb.tail fun n => ?_)
    have level := h n
    rw [List.filter_cons, List.filter_cons] at level
    split at level
    · exact (List.cons.inj level).2
    · exact level

namespace StableOrder

/-- **There is one stable order.** -/
theorem unique (h : StableOrder key items sorted) (h' : StableOrder key items other) :
    sorted = other :=
  eq_of_filter_key h.ascending h'.ascending fun n => (h.stable n).trans (h'.stable n).symm

/-- **Leaving out items keeps the stable order of the others.** -/
theorem filter (p : α → Bool) (h : StableOrder key items sorted) :
    StableOrder key (items.filter p) (sorted.filter p) := by
  refine ⟨h.ascending.filter p, fun n => ?_⟩
  rw [List.filter_comm, h.stable, List.filter_comm]

end StableOrder

/-! ## Page files -/

/-- The length of the path of a page, in bytes. -/
def PageFile.length (page : PageFile) : Nat := page.relative.utf8ByteSize

/-- **Pages are placed in the stable order of the lengths of their paths.** -/
theorem stableOrder_byLength (pages : List PageFile) :
    StableOrder PageFile.length pages (byLength pages) := by
  have trans : ∀ a b c : PageFile, decide (a.length ≤ b.length) = true →
      decide (b.length ≤ c.length) = true → decide (a.length ≤ c.length) = true := by
    intro a b c hab hbc
    simp only [decide_eq_true_eq] at hab hbc ⊢
    omega
  have total : ∀ a b : PageFile,
      (decide (a.length ≤ b.length) || decide (b.length ≤ a.length)) = true := by
    intro a b
    simp only [Bool.or_eq_true, decide_eq_true_eq]
    omega
  have sorted := List.pairwise_mergeSort trans total pages
  refine ⟨sorted.imp of_decide_eq_true, fun n => ?_⟩
  -- pages of one length are in order already, so the sort keeps them as they are
  have level : (pages.filter (·.length == n)).Pairwise fun a b =>
      decide (a.length ≤ b.length) = true := by
    refine List.pairwise_filter.2 (List.pairwise_of_forall fun a b ha hb => ?_)
    rw [beq_iff_eq] at ha hb
    exact decide_eq_true (by omega)
  have kept := (List.sublist_mergeSort trans total level List.filter_sublist).filter (·.length == n)
  simp only [List.filter_filter, Bool.and_self] at kept
  exact (kept.eq_of_length ((List.mergeSort_perm pages _).filter _).length_eq.symm).symm

theorem byLength_filter (p : PageFile → Bool) (pages : List PageFile) :
    byLength (pages.filter p) = (byLength pages).filter p :=
  (stableOrder_byLength (pages.filter p)).unique ((stableOrder_byLength pages).filter p)

end FileRoutes
