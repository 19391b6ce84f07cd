/-
  File:      CoreEx/Lib/StableSort.lean
  Subject:   What a stable sort does to the order some of the elements had among themselves.

  The elements a condition selects keep their order when they were sorted already, and only then.
  Where they stood in a strict order of their own, this order is what is kept or lost.

  * **`filter_mergeSort_eq_iff`** -- the selected elements come out as they went in;
  * **`pairwise_filter_mergeSort_iff`** -- the same for a strict order they stood in.
-/
import Mathlib.Data.List.Sort

namespace CoreEx

namespace StableSort

variable {α : Type} {le : α → α → Bool} {p : α → Bool} {l : List α}

/-- The selected elements of the sorted list are the selected elements of the list. -/
theorem filter_mergeSort_perm (le : α → α → Bool) (p : α → Bool) (l : List α) :
    ((l.mergeSort le).filter p).Perm (l.filter p) :=
  (List.mergeSort_perm l le).filter p

/-- **The selected elements keep their order when it is the order sorted by, and only then.** -/
theorem filter_mergeSort_eq_iff (htrans : ∀ a b c, le a b → le b c → le a c)
    (htotal : ∀ a b, le a b || le b a) :
    (l.mergeSort le).filter p = l.filter p ↔ (l.filter p).Pairwise (le · ·) := by
  constructor
  · intro h
    rw [← h]
    exact (List.pairwise_mergeSort htrans htotal l).sublist List.filter_sublist
  · intro h
    have hsub : (l.filter p).Sublist (l.mergeSort le) :=
      List.sublist_mergeSort htrans htotal h List.filter_sublist
    have hfilter : (l.filter p).Sublist ((l.mergeSort le).filter p) := by
      have hself := hsub.filter p
      rwa [List.filter_filter, List.filter_congr fun a _ => Bool.and_self (p a)] at hself
    exact (hfilter.eq_of_length (filter_mergeSort_perm le p l).length_eq.symm).symm

/-- **A strict order the selected elements stood in survives when they stood in the order sorted
    by, and only then.** -/
theorem pairwise_filter_mergeSort_iff (htrans : ∀ a b c, le a b → le b c → le a c)
    (htotal : ∀ a b, le a b || le b a) {r : α → α → Prop}
    (hasymm : ∀ a b, r a b → ¬ r b a) (hr : (l.filter p).Pairwise r) :
    ((l.mergeSort le).filter p).Pairwise r ↔ (l.filter p).Pairwise (le · ·) := by
  rw [← filter_mergeSort_eq_iff htrans htotal]
  constructor
  · intro h
    refine (filter_mergeSort_perm le p l).eq_of_pairwise (fun a b _ _ hab hba => ?_) h hr
    exact absurd hba (hasymm a b hab)
  · intro h
    rw [h]
    exact hr

end StableSort

end CoreEx
