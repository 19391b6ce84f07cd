/-
  File:      CoreEx/Lib/Consecutive.lean
  Subject:   Lists whose numbers count up by one, in one piece and in pieces.

  A long row is fetched in pieces that begin at fixed distances; each piece counts up, but may end
  early. Nothing here names the system under verification.

  * `Consecutive` -- the numbers are `start + 1`, `start + 2`, …; `cons_iff`, `append_iff`;
  * `Spaced` -- pieces that begin `size` apart;
  * **`Spaced.flatten_iff`** -- together they count up exactly when nothing follows a piece that
    ended early.
-/
import Mathlib.Data.List.Pairwise
import Mathlib.Data.List.Range

namespace CoreEx

variable {α : Type} {f : α → Nat} {start size : Nat} {a : α} {l m : List α}

/-- The numbers of the list are `start + 1`, `start + 2` and so on. -/
def Consecutive (f : α → Nat) (start : Nat) (l : List α) : Prop :=
  l.map f = List.range' (start + 1) l.length

instance (f : α → Nat) (start : Nat) (l : List α) : Decidable (Consecutive f start l) :=
  inferInstanceAs (Decidable (l.map f = _))

namespace Consecutive

theorem nil (f : α → Nat) (start : Nat) : Consecutive f start [] := rfl

theorem cons_iff : Consecutive f start (a :: l) ↔ f a = start + 1 ∧ Consecutive f (start + 1) l := by
  unfold Consecutive
  rw [List.map_cons, List.length_cons, List.range'_succ, List.cons.injEq]

theorem append_iff : Consecutive f start (l ++ m) ↔
    Consecutive f start l ∧ Consecutive f (start + l.length) m := by
  induction l generalizing start with
  | nil => exact ⟨fun h => ⟨nil f start, h⟩, fun h => h.2⟩
  | cons a l ih =>
    rw [List.cons_append, cons_iff, cons_iff, ih, and_assoc, List.length_cons]
    rw [show start + 1 + l.length = start + (l.length + 1) by omega]

/-- All numbers lie above the start. -/
theorem lt_of_mem (h : Consecutive f start l) (ha : a ∈ l) : start < f a := by
  have hmem : f a ∈ List.range' (start + 1) l.length := h ▸ List.mem_map_of_mem ha
  exact (List.mem_range'_1.1 hmem).1

end Consecutive

/-- Pieces that begin `size` apart; each counts up and is no longer than `size`. -/
def Spaced (f : α → Nat) (size : Nat) : Nat → List (List α) → Prop
  | _, [] => True
  | start, c :: cs => Consecutive f start c ∧ c.length ≤ size ∧ Spaced f size (start + size) cs

namespace Spaced

variable {c : List α} {cs : List (List α)}

/-- All numbers of all pieces lie above the start. -/
theorem lt_of_mem (h : Spaced f size start cs) (ha : a ∈ cs.flatten) : start < f a := by
  induction cs generalizing start with
  | nil => exact absurd ha List.not_mem_nil
  | cons c cs ih =>
    obtain ⟨hc, -, hcs⟩ := h
    rcases List.mem_append.1 ha with hmem | hmem
    · exact hc.lt_of_mem hmem
    · exact lt_of_le_of_lt (Nat.le_add_right start size) (ih hcs hmem)

/-- **The pieces count up together exactly when every piece behind one that ended early is
    empty.** -/
theorem flatten_iff (h : Spaced f size start cs) : Consecutive f start cs.flatten ↔
    cs.Pairwise fun c d => c.length < size → d = [] := by
  induction cs generalizing start with
  | nil => exact ⟨fun _ => List.Pairwise.nil, fun _ => rfl⟩
  | cons c cs ih =>
    obtain ⟨hc, hlength, hcs⟩ := h
    rw [List.flatten_cons, Consecutive.append_iff, and_iff_right hc, List.pairwise_cons, ← ih hcs]
    by_cases hshort : c.length < size
    · have hempty : Consecutive f (start + c.length) cs.flatten ↔ cs.flatten = [] := by
        refine ⟨fun hrow => ?_, fun he => he ▸ Consecutive.nil f _⟩
        cases hflat : cs.flatten with
        | nil => rfl
        | cons a l =>
          -- the first number is the next one, and the pieces begin further up
          rw [hflat, Consecutive.cons_iff] at hrow
          have hlt := hcs.lt_of_mem (hflat ▸ List.mem_cons_self : a ∈ cs.flatten)
          omega
      rw [hempty, List.flatten_eq_nil_iff]
      refine ⟨fun he => ⟨fun d hd _ => he d hd, ?_⟩, fun he d hd => he.1 d hd hshort⟩
      rw [List.flatten_eq_nil_iff.2 he]
      exact Consecutive.nil f _
    · obtain rfl : c.length = size := by omega
      exact ⟨fun hrow => ⟨fun _ _ hlt => absurd hlt hshort, hrow⟩, fun hrow => hrow.2⟩

end Spaced

end CoreEx
