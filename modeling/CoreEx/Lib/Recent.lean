/-
  File:      CoreEx/Lib/Recent.lean
  Subject:   The last elements of a list, and the last ones that differ.

  What a bounded queue holds after elements were put at its end is the end of all that was ever put
  there. Where an element that is held is not put there again, it is the end of the list without
  repetitions, each element standing where it stood last.

  * `length_rtake`, `rtake_append_rtake` -- the last elements, also of a list cut before;
  * **`rtake_dedup_append`** -- new elements behind the last different ones of a history.
-/
import Mathlib.Data.List.Dedup
import Mathlib.Data.List.DropRight

namespace CoreEx

namespace Recent

variable {α : Type}

theorem length_rtake (n : Nat) (l : List α) : (l.rtake n).length = min n l.length := by
  unfold List.rtake
  rw [List.length_drop]
  omega

theorem rtake_of_length_le {n : Nat} {l : List α} (h : l.length ≤ n) : l.rtake n = l := by
  unfold List.rtake
  rw [Nat.sub_eq_zero_of_le h, List.drop_zero]

/-- What was cut off, and what was left. -/
theorem exists_append_rtake (n : Nat) (l : List α) :
    ∃ older, l = older ++ l.rtake n ∧ (older ≠ [] → (l.rtake n).length = n) := by
  refine ⟨l.take (l.length - n), (List.take_append_drop _ _).symm, fun hne => ?_⟩
  have hlong : n ≤ l.length := by
    by_contra hshort
    refine hne ?_
    rw [Nat.sub_eq_zero_of_le (Nat.le_of_lt (Nat.lt_of_not_le hshort)), List.take_zero]
  rw [length_rtake, Nat.min_eq_left hlong]

/-- What stands in front of enough elements does not matter. -/
theorem rtake_append_of_le {n : Nat} {l : List α} (h : n ≤ l.length) (older : List α) :
    (older ++ l).rtake n = l.rtake n := by
  unfold List.rtake
  have hcount : (older ++ l).length - n = older.length + (l.length - n) := by
    rw [List.length_append]
    omega
  rw [hcount, List.drop_length_add_append]

/-- Older elements, of which only as many as fit are left, make no difference. -/
theorem rtake_append_rtake {n : Nat} (older l new : List α) (h : older ≠ [] → l.length = n) :
    (older ++ l ++ new).rtake n = (l ++ new).rtake n := by
  by_cases hnil : older = []
  · rw [hnil, List.nil_append]
  · have hlength := h hnil
    rw [List.append_assoc, rtake_append_of_le]
    rw [List.length_append]
    omega

variable [DecidableEq α]

/-- New elements stand behind all that came before. -/
theorem dedup_append_of_nodup {new : List α} (hnew : new.Nodup) (history : List α) :
    (history ++ new).dedup = history.dedup.filter (· ∉ new) ++ new := by
  induction history with
  | nil => exact hnew.dedup
  | cons a history ih =>
    rw [List.cons_append]
    by_cases hlater : a ∈ history
    · rw [List.dedup_cons_of_mem (List.mem_append_left _ hlater), List.dedup_cons_of_mem hlater, ih]
    · by_cases hin : a ∈ new
      · rw [List.dedup_cons_of_mem (List.mem_append_right _ hin), List.dedup_cons_of_notMem hlater,
          ih, List.filter_cons_of_neg (by simpa using hin)]
      · have hnot : a ∉ history ++ new := fun h => (List.mem_append.1 h).elim hlater hin
        rw [List.dedup_cons_of_notMem hnot, List.dedup_cons_of_notMem hlater, ih,
          List.filter_cons_of_pos (by simpa using hin)]
        rfl

/-- **New elements behind the last different ones**: the end of both is the end of the history
    with the new elements. -/
theorem rtake_dedup_append (n : Nat) (history : List α) {new : List α} (hnew : new.Nodup)
    (hout : ∀ a ∈ new, a ∉ history.dedup.rtake n) :
    (history ++ new).dedup.rtake n = (history.dedup.rtake n ++ new).rtake n := by
  obtain ⟨older, hsplit, hfull⟩ := exists_append_rtake n history.dedup
  have hkept : (history.dedup.rtake n).filter (· ∉ new) = history.dedup.rtake n :=
    List.filter_eq_self.2 fun a ha => decide_eq_true fun hin => hout a hin ha
  have hparts : history.dedup.filter (· ∉ new) =
      older.filter (· ∉ new) ++ history.dedup.rtake n := by
    conv_lhs => rw [hsplit]
    rw [List.filter_append, hkept]
  rw [dedup_append_of_nodup hnew, hparts]
  refine rtake_append_rtake _ _ _ fun hne => hfull fun hnil => hne ?_
  rw [hnil]
  rfl

end Recent

end CoreEx
