/-
  File:      CoreEx/Utils/NSect.lean
  Subject:   `utils/source/nsect.ts`: the search for the highest index that matches.

  * `NSect.calcProbes`, `NSect.find` -- the code; the range gets smaller with every pass;
  * **`NSect.find_mem`** -- what is found lies in the range when the probe answers with an index it
    was asked for;
  * `sorted_calcProbes`, `getLast?_calcProbes`, `mem_calcProbes_of_narrow` -- what is asked for: an
    increasing list from one end of the range to the other, all of it once the range is narrow.
-/
import CoreEx.Contracts.Exceptions
import Mathlib.Data.List.Dedup
import Mathlib.Data.List.Range

namespace CoreEx

namespace NSect

/-- `#calcProbes(low, high)`, without its assertion; `Math.round` rounds halves up. -/
def calcProbes (nAry low high : Nat) : List Nat :=
  ((List.range (nAry + 1)).map fun index =>
    low + (2 * ((high - low) * index) + nAry) / (2 * nAry)).eraseDups

theorem mem_calcProbes {nAry low high p : Nat} (hle : low ≤ high) (h : p ∈ calcProbes nAry low high) :
    low ≤ p ∧ p ≤ high := by
  obtain ⟨index, hindex, rfl⟩ := List.mem_map.1 (List.mem_eraseDups.1 h)
  have hbound : index ≤ nAry := Nat.lt_succ_iff.1 (List.mem_range.1 hindex)
  refine ⟨Nat.le_add_right _ _, ?_⟩
  have hround : (2 * ((high - low) * index) + nAry) / (2 * nAry) ≤ high - low := by
    rcases Nat.eq_zero_or_pos nAry with rfl | hpos
    · simp
    · have hmul : (high - low) * index ≤ (high - low) * nAry := Nat.mul_le_mul_left _ hbound
      refine Nat.lt_succ_iff.1 ((Nat.div_lt_iff_lt_mul (by omega)).2 ?_)
      have hexpand : (high - low + 1) * (2 * nAry) = 2 * ((high - low) * nAry) + 2 * nAry := by
        rw [Nat.add_mul, Nat.one_mul, Nat.mul_left_comm]
      rw [Nat.succ_eq_add_one, hexpand]
      omega
  omega

/-- `Math.round((diff * index) / nAry)`. -/
def rounded (nAry diff index : Nat) : Nat := (2 * (diff * index) + nAry) / (2 * nAry)

theorem mem_calcProbes_iff {nAry low high p : Nat} :
    p ∈ calcProbes nAry low high ↔ ∃ index ≤ nAry, low + rounded nAry (high - low) index = p := by
  unfold calcProbes rounded
  rw [List.mem_eraseDups, List.mem_map]
  simp only [List.mem_range, Nat.lt_succ_iff]

theorem rounded_zero {nAry : Nat} (hpos : 1 ≤ nAry) (diff : Nat) : rounded nAry diff 0 = 0 := by
  unfold rounded
  exact Nat.div_eq_of_lt (by omega)

theorem rounded_nAry {nAry : Nat} (hpos : 1 ≤ nAry) (diff : Nat) :
    rounded nAry diff nAry = diff := by
  have hexpand : 2 * (diff * nAry) + nAry = nAry + 2 * nAry * diff := by
    rw [Nat.mul_comm diff, ← Nat.mul_assoc, Nat.add_comm]
  unfold rounded
  rw [hexpand, Nat.add_mul_div_left _ _ (by omega), Nat.div_eq_of_lt (by omega), Nat.zero_add]

theorem rounded_mono (nAry diff : Nat) {i j : Nat} (h : i ≤ j) :
    rounded nAry diff i ≤ rounded nAry diff j := by
  have hmul : diff * i ≤ diff * j := Nat.mul_le_mul_left _ h
  exact Nat.div_le_div_right (by omega)

/-- No element is passed over where there are no more of them than steps. -/
theorem rounded_succ_le {nAry diff : Nat} (hpos : 1 ≤ nAry) (hdiff : diff ≤ nAry) (index : Nat) :
    rounded nAry diff (index + 1) ≤ rounded nAry diff index + 1 := by
  have hstep : 2 * (diff * (index + 1)) + nAry ≤ 2 * (diff * index) + nAry + 2 * nAry := by
    rw [Nat.mul_succ]
    omega
  unfold rounded
  rw [← Nat.add_div_right _ (by omega)]
  exact Nat.div_le_div_right hstep

/-- Steps of at most one from 0 leave out no value below the last one. -/
theorem exists_rounded {nAry diff : Nat} (hpos : 1 ≤ nAry) (hdiff : diff ≤ nAry) (index : Nat)
    {v : Nat} (hv : v ≤ rounded nAry diff index) : ∃ i ≤ index, rounded nAry diff i = v := by
  induction index with
  | zero =>
    rw [rounded_zero hpos] at hv
    exact ⟨0, Nat.le_refl _, by rw [rounded_zero hpos]; omega⟩
  | succ index ih =>
    by_cases hbefore : v ≤ rounded nAry diff index
    · obtain ⟨i, hi, heq⟩ := ih hbefore
      exact ⟨i, by omega, heq⟩
    · have hstep := rounded_succ_le hpos hdiff index
      exact ⟨index + 1, Nat.le_refl _, by omega⟩

theorem pairwise_eraseDups {l : List Nat} (h : l.Pairwise (· ≤ ·)) :
    l.eraseDups.Pairwise (· < ·) := by
  induction hn : l.length using Nat.strongRecOn generalizing l with
  | ind n ih =>
    cases l with
    | nil => exact List.Pairwise.nil
    | cons a l =>
      obtain ⟨hhead, htail⟩ := List.pairwise_cons.1 h
      have hshort : (l.filter fun b => !b == a).length < n := by
        rw [← hn]
        exact Nat.lt_succ_of_le (List.length_filter_le _ _)
      rw [List.eraseDups_cons]
      refine List.pairwise_cons.2 ⟨fun b hb => ?_, ih _ hshort (htail.filter _) rfl⟩
      obtain ⟨hmem, hne⟩ := List.mem_filter.1 (List.mem_eraseDups.1 hb)
      have hle := hhead b hmem
      have hne' : b ≠ a := by simpa using hne
      omega

/-- The probes are asked for in order, none of them twice. -/
theorem sorted_calcProbes (nAry low high : Nat) :
    (calcProbes nAry low high).Pairwise (· < ·) := by
  refine pairwise_eraseDups (List.pairwise_map.2 ?_)
  exact List.pairwise_le_range.imp fun hle => Nat.add_le_add_left (rounded_mono _ _ hle) low

theorem low_mem_calcProbes {nAry : Nat} (hpos : 1 ≤ nAry) (low high : Nat) :
    low ∈ calcProbes nAry low high :=
  mem_calcProbes_iff.2 ⟨0, Nat.zero_le _, by rw [rounded_zero hpos, Nat.add_zero]⟩

/-- The last probe is the end of the range. -/
theorem getLast?_calcProbes {nAry low high : Nat} (hpos : 1 ≤ nAry) (hle : low ≤ high) :
    (calcProbes nAry low high).getLast? = some high := by
  have hmem : high ∈ calcProbes nAry low high :=
    mem_calcProbes_iff.2 ⟨nAry, Nat.le_refl _, by rw [rounded_nAry hpos]; omega⟩
  have hne : calcProbes nAry low high ≠ [] := List.ne_nil_of_mem hmem
  have hlast := (mem_calcProbes hle (List.getLast_mem hne)).2
  have hsorted := (sorted_calcProbes nAry low high).imp Nat.le_of_lt
  rw [List.getLast?_eq_some_getLast hne]
  exact congrArg some (Nat.le_antisymm hlast (hsorted.rel_getLast hmem))

/-- In a narrow range every element is asked for. -/
theorem mem_calcProbes_of_narrow {nAry low high p : Nat} (hpos : 1 ≤ nAry)
    (hnarrow : high ≤ low + nAry) (hlow : low ≤ p) (hhigh : p ≤ high) :
    p ∈ calcProbes nAry low high := by
  have hreach : p - low ≤ rounded nAry (high - low) nAry := by
    rw [rounded_nAry hpos]
    omega
  obtain ⟨index, hindex, heq⟩ := exists_rounded hpos (by omega) nAry hreach
  exact mem_calcProbes_iff.2 ⟨index, hindex, by omega⟩

/-- `find(low, high)` from a pass on: `highestMatching` as it is then, and the number of the pass,
    which the probe is told. -/
def find (nAry : Nat) (probe : Nat → List Nat → Except Exception (Option Nat))
    (highestMatching : Option Nat) (pass low high : Nat) : Except Exception (Option Nat) :=
  if _ : low ≤ high then
    match probe pass (calcProbes nAry low high) with
    | .error e => .error e
    | .ok none => .ok highestMatching
    | .ok (some matching) =>
      if high ≤ low + nAry then .ok (some matching)
      else if (calcProbes nAry low high).getLast? = some matching then .ok (some matching)
      else
        let indexOfHighestMatching := (calcProbes nAry low high).idxOf matching
        match hmatching : (calcProbes nAry low high)[indexOfHighestMatching]?,
          hnext : (calcProbes nAry low high)[indexOfHighestMatching + 1]? with
        | some found, some next =>
          if found + 1 = next then .ok (some matching)
          else find nAry probe (some matching) (pass + 1) (found + 1) (next - 1)
        | _, _ => .error .assertionError
  else .error .assertionError
termination_by high - low
decreasing_by
  have hfound := mem_calcProbes ‹low ≤ high› (List.mem_of_getElem? hmatching)
  have hnext := mem_calcProbes ‹low ≤ high› (List.mem_of_getElem? hnext)
  omega

/-- **What is found lies in the range.** -/
theorem find_mem {nAry : Nat} {probe : Nat → List Nat → Except Exception (Option Nat)}
    (hprobe : ∀ pass probes m, probe pass probes = .ok (some m) → m ∈ probes) {bottom top : Nat}
    (highestMatching : Option Nat) (pass low high : Nat) (hlow : bottom ≤ low) (hhigh : high ≤ top)
    (hbefore : ∀ m, highestMatching = some m → bottom ≤ m ∧ m ≤ top) {m : Nat}
    (h : find nAry probe highestMatching pass low high = .ok (some m)) : bottom ≤ m ∧ m ≤ top := by
  have hasked : ∀ {pass low high matching : Nat}, bottom ≤ low → high ≤ top → low ≤ high →
      probe pass (calcProbes nAry low high) = .ok (some matching) →
      bottom ≤ matching ∧ matching ≤ top := by
    intro pass low high matching hlow hhigh hle hanswer
    have hmem := mem_calcProbes hle (hprobe _ _ _ hanswer)
    omega
  fun_induction find nAry probe highestMatching pass low high with
  | case1 => cases h
  | case2 => exact hbefore m (Except.ok.inj h)
  | case3 _ _ _ _ hle matching hanswer =>
    obtain rfl := Option.some.inj (Except.ok.inj h)
    exact hasked hlow hhigh hle hanswer
  | case4 _ _ _ _ hle matching hanswer =>
    obtain rfl := Option.some.inj (Except.ok.inj h)
    exact hasked hlow hhigh hle hanswer
  | case5 _ _ _ _ hle matching hanswer =>
    obtain rfl := Option.some.inj (Except.ok.inj h)
    exact hasked hlow hhigh hle hanswer
  | case6 _ _ _ _ hle matching hanswer _ _ _ found next hfound hnext _ ih =>
    have hmemfound := mem_calcProbes hle (List.mem_of_getElem? hfound)
    have hmemnext := mem_calcProbes hle (List.mem_of_getElem? hnext)
    refine ih (by omega) (by omega) (fun m' hm' => ?_) h
    obtain rfl := Option.some.inj hm'
    exact hasked hlow hhigh hle hanswer
  | case7 => cases h
  | case8 => cases h

end NSect

end CoreEx
