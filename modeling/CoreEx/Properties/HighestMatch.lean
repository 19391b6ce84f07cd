/-
  File:      CoreEx/Properties/HighestMatch.lean
  Subject:   The n-ary search finds the highest match.

  Where a match at a height implies one at every lower height, what a probe answers says on which
  side of every probed height the matches end. A pass narrows the range to the heights on which
  that is open.

  * `IsHighest`, `Answers` -- what is looked for, and what a probe promises of heights in the range;
  * `Open` -- the invariant: what is known about the heights outside the range of a pass;
  * **`NSect.find_isHighest`** -- the search ends with the highest match, and asks for no height
    outside its range.
-/
import CoreEx.Utils.NSect
import Mathlib.Order.Bounds.Basic
import Mathlib.Order.Interval.Set.Basic

namespace CoreEx

namespace NSect

/-- The highest match among some heights, or none when none of them matches. -/
def IsHighest (matching : Nat → Prop) (heights : Set Nat) : Option Nat → Prop
  | none => ∀ h ∈ heights, ¬ matching h
  | some m => IsGreatest {h | h ∈ heights ∧ matching h} m

/-- A probe that is asked for heights in the range answers with the highest match among them;
    nothing is said of other heights. -/
def Answers (matching : Nat → Prop) (bottom top : Nat)
    (probe : Nat → List Nat → Except Exception (Option Nat)) : Prop :=
  ∀ pass probes, (∀ p ∈ probes, p ∈ Set.Icc bottom top) →
    ∃ answer, probe pass probes = .ok answer ∧ IsHighest matching {p | p ∈ probes} answer

/-- The end of the matches lies in the range of a pass: above it nothing matches, and below it
    everything does, the last of it being the highest match so far. -/
structure Open (matching : Nat → Prop) (bottom top : Nat) (highestMatching : Option Nat)
    (low high : Nat) : Prop where
  bottom_le : bottom ≤ low
  le : low ≤ high
  le_top : high ≤ top
  above : ∀ h, high < h → h ≤ top → ¬ matching h
  first : highestMatching = none → low = bottom
  last : ∀ m, highestMatching = some m → m + 1 = low ∧ bottom ≤ m ∧ matching m

section Pass

variable {matching : Nat → Prop} {bottom top : Nat} {nAry low high : Nat}
  {highestMatching : Option Nat}

/-- The probes of a pass lie in the whole range. -/
theorem Open.probes (h : Open matching bottom top highestMatching low high) {p : Nat}
    (hp : p ∈ calcProbes nAry low high) : p ∈ Set.Icc bottom top := by
  obtain ⟨hlow, hhigh⟩ := mem_calcProbes h.le hp
  exact ⟨h.bottom_le.trans hlow, hhigh.trans h.le_top⟩

/-- Where no probe matches, the highest match is the one before. -/
theorem Open.of_none (h : Open matching bottom top highestMatching low high) (hpos : 1 ≤ nAry)
    (hclosed : ∀ a b, bottom ≤ a → a ≤ b → b ≤ top → matching b → matching a)
    (hanswer : IsHighest matching {p | p ∈ calcProbes nAry low high} none) :
    IsHighest matching (Set.Icc bottom top) highestMatching := by
  have hlow : ¬ matching low := hanswer low (low_mem_calcProbes hpos low high)
  have hrest : ∀ k, low ≤ k → k ≤ top → ¬ matching k :=
    fun k hle htop hk => hlow (hclosed low k h.bottom_le hle htop hk)
  cases highestMatching with
  | none =>
    intro k hk
    exact hrest k ((h.first rfl).trans_le hk.1) hk.2
  | some m =>
    obtain ⟨hnext, hbottom, hm⟩ := h.last m rfl
    have htop := h.le.trans h.le_top
    refine ⟨⟨⟨hbottom, by omega⟩, hm⟩, fun k hk => ?_⟩
    by_contra hgreater
    exact hrest k (by omega) hk.1.2 hk.2

/-- Where every element was asked for, the answer is the highest match. -/
theorem Open.of_narrow (h : Open matching bottom top highestMatching low high) (hpos : 1 ≤ nAry)
    (hnarrow : high ≤ low + nAry) {m : Nat}
    (hanswer : IsHighest matching {p | p ∈ calcProbes nAry low high} (some m)) :
    IsHighest matching (Set.Icc bottom top) (some m) := by
  obtain ⟨⟨hmem, hm⟩, hbound⟩ := hanswer
  have hlow := (mem_calcProbes h.le hmem).1
  refine ⟨⟨h.probes hmem, hm⟩, fun k hk => ?_⟩
  by_cases hhigh : k ≤ high
  · by_cases hbelow : low ≤ k
    · exact hbound ⟨mem_calcProbes_of_narrow hpos hnarrow hbelow hhigh, hk.2⟩
    · omega
  · exact absurd hk.2 (h.above k (by omega) hk.1.2)

/-- Where the end of the range matches, it is the highest match. -/
theorem Open.of_last (h : Open matching bottom top highestMatching low high) (hpos : 1 ≤ nAry)
    {m : Nat} (hanswer : IsHighest matching {p | p ∈ calcProbes nAry low high} (some m))
    (hlast : (calcProbes nAry low high).getLast? = some m) :
    IsHighest matching (Set.Icc bottom top) (some m) := by
  obtain rfl : high = m := Option.some.inj ((getLast?_calcProbes hpos h.le).symm.trans hlast)
  refine ⟨⟨h.probes hanswer.1.1, hanswer.1.2⟩, fun k hk => ?_⟩
  by_contra hgreater
  exact h.above k (by omega) hk.1.2 hk.2

/-- A probe that is not the last one has one behind it, which is higher. -/
theorem exists_next {probes : List Nat} (hsorted : probes.Pairwise (· < ·)) {m : Nat}
    (hmem : m ∈ probes) (hlast : probes.getLast? ≠ some m) :
    probes[probes.idxOf m]? = some m ∧
      ∃ next, probes[probes.idxOf m + 1]? = some next ∧ m < next := by
  have hindex : probes.idxOf m < probes.length := List.idxOf_lt_length_of_mem hmem
  have hat : probes[probes.idxOf m]? = some m := by
    rw [List.getElem?_eq_getElem hindex, List.getElem_idxOf]
  have hmore : probes.idxOf m + 1 < probes.length := by
    by_contra hend
    refine hlast ?_
    rw [List.getLast?_eq_getElem?, ← hat]
    congr 1
    omega
  refine ⟨hat, probes[probes.idxOf m + 1], List.getElem?_eq_getElem hmore, ?_⟩
  have hlt := List.pairwise_iff_getElem.1 hsorted _ _ hindex hmore (Nat.lt_succ_self _)
  rwa [List.getElem_idxOf] at hlt

/-- The probe behind the highest match does not match, and nothing above it does. -/
theorem Open.above_next (h : Open matching bottom top highestMatching low high)
    (hclosed : ∀ a b, bottom ≤ a → a ≤ b → b ≤ top → matching b → matching a) {m next : Nat}
    (hanswer : IsHighest matching {p | p ∈ calcProbes nAry low high} (some m))
    (hmem : next ∈ calcProbes nAry low high) (hlt : m < next) :
    ∀ k, next ≤ k → k ≤ top → ¬ matching k := by
  intro k hle htop hk
  have hnext := hclosed next k (h.probes hmem).1 hle htop hk
  exact absurd (hanswer.2 ⟨hmem, hnext⟩) (by omega)

end Pass

/-- What the search finds from a pass on. -/
theorem find_of_open {matching : Nat → Prop} {bottom top nAry : Nat} (hpos : 1 ≤ nAry)
    (hclosed : ∀ a b, bottom ≤ a → a ≤ b → b ≤ top → matching b → matching a)
    {probe : Nat → List Nat → Except Exception (Option Nat)}
    (hprobe : Answers matching bottom top probe) (highestMatching : Option Nat)
    (pass low high : Nat) (h : Open matching bottom top highestMatching low high) :
    ∃ result, find nAry probe highestMatching pass low high = .ok result ∧
      IsHighest matching (Set.Icc bottom top) result := by
  obtain ⟨answer, hok, hanswer⟩ := hprobe pass (calcProbes nAry low high) fun p hp => h.probes hp
  fun_induction find nAry probe highestMatching pass low high generalizing answer with
  | case1 highestMatching pass low high hle e herror => cases hok.symm.trans herror
  | case2 highestMatching pass low high hle hnone =>
    obtain rfl := Except.ok.inj (hok.symm.trans hnone)
    exact ⟨highestMatching, rfl, h.of_none hpos hclosed hanswer⟩
  | case3 highestMatching pass low high hle m hsome hnarrow =>
    obtain rfl := Except.ok.inj (hok.symm.trans hsome)
    exact ⟨some m, rfl, h.of_narrow hpos hnarrow hanswer⟩
  | case4 highestMatching pass low high hle m hsome _ hlast =>
    obtain rfl := Except.ok.inj (hok.symm.trans hsome)
    exact ⟨some m, rfl, h.of_last hpos hanswer hlast⟩
  | case5 highestMatching pass low high hle m hsome _ hlast index found hfound hnext =>
    obtain rfl := Except.ok.inj (hok.symm.trans hsome)
    obtain ⟨hat, next', hat', hlt⟩ := exists_next (sorted_calcProbes _ _ _) hanswer.1.1 hlast
    obtain rfl := Option.some.inj (hfound.symm.trans hat)
    have habove := h.above_next hclosed hanswer (List.mem_of_getElem? hnext) (by omega)
    refine ⟨some found, rfl, ⟨h.probes hanswer.1.1, hanswer.1.2⟩, fun k hk => ?_⟩
    by_contra hgreater
    exact habove k (by omega) hk.1.2 hk.2
  | case6 highestMatching pass low high hle m hsome _ hlast index found next hfound hnext hne ih =>
    obtain rfl := Except.ok.inj (hok.symm.trans hsome)
    obtain ⟨hat, next', hat', hlt⟩ := exists_next (sorted_calcProbes _ _ _) hanswer.1.1 hlast
    obtain rfl := Option.some.inj (hfound.symm.trans hat)
    obtain rfl := Option.some.inj (hnext.symm.trans hat')
    have hmem := List.mem_of_getElem? hnext
    have habove := h.above_next hclosed hanswer hmem hlt
    have hopen : Open matching bottom top (some found) (found + 1) (next - 1) :=
      { bottom_le := (h.probes hanswer.1.1).1.trans (Nat.le_succ _)
        le := by omega
        le_top := (Nat.sub_le _ _).trans (h.probes hmem).2
        above := fun k hk => habove k (by omega)
        first := fun hnone => absurd hnone (Option.some_ne_none _)
        last := fun k hk => by
          obtain rfl := Option.some.inj hk
          exact ⟨rfl, (h.probes hanswer.1.1).1, hanswer.1.2⟩ }
    obtain ⟨answer, hok', hanswer'⟩ :=
      hprobe (pass + 1) (calcProbes nAry (found + 1) (next - 1)) fun p hp => hopen.probes hp
    exact ih hopen answer hok' hanswer'
  | case7 highestMatching pass low high hle m hsome _ hlast index hnot =>
    obtain rfl := Except.ok.inj (hok.symm.trans hsome)
    obtain ⟨hat, next, hat', -⟩ := exists_next (sorted_calcProbes _ _ _) hanswer.1.1 hlast
    exact absurd hat' (hnot _ _ hat)
  | case8 highestMatching pass low high hgt => exact absurd h.le hgt

/-- What a probe says of heights outside the range does not matter. -/
theorem find_congr {nAry bottom top : Nat}
    {probe probe' : Nat → List Nat → Except Exception (Option Nat)}
    (hagree : ∀ pass probes, (∀ p ∈ probes, p ∈ Set.Icc bottom top) →
      probe' pass probes = probe pass probes) (highestMatching : Option Nat)
    (pass low high : Nat) (hlow : bottom ≤ low) (hhigh : high ≤ top) :
    find nAry probe' highestMatching pass low high =
      find nAry probe highestMatching pass low high := by
  have hsame : ∀ {pass low high : Nat}, low ≤ high → bottom ≤ low → high ≤ top →
      probe' pass (calcProbes nAry low high) = probe pass (calcProbes nAry low high) := by
    intro pass low high hle hlow hhigh
    refine hagree _ _ fun p hp => ?_
    have hmem := mem_calcProbes hle hp
    exact ⟨hlow.trans hmem.1, hmem.2.trans hhigh⟩
  fun_induction find nAry probe highestMatching pass low high with
  | case1 highestMatching pass low high hle e herror =>
    unfold find
    rw [dif_pos hle, hsame hle hlow hhigh, herror]
  | case2 highestMatching pass low high hle hnone =>
    unfold find
    rw [dif_pos hle, hsame hle hlow hhigh, hnone]
  | case3 highestMatching pass low high hle m hsome hnarrow =>
    unfold find
    rw [dif_pos hle, hsame hle hlow hhigh, hsome]
    exact if_pos hnarrow
  | case4 highestMatching pass low high hle m hsome hnarrow hlast =>
    unfold find
    rw [dif_pos hle, hsame hle hlow hhigh, hsome]
    exact (if_neg hnarrow).trans (if_pos hlast)
  | case5 highestMatching pass low high hle m hsome hnarrow hlast index found hfound hnext =>
    unfold find
    rw [dif_pos hle, hsame hle hlow hhigh, hsome]
    refine (if_neg hnarrow).trans ((if_neg hlast).trans ?_)
    dsimp only
    split
    · rename_i found' next' hfound' hnext'
      obtain rfl := Option.some.inj (hfound.symm.trans hfound')
      obtain rfl := Option.some.inj (hnext.symm.trans hnext')
      exact if_pos rfl
    · rename_i hnot
      exact absurd hnext (hnot _ _ hfound)
  | case6 highestMatching pass low high hle m hsome hnarrow hlast index found next hfound hnext hne
      ih =>
    have hmemfound := mem_calcProbes hle (List.mem_of_getElem? hfound)
    have hmemnext := mem_calcProbes hle (List.mem_of_getElem? hnext)
    conv_lhs => unfold find
    rw [dif_pos hle, hsame hle hlow hhigh, hsome]
    refine (if_neg hnarrow).trans ((if_neg hlast).trans ?_)
    dsimp only
    split
    · rename_i found' next' hfound' hnext'
      obtain rfl := Option.some.inj (hfound.symm.trans hfound')
      obtain rfl := Option.some.inj (hnext.symm.trans hnext')
      exact (if_neg hne).trans (ih (by omega) (by omega))
    · rename_i hnot
      exact absurd hnext (hnot _ _ hfound)
  | case7 highestMatching pass low high hle m hsome hnarrow hlast index hnot =>
    unfold find
    rw [dif_pos hle, hsame hle hlow hhigh, hsome]
    refine (if_neg hnarrow).trans ((if_neg hlast).trans ?_)
    dsimp only
    split
    · rename_i found' next' hfound' hnext'
      exact absurd hnext' (hnot _ _ hfound')
    · rfl
  | case8 highestMatching pass low high hgt =>
    unfold find
    rw [dif_neg hgt]

/-- **The search ends with the highest match** of its range, for every number of probes and every
    range, and a probe is never asked for anything outside the range. -/
theorem find_isHighest {matching : Nat → Prop} {nAry low high : Nat} (hpos : 1 ≤ nAry)
    (hle : low ≤ high)
    (hclosed : ∀ a b, low ≤ a → a ≤ b → b ≤ high → matching b → matching a)
    {probe : Nat → List Nat → Except Exception (Option Nat)}
    (hprobe : Answers matching low high probe) :
    (∃ result, find nAry probe none 0 low high = .ok result ∧
      IsHighest matching (Set.Icc low high) result) ∧
    ∀ probe', (∀ pass probes, (∀ p ∈ probes, p ∈ Set.Icc low high) →
        probe' pass probes = probe pass probes) →
      find nAry probe' none 0 low high = find nAry probe none 0 low high := by
  have hopen : Open matching low high none low high :=
    { bottom_le := Nat.le_refl _
      le := hle
      le_top := Nat.le_refl _
      above := fun h hlt hhigh => absurd hhigh (by omega)
      first := fun _ => rfl
      last := fun m hm => (nomatch hm) }
  refine ⟨find_of_open hpos hclosed hprobe none 0 low high hopen, fun probe' hagree => ?_⟩
  exact find_congr hagree none 0 low high (Nat.le_refl _) (Nat.le_refl _)

/-- A chain that is common up to height 13. -/
def commonUpTo13 (_ : Nat) (probes : List Nat) : Except Exception (Option Nat) :=
  .ok (probes.filter (· ≤ 13)).max?

/-- Eight probes a pass in the heights from 1 to 40. -/
theorem find_isHighest_sample : ∃ result, find 8 commonUpTo13 none 0 1 40 = .ok result ∧
    IsHighest (· ≤ 13) (Set.Icc 1 40) result := by
  have hanswers : Answers (· ≤ 13) 1 40 commonUpTo13 := by
    intro pass probes _
    refine ⟨_, rfl, ?_⟩
    cases hmax : (probes.filter (· ≤ 13)).max? with
    | none =>
      have hempty := List.max?_eq_none_iff.1 hmax
      intro p hp
      simpa using List.filter_eq_nil_iff.1 hempty p hp
    | some m =>
      obtain ⟨hmem, hbound⟩ := List.max?_eq_some_iff.1 hmax
      obtain ⟨hin, hm⟩ := List.mem_filter.1 hmem
      refine ⟨⟨hin, of_decide_eq_true hm⟩, fun p hp => ?_⟩
      exact hbound p (List.mem_filter.2 ⟨hp.1, decide_eq_true hp.2⟩)
  exact (find_isHighest (by decide) (by decide) (fun a b _ hab _ hb => hab.trans hb) hanswers).1

end NSect

end CoreEx
