/-
  File:      CoreEx/Properties/MilestoneValidation.lean
  Subject:   Whether `setConfig` accepts just the milestones with which rounds can be counted.

  Both sides want the number of validators to change between rounds only. `#validateMilestones`
  counts from the last milestone that names a number, also when it repeats the one in force;
  `calculateRound` counts from the milestone with which that number came into force.

  * `Change`, `changes` -- the changes of a list, with the two milestones to count from;
  * `validateMilestones_iff`, `wholeRounds_iff` -- each side in terms of the changes;
  * `follows_changes` -- they are the changes the search finds;
  * **`setConfig_iff_rounds_iff`** -- when both sides give the same answer;
  * **`repeatedNumber_not`** -- a list that is accepted and cannot be counted with.
-/
import CoreEx.Rounds.RoundCalculator

namespace CoreEx

open RoundCalculator

/-! ## 1. Changes -/

/-- A milestone that changes the number of validators. -/
structure Change where
  height : Nat
  number : Nat
  /-- The milestone that names a number before it. -/
  listedAt : Nat
  listed : Nat
  /-- The milestone that changed the number before it. -/
  since : Nat
  inForce : Nat
  deriving DecidableEq, Repr

/-- It comes a whole number of rounds after the milestone listed before it. -/
def Change.AfterListed (ch : Change) : Prop := (ch.height - ch.listedAt) % ch.listed = 0

/-- It comes a whole number of rounds after the number in force began. -/
def Change.AfterRounds (ch : Change) : Prop := (ch.height - ch.since) % ch.inForce = 0

instance (ch : Change) : Decidable ch.AfterListed :=
  inferInstanceAs (Decidable ((ch.height - ch.listedAt) % ch.listed = 0))

instance (ch : Change) : Decidable ch.AfterRounds :=
  inferInstanceAs (Decidable ((ch.height - ch.since) % ch.inForce = 0))

/-- The changes of a list. Of the milestones of one height, the first that names another number
    makes the change. -/
def changes (listedAt listed since inForce : Nat) : List MilestonePartial → List Change
  | [] => []
  | m :: later =>
    match m.activeValidators with
    | none | some 0 => changes listedAt listed since inForce later
    | some number =>
      if number = listed then changes m.height listed since inForce later
      else if m.height ≤ since then changes m.height number since inForce later
      else ⟨m.height, number, listedAt, listed, since, inForce⟩ ::
        changes m.height number m.height number later

section

variable {listedAt listed since inForce number : Nat} {m : MilestonePartial}
  {later : List MilestonePartial}

theorem changes_none (h : m.activeValidators = none ∨ m.activeValidators = some 0) :
    changes listedAt listed since inForce (m :: later) =
      changes listedAt listed since inForce later := by
  conv_lhs => unfold changes
  rcases h with h | h
  · rw [h]
  · rw [h]
    rfl

theorem changes_some (h : m.activeValidators = some number) (hn : number ≠ 0) :
    changes listedAt listed since inForce (m :: later) =
      if number = listed then changes m.height listed since inForce later
      else if m.height ≤ since then changes m.height number since inForce later
      else ⟨m.height, number, listedAt, listed, since, inForce⟩ ::
        changes m.height number m.height number later := by
  obtain ⟨number, rfl⟩ := Nat.exists_eq_succ_of_ne_zero hn
  conv_lhs => unfold changes
  rw [h]
  rfl

end

/-- The changes of what `setConfig` is given. -/
def ListedMilestones.changes (l : ListedMilestones) : List Change :=
  CoreEx.changes 1 l.first.activeValidators 1 (l.inOrder.getMilestone 1).activeValidators l.later

/-! ## 2. Either side -/

/-- What `#validateMilestones` checks. -/
theorem validateMilestones_iff {later : List MilestonePartial} :
    ∀ {listedAt listed since inForce : Nat}, since ≤ listedAt →
      (later.map (·.height)).Pairwise (· ≤ ·) → (∀ m ∈ later, listedAt ≤ m.height) →
      (validateMilestones listedAt listed later = .ok () ↔
        ∀ ch ∈ changes listedAt listed since inForce later, ch.AfterListed) := by
  induction later with
  | nil => exact fun _ _ _ => ⟨fun _ _ h => (nomatch h), fun _ => rfl⟩
  | cons m later ih =>
    intro listedAt listed since inForce hsince hsorted hlisted
    obtain ⟨hfirst, hrest⟩ := List.pairwise_cons.1 hsorted
    have hm := hlisted m List.mem_cons_self
    have hafter : ∀ m' ∈ later, m.height ≤ m'.height := fun m' hm' =>
      hfirst m'.height (List.mem_map_of_mem hm')
    have hskip := fun m' hm' => hlisted m' (List.mem_cons_of_mem m hm')
    rcases m.activeValidators_cases with hnone | ⟨number, hsome, hpositive⟩
    · rw [validateMilestones_none hnone, changes_none hnone]
      exact ih hsince hrest hskip
    · rw [validateMilestones_some hsome hpositive, changes_some hsome hpositive]
      by_cases hsame : listed = number
      · rw [if_pos hsame, if_pos hsame.symm, hsame]
        exact ih (hsince.trans hm) hrest hafter
      · rw [if_neg hsame, if_neg (Ne.symm hsame)]
        by_cases hold : m.height ≤ since
        · -- another milestone of the height of the last change
          have hzero : m.height - listedAt = 0 := by omega
          rw [if_pos hold, hzero, Nat.zero_mod, if_neg (not_not.2 rfl)]
          exact ih (hsince.trans hm) hrest hafter
        · rw [if_neg hold]
          have hlater : validateMilestones m.height number later = .ok () ↔
              ∀ ch ∈ changes m.height number m.height number later, ch.AfterListed :=
            ih le_rfl hrest hafter
          by_cases hwhole : (m.height - listedAt) % listed = 0
          · rw [if_neg (not_not.2 hwhole), hlater, List.forall_mem_cons]
            exact ⟨fun h => ⟨hwhole, h⟩, fun h => h.2⟩
          · rw [if_pos hwhole, List.forall_mem_cons]
            exact ⟨fun h => (nomatch h), fun h => absurd h.1 hwhole⟩

/-- What `calculateRound` needs. -/
theorem wholeRounds_iff {later : List MilestonePartial} :
    ∀ {listedAt listed since inForce : Nat},
      WholeRounds since inForce ((changes listedAt listed since inForce later).map fun ch =>
        ⟨ch.number, ch.height⟩) ↔
        ∀ ch ∈ changes listedAt listed since inForce later, ch.AfterRounds := by
  induction later with
  | nil => exact ⟨fun _ _ h => (nomatch h), fun _ => trivial⟩
  | cons m later ih =>
    intro listedAt listed since inForce
    rcases m.activeValidators_cases with hnone | ⟨number, hsome, hpositive⟩
    · rw [changes_none hnone]
      exact ih
    · rw [changes_some hsome hpositive]
      by_cases hsame : number = listed
      · rw [if_pos hsame]
        exact ih
      · rw [if_neg hsame]
        by_cases hold : m.height ≤ since
        · rw [if_pos hold]
          exact ih
        · rw [if_neg hold, List.forall_mem_cons, List.map_cons]
          exact and_congr Iff.rfl ih

/-! ## 3. The changes the search finds -/

variable {c : MilestoneList}

/-- The number in force at `since` is that of the milestone the scan has come to, when the next one
    lies after `since`. -/
theorem inForce_of_scan {before rest : List Milestone} {current m : Milestone} {since : Nat}
    (hsplit : c.milestones = before ++ current :: m :: rest) (hsince : 1 ≤ since)
    (hseen : since < current.height →
      current.activeValidators = (c.getMilestone since).activeValidators)
    (hm : since < m.height) :
    (c.getMilestone since).activeValidators = current.activeValidators := by
  by_cases hcurrent : since < current.height
  · exact (hseen hcurrent).symm
  · have hsorted := c.pairwise_milestones
    rw [hsplit] at hsorted
    have htail := (List.pairwise_cons.1 (List.pairwise_append.1 hsorted).2.1).2
    have hforce : Timeline.InForce Milestone.height c.milestones since current := by
      refine ⟨before, m :: rest, hsplit, by omega, fun b hb => ?_⟩
      rcases List.mem_cons.1 hb with rfl | hb
      · exact hm
      · exact hm.trans_le ((List.pairwise_cons.1 htail).1 b hb)
    rw [(c.inForce_getMilestone hsince).unique hforce]

/-- **What the search finds after `since` is what the scan finds**, when the milestones it has
    passed bring no change after `since`. -/
theorem follows_changes {later : List MilestonePartial} :
    ∀ {before : List Milestone} {current : Milestone} {listedAt since inForce : Nat},
      c.milestones = before ++ buildConstants current later → 1 ≤ since →
      (∀ m ∈ later, m.activeValidators ≠ some 0) →
      (∀ m ∈ before ++ [current], since < m.height →
        m.activeValidators = (c.getMilestone since).activeValidators) →
      c.Follows Milestone.activeValidators since
        ((changes listedAt current.activeValidators since inForce later).map fun ch =>
          ⟨ch.number, ch.height⟩) := by
  induction later with
  | nil =>
    intro before current _ since _ hsplit _ _ hseen
    show c.getNextMilestoneWithNewKey since Milestone.activeValidators = none
    refine Option.map_eq_none_iff.2 (List.find?_eq_none.2 fun m hm => ?_)
    rw [hsplit] at hm
    simp only [decide_eq_true_eq, not_and]
    exact fun _ hne hlt => hne (hseen m hm hlt)
  | cons next later ih =>
    intro before current listedAt since inForce hsplit hsince hpositive hseen
    have hnext : c.milestones = before ++ current :: buildConstants (next.merge current) later :=
      hsplit
    have hhead : ∃ rest, buildConstants (next.merge current) later = next.merge current :: rest := by
      cases later with
      | nil => exact ⟨_, rfl⟩
      | cons _ _ => exact ⟨_, rfl⟩
    obtain ⟨rest, hrest⟩ := hhead
    have hstep : c.milestones = (before ++ [current]) ++
        buildConstants (next.merge current) later := by
      rw [hnext, List.append_assoc]
      rfl
    have hvalue : since < next.height →
        (c.getMilestone since).activeValidators = current.activeValidators := fun hlt =>
      inForce_of_scan (m := next.merge current) (by rw [hnext, hrest]) hsince
        (hseen current (List.mem_append_right _ List.mem_cons_self)) hlt
    have hlater := fun m hm => hpositive m (List.mem_cons_of_mem next hm)
    -- a milestone that brings no change is passed
    have hpass : (since < next.height →
        (next.merge current).activeValidators = current.activeValidators) →
        ∀ m ∈ (before ++ [current]) ++ [next.merge current], since < m.height →
          m.activeValidators = (c.getMilestone since).activeValidators := by
      intro hsame m hm hlt
      rcases List.mem_append.1 hm with hm | hm
      · exact hseen m hm hlt
      · rw [List.mem_singleton.1 hm] at hlt ⊢
        exact (hsame hlt).trans (hvalue hlt).symm
    rcases next.activeValidators_cases with hnone | ⟨number, hsome, hnumber⟩
    · have hav : (next.merge current).activeValidators = current.activeValidators := by
        rcases hnone with hnone | hzero
        · unfold MilestonePartial.merge
          rw [hnone]
          rfl
        · exact absurd hzero (hpositive next List.mem_cons_self)
      rw [changes_none hnone, ← hav]
      exact ih hstep hsince hlater (hpass fun _ => hav)
    · have hav : (next.merge current).activeValidators = number := by
        unfold MilestonePartial.merge
        rw [hsome]
        rfl
      rw [changes_some hsome hnumber]
      by_cases hsame : number = current.activeValidators
      · rw [if_pos hsame, ← hsame, ← hav]
        exact ih hstep hsince hlater (hpass fun _ => hav.trans hsame)
      · rw [if_neg hsame]
        by_cases hold : next.height ≤ since
        · rw [if_pos hold, ← hav]
          exact ih hstep hsince hlater (hpass fun hlt => by omega)
        · rw [if_neg hold, List.map_cons]
          have hlt : since < next.height := by omega
          refine ⟨?_, ?_⟩
          · refine Option.map_eq_some_iff.2 ⟨next.merge current, ?_, by rw [hav]; rfl⟩
            refine List.find?_eq_some_iff_append.2 ⟨?_, before ++ [current], rest,
              by rw [hstep, hrest], fun m hm => ?_⟩
            · rw [decide_eq_true_eq, hav, hvalue hlt]
              exact ⟨hnumber, hsame, hlt⟩
            · simp only [Bool.not_eq_true', decide_eq_false_iff_not, not_and]
              exact fun _ hne hlt => hne (hseen m hm hlt)
          · have hsorted := c.pairwise_milestones
            rw [hstep, hrest] at hsorted
            have hupto := (List.pairwise_append.1 hsorted).2.2
            show c.Follows Milestone.activeValidators next.height _
            rw [← hav]
            refine ih hstep (by omega) hlater fun m hm hlt => ?_
            rcases List.mem_append.1 hm with hm | hm
            · have : m.height ≤ next.height := hupto m hm (next.merge current) List.mem_cons_self
              omega
            · rw [List.mem_singleton.1 hm] at hlt
              exact absurd hlt (lt_irrefl next.height)

theorem Follows.unique {key : Milestone → Nat} :
    ∀ {p : Nat} {l l' : List MilestoneSearchResult}, c.Follows key p l → c.Follows key p l' → l = l'
  | _, [], [], _, _ => rfl
  | _, [], _ :: _, h, h' => by
    have hnone : c.getNextMilestoneWithNewKey _ key = none := h
    rw [h'.1] at hnone
    cases hnone
  | _, _ :: _, [], h, h' => by
    have hnone : c.getNextMilestoneWithNewKey _ key = none := h'
    rw [h.1] at hnone
    cases hnone
  | _, _ :: _, _ :: _, h, h' => by
    obtain rfl := Option.some.inj (h.1.symm.trans h'.1)
    rw [Follows.unique h.2 h'.2]

/-- The changes of a list are those of its milestones in order. -/
theorem laterActiveValidators_eq (l : ListedMilestones)
    (hpositive : ∀ m ∈ l.milestones, m.activeValidators ≠ some 0) :
    laterActiveValidators l.inOrder = l.changes.map fun ch => ⟨ch.number, ch.height⟩ := by
  have hlater : ∀ m ∈ l.later, m.activeValidators ≠ some 0 := fun m hm => by
    have hperm : (sortMilestones l.milestones).Perm l.milestones := List.perm_insertionSort _ _
    refine hpositive m (hperm.mem_iff.1 ?_)
    rw [l.sorted_eq]
    exact List.mem_cons_of_mem _ hm
  refine Follows.unique (l.inOrder.follows_milestonesWithNewKey _) ?_
  have hsplit : l.inOrder.milestones = [] ++ buildConstants l.first l.later := rfl
  refine follows_changes hsplit le_rfl hlater fun m hm hlt => ?_
  rw [List.nil_append, List.mem_singleton] at hm
  rw [hm] at hlt
  have := l.genesis
  exact absurd hlt (by show ¬ 1 < l.first.height; omega)

/-! ## 4. Both sides -/

theorem setConfig_accepts_iff (l : ListedMilestones) :
    (∃ c, Configuration.setConfig l = .ok c) ↔ ∀ ch ∈ l.changes, ch.AfterListed := by
  rw [Configuration.setConfig_ok_iff, l.genesis]
  exact validateMilestones_iff le_rfl l.inOrder.sorted l.inOrder.after

theorem calculateRound_counts_iff (l : ListedMilestones)
    (hpositive : ∀ m ∈ l.milestones, m.activeValidators ≠ some 0) :
    (∀ height, ∃ info, calculateRound height l.inOrder = .ok info) ↔
      ∀ ch ∈ l.changes, ch.AfterRounds := by
  rw [calculateRound_ok_iff, laterActiveValidators_eq l hpositive]
  exact wholeRounds_iff

/-- **`setConfig` accepts what can be counted with, when every change is a whole number of rounds
    away from either milestone or from neither, or when both sides have something to refuse.** -/
theorem setConfig_iff_rounds_iff (l : ListedMilestones)
    (hpositive : ∀ m ∈ l.milestones, m.activeValidators ≠ some 0) :
    ((∃ c, Configuration.setConfig l = .ok c) ↔
        ∀ height, ∃ info, calculateRound height l.inOrder = .ok info) ↔
      (∀ ch ∈ l.changes, ch.AfterListed ↔ ch.AfterRounds) ∨
        (∃ ch ∈ l.changes, ¬ch.AfterListed) ∧ ∃ ch ∈ l.changes, ¬ch.AfterRounds := by
  rw [setConfig_accepts_iff, calculateRound_counts_iff l hpositive]
  by_cases hlisted : ∀ ch ∈ l.changes, ch.AfterListed
  · have hnone : ¬∃ ch ∈ l.changes, ¬ch.AfterListed := by
      rintro ⟨ch, hch, hnot⟩
      exact hnot (hlisted ch hch)
    refine ⟨fun h => Or.inl fun ch hch => ⟨fun _ => h.1 hlisted ch hch, fun _ => hlisted ch hch⟩,
      fun h => ?_⟩
    rcases h with hsame | ⟨hbad, -⟩
    · exact ⟨fun _ ch hch => (hsame ch hch).1 (hlisted ch hch), fun _ => hlisted⟩
    · exact absurd hbad hnone
  · have hsome : ∃ ch ∈ l.changes, ¬ch.AfterListed := by
      simpa only [not_forall, exists_prop] using hlisted
    refine ⟨fun h => Or.inr ⟨hsome, ?_⟩, fun h => ⟨fun hl => absurd hl hlisted, fun hr => ?_⟩⟩
    · have hrounds : ¬∀ ch ∈ l.changes, ch.AfterRounds := fun hr => hlisted (h.2 hr)
      simpa only [not_forall, exists_prop] using hrounds
    · rcases h with hsame | ⟨-, ch, hch, hnot⟩
      · exact fun ch hch => (hsame ch hch).2 (hr ch hch)
      · exact absurd (hr ch hch) hnot

/-! ## 5. A number named twice -/

namespace Sample

/-- Four validators, named once more at height 3, and five from height 7 on. -/
def repeatedNumber : ListedMilestones where
  milestones :=
    [⟨7, some 5, none, none, none, none, none, none⟩,
      ⟨1, some 4, some 1000, some 10, some 0, some 8, some 0, some 100⟩,
      ⟨3, some 4, none, none, none, none, none, none⟩]
  first := ⟨1, 4, ⟨1000, 10, 0⟩, 8, 0, 100⟩
  later :=
    [⟨3, some 4, none, none, none, none, none, none⟩, ⟨7, some 5, none, none, none, none, none, none⟩]
  sorted_eq := by decide
  genesis := rfl

theorem repeatedNumber_positive :
    ∀ m ∈ repeatedNumber.milestones, m.activeValidators ≠ some 0 := by decide

end Sample

theorem setConfig_iff_rounds_iff_sample :
    ((∃ c, Configuration.setConfig Sample.repeatedNumber = .ok c) ↔
        ∀ height, ∃ info, calculateRound height Sample.repeatedNumber.inOrder = .ok info) ↔
      (∀ ch ∈ Sample.repeatedNumber.changes, ch.AfterListed ↔ ch.AfterRounds) ∨
        (∃ ch ∈ Sample.repeatedNumber.changes, ¬ch.AfterListed) ∧
          ∃ ch ∈ Sample.repeatedNumber.changes, ¬ch.AfterRounds :=
  setConfig_iff_rounds_iff _ Sample.repeatedNumber_positive

/-- **A number named twice**: `setConfig` counts from height 3 to 7 and accepts the list, but
    `calculateRound` counts from height 1 and throws. -/
theorem repeatedNumber_not :
    ¬((∃ c, Configuration.setConfig Sample.repeatedNumber = .ok c) ↔
      ∀ height, ∃ info, calculateRound height Sample.repeatedNumber.inOrder = .ok info) := by
  intro h
  have haccepted : ∃ c, Configuration.setConfig Sample.repeatedNumber = .ok c :=
    (Configuration.setConfig_ok_iff _).2 (by decide)
  obtain ⟨info, hinfo⟩ := h.1 haccepted 7
  have hthrown : ∃ e, calculateRound 7 Sample.repeatedNumber.inOrder = .error e := ⟨_, rfl⟩
  obtain ⟨e, he⟩ := hthrown
  rw [he] at hinfo
  cases hinfo

end CoreEx
