/-
  File:      CoreEx/Rounds/RoundCalculator.lean
  Subject:   `core-kernel/source/utils/round-calculator.ts`: the round a height belongs to.

  A round has as many blocks as there are active validators; a milestone that changes their number
  begins a new round.

  * `isNewRound` -- whether a round begins at a height;
  * `laterActiveValidators`, `RoundInfo`, `calculateRound`;
  * `SpanOf` -- what the loop of `calculateRound` returns, `spanAt_spec`;
  * **`calculateRound_ok_iff`** -- when it throws at no height;
  * **`spanAt_succ`** -- how it gets from one height to the next;
  * **`spanMilestone_spec`** -- where the loop of `isNewRound` stops.
-/
import CoreEx.Crypto.Configuration
import Mathlib.Data.List.Induction

namespace CoreEx

/-- `RoundInfo`. -/
structure RoundInfo where
  maxValidators : Nat
  nextRound : Int
  round : Int
  roundHeight : Int
  deriving DecidableEq, Repr

/-- `getMilestonesWhichAffectActiveValidatorCount(configuration)` without the entry of height 1; the
    loops step through the same milestones with `getNextMilestoneWithNewKey`. -/
def laterActiveValidators (c : MilestoneList) : List MilestoneSearchResult :=
  c.milestonesWithNewKey Milestone.activeValidators

namespace RoundCalculator

/-- The loop of `isNewRound`, over the milestones from the last one down: back from the one in force
    to the first that names the same number of validators. -/
def spanMilestone (height : Nat) : List Milestone → Option Milestone → Option Milestone
  | [], milestone => milestone
  | temporary :: earlier, milestone =>
    if temporary.height > height then spanMilestone height earlier milestone
    else
      match milestone with
      | none => spanMilestone height earlier (some temporary)
      | some found =>
        if temporary.activeValidators = found.activeValidators then
          spanMilestone height earlier (some temporary)
        else milestone

/-- `isNewRound(height, configuration)`. The first milestone is that of height 1, so from there on
    one is found. -/
def isNewRound (height : Nat) (c : MilestoneList) : Bool :=
  height = 1 ||
    match spanMilestone height c.milestones.reverse none with
    | none => false
    | some milestone => (height - milestone.height) % milestone.activeValidators = 0

/-- The variables of the loop of `calculateRound`. -/
structure Span where
  round : Int
  roundHeight : Int
  activeValidators : Nat
  milestoneHeight : Int
  deriving DecidableEq, Repr

/-- The loop of `calculateRound`. -/
def laterSpans (height : Nat) :
    List MilestoneSearchResult → Span → Except Exception Span
  | [], span => .ok span
  | next :: later, span =>
    if height < next.height then .ok span
    else
      let spanHeight : Int := next.height - span.milestoneHeight
      if spanHeight % span.activeValidators ≠ 0 then
        .error (.invalidMilestoneConfiguration (s!"Bad milestone at height: {height}. " ++
          "The number of validators can only be changed at the beginning of a new round."))
      else
        laterSpans height later
          { round := span.round + spanHeight / span.activeValidators
            roundHeight := next.height
            activeValidators := next.data
            milestoneHeight := next.height }

/-- The end of `calculateRound`. -/
def roundIn (span : Span) (height : Nat) : RoundInfo :=
  let heightFromLastSpan : Int := height - span.milestoneHeight
  let roundIncrease := heightFromLastSpan.fdiv span.activeValidators
  let nextRoundIncrease := if (heightFromLastSpan + 1) % span.activeValidators = 0 then 1 else 0
  { maxValidators := span.activeValidators
    nextRound := span.round + roundIncrease + nextRoundIncrease
    round := span.round + roundIncrease
    roundHeight := span.roundHeight + roundIncrease * span.activeValidators }

/-- The variables before the loop of `calculateRound`. -/
def firstSpan (c : MilestoneList) : Span := ⟨1, 1, (c.getMilestone 1).activeValidators, 1⟩

/-- The variables after the loop of `calculateRound`. -/
def spanAt (height : Nat) (c : MilestoneList) : Except Exception Span :=
  laterSpans height (laterActiveValidators c) (firstSpan c)

/-- `calculateRound(height, configuration)`. -/
def calculateRound (height : Nat) (c : MilestoneList) : Except Exception RoundInfo :=
  match spanAt height c with
  | .error e => .error e
  | .ok span => .ok (roundIn span height)

theorem calculateRound_eq_ok {height : Nat} {c : MilestoneList} {info : RoundInfo} :
    calculateRound height c = .ok info ↔
      ∃ span, spanAt height c = .ok span ∧ info = roundIn span height := by
  unfold calculateRound
  cases spanAt height c with
  | error e => simp
  | ok span => simp [eq_comm]

/-! ## 2. The span of a height -/

/-- The span that holds a height, beginning at height `q`: what is in force there is what the search
    found, and no further change comes up to the height. -/
structure SpanOf (c : MilestoneList) (height q : Nat) (span : Span) : Prop where
  milestoneHeight : span.milestoneHeight = q
  roundHeight : span.roundHeight = q
  one_le : 1 ≤ q
  le : q ≤ height
  last : ∀ next, c.getNextMilestoneWithNewKey q Milestone.activeValidators = some next →
    height < next.height
  origin : q = 1 ∧ span.activeValidators = (c.getMilestone 1).activeValidators ∨
    ∃ p, 1 ≤ p ∧ p < q ∧
      c.getNextMilestoneWithNewKey p Milestone.activeValidators = some ⟨span.activeValidators, q⟩

theorem laterSpans_spec {c : MilestoneList} {height : Nat} :
    ∀ {later : List MilestoneSearchResult} {p : Nat} {span span' : Span},
      c.Follows Milestone.activeValidators p later → 1 ≤ p → p ≤ height →
      span.milestoneHeight = p → span.roundHeight = p →
      (p = 1 ∧ span.activeValidators = (c.getMilestone 1).activeValidators ∨
        ∃ r, 1 ≤ r ∧ r < p ∧ c.getNextMilestoneWithNewKey r Milestone.activeValidators =
          some ⟨span.activeValidators, p⟩) →
      laterSpans height later span = .ok span' → ∃ q, SpanOf c height q span'
  | [], p, span, span', hfollows, hone, hle, hm, hr, horigin, h => by
    cases h
    have hnone : c.getNextMilestoneWithNewKey p Milestone.activeValidators = none := hfollows
    refine ⟨p, hm, hr, hone, hle, fun next hnext => ?_, horigin⟩
    rw [hnone] at hnext
    cases hnext
  | next :: later, p, span, span', hfollows, hone, hle, hm, hr, horigin, h => by
    obtain ⟨hnext, hrest⟩ := hfollows
    obtain ⟨-, -, hlt, -, -⟩ := MilestoneList.getNextMilestoneWithNewKey_eq_some hnext
    unfold laterSpans at h
    by_cases hheight : height < next.height
    · rw [if_pos hheight] at h
      cases h
      refine ⟨p, hm, hr, hone, hle, fun next' hnext' => ?_, horigin⟩
      rw [hnext] at hnext'
      cases hnext'
      exact hheight
    · rw [if_neg hheight] at h
      dsimp only at h
      split at h
      · cases h
      · exact laterSpans_spec hrest (by omega) (by omega) rfl rfl
          (Or.inr ⟨p, hone, hlt, hnext⟩) h

theorem spanAt_spec {c : MilestoneList} {height : Nat} {span : Span} (hheight : 1 ≤ height)
    (h : spanAt height c = .ok span) : ∃ q, SpanOf c height q span :=
  laterSpans_spec (c.follows_milestonesWithNewKey _) le_rfl hheight rfl rfl (Or.inl ⟨rfl, rfl⟩) h

/-- Before the next change the loop stops at once. -/
theorem laterSpans_of_le {c : MilestoneList} {height p : Nat} {later : List MilestoneSearchResult}
    (h : c.Follows Milestone.activeValidators p later) (hle : height ≤ p) (span : Span) :
    laterSpans height later span = .ok span := by
  cases later with
  | nil => rfl
  | cons next later =>
    obtain ⟨-, -, hlt, -, -⟩ := MilestoneList.getNextMilestoneWithNewKey_eq_some h.1
    unfold laterSpans
    exact if_pos (by omega)

/-- A change begins a new round. -/
structure Turns (height : Nat) (span span' : Span) : Prop where
  milestoneHeight : span'.milestoneHeight = height + 1
  roundHeight : span'.roundHeight = height + 1
  whole : (height + 1 - span.milestoneHeight) % span.activeValidators = 0
  round : span'.round = span.round + (height + 1 - span.milestoneHeight) / span.activeValidators

theorem laterSpans_succ {c : MilestoneList} {height : Nat} :
    ∀ {later : List MilestoneSearchResult} {p : Nat} {span span' : Span},
      c.Follows Milestone.activeValidators p later →
      laterSpans (height + 1) later span = .ok span' →
      ∃ span₁, laterSpans height later span = .ok span₁ ∧
        (span' = span₁ ∨ Turns height span₁ span')
  | [], p, span, span', hfollows, h => by
    cases h
    exact ⟨span, rfl, Or.inl rfl⟩
  | next :: later, p, span, span', hfollows, h => by
    obtain ⟨hnext, hrest⟩ := hfollows
    unfold laterSpans at h ⊢
    by_cases hheight : height + 1 < next.height
    · rw [if_pos hheight] at h
      rw [if_pos (by omega)]
      cases h
      exact ⟨span, rfl, Or.inl rfl⟩
    · rw [if_neg hheight] at h
      dsimp only at h ⊢
      split at h
      · cases h
      · rename_i hwhole
        by_cases hbefore : height < next.height
        · -- the change comes at `height + 1`, and the following ones later
          have hat : next.height = height + 1 := by omega
          rw [if_pos hbefore]
          refine ⟨span, rfl, Or.inr ?_⟩
          rw [laterSpans_of_le hrest hat.ge] at h
          cases h
          have hcast : (next.height : Int) = height + 1 := by omega
          rw [Decidable.not_not, hcast] at hwhole
          exact ⟨hcast, hcast, hwhole, by rw [← hcast]⟩
        · rw [if_neg hbefore, if_neg hwhole]
          exact laterSpans_succ hrest h

/-- **From one height to the next**: the same span, or a new one that begins there. -/
theorem spanAt_succ {c : MilestoneList} {height : Nat} {span' : Span}
    (h : spanAt (height + 1) c = .ok span') :
    ∃ span, spanAt height c = .ok span ∧ (span' = span ∨ Turns height span span') :=
  laterSpans_succ (c.follows_milestonesWithNewKey _) h

/-- Every change of the list comes a whole number of rounds after the one before, the first one
    after the height `start`, from which on `number` validators take turns. -/
def WholeRounds : Nat → Nat → List MilestoneSearchResult → Prop
  | _, _, [] => True
  | start, number, next :: later =>
    (next.height - start) % number = 0 ∧ WholeRounds next.height next.data later

instance decidableWholeRounds : ∀ (later : List MilestoneSearchResult) (start number : Nat),
    Decidable (WholeRounds start number later)
  | [], _, _ => isTrue trivial
  | next :: later, start, number =>
    have := decidableWholeRounds later next.height next.data
    inferInstanceAs (Decidable ((next.height - start) % number = 0 ∧ _))

theorem laterSpans_ok_iff {c : MilestoneList} :
    ∀ {later : List MilestoneSearchResult} {p : Nat} {span : Span},
      c.Follows Milestone.activeValidators p later → span.milestoneHeight = p →
      ((∀ height, ∃ span', laterSpans height later span = .ok span') ↔
        WholeRounds p span.activeValidators later)
  | [], p, span, _, _ => ⟨fun _ => trivial, fun _ _ => ⟨span, rfl⟩⟩
  | next :: later, p, span, hfollows, hm => by
    obtain ⟨hnext, hrest⟩ := hfollows
    obtain ⟨-, -, hlt, -, -⟩ := MilestoneList.getNextMilestoneWithNewKey_eq_some hnext
    have hwhole : ((next.height : Int) - span.milestoneHeight) % span.activeValidators = 0 ↔
        (next.height - p) % span.activeValidators = 0 := by
      have hcast : (next.height : Int) - span.milestoneHeight = ((next.height - p : Nat) : Int) := by
        omega
      rw [hcast, ← Int.natCast_mod]
      omega
    have hlater : (∀ height, ∃ span', laterSpans height later
        ⟨span.round + (next.height - span.milestoneHeight) / span.activeValidators, next.height,
          next.data, next.height⟩ = .ok span') ↔ WholeRounds next.height next.data later :=
      laterSpans_ok_iff hrest rfl
    constructor
    · intro h
      obtain ⟨span', h'⟩ := h next.height
      unfold laterSpans at h'
      rw [if_neg (lt_irrefl _)] at h'
      dsimp only at h'
      split at h'
      · cases h'
      · rename_i hok
        refine ⟨hwhole.1 (not_not.1 hok), hlater.1 fun height => ?_⟩
        by_cases hheight : height < next.height
        · exact ⟨_, laterSpans_of_le hrest hheight.le _⟩
        · obtain ⟨span₂, h₂⟩ := h height
          unfold laterSpans at h₂
          rw [if_neg hheight, if_neg hok] at h₂
          exact ⟨span₂, h₂⟩
    · intro h height
      unfold laterSpans
      by_cases hheight : height < next.height
      · rw [if_pos hheight]
        exact ⟨span, rfl⟩
      · rw [if_neg hheight]
        dsimp only
        rw [if_neg (not_not.2 (hwhole.2 h.1))]
        exact hlater.2 h.2 height

/-- **`calculateRound` throws at no height when the changes come a whole number of rounds apart, and
    only then.** -/
theorem calculateRound_ok_iff (c : MilestoneList) :
    (∀ height, ∃ info, calculateRound height c = .ok info) ↔
      WholeRounds 1 (c.getMilestone 1).activeValidators (laterActiveValidators c) := by
  have hspan : (∀ height, ∃ span, spanAt height c = .ok span) ↔
      WholeRounds 1 (c.getMilestone 1).activeValidators (laterActiveValidators c) :=
    laterSpans_ok_iff (c.follows_milestonesWithNewKey _) rfl
  rw [← hspan]
  refine forall_congr' fun height => ?_
  constructor
  · rintro ⟨info, h⟩
    obtain ⟨span, hspan, -⟩ := calculateRound_eq_ok.1 h
    exact ⟨span, hspan⟩
  · rintro ⟨span, h⟩
    exact ⟨_, calculateRound_eq_ok.2 ⟨span, h, rfl⟩⟩

/-! ## 3. The milestone `isNewRound` counts from -/

/-- From a milestone that was found, the loop goes back as long as the number stays the same. -/
theorem spanMilestone_some {height : Nat} (r : List Milestone) :
    ∀ (found : Milestone), (∀ m ∈ r, m.height ≤ height) →
      ∃ before m after, spanMilestone height r.reverse (some found) = some m ∧
        r ++ [found] = before ++ m :: after ∧ m.activeValidators = found.activeValidators ∧
        (∀ b ∈ after, b.activeValidators = found.activeValidators) ∧
        ∀ b ∈ before.getLast?, b.activeValidators ≠ found.activeValidators := by
  induction r using List.reverseRecOn with
  | nil =>
    intro found _
    exact ⟨[], found, [], rfl, rfl, rfl, fun _ h => (nomatch h), fun _ h => (nomatch h)⟩
  | append_singleton r e ih =>
    intro found hr
    rw [List.reverse_append, List.reverse_singleton, List.singleton_append]
    unfold spanMilestone
    have he : ¬ e.height > height := by
      have := hr e (List.mem_append_right _ List.mem_cons_self)
      omega
    rw [if_neg he]
    dsimp only
    by_cases hsame : e.activeValidators = found.activeValidators
    · rw [if_pos hsame]
      obtain ⟨before, m, after, hm, hsplit, hav, hafter, hbefore⟩ :=
        ih e fun m hm => hr m (List.mem_append_left _ hm)
      refine ⟨before, m, after ++ [found], hm, ?_, hav.trans hsame, fun b hb => ?_,
        fun b hb => hsame ▸ hbefore b hb⟩
      · rw [hsplit, List.append_assoc, List.cons_append]
      · rcases List.mem_append.1 hb with hb | hb
        · exact (hafter b hb).trans hsame
        · rw [List.mem_singleton.1 hb]
    · rw [if_neg hsame]
      refine ⟨r ++ [e], found, [], rfl, rfl, rfl, fun _ h => (nomatch h), fun b hb => ?_⟩
      rw [List.getLast?_concat, Option.mem_some_iff] at hb
      exact hb ▸ hsame

theorem spanMilestone_cons_of_lt {height : Nat} {m : Milestone} (h : height < m.height)
    (earlier : List Milestone) (milestone : Option Milestone) :
    spanMilestone height (m :: earlier) milestone = spanMilestone height earlier milestone := by
  conv_lhs => unfold spanMilestone
  exact if_pos h

theorem spanMilestone_skip {height : Nat} (later earlier : List Milestone) :
    (∀ m ∈ later, height < m.height) → ∀ milestone,
      spanMilestone height (later ++ earlier) milestone = spanMilestone height earlier milestone := by
  induction later with
  | nil => exact fun _ _ => rfl
  | cons m later ih =>
    intro h milestone
    rw [List.cons_append, spanMilestone_cons_of_lt (h m List.mem_cons_self)]
    exact ih (fun m' hm' => h m' (List.mem_cons_of_mem _ hm')) milestone

/-- **Where the loop of `isNewRound` stops**: at a milestone from which on all that have begun name
    the number in force, while the one before it names another. -/
theorem spanMilestone_spec {c : MilestoneList} {height : Nat} (hheight : 1 ≤ height) :
    ∃ before m after later, spanMilestone height c.milestones.reverse none = some m ∧
      c.milestones = before ++ m :: (after ++ later) ∧
      m.activeValidators = (c.getMilestone height).activeValidators ∧ m.height ≤ height ∧
      (∀ b ∈ after, b.activeValidators = (c.getMilestone height).activeValidators) ∧
      (∀ b ∈ before.getLast?, b.activeValidators ≠ (c.getMilestone height).activeValidators) ∧
      ∀ b ∈ later, height < b.height := by
  obtain ⟨r, later, hsplit, hbegun, hlater⟩ := c.inForce_getMilestone hheight
  have hsorted := c.pairwise_milestones
  rw [hsplit] at hsorted
  have hr : ∀ m ∈ r, m.height ≤ height := fun m hm =>
    ((List.pairwise_append.1 hsorted).2.2 m hm _ List.mem_cons_self).trans hbegun
  obtain ⟨before, m, after, hm, hmid, hav, hafter, hbefore⟩ := spanMilestone_some r _ hr
  have hwhole : c.milestones = before ++ m :: (after ++ later) := by
    rw [hsplit, ← List.singleton_append (l := later), ← List.append_assoc, hmid,
      List.append_assoc, List.cons_append]
  have hmem : m ∈ r ++ [c.getMilestone height] := by
    rw [hmid]
    exact List.mem_append_right _ List.mem_cons_self
  refine ⟨before, m, after, later, ?_, hwhole, hav, ?_, hafter, hbefore, hlater⟩
  · rw [hsplit, List.reverse_append, List.reverse_cons, List.append_assoc,
      spanMilestone_skip _ _ fun b hb => hlater b (List.mem_reverse.1 hb), List.singleton_append]
    unfold spanMilestone
    rw [if_neg (by omega)]
    exact hm
  · rcases List.mem_append.1 hmem with hm | hm
    · exact hr m hm
    · rw [List.mem_singleton.1 hm]
      exact hbegun

end RoundCalculator

end CoreEx
