/-
  File:      CoreEx/Properties/ForgingSchedule.lean
  Subject:   Whether every slot has its forger.

  As long as the number of validators has not changed, the forger of a slot is the remainder of the
  slot's number. After the first change it is no number: `findIndex` computes with a promise. And the
  remainder of a negative slot number is negative.

  * `ScheduleDefined` -- a forger and a next one, in range, and one after the other;
  * `calculateForgingInfo_first` -- what the code finds before the first change;
  * **`scheduleDefined_iff`** -- for which slots the schedule is defined;
  * **`changedValidators_not`** -- a slot after a change.
-/
import CoreEx.Rounds.ForgingInfo

namespace CoreEx

open ForgingInfo

/-! ## 1. The schedule -/

/-- The forgers of a slot and of the next one are positions among the active validators, and the
    slots that follow in the same span have the forgers that follow. -/
def ScheduleDefined (env : TimeServices) (timestamp : Int) (height : Nat) : Prop :=
  ∃ (info : ForgingInfo) (currentForger nextForger : Int),
    (calculateForgingInfo env (.int timestamp) height).settled = .ok info ∧
    info.currentForger = .int currentForger ∧ info.nextForger = .int nextForger ∧
    (0 ≤ currentForger ∧
      currentForger < (env.configuration.getMilestone height).activeValidators) ∧
    nextForger = (currentForger + 1) % (env.configuration.getMilestone height).activeValidators ∧
    ∀ (timestamp' : Int) (height' : Nat) (slot : Int) (info' : ForgingInfo),
      inForce env.configuration height' = inForce env.configuration height →
      slotAt env timestamp height = some slot → slotAt env timestamp' height' = some (slot + 1) →
      (calculateForgingInfo env (.int timestamp') height').settled = .ok info' →
      info'.currentForger = .int nextForger

/-! ## 2. Before the first change -/

variable {env : TimeServices} {height : Nat} {timestamp : Int}

theorem inForce_eq_none {c : MilestoneList} (h : inForce c height = none) :
    ∀ next ∈ (laterActiveValidators c).head?, height < next.height := by
  intro next hnext
  unfold inForce at h
  cases hlater : laterActiveValidators c with
  | nil =>
    rw [hlater] at hnext
    cases hnext
  | cons m later =>
    rw [hlater] at h hnext
    cases hnext
    by_contra hle
    rw [List.takeWhile_cons_of_pos (by simpa using hle), List.getLast?_eq_none_iff] at h
    cases h

/-- The number in force is then still the first one, unless a milestone says that nobody forges. -/
theorem activeValidators_first {c : MilestoneList} (hheight : 1 ≤ height)
    (h : inForce c height = none) : (c.getMilestone height).activeValidators = 0 ∨
      (c.getMilestone height).activeValidators = (c.getMilestone 1).activeValidators := by
  have hforce := c.inForce_getMilestone hheight
  by_cases hold : (c.getMilestone height).height ≤ 1
  · obtain ⟨before, later, hsplit, -, hlater⟩ := hforce
    have hfirst : Timeline.InForce Milestone.height c.milestones 1 (c.getMilestone height) :=
      ⟨before, later, hsplit, hold, fun b hb => by
        have := hlater b hb
        omega⟩
    rw [hfirst.unique (c.inForce_getMilestone le_rfl)]
    exact Or.inr rfl
  · have hfollows := c.follows_milestonesWithNewKey Milestone.activeValidators
    have hhead := inForce_eq_none h
    unfold laterActiveValidators at hhead
    cases hlater : c.milestonesWithNewKey Milestone.activeValidators with
    | nil =>
      rw [hlater] at hfollows
      exact MilestoneList.getNextMilestoneWithNewKey_eq_none hfollows hforce.mem (by omega)
    | cons next later =>
      rw [hlater] at hfollows hhead
      obtain ⟨-, -, -, -, hbetween⟩ :=
        MilestoneList.getNextMilestoneWithNewKey_eq_some hfollows.1
      exact hbetween _ hforce.mem (by omega) (hforce.begun.trans_lt (hhead next rfl))

theorem spanAt_first (h : inForce env.configuration height = none) : ForgingInfo.spanAt env height =
    .ok ⟨.int 0, (env.configuration.getMilestone 1).activeValidators⟩ := by
  have hhead := inForce_eq_none h
  unfold ForgingInfo.spanAt
  cases hlater : laterActiveValidators env.configuration with
  | nil => rfl
  | cons next later =>
    unfold ForgingInfo.laterSpans
    exact if_pos (hhead next (by rw [hlater]; rfl))

/-- **Before the first change** the forger is the remainder of the slot number. -/
theorem calculateForgingInfo_first (h : inForce env.configuration height = none) {slot : Int}
    (hslot : slotAt env timestamp height = some slot) :
    ∃ info, (calculateForgingInfo env (.int timestamp) height).settled = .ok info ∧
      info.currentForger = Number.rem (.int slot)
        (.int (env.configuration.getMilestone 1).activeValidators) ∧
      info.nextForger = Number.rem (info.currentForger + .int 1)
        (.int (env.configuration.getMilestone 1).activeValidators) := by
  obtain ⟨span, hspan, rfl⟩ := slotAt_eq_some.1 hslot
  unfold calculateForgingInfo Slots.getSlotInfo
  rw [hspan, spanAt_first h]
  refine ⟨_, rfl, ?_, rfl⟩
  show Number.rem (_ - .int 0) _ = _
  rw [Slots.slotNumber_int hspan, Number.int_sub, Int.sub_zero]

/-- A remainder that is a number. -/
theorem rem_eq_int {m k : Int} {n : Nat} (h : Number.rem (.int m) (.int n) = .int k) :
    n ≠ 0 ∧ k = m.tmod n := by
  by_cases hn : n = 0
  · subst hn
    cases h
  · rw [Number.rem_int m (by omega)] at h
    exact ⟨hn, (Number.int.inj h).symm⟩

/-- The following slot, at the same height. -/
theorem slotAt_next {slot : Int} (h : slotAt env timestamp height = some slot) :
    ∃ timestamp', slotAt env timestamp' height = some (slot + 1) := by
  obtain ⟨span, hspan, rfl⟩ := slotAt_eq_some.1 h
  have hne : (span.blockTime : Int) ≠ 0 := by
    have := Slots.spanAt_blockTime hspan
    omega
  refine ⟨timestamp + span.blockTime, slotAt_eq_some.2 ⟨span, hspan, ?_⟩⟩
  have hshift : timestamp + span.blockTime - span.lastSpanEndTime =
      timestamp - span.lastSpanEndTime + 1 * span.blockTime := by omega
  rw [hshift, Int.add_mul_fdiv_right _ _ hne]
  omega

/-! ## 3. When the schedule is defined -/

/-- **The schedule is defined for the slots from 0 on, at the heights before the first change of the
    number of validators; and when there is one validator only, for the slots before 0 too.** -/
theorem scheduleDefined_iff (hheight : 1 ≤ height) : ScheduleDefined env timestamp height ↔
    inForce env.configuration height = none ∧
      0 < (env.configuration.getMilestone height).activeValidators ∧
      ∃ slot, slotAt env timestamp height = some slot ∧
        (0 ≤ slot ∨ (env.configuration.getMilestone height).activeValidators = 1) := by
  constructor
  · rintro ⟨info, currentForger, nextForger, hinfo, hcurrent, -, ⟨hlow, hhigh⟩, hnext, hlater⟩
    obtain ⟨slot, hslot, hforger⟩ := currentForger_eq hinfo
    have hnone : inForce env.configuration height = none := by
      cases hin : inForce env.configuration height with
      | none => rfl
      | some next =>
        rw [hin, hcurrent] at hforger
        cases hforger
    rw [hnone, hcurrent] at hforger
    have hnumber : activeValidators env.configuration height =
        (env.configuration.getMilestone 1).activeValidators := by
      unfold activeValidators
      rw [hnone]
      rfl
    obtain ⟨hpositive, hmod⟩ := rem_eq_int hforger.symm
    rw [hnumber] at hpositive hmod
    have hsame := (activeValidators_first hheight hnone).resolve_left (by omega)
    rw [hsame] at hhigh hnext
    rw [hsame]
    refine ⟨hnone, by omega, slot, hslot, ?_⟩
    by_contra hcon
    obtain ⟨hneg, hmany⟩ := not_or.1 hcon
    -- a negative slot with remainder 0; the one after it has a negative remainder
    obtain ⟨timestamp', hslot'⟩ := slotAt_next hslot
    obtain ⟨info', hinfo', hcurrent', -⟩ := calculateForgingInfo_first hnone hslot'
    have hconsecutive := hlater timestamp' height slot info' rfl hslot hslot' hinfo'
    rw [hcurrent'] at hconsecutive
    obtain ⟨-, hmod'⟩ := rem_eq_int hconsecutive
    generalize hn : (env.configuration.getMilestone 1).activeValidators = n at *
    have hle : 0 ≤ (-slot).tmod (n : Int) := Int.tmod_nonneg (n : Int) (by omega)
    rw [Int.neg_tmod] at hle
    have hzero : currentForger = 0 := by omega
    have hle' : 0 ≤ (-(slot + 1)).tmod (n : Int) := Int.tmod_nonneg (n : Int) (by omega)
    rw [Int.neg_tmod] at hle'
    have hone : (0 + 1 : Int) % n = 1 := Int.emod_eq_of_lt (by omega) (by omega)
    rw [hzero, hone] at hnext
    omega
  · rintro ⟨hnone, hpositive, slot, hslot, hcases⟩
    have hsame := (activeValidators_first hheight hnone).resolve_left (by omega)
    obtain ⟨info, hinfo, hcurrent, hnext⟩ := calculateForgingInfo_first hnone hslot
    unfold ScheduleDefined
    rw [hsame] at hpositive hcases ⊢
    generalize hn : (env.configuration.getMilestone 1).activeValidators = n at *
    have hn' : (n : Int) ≠ 0 := by omega
    -- the remainder is the one that is not negative
    have hmod : ∀ m : Int, slot ≤ m → m.tmod n = m % n := by
      intro m hm
      rcases hcases with hslot0 | hone
      · exact Int.tmod_eq_emod_of_nonneg (by omega)
      · rw [hone]
        simp
    have hlow := Int.emod_nonneg slot hn'
    have hhigh := Int.emod_lt_of_pos slot (show (0 : Int) < n by omega)
    rw [Number.rem_int _ hn', hmod slot le_rfl] at hcurrent
    refine ⟨info, slot % n, (slot % n + 1) % n, hinfo, hcurrent, ?_, ⟨hlow, hhigh⟩, rfl,
      fun timestamp' height' slot₀ info' hsame' hslot₀ hslot' hinfo' => ?_⟩
    · rw [hnext, hcurrent, Number.int_add, Number.rem_int _ hn',
        Int.tmod_eq_emod_of_nonneg (by omega)]
    · obtain rfl := Option.some.inj (hslot.symm.trans hslot₀)
      obtain ⟨info₁, hinfo₁, hcurrent₁, -⟩ :=
        calculateForgingInfo_first (hsame'.trans hnone) hslot'
      obtain rfl := Except.ok.inj (hinfo'.symm.trans hinfo₁)
      rw [hcurrent₁, hn, Number.rem_int _ hn', hmod (slot + 1) (by omega), Int.emod_add_emod]

/-! ## 4. After a change -/

namespace Sample

/-- One validator at height 1, and two from height 2 on. -/
def changedValidators : Configuration :=
  .of ⟨1, 1, ⟨1000, 10, 0⟩, 8, 0, 100⟩
    [⟨2, some 2, none, none, none, none, none, none⟩] (by decide)

/-- The genesis block is stored. -/
def changedValidatorsTime : TimeServices where
  configuration := changedValidators
  height := 1
  findBlockTimestampByHeight _ := .ok 0

end Sample

theorem scheduleDefined_iff_sample : ScheduleDefined Sample.changedValidatorsTime 8 2 ↔
    inForce Sample.changedValidators 2 = none ∧
      0 < (Sample.changedValidators.getMilestone 2).activeValidators ∧
      ∃ slot, slotAt Sample.changedValidatorsTime 8 2 = some slot ∧
        (0 ≤ slot ∨ (Sample.changedValidators.getMilestone 2).activeValidators = 1) :=
  scheduleDefined_iff (by decide)

/-- **After a change** of the number of validators the forger is no number. -/
theorem changedValidators_not : ¬ScheduleDefined Sample.changedValidatorsTime 8 2 := by
  rintro ⟨info, currentForger, nextForger, hinfo, hcurrent, -⟩
  have hnan : ((calculateForgingInfo Sample.changedValidatorsTime (.int 8) 2).settled.map
      (·.currentForger)).toOption = some .nan := by decide
  rw [hinfo] at hnan
  have hforger : info.currentForger = .nan := Option.some.inj hnan
  rw [hforger] at hcurrent
  cases hcurrent

end CoreEx
