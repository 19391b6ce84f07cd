/-
  File:      CoreEx/Properties/MissedBlocks.lean
  Subject:   Whether missed blocks are charged to the validators whose turn it was.

  `detectMissedBlocks` takes the remainder of the slot number, as `calculateForgingInfo` does before
  the number of validators was changed for the first time. It leaves out the first block after the
  genesis block: whoever missed a slot before that is not reported.

  * `scheduledValidator`, `ChargesScheduled` -- the two formulas agree on every empty slot;
  * `RegularTurns` -- as many validators as the first milestone says, and slots from 0 on;
  * `spanAt_next` -- the slots are the same at the height of the last block and at the next one;
  * **`chargesScheduled`** -- who is reported;
  * **`genesisSlot_not`** -- a slot missed after the genesis block.
-/
import CoreEx.Properties.ForgingSchedule
import CoreEx.Properties.MultiSignature
import CoreEx.Properties.SlotChain
import CoreEx.Rounds.RoundState

namespace CoreEx

open ForgingInfo RoundState

/-! ## 1. Empty slots and their validators -/

/-- The validator `calculateForgingInfo` schedules. -/
def scheduledValidator (env : TimeServices) (forgingValidators : List ForgingValidator)
    (timestamp : Int) (height : Nat) : Option ForgingValidator :=
  match (calculateForgingInfo env (.int timestamp) height).settled with
  | .ok info => Number.index forgingValidators info.currentForger
  | .error _ => none

/-- If the slots of both blocks can be computed: for the slots between the two, one round of them at
    most, exactly those are reported whose turn it was, in the order of the slots. -/
def ChargesScheduled (env : TimeServices) (store : StateStore)
    (forgingValidators : List ForgingValidator) (last block : Block) : Prop :=
  ∀ lastSlot currentSlot : Int,
    slotAt env last.data.timestamp last.data.height = some lastSlot →
    slotAt env block.data.timestamp block.data.height = some currentSlot →
    ∃ missed : List ForgingValidator,
      (∀ reported, (detectMissedBlocks env store forgingValidators block).run reported =
        .done () (reported ++ missed)) ∧
      missed.length = min (currentSlot - lastSlot - 1).toNat forgingValidators.length ∧
      ∀ index < missed.length, ∀ timestamp,
        slotAt env timestamp block.data.height = some (lastSlot + 1 + index) →
        scheduledValidator env forgingValidators timestamp block.data.height = missed[index]?

/-- The number of validators has not been changed, the round is complete, and the slot is not before
    the first one. -/
structure RegularTurns (env : TimeServices) (forgingValidators : List ForgingValidator)
    (height : Nat) (slot : Int) : Prop where
  unchanged : inForce env.configuration height = none
  complete : forgingValidators.length = (env.configuration.getMilestone 1).activeValidators
  begun : 0 ≤ slot

/-! ## 2. The slots at two heights -/

variable {env : TimeServices} {store : StateStore} {forgingValidators : List ForgingValidator}
  {last block : Block}

/-- Heights with the same changes before them have the same span. -/
theorem laterSpans_congr {height height' : Nat} {later : List MilestoneSearchResult}
    (h : ∀ next ∈ later, height < next.height ↔ height' < next.height) : ∀ span : Slots.Span,
    Slots.laterSpans env height later span = Slots.laterSpans env height' later span := by
  induction later with
  | nil => exact fun _ => rfl
  | cons next later ih =>
    intro span
    have hrest := ih fun m hm => h m (List.mem_cons_of_mem _ hm)
    unfold Slots.laterSpans
    simp only [h next List.mem_cons_self, hrest]

/-- **Where the block time does not change, the slots of the last block's height and of the next one
    are the same.** -/
theorem spanAt_next {height : Nat} (hheight : env.height = height)
    (h : ∀ next ∈ Slots.laterBlockTimes env.configuration, next.height ≠ height + 1) :
    Slots.spanAt env (height + 1) = Slots.spanAt env height := by
  unfold Slots.spanAt
  cases Slots.firstSpan env with
  | error e => rfl
  | ok first =>
    refine laterSpans_congr (fun next hnext => ?_) first
    have hne := h next hnext
    have hlow : 1 < next.height := MilestoneList.one_lt_height hnext
    unfold Slots.getLatestHeight
    by_cases hzero : height = 0
    · rw [hheight, hzero]
      exact Iff.rfl
    · rw [if_pos (Nat.succ_ne_zero height), if_pos hzero]
      omega

/-- Without a height the slot is that at the height of the configuration. -/
theorem getSlotNumber_default {height : Nat} (hheight : env.height = height) {timestamp slot : Int}
    (h : slotAt env timestamp height = some slot) :
    (Slots.getSlotNumber env (.int timestamp) 0).settled = .ok (.int slot) := by
  have hspan : Slots.spanAt env 0 = Slots.spanAt env height := by
    unfold Slots.spanAt Slots.getLatestHeight
    rw [hheight]
    by_cases hzero : height = 0
    · rw [hzero]
    · rw [if_pos hzero, if_neg (not_not.2 rfl), if_pos hzero]
  rw [getSlotNumber_iff_slotAt]
  unfold slotAt at h ⊢
  rw [hspan]
  exact h

/-! ## 3. Who is reported -/

/-- A slot from 0 on has its position in the round, and whoever has it is reported. -/
theorem reportMissed_done {slot : Int} (hslot : 0 ≤ slot) (hsome : forgingValidators ≠ []) :
    ∃ validator, Number.index forgingValidators
        (Number.rem (.int slot) (.int forgingValidators.length)) = some validator ∧
      ∀ reported, (reportMissed forgingValidators (.int slot)).run reported =
        .done () (reported ++ [validator]) := by
  have hlength : 0 < forgingValidators.length := List.length_pos_iff.2 hsome
  have hindex := Number.index_rem forgingValidators slot hlength.ne'
  rw [if_neg (by omega)] at hindex
  have hlt : (slot % (forgingValidators.length : Int)).toNat < forgingValidators.length := by
    have hhigh := Int.emod_lt_of_pos slot (show (0 : Int) < forgingValidators.length by omega)
    omega
  rw [List.getElem?_eq_getElem hlt] at hindex
  refine ⟨_, hindex, fun reported => ?_⟩
  unfold reportMissed
  rw [hindex]
  rfl

/-- The reports of the loop. -/
theorem missed_of_run (forgingValidators : List ForgingValidator)
    (hlast : store.lastBlock? = some last) (hgenesis : last.data.height ≠ 1)
    {lastSlot currentSlot : Int}
    (hlastSlot : (Slots.getSlotNumber env (.int last.data.timestamp) 0).settled =
      .ok (.int lastSlot))
    (hcurrentSlot : (Slots.getSlotNumber env (.int block.data.timestamp) 0).settled =
      .ok (.int currentSlot))
    (hbegun : lastSlot + 1 < currentSlot → 0 ≤ lastSlot + 1) :
    ∃ missed : List ForgingValidator,
      (∀ reported, (detectMissedBlocks env store forgingValidators block).run reported =
        .done () (reported ++ missed)) ∧
      missed.map some =
        (List.range (min (currentSlot - lastSlot - 1) forgingValidators.length).toNat).map
          fun index : Nat => Number.index forgingValidators
            (Number.rem (.int (lastSlot + 1 + index)) (.int forgingValidators.length)) := by
  have hpass : ∀ index ∈ List.range
      (min (currentSlot - lastSlot - 1) forgingValidators.length).toNat,
      ∃ validator, Number.index forgingValidators
          (Number.rem (.int (lastSlot + 1 + (index : Nat))) (.int forgingValidators.length)) =
            some validator ∧
        ∀ reported, (reportMissed forgingValidators (.int (lastSlot + 1 + (index : Nat)))).run
          reported = .done () (reported ++ [validator]) := by
    intro index hindex
    have hbound := List.mem_range.1 hindex
    have hempty := hbegun (by omega)
    refine reportMissed_done (by omega) (List.ne_nil_of_length_pos ?_)
    omega
  obtain ⟨missed, hmissed, hrun⟩ := Prog.forEach_collect hpass
  refine ⟨missed, fun reported => ?_, hmissed⟩
  rw [detectMissedBlocks_run hlast hgenesis forgingValidators hlastSlot hcurrentSlot, hrun]

/-- The validator of a slot, before the first change of the number of validators. -/
theorem scheduledValidator_first {height : Nat}
    (hunchanged : inForce env.configuration height = none) {timestamp slot : Int}
    (hslot : slotAt env timestamp height = some slot) :
    scheduledValidator env forgingValidators timestamp height = Number.index forgingValidators
      (Number.rem (.int slot) (.int (env.configuration.getMilestone 1).activeValidators)) := by
  obtain ⟨info, hinfo, hforger, -⟩ := calculateForgingInfo_first hunchanged hslot
  unfold scheduledValidator
  rw [hinfo, ← hforger]

/-- **After the genesis block nobody is reported. After any other block, where both slots can be
    computed, the block time does not change and the turns are regular, exactly the validators are
    whose turn the empty slots were.** -/
theorem chargesScheduled (hat : AtLastBlock env store last)
    (hchained : block.data.height = last.data.height + 1) :
    (last.data.height = 1 → ∀ reported,
      (detectMissedBlocks env store forgingValidators block).run reported = .done () reported) ∧
    (last.data.height ≠ 1 →
      (∀ next ∈ Slots.laterBlockTimes env.configuration, next.height ≠ block.data.height) →
      (∀ lastSlot currentSlot : Int,
        slotAt env last.data.timestamp last.data.height = some lastSlot →
        slotAt env block.data.timestamp block.data.height = some currentSlot →
        lastSlot + 1 < currentSlot →
          RegularTurns env forgingValidators block.data.height (lastSlot + 1)) →
      ChargesScheduled env store forgingValidators last block) := by
  refine ⟨fun hgenesis => detectMissedBlocks_genesis hat.lastBlock hgenesis _ _,
    fun hgenesis hblockTime hregular lastSlot currentSlot hlastSlot hcurrentSlot => ?_⟩
  have hturns := hregular lastSlot currentSlot hlastSlot hcurrentSlot
  rw [hchained] at hblockTime
  have hspan := spanAt_next hat.height hblockTime
  have hsame : ∀ timestamp, slotAt env timestamp block.data.height =
      slotAt env timestamp last.data.height := by
    intro timestamp
    unfold slotAt
    rw [hchained, hspan]
  obtain ⟨missed, hrun, hmissed⟩ := missed_of_run forgingValidators hat.lastBlock hgenesis
    (getSlotNumber_default hat.height hlastSlot)
    (getSlotNumber_default hat.height ((hsame _).symm.trans hcurrentSlot))
    fun hempty => (hturns hempty).begun
  have hlength : missed.length = (min (currentSlot - lastSlot - 1)
      (forgingValidators.length : Int)).toNat := by
    have hcount := congrArg List.length hmissed
    rwa [List.length_map, List.length_map, List.length_range] at hcount
  refine ⟨missed, hrun, by omega, fun index hindex timestamp hslot => ?_⟩
  have hturn := hturns (by omega)
  have hat' := congrArg (·[index]?) hmissed
  simp only [List.getElem?_map] at hat'
  rw [List.getElem?_range (by omega), List.getElem?_eq_getElem hindex] at hat'
  rw [scheduledValidator_first hturn.unchanged hslot, ← hturn.complete,
    List.getElem?_eq_getElem hindex]
  exact (Option.some.inj hat').symm

/-! ## 4. The first slots -/

namespace Sample

/-- Two validators up to height 4, and three from height 5 on. -/
def growingValidators : Configuration :=
  .of ⟨1, 2, ⟨1000, 10, 0⟩, 8, 0, 100⟩ [⟨5, some 3, none, none, none, none, none, none⟩] (by decide)

def growingTime (height : Nat) : TimeServices where
  configuration := growingValidators
  height := height
  findBlockTimestampByHeight _ := .ok 0

/-- A block without transactions. -/
def timedBlock (height : Nat) (timestamp : Int) : Block :=
  ⟨{ header height 0 0 with timestamp := timestamp }, []⟩

/-- Nothing but the last block is kept. -/
def storeOf (last : Block) : StateStore :=
  ⟨⟨[(last.data.height, last)], List.nodup_singleton _⟩, 1, last.data.height, 0, 0⟩

def pair : List ForgingValidator := [⟨some alice, 1, "alice", 0⟩, ⟨some carol, 1, "carol", 0⟩]

end Sample

/-- Two slots are empty between the blocks of the heights 2 and 3. -/
theorem chargesScheduled_sample : ChargesScheduled (Sample.growingTime 2)
    (Sample.storeOf (Sample.timedBlock 2 8)) Sample.pair (Sample.timedBlock 2 8)
    (Sample.timedBlock 3 32) := by
  have hslot : slotAt (Sample.growingTime 2) 8 2 = some 1 := by decide
  refine (chargesScheduled ⟨rfl, rfl⟩ rfl).2 (by decide) (by decide)
    fun lastSlot currentSlot hlastSlot _ _ => ?_
  obtain rfl : (1 : Int) = lastSlot := Option.some.inj (hslot.symm.trans hlastSlot)
  exact ⟨by decide, rfl, by decide⟩

/-- **A slot missed after the genesis block** is charged to nobody: the block of height 2 comes two
    slots later, and `carol` was to forge the first of them. -/
theorem genesisSlot_not : ¬ChargesScheduled (Sample.growingTime 1)
    (Sample.storeOf (Sample.timedBlock 1 0)) Sample.pair (Sample.timedBlock 1 0)
    (Sample.timedBlock 2 16) := by
  intro h
  obtain ⟨missed, hrun, hlength, -⟩ := h 0 2 (by decide) (by decide)
  have hnone : (detectMissedBlocks (Sample.growingTime 1) (Sample.storeOf (Sample.timedBlock 1 0))
      Sample.pair (Sample.timedBlock 2 16)).run [] = .done () [] :=
    detectMissedBlocks_genesis rfl rfl _ _ _
  rw [hrun] at hnone
  obtain rfl : missed = [] := by
    injection hnone
  exact absurd hlength (by decide)

end CoreEx
