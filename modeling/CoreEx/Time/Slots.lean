/-
  File:      CoreEx/Time/Slots.lean
  Subject:   `core-crypto-time/source`: which slot a timestamp falls in.

  Slots are as long as the block time of the milestone in force. Between two milestones that change
  it lies a span; the slots of the finished spans are counted from the timestamps of their last
  blocks, the rest from the end of the last of them.

  * `calculateBlockTime`, `getBlockTimeLookup` -- `block-time-calculator.ts`, `block-time-lookup.ts`;
  * `Span`, `spanAt` -- the loop of `getSlotInfo`;
  * `getSlotInfo`, `getSlotNumber`, `getSlotTime` -- `slots.ts`; a timestamp may be no number;
  * `calculateSlotTime`, **`getSlotTime_eq`** -- the second loop, and that it agrees with the first;
  * **`slotNumber_int`** -- the slot of a timestamp.
-/
import CoreEx.Crypto.Configuration
import CoreEx.Lib.Number

namespace CoreEx

/-- What the slots read. -/
structure TimeServices where
  configuration : Configuration
  /-- `configuration.getHeight()`; 0 before it was set. -/
  height : Nat
  /-- `(await database.findBlockByHeights([height]))[0].data.timestamp`. -/
  findBlockTimestampByHeight : Nat → Except Exception Int
  /-- What `withBlockTimeLookup(callback)` has set. -/
  transientBlockTimeLookup : Option (Nat → Except Exception Int) := none

/-- `SlotInfo`. -/
structure SlotInfo where
  blockTime : Nat
  endTime : Number
  forgingStatus : Bool
  slotNumber : Number
  startTime : Number
  deriving DecidableEq, Repr

namespace Slots

/-! ## 1. Block times -/

/-- `calculateBlockTime(height)`: the array it walks from behind is the merged one. -/
def calculateBlockTime (c : MilestoneList) (height : Nat) : Except Exception Nat :=
  match c.milestones.reverse.find? fun m => m.height ≤ height ∧ m.blockTime ≠ 0 with
  | some milestone => .ok milestone.blockTime
  | none => .error (.error "No milestones specifying any height were found")

/-- `getMilestonesWhichAffectBlockTimes()` without the entry of height 1; the loops step through
    the same milestones with `getNextMilestoneWithNewKey`. -/
def laterBlockTimes (c : MilestoneList) : List MilestoneSearchResult :=
  c.milestonesWithNewKey Milestone.blockTime

/-- The loop of `getBlockTimeLookup`: the map from heights to timestamps, newest entry first. -/
def heightMappedToBlockTimestamp (env : TimeServices) (height : Nat) :
    List MilestoneSearchResult → List (Nat × Int) → Except Exception (List (Nat × Int))
  | [], known => .ok known
  | next :: later, known =>
    if next.height ≤ height then
      match env.findBlockTimestampByHeight (next.height - 1) with
      | .error e => .error e
      | .ok timestamp =>
        heightMappedToBlockTimestamp env height later ((next.height - 1, timestamp) :: known)
    else .ok known

/-- `getBlockTimeLookup(height)`. -/
def getBlockTimeLookup (env : TimeServices) (height : Nat) : Promise Exception Int :=
  ⟨match heightMappedToBlockTimestamp env height (laterBlockTimes env.configuration) [(1, 0)] with
    | .error e => .error e
    | .ok known =>
      match known.lookup height with
      | some result => .ok result
      | none => .error (.error (s!"Attempted lookup of block height {height} for milestone span " ++
          "calculation, but none exists."))⟩

/-- `#getBlockTimeLookup(height)` of `Slots`. -/
def lookup (env : TimeServices) (height : Nat) : Except Exception Int :=
  match env.transientBlockTimeLookup with
  | some callback => callback height
  | none => (getBlockTimeLookup env height).settled

/-! ## 2. Spans -/

/-- The variables of the loop of `getSlotInfo`. -/
structure Span where
  blockTime : Nat
  totalSlotsFromLastSpan : Int
  lastSpanEndTime : Int
  previousMilestoneHeight : Nat
  deriving DecidableEq, Repr

/-- `#getLatestHeight(height)`; 0 is no height. -/
def getLatestHeight (env : TimeServices) (height : Nat) : Nat :=
  if height ≠ 0 then height else if env.height ≠ 0 then env.height else 1

/-- The span before the first change. -/
def firstSpan (env : TimeServices) : Except Exception Span :=
  match calculateBlockTime env.configuration 1 with
  | .error e => .error e
  | .ok blockTime =>
    .ok ⟨blockTime, 0, (env.configuration.getMilestone (getLatestHeight env 0)).epoch, 1⟩

/-- The loop of `getSlotInfo`. -/
def laterSpans (env : TimeServices) (height : Nat) :
    List MilestoneSearchResult → Span → Except Exception Span
  | [], span => .ok span
  | next :: later, span =>
    if height < next.height then .ok span
    else
      match lookup env span.previousMilestoneHeight with
      | .error e => .error e
      | .ok spanStartTimestamp =>
        match lookup env (next.height - 1) with
        | .error e => .error e
        | .ok lastTimestamp =>
          let lastSpanEndTime := lastTimestamp + span.blockTime
          laterSpans env height later
            { blockTime := next.data
              totalSlotsFromLastSpan := span.totalSlotsFromLastSpan +
                (lastSpanEndTime - spanStartTimestamp).fdiv span.blockTime
              lastSpanEndTime := lastSpanEndTime
              previousMilestoneHeight := next.height }

/-- The span of a height. -/
def spanAt (env : TimeServices) (height : Nat) : Except Exception Span :=
  match firstSpan env with
  | .error e => .error e
  | .ok first => laterSpans env (getLatestHeight env height) (laterBlockTimes env.configuration) first

/-! ## 3. Slots -/

/-- The end of `getSlotInfo`. -/
def slotInfoIn (span : Span) (timestamp : Number) : SlotInfo :=
  let slotNumberUpUntilThisTimestamp :=
    (timestamp - .int span.lastSpanEndTime).floorDiv (.int span.blockTime)
  let startTime :=
    .int span.lastSpanEndTime + slotNumberUpUntilThisTimestamp * .int span.blockTime
  { blockTime := span.blockTime
    endTime := startTime + .int span.blockTime - .int 1
    forgingStatus := timestamp.lt (startTime + .int (span.blockTime / 2 : Nat))
    slotNumber := .int span.totalSlotsFromLastSpan + slotNumberUpUntilThisTimestamp
    startTime := startTime }

/-- `getSlotInfo(timestamp, height)`; height 0 stands for none. -/
def getSlotInfo (env : TimeServices) (timestamp : Number) (height : Nat) :
    Promise Exception SlotInfo :=
  ⟨match spanAt env height with
    | .error e => .error e
    | .ok span => .ok (slotInfoIn span timestamp)⟩

/-- `getSlotNumber(timestamp, height)`. -/
def getSlotNumber (env : TimeServices) (timestamp : Number) (height : Nat) :
    Promise Exception Number :=
  ⟨match (getSlotInfo env timestamp height).settled with
    | .error e => .error e
    | .ok info => .ok info.slotNumber⟩

/-- The loop of `#calculateSlotTime`, and what follows it. -/
def slotTimeAfter (env : TimeServices) (slotNumber : Int) (height blockTime : Nat)
    (totalSlotsFromLastSpan lastSpanEndTime : Int) (milestoneHeight : Nat) :
    List MilestoneSearchResult → Except Exception Int
  | [] => .ok (lastSpanEndTime + (slotNumber - totalSlotsFromLastSpan) * blockTime)
  | next :: later =>
    if height < next.height then
      .ok (lastSpanEndTime + (slotNumber - totalSlotsFromLastSpan) * blockTime)
    else
      match lookup env milestoneHeight with
      | .error e => .error e
      | .ok spanStartTimestamp =>
        match lookup env (next.height - 1) with
        | .error e => .error e
        | .ok lastTimestamp =>
          let lastSpanEndTime := lastTimestamp + blockTime
          slotTimeAfter env slotNumber height next.data
            (totalSlotsFromLastSpan + (lastSpanEndTime - spanStartTimestamp).fdiv blockTime)
            lastSpanEndTime next.height later

/-- `#calculateSlotTime(slotNumber, height)`. -/
def calculateSlotTime (env : TimeServices) (slotNumber : Int) (height : Nat) :
    Except Exception Int :=
  match calculateBlockTime env.configuration 1 with
  | .error e => .error e
  | .ok blockTime => slotTimeAfter env slotNumber height blockTime 0
      (env.configuration.getMilestone (getLatestHeight env 0)).epoch 1
      (laterBlockTimes env.configuration)

/-- `getSlotTime(slot, height)`, with the loop of `getSlotInfo`; `getSlotTime_eq` has its own. -/
def getSlotTime (env : TimeServices) (slot : Int) (height : Nat) : Promise Exception Int :=
  ⟨match spanAt env height with
    | .error e => .error e
    | .ok span => .ok (span.lastSpanEndTime + (slot - span.totalSlotsFromLastSpan) *
        span.blockTime)⟩

/-! ## 4. What they return -/

variable {env : TimeServices} {height : Nat}

theorem firstSpan_blockTime {span : Span} (h : firstSpan env = .ok span) : span.blockTime ≠ 0 := by
  unfold firstSpan calculateBlockTime at h
  cases hfind : env.configuration.milestones.reverse.find?
      fun m => m.height ≤ 1 ∧ m.blockTime ≠ 0 with
  | none =>
    rw [hfind] at h
    cases h
  | some m =>
    rw [hfind] at h
    cases h
    have hm := List.find?_some hfind
    simp only [decide_eq_true_eq] at hm
    exact hm.2

/-- The first span begins at the epoch. -/
theorem firstSpan_eq {span : Span} (h : firstSpan env = .ok span) :
    span.totalSlotsFromLastSpan = 0 ∧ span.previousMilestoneHeight = 1 := by
  unfold firstSpan at h
  split at h
  · cases h
  · cases h
    exact ⟨rfl, rfl⟩

/-- Before the next change the loop stops at once. -/
theorem laterSpans_before {later : List MilestoneSearchResult}
    (h : ∀ next ∈ later.head?, height < next.height) (span : Span) :
    laterSpans env height later span = .ok span := by
  cases later with
  | nil => rfl
  | cons next later =>
    unfold laterSpans
    exact if_pos (h next rfl)

/-- From the next change on it goes on with the next span. -/
theorem laterSpans_after {span : Span} {next : MilestoneSearchResult}
    (later : List MilestoneSearchResult) {first last : Int} (hheight : next.height ≤ height)
    (hfirst : lookup env span.previousMilestoneHeight = .ok first)
    (hlast : lookup env (next.height - 1) = .ok last) :
    laterSpans env height (next :: later) span = laterSpans env height later
      ⟨next.data, span.totalSlotsFromLastSpan + (last + span.blockTime - first).fdiv span.blockTime,
        last + span.blockTime, next.height⟩ := by
  conv_lhs => unfold laterSpans
  rw [if_neg (by omega), hfirst, hlast]

/-- No span has slots without length. -/
theorem laterSpans_blockTime (later : List MilestoneSearchResult)
    (hlater : ∀ next ∈ later, next.data ≠ 0) :
    ∀ {span span' : Span}, span.blockTime ≠ 0 → laterSpans env height later span = .ok span' →
      span'.blockTime ≠ 0 := by
  induction later with
  | nil =>
    intro span span' hspan h
    cases h
    exact hspan
  | cons next later ih =>
    intro span span' hspan h
    unfold laterSpans at h
    by_cases hheight : height < next.height
    · rw [if_pos hheight] at h
      cases h
      exact hspan
    · rw [if_neg hheight] at h
      split at h
      · cases h
      · split at h
        · cases h
        · exact ih (fun m hm => hlater m (List.mem_cons_of_mem _ hm))
            (hlater next List.mem_cons_self) h

theorem spanAt_blockTime {span : Span} (h : spanAt env height = .ok span) : span.blockTime ≠ 0 := by
  unfold spanAt at h
  cases hfirst : firstSpan env with
  | error e =>
    rw [hfirst] at h
    cases h
  | ok first =>
    rw [hfirst] at h
    exact laterSpans_blockTime _ (fun _ hm => MilestoneList.data_ne_zero hm)
      (firstSpan_blockTime hfirst) h

/-- **The slot of a timestamp.** -/
theorem slotNumber_int {span : Span} (h : spanAt env height = .ok span) (timestamp : Int) :
    (slotInfoIn span (.int timestamp)).slotNumber = .int (span.totalSlotsFromLastSpan +
      (timestamp - span.lastSpanEndTime).fdiv span.blockTime) := by
  have hne : (span.blockTime : Int) ≠ 0 := by
    have := spanAt_blockTime h
    omega
  show Number.int _ + Number.floorDiv _ _ = _
  rw [Number.int_sub, Number.floorDiv_int _ hne, Number.int_add]

/-- The second loop goes through the spans of the first. -/
theorem slotTimeAfter_eq (slot : Int) (later : List MilestoneSearchResult) : ∀ span : Span,
    slotTimeAfter env slot height span.blockTime span.totalSlotsFromLastSpan span.lastSpanEndTime
        span.previousMilestoneHeight later =
      match laterSpans env height later span with
      | .error e => .error e
      | .ok span => .ok (span.lastSpanEndTime + (slot - span.totalSlotsFromLastSpan) *
          span.blockTime) := by
  induction later with
  | nil => exact fun _ => rfl
  | cons next later ih =>
    intro span
    unfold slotTimeAfter laterSpans
    by_cases hheight : height < next.height
    · rw [if_pos hheight, if_pos hheight]
    · rw [if_neg hheight, if_neg hheight]
      cases lookup env span.previousMilestoneHeight with
      | error e => rfl
      | ok spanStartTimestamp =>
        cases lookup env (next.height - 1) with
        | error e => rfl
        | ok lastTimestamp => exact ih ⟨_, _, _, _⟩

/-- **Both loops stop at the same span.** -/
theorem getSlotTime_eq (slot : Int) : (getSlotTime env slot height).settled =
    calculateSlotTime env slot (getLatestHeight env height) := by
  unfold getSlotTime calculateSlotTime spanAt firstSpan
  cases calculateBlockTime env.configuration 1 with
  | error e => rfl
  | ok blockTime => exact (slotTimeAfter_eq slot _ ⟨_, _, _, _⟩).symm

end Slots

end CoreEx
