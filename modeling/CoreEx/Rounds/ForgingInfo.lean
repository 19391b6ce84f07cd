/-
  File:      CoreEx/Rounds/ForgingInfo.lean
  Subject:   `core-kernel/source/utils/calculate-forging-info.ts`: whose turn a slot is.

  The validators of a round take turns, slot by slot, from the first slot of the span in which
  their number did not change. To find that slot the code asks for the timestamp of the last block
  before the span, and forgets to wait for it. A promise is no number; so once the number of
  validators was changed, whose turn it is is no number either.

  * `findIndex`, `calculateForgingInfo` -- the code;
  * `inForce`, `spanStart`, `scheduledIndex` -- whose turn it is, without the code's loop;
  * **`currentForger_eq`** -- what the code finds instead.
-/
import CoreEx.Rounds.RoundCalculator
import CoreEx.Time.Slots

namespace CoreEx

open Slots

/-- `ForgingInfo`. -/
structure ForgingInfo where
  blockTimestamp : Number
  canForge : Bool
  currentForger : Number
  nextForger : Number
  deriving DecidableEq, Repr

namespace ForgingInfo

/-! ## 1. The code -/

/-- The variables of the loop of `findIndex`. -/
structure Span where
  lastSpanSlotNumber : Number
  activeValidators : Nat
  deriving DecidableEq, Repr

/-- The loop of `findIndex`. -/
def laterSpans (env : TimeServices) (height : Nat) :
    List MilestoneSearchResult → Span → Except Exception Span
  | [], span => .ok span
  | next :: later, span =>
    if height < next.height then .ok span
    else
      -- not awaited
      let lastSpanEndTime := (getBlockTimeLookup env (next.height - 1)).toNumber
      match (getSlotInfo env lastSpanEndTime (next.height - 1)).settled with
      | .error e => .error e
      | .ok info => laterSpans env height later ⟨info.slotNumber + .int 1, next.data⟩

/-- The variables as the loop leaves them. -/
def spanAt (env : TimeServices) (height : Nat) : Except Exception Span :=
  laterSpans env height (laterActiveValidators env.configuration)
    ⟨.int 0, (env.configuration.getMilestone 1).activeValidators⟩

/-- `findIndex`, after the loop. -/
def indexIn (span : Span) (slotNumber : Number) : Number × Number :=
  let currentForger := (slotNumber - span.lastSpanSlotNumber).rem (.int span.activeValidators)
  (currentForger, (currentForger + .int 1).rem (.int span.activeValidators))

/-- `calculateForgingInfo(timestamp, height, app)`. -/
def calculateForgingInfo (env : TimeServices) (timestamp : Number) (height : Nat) :
    Promise Exception ForgingInfo :=
  ⟨match (getSlotInfo env timestamp height).settled with
    | .error e => .error e
    | .ok slotInfo =>
      match spanAt env height with
      | .error e => .error e
      | .ok span =>
        let index := indexIn span slotInfo.slotNumber
        .ok ⟨slotInfo.startTime, slotInfo.forgingStatus, index.1, index.2⟩⟩

/-! ## 2. Whose turn it is -/

/-- The last change of the number of validators at or below a height. -/
def inForce (c : MilestoneList) (height : Nat) : Option MilestoneSearchResult :=
  ((laterActiveValidators c).takeWhile fun next => next.height ≤ height).getLast?

/-- The number of active validators at a height. -/
def activeValidators (c : MilestoneList) (height : Nat) : Nat :=
  ((inForce c height).map (·.data)).getD (c.getMilestone 1).activeValidators

/-- The slot of a timestamp at a height, where there is one. -/
def slotAt (env : TimeServices) (timestamp : Int) (height : Nat) : Option Int :=
  (Slots.spanAt env height).toOption.map fun span =>
    span.totalSlotsFromLastSpan + (timestamp - span.lastSpanEndTime).fdiv span.blockTime

theorem slotAt_eq_some {env : TimeServices} {timestamp : Int} {height : Nat} {slot : Int} :
    slotAt env timestamp height = some slot ↔ ∃ span, Slots.spanAt env height = .ok span ∧
      slot = span.totalSlotsFromLastSpan +
        (timestamp - span.lastSpanEndTime).fdiv span.blockTime := by
  unfold slotAt
  cases Slots.spanAt env height with
  | error e => simp [Except.toOption]
  | ok span => simp [Except.toOption, eq_comm]

/-- It is the number `getSlotNumber` returns. -/
theorem getSlotNumber_iff_slotAt {env : TimeServices} {timestamp : Int} {height : Nat}
    {slot : Int} : (getSlotNumber env (.int timestamp) height).settled = .ok (.int slot) ↔
      slotAt env timestamp height = some slot := by
  rw [slotAt_eq_some]
  unfold getSlotNumber getSlotInfo
  cases hspan : Slots.spanAt env height with
  | error e => simp
  | ok span =>
    dsimp only
    rw [slotNumber_int hspan]
    simp [eq_comm]

/-- The slot with which the span begins: the one after the slot of the last block before it. -/
def spanStart (env : TimeServices) (height : Nat) : Option Int :=
  match inForce env.configuration height with
  | none => some 0
  | some next =>
    match env.findBlockTimestampByHeight (next.height - 1) with
    | .error _ => none
    | .ok timestamp => (slotAt env timestamp (next.height - 1)).map (· + 1)

/-- The position in the round of the validator whose turn it is. -/
def scheduledIndex (env : TimeServices) (timestamp : Int) (height : Nat) : Option Nat :=
  match slotAt env timestamp height, spanStart env height with
  | some slot, some start =>
    some ((slot - start) % (activeValidators env.configuration height : Int)).toNat
  | _, _ => none

/-! ## 3. What the code finds -/

variable {env : TimeServices} {height : Nat}

theorem laterSpans_spec (later : List MilestoneSearchResult) :
    ∀ {span span' : Span}, laterSpans env height later span = .ok span' →
      match (later.takeWhile fun next => next.height ≤ height).getLast? with
      | none => span' = span
      | some next => span' = ⟨.nan, next.data⟩ := by
  induction later with
  | nil =>
    intro span span' h
    cases h
    rfl
  | cons next later ih =>
    intro span span' h
    unfold laterSpans at h
    by_cases hheight : height < next.height
    · rw [if_pos hheight] at h
      cases h
      have hnot : ¬ next.height ≤ height := by omega
      simp [hnot]
    · rw [if_neg hheight] at h
      have hle : next.height ≤ height := by omega
      have hnan : ∀ info, (getSlotInfo env (getBlockTimeLookup env (next.height - 1)).toNumber
          (next.height - 1)).settled = .ok info → info.slotNumber + .int 1 = .nan := by
        intro info hinfo
        unfold getSlotInfo at hinfo
        split at hinfo
        · cases hinfo
        · cases hinfo
          rfl
      cases hinfo : (getSlotInfo env (getBlockTimeLookup env (next.height - 1)).toNumber
          (next.height - 1)).settled with
      | error e =>
        simp only [hinfo] at h
        cases h
      | ok info =>
        simp only [hinfo] at h
        have hrest := ih h
        rw [hnan info hinfo] at hrest
        simp only [List.takeWhile_cons, hle, decide_true, if_true]
        cases htake : (later.takeWhile fun next => next.height ≤ height) with
        | nil =>
          rw [htake] at hrest
          exact hrest
        | cons m ms =>
          rw [htake] at hrest
          rw [List.getLast?_cons_cons]
          cases hlast : (m :: ms).getLast? with
          | none => simp at hlast
          | some x =>
            rw [hlast] at hrest
            exact hrest

/-- The loop's result: as it began, or no number. -/
theorem spanAt_eq {span : Span} (h : spanAt env height = .ok span) :
    span.activeValidators = activeValidators env.configuration height ∧
      span.lastSpanSlotNumber =
        if (inForce env.configuration height).isSome then .nan else .int 0 := by
  have hspec := laterSpans_spec _ h
  unfold activeValidators inForce
  cases hlast : ((laterActiveValidators env.configuration).takeWhile
      fun next => next.height ≤ height).getLast? with
  | none =>
    rw [hlast] at hspec
    subst hspec
    exact ⟨rfl, rfl⟩
  | some next =>
    rw [hlast] at hspec
    subst hspec
    exact ⟨rfl, rfl⟩

/-- **Whose turn the code thinks it is**: the remainder of the slot in the first span, and no
    number in every later one. -/
theorem currentForger_eq {timestamp : Int} {info : ForgingInfo}
    (h : (calculateForgingInfo env (.int timestamp) height).settled = .ok info) :
    ∃ slot, slotAt env timestamp height = some slot ∧
      info.currentForger = if (inForce env.configuration height).isSome then .nan
        else Number.rem (.int slot) (.int (activeValidators env.configuration height)) := by
  unfold calculateForgingInfo getSlotInfo at h
  cases hspan : Slots.spanAt env height with
  | error e =>
    rw [hspan] at h
    cases h
  | ok span =>
    rw [hspan] at h
    refine ⟨_, by rw [slotAt, hspan]; rfl, ?_⟩
    cases hforging : spanAt env height with
    | error e =>
      rw [hforging] at h
      cases h
    | ok forging =>
      rw [hforging] at h
      cases h
      obtain ⟨hactive, hlast⟩ := spanAt_eq hforging
      show (_ - forging.lastSpanSlotNumber).rem (.int forging.activeValidators) = _
      rw [slotNumber_int hspan, hlast, hactive]
      by_cases hin : (inForce env.configuration height).isSome = true
      · rw [if_pos hin, if_pos hin, Number.sub_nan]
        rfl
      · rw [if_neg hin, if_neg hin, Number.int_sub, Int.sub_zero]

end ForgingInfo

end CoreEx
