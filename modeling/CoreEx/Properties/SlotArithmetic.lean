/-
  File:      CoreEx/Properties/SlotArithmetic.lean
  Subject:   The slots of a fixed height cut the timestamps into pieces of one length, and the two
             directions between numbers and timestamps are inverse.

  Both directions go through the spans in a loop of their own and end in the same span. From there
  on the number `n` belongs to the timestamps from `start n` to before `start (n + 1)`.

  * `TimeServices.withBlockTimeLookup`, `Slots.Span.start`;
  * `slot_eq_iff` -- which timestamps have a number; the rest is read off it;
  * `slotInfo_int` -- what `getSlotInfo` tells of a timestamp;
  * `spanAt_total` -- with positive block times and a look-up that answers there is a span;
  * **`slotArithmetic`** -- the laws.
-/
import CoreEx.Properties.SlotChain

namespace CoreEx

open Slots

/-- `withBlockTimeLookup(callback)`, for a callback that answers. -/
def TimeServices.withBlockTimeLookup (env : TimeServices) (callback : Nat → Int) : TimeServices :=
  { env with transientBlockTimeLookup := some fun height => .ok (callback height) }

/-! ## 1. The slots of a span -/

/-- Where the slot with the number begins. -/
def Slots.Span.start (span : Slots.Span) (n : Int) : Int :=
  span.lastSpanEndTime + (n - span.totalSlotsFromLastSpan) * span.blockTime

section Span

variable {span : Slots.Span} {n x y : Int}

theorem Slots.Span.start_succ (span : Slots.Span) (n : Int) :
    span.start (n + 1) = span.start n + span.blockTime := by
  unfold Slots.Span.start
  rw [add_sub_right_comm, add_mul, one_mul, add_assoc]

/-- **Which timestamps have the number.** -/
theorem slot_eq_iff (hb : span.blockTime ≠ 0) :
    span.slot x = n ↔ span.start n ≤ x ∧ x < span.start n + span.blockTime := by
  have hpos : 0 < (span.blockTime : Int) := by omega
  unfold Slots.Span.slot Slots.Span.start
  rw [Int.fdiv_eq_ediv_of_nonneg _ hpos.le]
  have hdiv : (x - span.lastSpanEndTime) / (span.blockTime : Int) =
      n - span.totalSlotsFromLastSpan ↔
        (n - span.totalSlotsFromLastSpan) * span.blockTime ≤ x - span.lastSpanEndTime ∧
          x - span.lastSpanEndTime < (n - span.totalSlotsFromLastSpan + 1) * span.blockTime := by
    rw [← Int.le_ediv_iff_mul_le hpos, ← Int.ediv_lt_iff_lt_mul hpos]
    omega
  rw [add_mul, one_mul] at hdiv
  constructor
  · intro h
    have := hdiv.1 (by omega)
    omega
  · intro h
    have := hdiv.2 (by omega)
    omega

/-- A timestamp lies in its slot. -/
theorem start_slot_le (hb : span.blockTime ≠ 0) (x : Int) : span.start (span.slot x) ≤ x :=
  ((slot_eq_iff hb).1 rfl).1

theorem lt_start_slot_add (hb : span.blockTime ≠ 0) (x : Int) :
    x < span.start (span.slot x) + span.blockTime := ((slot_eq_iff hb).1 rfl).2

/-- A slot begins in itself. -/
theorem slot_start (hb : span.blockTime ≠ 0) (n : Int) : span.slot (span.start n) = n :=
  (slot_eq_iff hb).2 ⟨le_rfl, by omega⟩

/-- Later timestamps have no lower numbers. -/
theorem slot_mono (hb : span.blockTime ≠ 0) (hxy : x ≤ y) : span.slot x ≤ span.slot y := by
  have hpos : 0 < (span.blockTime : Int) := by omega
  have hle : (x - span.lastSpanEndTime) / (span.blockTime : Int) ≤
      (y - span.lastSpanEndTime) / span.blockTime := Int.ediv_le_ediv hpos (by omega)
  unfold Slots.Span.slot
  rw [Int.fdiv_eq_ediv_of_nonneg _ hpos.le, Int.fdiv_eq_ediv_of_nonneg _ hpos.le]
  omega

/-- The next number begins one block time after the start, and no earlier. -/
theorem slot_add_start (hb : span.blockTime ≠ 0) (x : Int) :
    span.slot (span.start (span.slot x) + span.blockTime) = span.slot x + 1 := by
  rw [← Slots.Span.start_succ, slot_start hb]

theorem slotInfo_int (hb : span.blockTime ≠ 0) (x : Int) :
    (slotInfoIn span (.int x)).slotNumber = .int (span.slot x) ∧
      (slotInfoIn span (.int x)).startTime = .int (span.start (span.slot x)) ∧
      (slotInfoIn span (.int x)).endTime =
        .int (span.start (span.slot x) + span.blockTime - 1) := by
  have hne : (span.blockTime : Int) ≠ 0 := by omega
  have hstart : (slotInfoIn span (.int x)).startTime = .int (span.start (span.slot x)) := by
    show Number.int _ + Number.floorDiv _ _ * _ = _
    rw [Number.int_sub, Number.floorDiv_int _ hne, Number.int_mul, Number.int_add]
    unfold Slots.Span.start Slots.Span.slot
    rw [add_sub_cancel_left]
  refine ⟨?_, hstart, ?_⟩
  · show Number.int _ + Number.floorDiv _ _ = _
    rw [Number.int_sub, Number.floorDiv_int _ hne, Number.int_add]
    rfl
  · show (slotInfoIn span (.int x)).startTime + Number.int _ - Number.int 1 = _
    rw [hstart]
    rfl

end Span

/-! ## 2. There is a span -/

section Total

variable {env : TimeServices} {height : Nat}

theorem laterSpans_total (hlookup : ∀ h, ∃ time, lookup env h = .ok time)
    (later : List MilestoneSearchResult) : ∀ span : Slots.Span,
      ∃ span', laterSpans env height later span = .ok span' := by
  induction later with
  | nil => exact fun span => ⟨span, rfl⟩
  | cons next later ih =>
    intro span
    by_cases hheight : height < next.height
    · refine ⟨span, laterSpans_before (fun m hm => ?_) span⟩
      cases hm
      exact hheight
    · obtain ⟨first, hfirst⟩ := hlookup span.previousMilestoneHeight
      obtain ⟨last, hlast⟩ := hlookup (next.height - 1)
      rw [laterSpans_after later (by omega) hfirst hlast]
      exact ih _

/-- The milestone of the genesis block has a block time. -/
theorem firstSpan_total (hpositive : ∀ m ∈ env.configuration.milestones, 0 < m.blockTime) :
    ∃ span, firstSpan env = .ok span := by
  have hfirst : env.configuration.first ∈ env.configuration.milestones := by
    unfold MilestoneList.milestones
    cases env.configuration.later <;> exact List.mem_cons_self
  have hsome : (env.configuration.milestones.reverse.find?
      fun m => m.height ≤ 1 ∧ m.blockTime ≠ 0).isSome = true := by
    rw [List.find?_isSome]
    refine ⟨_, List.mem_reverse.2 hfirst, ?_⟩
    have := hpositive _ hfirst
    simp only [decide_eq_true_eq]
    exact ⟨env.configuration.genesis.le, by omega⟩
  obtain ⟨m, hm⟩ := Option.isSome_iff_exists.1 hsome
  unfold firstSpan calculateBlockTime
  rw [hm]
  exact ⟨_, rfl⟩

theorem spanAt_total (hlookup : ∀ h, ∃ time, lookup env h = .ok time)
    (hpositive : ∀ m ∈ env.configuration.milestones, 0 < m.blockTime) (height : Nat) :
    ∃ span, spanAt env height = .ok span := by
  obtain ⟨first, hfirst⟩ := firstSpan_total hpositive
  unfold spanAt
  rw [hfirst]
  exact laterSpans_total hlookup _ first

end Total

/-! ## 3. The laws -/

/-- **At every height**, every timestamp lies in its slot, the slots are as long as the block time,
    their numbers grow with the timestamps, by one where the next slot begins, and numbers and
    starts determine each other. -/
theorem slotArithmetic (configured : TimeServices) (callback : Nat → Int) (height : Nat)
    (hpositive : ∀ m ∈ configured.configuration.milestones, 0 < m.blockTime) :
    ∃ (blockTime : Nat) (slotNumber startTime endTime : Int → Int),
      let env := configured.withBlockTimeLookup callback
      (∀ t, ∃ info, (getSlotInfo env (.int t) height).settled = .ok info ∧
        info.blockTime = blockTime ∧ info.slotNumber = .int (slotNumber t) ∧
        info.startTime = .int (startTime t) ∧ info.endTime = .int (endTime t)) ∧
      (∀ t, startTime t ≤ t ∧ t ≤ endTime t) ∧
      (∀ t, endTime t - startTime t + 1 = blockTime) ∧
      (∀ t u, t ≤ u → slotNumber t ≤ slotNumber u) ∧
      (∀ t u, startTime t ≤ u → (slotNumber u = slotNumber t ↔ u < startTime t + blockTime)) ∧
      (∀ t, slotNumber (startTime t + blockTime) = slotNumber t + 1) ∧
      (∀ t, (getSlotNumber env (.int t) height).settled = .ok (.int (slotNumber t)) ∧
        calculateSlotTime env (slotNumber t) (getLatestHeight env height) = .ok (startTime t)) ∧
      ∀ n, ∃ time, calculateSlotTime env n (getLatestHeight env height) = .ok time ∧
        (getSlotNumber env (.int time) height).settled = .ok (.int n) := by
  have hlookup : ∀ h, ∃ time, lookup (configured.withBlockTimeLookup callback) h = .ok time :=
    fun h => ⟨callback h, rfl⟩
  obtain ⟨span, hspan⟩ := spanAt_total hlookup hpositive height
  have hb := spanAt_blockTime hspan
  have hinfo : ∀ t, (getSlotInfo (configured.withBlockTimeLookup callback) (.int t)
      height).settled = .ok (slotInfoIn span (.int t)) := by
    intro t
    unfold getSlotInfo
    rw [hspan]
  have htime : ∀ n, calculateSlotTime (configured.withBlockTimeLookup callback) n
      (getLatestHeight (configured.withBlockTimeLookup callback) height) =
        .ok (span.start n) := by
    intro n
    rw [← getSlotTime_eq]
    unfold getSlotTime
    rw [hspan]
    rfl
  refine ⟨span.blockTime, span.slot, fun t => span.start (span.slot t),
    fun t => span.start (span.slot t) + span.blockTime - 1, fun t => ?_, fun t => ?_, fun t => ?_,
    fun t u => slot_mono hb, fun t u hu => ?_, slot_add_start hb, fun t => ?_, fun n => ?_⟩
  · exact ⟨_, hinfo t, rfl, slotInfo_int hb t⟩
  · have hlt := lt_start_slot_add hb t
    exact ⟨start_slot_le hb t, Int.le_sub_one_of_lt hlt⟩
  · show span.start (span.slot t) + span.blockTime - 1 - span.start (span.slot t) + 1 = _
    omega
  · rw [slot_eq_iff hb]
    exact ⟨fun h => h.2, fun h => ⟨hu, h⟩⟩
  · exact ⟨getSlotNumber_eq hspan t, htime _⟩
  · refine ⟨_, htime n, ?_⟩
    rw [getSlotNumber_eq hspan, slot_start hb]

/-- The laws for slots of eight and of four seconds. -/
theorem slotArithmetic_sample : ∃ time,
    calculateSlotTime (Sample.missedSlotTime.withBlockTimeLookup Sample.missedSlot) 3 4 =
      .ok time ∧
    (getSlotNumber (Sample.missedSlotTime.withBlockTimeLookup Sample.missedSlot) (.int time)
      4).settled = .ok (.int 3) := by
  obtain ⟨_, _, _, _, -, -, -, -, -, -, -, hinverse⟩ :=
    slotArithmetic Sample.missedSlotTime Sample.missedSlot 4 (by decide)
  exact hinverse 3

end CoreEx
