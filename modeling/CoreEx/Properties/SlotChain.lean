/-
  File:      CoreEx/Properties/SlotChain.lean
  Subject:   Whether the slot numbers of the blocks of a chain count the slots between them.

  When the block time changes, the slots of the span that ends are counted from the timestamp of its
  first block to the end of the slot of its last one. Slots that were missed before the first block
  are forgotten; and nobody asks whether the new span begins before the old one ends.

  * `SlotChain` -- blocks at slot starts, and a look-up that knows them;
  * `Advances` -- the number grows by one for the block and by one for each empty slot;
  * `OnTime` -- how the first block of a span has to lie;
  * `slotStep_same`, `slotStep_change` -- inside a span, and from one to the next;
  * **`slots_advance_iff`** -- the numbers count the slots when the spans begin on time;
  * **`missedSlot_not`** -- a slot missed where the block time changes.
-/
import CoreEx.Time.Slots
import Mathlib.Algebra.Order.Ring.Int
import Mathlib.Data.Int.Interval
import Mathlib.Data.Set.Card

namespace CoreEx

open Slots

/-! ## 1. The chain -/

/-- A slot begins at the timestamp. -/
def isSlotStart (env : TimeServices) (height : Nat) (timestamp : Int) : Bool :=
  match (getSlotInfo env (.int timestamp) height).settled with
  | .ok info => info.startTime = .int timestamp
  | .error _ => false

/-- The end of the slot that begins at the timestamp. -/
def slotEnd (env : TimeServices) (height : Nat) (timestamp : Int) : Int :=
  match (getSlotInfo env (.int timestamp) height).settled with
  | .ok info => timestamp + info.blockTime
  | .error _ => timestamp

/-- Blocks up to the height `last`, with their timestamps: the first at the epoch, every one at the
    start of a slot and after the one before. -/
structure SlotChain (env : TimeServices) (last : Nat) (timestamp : Nat → Int) : Prop where
  epoch : timestamp 1 = (env.configuration.getMilestone (getLatestHeight env 0)).epoch
  known : ∀ height, 1 ≤ height → height ≤ last → lookup env height = .ok (timestamp height)
  starts : ∀ height, 1 ≤ height → height ≤ last →
    isSlotStart env height (timestamp height) = true
  increasing : ∀ height, 1 ≤ height → height < last → timestamp height < timestamp (height + 1)

/-- The slots after that of the block and before that of the next one. -/
def emptySlots (env : TimeServices) (timestamp : Nat → Int) (height : Nat) : Set Int :=
  {x | slotEnd env height (timestamp height) ≤ x ∧ x < timestamp (height + 1) ∧
    isSlotStart env (height + 1) x = true}

/-- The slot of the next block has a greater number, and the empty slots between are counted. -/
def Advances (env : TimeServices) (timestamp : Nat → Int) (height : Nat) : Prop :=
  ∃ slot slot' : Int, (getSlotNumber env (.int (timestamp height)) height).settled = .ok (.int slot) ∧
    (getSlotNumber env (.int (timestamp (height + 1))) (height + 1)).settled = .ok (.int slot') ∧
    slot < slot' ∧ slot' - slot - 1 = (emptySlots env timestamp height).ncard

/-- How the spans begin, from the one with the first block `first` on, whose slots are counted from
    `start`: where another one follows, it began without a missed slot, and the next one begins no
    earlier than its last slot ends. -/
def OnTime (timestamp : Nat → Int) (last : Nat) :
    Nat → Int → Nat → List MilestoneSearchResult → Prop
  | _, _, _, [] => True
  | first, start, blockTime, next :: later => next.height ≤ last →
    timestamp first = start ∧ timestamp (next.height - 1) + blockTime ≤ timestamp next.height ∧
      OnTime timestamp last next.height (timestamp (next.height - 1) + blockTime) next.data later

/-- The same of all spans; the first one begins at the first block. -/
def SpansOnTime (env : TimeServices) (last : Nat) (timestamp : Nat → Int) : Prop :=
  ∀ blockTime, calculateBlockTime env.configuration 1 = .ok blockTime →
    OnTime timestamp last 1 (timestamp 1) blockTime (laterBlockTimes env.configuration)

/-! ## 2. Slots of a span -/

/-- The number of the slot that begins at the timestamp. -/
def Slots.Span.slot (span : Slots.Span) (x : Int) : Int :=
  span.totalSlotsFromLastSpan + (x - span.lastSpanEndTime).fdiv span.blockTime

variable {env : TimeServices} {height : Nat} {span span' : Slots.Span}

theorem getSlotNumber_eq (h : spanAt env height = .ok span) (x : Int) :
    (getSlotNumber env (.int x) height).settled = .ok (.int (span.slot x)) := by
  unfold getSlotNumber getSlotInfo
  rw [h]
  show Except.ok _ = _
  rw [slotNumber_int h]
  rfl

theorem isSlotStart_iff (h : spanAt env height = .ok span) (x : Int) :
    isSlotStart env height x = true ↔ (span.blockTime : Int) ∣ x - span.lastSpanEndTime := by
  have hne : (span.blockTime : Int) ≠ 0 := by
    have := spanAt_blockTime h
    omega
  have hstart : (slotInfoIn span (.int x)).startTime =
      .int (span.lastSpanEndTime + (x - span.lastSpanEndTime).fdiv span.blockTime *
        span.blockTime) := by
    show Number.int _ + Number.floorDiv _ _ * _ = _
    rw [Number.int_sub, Number.floorDiv_int _ hne]
    rfl
  unfold isSlotStart getSlotInfo
  rw [h]
  show decide ((slotInfoIn span (.int x)).startTime = .int x) = true ↔ _
  rw [hstart, decide_eq_true_eq, Number.int.injEq,
    Int.fdiv_eq_ediv_of_nonneg _ (Int.natCast_nonneg _), mul_comm]
  have hdiv := Int.mul_ediv_add_emod (x - span.lastSpanEndTime) span.blockTime
  rw [Int.dvd_iff_emod_eq_zero]
  omega

theorem isSlotStart_span {x : Int} (h : isSlotStart env height x = true) :
    ∃ span, spanAt env height = .ok span := by
  unfold isSlotStart getSlotInfo at h
  cases hspan : spanAt env height with
  | error e =>
    rw [hspan] at h
    cases h
  | ok span => exact ⟨span, rfl⟩

theorem slotEnd_eq (h : spanAt env height = .ok span) (x : Int) :
    slotEnd env height x = x + span.blockTime := by
  unfold slotEnd getSlotInfo
  rw [h]
  rfl

/-- `Advances`, with the spans of the two heights. -/
def SlotStep (timestamp : Nat → Int) (height : Nat) (span span' : Slots.Span) : Prop :=
  span.slot (timestamp height) < span'.slot (timestamp (height + 1)) ∧
    span'.slot (timestamp (height + 1)) - span.slot (timestamp height) - 1 =
      {x : Int | timestamp height + span.blockTime ≤ x ∧ x < timestamp (height + 1) ∧
        (span'.blockTime : Int) ∣ x - span'.lastSpanEndTime}.ncard

theorem advances_iff (timestamp : Nat → Int) (h : spanAt env height = .ok span)
    (h' : spanAt env (height + 1) = .ok span') :
    Advances env timestamp height ↔ SlotStep timestamp height span span' := by
  have hempty : emptySlots env timestamp height =
      {x : Int | timestamp height + span.blockTime ≤ x ∧ x < timestamp (height + 1) ∧
        (span'.blockTime : Int) ∣ x - span'.lastSpanEndTime} := by
    ext x
    unfold emptySlots
    rw [Set.mem_ofPred_eq, Set.mem_ofPred_eq, slotEnd_eq h, isSlotStart_iff h']
  unfold Advances SlotStep
  rw [getSlotNumber_eq h, getSlotNumber_eq h', hempty]
  constructor
  · rintro ⟨slot, slot', hslot, hslot', hlt, hcount⟩
    cases hslot
    cases hslot'
    exact ⟨hlt, hcount⟩
  · rintro ⟨hlt, hcount⟩
    exact ⟨_, _, rfl, rfl, hlt, hcount⟩

/-- The number of slots between the starts of two. -/
theorem ncard_slots {b : Int} (hb : 0 < b) (e u v : Int) :
    ({x : Int | e + b * u ≤ x ∧ x < e + b * v ∧ b ∣ x - e}.ncard : Int) = max (v - u) 0 := by
  have himage : {x : Int | e + b * u ≤ x ∧ x < e + b * v ∧ b ∣ x - e} =
      (fun i => e + b * i) '' (Finset.Ico u v : Set Int) := by
    ext x
    simp only [Set.mem_ofPred_eq, Set.mem_image, Finset.mem_coe, Finset.mem_Ico]
    constructor
    · rintro ⟨hlow, hhigh, i, hi⟩
      refine ⟨i, ⟨?_, ?_⟩, by omega⟩
      · exact le_of_mul_le_mul_left (by omega) hb
      · exact lt_of_mul_lt_mul_left (by omega) hb.le
    · rintro ⟨i, ⟨hlow, hhigh⟩, rfl⟩
      refine ⟨?_, ?_, ⟨i, by omega⟩⟩
      · have := mul_le_mul_of_nonneg_left hlow hb.le
        omega
      · have := mul_lt_mul_of_pos_left hhigh hb
        omega
  have hinjective : Function.Injective fun i => e + b * i := fun i j hij =>
    mul_left_cancel₀ hb.ne' (add_left_cancel hij)
  rw [himage, Set.ncard_image_of_injective _ hinjective, Set.ncard_coe_finset, Int.card_Ico]
  omega

/-- Inside a span the numbers count the slots. -/
theorem slotStep_same {timestamp : Nat → Int} (hb : span.blockTime ≠ 0)
    (h : (span.blockTime : Int) ∣ timestamp height - span.lastSpanEndTime)
    (h' : (span.blockTime : Int) ∣ timestamp (height + 1) - span.lastSpanEndTime)
    (hlt : timestamp height < timestamp (height + 1)) :
    SlotStep timestamp height span span := by
  have hpos : (0 : Int) < span.blockTime := by omega
  obtain ⟨u, hu⟩ := h
  obtain ⟨v, hv⟩ := h'
  have huv : u < v := lt_of_mul_lt_mul_left (a := (span.blockTime : Int)) (by omega) hpos.le
  have hcount := ncard_slots hpos span.lastSpanEndTime (u + 1) v
  have hlow : timestamp height + span.blockTime =
      span.lastSpanEndTime + span.blockTime * (u + 1) := by
    rw [mul_add, mul_one]
    omega
  have hhigh : timestamp (height + 1) = span.lastSpanEndTime + span.blockTime * v := by omega
  have hslot : span.slot (timestamp height) = span.totalSlotsFromLastSpan + u := by
    unfold Span.slot
    rw [hu, Int.mul_fdiv_cancel_left _ hpos.ne']
  have hslot' : span.slot (timestamp (height + 1)) = span.totalSlotsFromLastSpan + v := by
    unfold Span.slot
    rw [hv, Int.mul_fdiv_cancel_left _ hpos.ne']
  unfold SlotStep
  rw [hslot, hslot', hlow, hhigh, hcount]
  omega

/-- **From one span to the next** the numbers count the slots when none was missed before the first
    block of the span that ends, and the next one begins after it. -/
theorem slotStep_change {timestamp : Nat → Int} {first : Nat} (hb : span.blockTime ≠ 0)
    (hb' : span'.blockTime ≠ 0)
    (hend : span'.lastSpanEndTime = timestamp height + span.blockTime)
    (htotal : span'.totalSlotsFromLastSpan = span.totalSlotsFromLastSpan +
      (span'.lastSpanEndTime - timestamp first).fdiv span.blockTime)
    (h : (span.blockTime : Int) ∣ timestamp height - span.lastSpanEndTime)
    (hfirst : (span.blockTime : Int) ∣ timestamp first - span.lastSpanEndTime)
    (h' : (span'.blockTime : Int) ∣ timestamp (height + 1) - span'.lastSpanEndTime)
    (hlate : span.lastSpanEndTime ≤ timestamp first) :
    SlotStep timestamp height span span' ↔ timestamp first = span.lastSpanEndTime ∧
      timestamp height + span.blockTime ≤ timestamp (height + 1) := by
  have hpos : (0 : Int) < span.blockTime := by omega
  have hpos' : (0 : Int) < span'.blockTime := by omega
  obtain ⟨u, hu⟩ := h
  obtain ⟨m, hm⟩ := hfirst
  obtain ⟨k, hk⟩ := h'
  have hmissed : 0 ≤ m := by
    by_contra hneg
    have := mul_neg_of_pos_of_neg hpos (not_le.1 hneg)
    omega
  have hnone : timestamp first = span.lastSpanEndTime ↔ m = 0 := by
    constructor
    · intro heq
      have hzero : (span.blockTime : Int) * m = 0 := by omega
      exact (mul_eq_zero.1 hzero).resolve_left hpos.ne'
    · rintro rfl
      omega
  have hafter : timestamp height + span.blockTime ≤ timestamp (height + 1) ↔ 0 ≤ k := by
    rw [← mul_nonneg_iff_of_pos_left hpos']
    omega
  have hcount := ncard_slots hpos' span'.lastSpanEndTime 0 k
  have hlow : timestamp height + span.blockTime =
      span'.lastSpanEndTime + span'.blockTime * 0 := by omega
  have hhigh : timestamp (height + 1) = span'.lastSpanEndTime + span'.blockTime * k := by omega
  have hspan : span'.lastSpanEndTime - timestamp first = span.blockTime * (u + 1 - m) := by
    rw [mul_sub, mul_add, mul_one]
    omega
  have hslot : span.slot (timestamp height) = span.totalSlotsFromLastSpan + u := by
    unfold Span.slot
    rw [hu, Int.mul_fdiv_cancel_left _ hpos.ne']
  have hslot' : span'.slot (timestamp (height + 1)) =
      span.totalSlotsFromLastSpan + (u + 1 - m) + k := by
    unfold Span.slot
    rw [htotal, hspan, Int.mul_fdiv_cancel_left _ hpos.ne', hk,
      Int.mul_fdiv_cancel_left _ hpos'.ne']
  rw [hnone, hafter]
  unfold SlotStep
  rw [hslot, hslot', hlow, hhigh, hcount]
  omega

/-! ## 3. The loop -/

/-- The slot numbers of the blocks from the start of a span on. -/
theorem laterSpans_advance {c : MilestoneList} {timestamp : Nat → Int} {last : Nat}
    (hknown : ∀ height, 1 ≤ height → height ≤ last → lookup env height = .ok (timestamp height))
    (hincreasing : ∀ height, 1 ≤ height → height < last →
      timestamp height < timestamp (height + 1)) {later : List MilestoneSearchResult} :
    ∀ {first : Nat} {span : Slots.Span}, c.Follows Milestone.blockTime first later → 1 ≤ first →
      first ≤ last → span.previousMilestoneHeight = first → span.blockTime ≠ 0 →
      span.lastSpanEndTime ≤ timestamp first →
      (∀ height, first ≤ height → height ≤ last → ∃ s,
        Slots.laterSpans env height later span = .ok s ∧
          (s.blockTime : Int) ∣ timestamp height - s.lastSpanEndTime) →
      ((∀ height, first ≤ height → height < last → ∃ s s',
        Slots.laterSpans env height later span = .ok s ∧
          Slots.laterSpans env (height + 1) later span = .ok s' ∧
          SlotStep timestamp height s s') ↔
        OnTime timestamp last first span.lastSpanEndTime span.blockTime later) := by
  induction later with
  | nil =>
    intro first span _ hone _ _ hb _ hstarts
    refine ⟨fun _ => trivial, fun _ height hfirst hlt => ?_⟩
    obtain ⟨s, hs, hdvd⟩ := hstarts height hfirst hlt.le
    obtain ⟨s', hs', hdvd'⟩ := hstarts (height + 1) (by omega) hlt
    cases hs
    cases hs'
    exact ⟨span, span, rfl, rfl,
      slotStep_same hb hdvd hdvd' (hincreasing height (by omega) hlt)⟩
  | cons next later ih =>
    intro first span hfollows hone hfirst hprevious hb hlate hstarts
    obtain ⟨hnext, hrest⟩ := hfollows
    obtain ⟨hdata, -, hlt, -, -⟩ := MilestoneList.getNextMilestoneWithNewKey_eq_some hnext
    have hbefore : ∀ height, height < next.height →
        Slots.laterSpans env height (next :: later) span = .ok span := fun height hheight =>
      laterSpans_before (fun n hn => by cases hn; exact hheight) span
    have hinside : ∀ height, first ≤ height → height ≤ last → height < next.height →
        (span.blockTime : Int) ∣ timestamp height - span.lastSpanEndTime := by
      intro height hf hl hheight
      obtain ⟨s, hs, hdvd⟩ := hstarts height hf hl
      rw [hbefore height hheight] at hs
      cases hs
      exact hdvd
    have hsame : ∀ height, first ≤ height → height < last → height + 1 < next.height →
        ∃ s s', Slots.laterSpans env height (next :: later) span = .ok s ∧
          Slots.laterSpans env (height + 1) (next :: later) span = .ok s' ∧
          SlotStep timestamp height s s' := fun height hf hl hheight =>
      ⟨span, span, hbefore height (by omega), hbefore (height + 1) hheight,
        slotStep_same hb (hinside height hf hl.le (by omega))
          (hinside (height + 1) (by omega) hl hheight) (hincreasing height (by omega) hl)⟩
    by_cases hreached : next.height ≤ last
    · have hlookup : lookup env span.previousMilestoneHeight = .ok (timestamp first) := by
        rw [hprevious]
        exact hknown first hone hfirst
      have hlookup' : lookup env (next.height - 1) = .ok (timestamp (next.height - 1)) :=
        hknown _ (by omega) (by omega)
      have hafter := fun height (hheight : next.height ≤ height) =>
        laterSpans_after later hheight hlookup hlookup'
      obtain ⟨n, hn⟩ : ∃ n, next.height = n + 1 := ⟨next.height - 1, by omega⟩
      rw [hn, Nat.add_sub_cancel] at hafter
      generalize hspan' : (⟨next.data, span.totalSlotsFromLastSpan +
        (timestamp n + span.blockTime - timestamp first).fdiv span.blockTime,
        timestamp n + span.blockTime, n + 1⟩ : Slots.Span) = span' at hafter
      have hend : span'.lastSpanEndTime = timestamp n + span.blockTime := by rw [← hspan']
      have hb' : span'.blockTime = next.data := by rw [← hspan']
      have hcome : Slots.laterSpans env (n + 1) (next :: later) span = .ok span' := by
        rw [hafter (n + 1) le_rfl]
        refine laterSpans_before (fun m hm => ?_) span'
        cases later with
        | nil => cases hm
        | cons m' later =>
          cases hm
          obtain ⟨-, -, hlt', -, -⟩ := MilestoneList.getNextMilestoneWithNewKey_eq_some hrest.1
          omega
      have hdvd' : (span'.blockTime : Int) ∣ timestamp (n + 1) - span'.lastSpanEndTime := by
        obtain ⟨s, hs, hdvd⟩ := hstarts (n + 1) (by omega) (by omega)
        rw [hcome] at hs
        cases hs
        exact hdvd
      have hchange : SlotStep timestamp n span span' ↔ timestamp first = span.lastSpanEndTime ∧
          timestamp n + span.blockTime ≤ timestamp (n + 1) :=
        slotStep_change hb (by rw [hb']; exact hdata) hend (by rw [← hspan'])
          (hinside n (by omega) (by omega) (by omega)) (hinside first le_rfl hfirst hlt) hdvd' hlate
      have hrec : span'.lastSpanEndTime ≤ timestamp (n + 1) → _ := fun hlate' =>
        @ih (n + 1) span' (by rw [← hn]; exact hrest) (by omega) (by omega)
          (by rw [← hspan']) (by rw [hb']; exact hdata) hlate' fun height hf hl => by
            obtain ⟨s, hs, hdvd⟩ := hstarts height (by omega) hl
            rw [hafter height hf] at hs
            exact ⟨s, hs, hdvd⟩
      rw [hend, hb'] at hrec
      unfold OnTime
      rw [hn, Nat.add_sub_cancel]
      constructor
      · intro h _
        obtain ⟨s, s', hs, hs', hstep⟩ := h n (by omega) (by omega)
        rw [hbefore n (by omega)] at hs
        cases hs
        rw [hcome] at hs'
        cases hs'
        obtain ⟨hontime, hbegins⟩ := hchange.1 hstep
        refine ⟨hontime, hbegins, (hrec hbegins).1 fun height hf hl => ?_⟩
        obtain ⟨s, s', hs, hs', hstep'⟩ := h height (by omega) hl
        rw [hafter height hf] at hs
        rw [hafter (height + 1) (by omega)] at hs'
        exact ⟨s, s', hs, hs', hstep'⟩
      · intro h height hf hl
        obtain ⟨hontime, hbegins, hlater⟩ := h (by omega)
        rcases Nat.lt_trichotomy height n with hheight | rfl | hheight
        · exact hsame height hf hl (by omega)
        · exact ⟨span, span', hbefore height (by omega), hcome, hchange.2 ⟨hontime, hbegins⟩⟩
        · rw [hafter height (by omega), hafter (height + 1) (by omega)]
          exact (hrec hbegins).2 hlater height (by omega) hl
    · refine ⟨fun _ hle => absurd hle hreached, fun _ height hf hl => hsame height hf hl (by omega)⟩

/-! ## 4. The whole chain -/

theorem spanAt_of_firstSpan {first : Slots.Span} (hheight : 1 ≤ height)
    (h : firstSpan env = .ok first) : spanAt env height =
      Slots.laterSpans env height (laterBlockTimes env.configuration) first := by
  unfold spanAt getLatestHeight
  rw [h, if_pos (by omega)]

/-- **The slot numbers along a chain count its slots when its spans begin on time, and only
    then.** -/
theorem slots_advance_iff {last : Nat} {timestamp : Nat → Int}
    (hchain : SlotChain env last timestamp) :
    (∀ height, 1 ≤ height → height < last → Advances env timestamp height) ↔
      SpansOnTime env last timestamp := by
  by_cases hlast : last = 0
  · subst hlast
    refine ⟨fun _ blockTime _ => ?_, fun _ height _ hlt => by omega⟩
    cases hlater : laterBlockTimes env.configuration with
    | nil => exact trivial
    | cons next later =>
      intro hle
      have := MilestoneList.one_lt_height (hlater ▸ List.mem_cons_self)
      omega
  · obtain ⟨span, hspan⟩ := isSlotStart_span (hchain.starts 1 le_rfl (by omega))
    cases hblockTime : calculateBlockTime env.configuration 1 with
    | error e =>
      unfold spanAt firstSpan at hspan
      rw [hblockTime] at hspan
      cases hspan
    | ok blockTime =>
      have hfirst : firstSpan env = .ok ⟨blockTime, 0, timestamp 1, 1⟩ := by
        unfold firstSpan
        rw [hblockTime, hchain.epoch]
      have hspans := fun height (hheight : 1 ≤ height) => spanAt_of_firstSpan hheight hfirst
      have hstarts : ∀ height, 1 ≤ height → height ≤ last → ∃ s,
          Slots.laterSpans env height (laterBlockTimes env.configuration)
            ⟨blockTime, 0, timestamp 1, 1⟩ = .ok s ∧
          (s.blockTime : Int) ∣ timestamp height - s.lastSpanEndTime := by
        intro height hone hle
        have hstart := hchain.starts height hone hle
        obtain ⟨s, hs⟩ := isSlotStart_span hstart
        refine ⟨s, ?_, (isSlotStart_iff hs _).1 hstart⟩
        rw [← hspans height hone]
        exact hs
      have hloop := laterSpans_advance hchain.known hchain.increasing
        (env.configuration.follows_milestonesWithNewKey Milestone.blockTime) le_rfl (by omega)
        rfl (firstSpan_blockTime hfirst) le_rfl hstarts
      have hontime : SpansOnTime env last timestamp ↔
          OnTime timestamp last 1 (timestamp 1) blockTime (laterBlockTimes env.configuration) := by
        unfold SpansOnTime
        rw [hblockTime]
        exact ⟨fun h => h _ rfl, fun h b hb => by cases hb; exact h⟩
      rw [hontime]
      refine Iff.trans ?_ hloop
      refine forall_congr' fun height => forall_congr' fun hone => forall_congr' fun hlt => ?_
      obtain ⟨s, hs, -⟩ := hstarts height hone hlt.le
      obtain ⟨s', hs', -⟩ := hstarts (height + 1) (by omega) hlt
      have hs₁ := (hspans height hone).trans hs
      have hs₂ := (hspans (height + 1) (by omega)).trans hs'
      rw [advances_iff timestamp hs₁ hs₂]
      constructor
      · intro hstep
        exact ⟨s, s', hs, hs', hstep⟩
      · rintro ⟨u, u', hu, hu', hstep⟩
        obtain rfl := Except.ok.inj (hs.symm.trans hu)
        obtain rfl := Except.ok.inj (hs'.symm.trans hu')
        exact hstep

/-! ## 5. A missed slot -/

namespace Sample

/-- Slots of eight seconds, of four from height 3 on, and of eight again from height 5 on. -/
def twoBlockTimes : Configuration :=
  .of ⟨1, 1, ⟨1000, 10, 0⟩, 8, 0, 100⟩
    [⟨3, none, none, none, none, some 4, none, none⟩, ⟨5, none, none, none, none, some 8, none, none⟩]
    (by decide)

/-- The slot that begins at 16 is missed, the first one of four seconds. -/
def missedSlot : Nat → Int
  | 2 => 8
  | 3 => 20
  | 4 => 24
  | 5 => 28
  | _ => 0

/-- A look-up that knows the chain. -/
def missedSlotTime : TimeServices where
  configuration := twoBlockTimes
  height := 5
  findBlockTimestampByHeight _ := .error (.error "not asked")
  transientBlockTimeLookup := some fun height => .ok (missedSlot height)

theorem missedSlot_chain : SlotChain missedSlotTime 5 missedSlot where
  epoch := by decide
  known _ _ _ := rfl
  starts height hone hle := by
    have hcases : height = 1 ∨ height = 2 ∨ height = 3 ∨ height = 4 ∨ height = 5 := by omega
    rcases hcases with rfl | rfl | rfl | rfl | rfl <;> decide
  increasing height hone hlt := by
    have hcases : height = 1 ∨ height = 2 ∨ height = 3 ∨ height = 4 := by omega
    rcases hcases with rfl | rfl | rfl | rfl <;> decide

end Sample

theorem slots_advance_iff_sample :
    (∀ height, 1 ≤ height → height < 5 →
      Advances Sample.missedSlotTime Sample.missedSlot height) ↔
      SpansOnTime Sample.missedSlotTime 5 Sample.missedSlot :=
  slots_advance_iff Sample.missedSlot_chain

/-- **A slot missed where the block time changes** is forgotten at the next change: the blocks 4 and
    5 have the same slot number. -/
theorem missedSlot_not :
    SlotChain Sample.missedSlotTime 5 Sample.missedSlot ∧
      ¬∀ height, 1 ≤ height → height < 5 →
        Advances Sample.missedSlotTime Sample.missedSlot height := by
  refine ⟨Sample.missedSlot_chain, fun h => ?_⟩
  obtain ⟨slot, slot', hslot, hslot', hlt, -⟩ := h 4 (by decide) (by decide)
  have hfour : (getSlotNumber Sample.missedSlotTime (.int (Sample.missedSlot 4)) 4).settled =
      .ok (.int 4) := rfl
  have hfive : (getSlotNumber Sample.missedSlotTime (.int (Sample.missedSlot 5)) 5).settled =
      .ok (.int 4) := rfl
  rw [hfour] at hslot
  cases hslot
  rw [hfive] at hslot'
  cases hslot'
  exact lt_irrefl _ hlt

end CoreEx
