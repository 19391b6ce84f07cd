/-
  File:      CoreEx/Properties/BlockTimeLookup.lean
  Subject:   Whether the look-ups of the slot arithmetic are answered, and with the timestamps of the
             stored blocks.

  The slots ask for the first and the last block of every finished span. The look-up knows the last
  blocks of the spans that had begun before the height it is asked for, and a 0 for height 1; so it
  never knows a last block, unless that is the genesis block, and never a first block but that one.

  * `lookedUpHeights` -- the heights asked for;
  * `Answered` -- they are answered rightly, and nothing is thrown;
  * `lookup_one`, `lookup_last`, `lookup_first` -- the answers;
  * **`answered_iff`** -- when that is so;
  * **`changedBlockTime_not`** -- the block time changes at height 3.
-/
import CoreEx.Time.Slots

namespace CoreEx

open Slots

/-! ## 1. What is asked -/

/-- The heights the loop asks for, from the milestone at `previous` on. -/
def lookedUpHeights (height : Nat) : Nat → List MilestoneSearchResult → List Nat
  | _, [] => []
  | previous, next :: later =>
    if height < next.height then []
    else previous :: (next.height - 1) :: lookedUpHeights height next.height later

/-- `getSlotInfo` and `getSlotTime` do not throw at the height, and what they look up are the
    timestamps of the blocks. -/
structure Answered (env : TimeServices) (timestamp : Nat → Int) (height : Nat) : Prop where
  slotInfo : ∀ time, ∃ info, (getSlotInfo env time height).settled = .ok info
  slotTime : ∀ slot, ∃ time, (getSlotTime env slot height).settled = .ok time
  values : ∀ h ∈ lookedUpHeights height 1 (laterBlockTimes env.configuration),
    lookup env h = .ok (timestamp h)

/-- The blocks below a height are stored, and asked for with `BlockTimeLookup`. -/
structure StoredBelow (env : TimeServices) (timestamp : Nat → Int) (height : Nat) : Prop where
  own : env.transientBlockTimeLookup = none
  stored : ∀ h, 1 ≤ h → h < height → env.findBlockTimestampByHeight h = .ok (timestamp h)

/-! ## 2. The answers -/

variable {env : TimeServices} {timestamp : Nat → Int} {height : Nat}

/-- The milestones above the height are not looked at. -/
theorem heightMapped_before {later : List MilestoneSearchResult}
    (h : ∀ next ∈ later.head?, height < next.height) (known : List (Nat × Int)) :
    heightMappedToBlockTimestamp env height later known = .ok known := by
  cases later with
  | nil => rfl
  | cons next later =>
    have hnext := h next rfl
    unfold heightMappedToBlockTimestamp
    exact if_neg (by omega)

theorem lookup_eq (hown : env.transientBlockTimeLookup = none) {known : List (Nat × Int)}
    (h : heightMappedToBlockTimestamp env height (laterBlockTimes env.configuration) [(1, 0)] =
      .ok known) (value : Int) :
    lookup env height = .ok value ↔ known.lookup height = some value := by
  unfold lookup getBlockTimeLookup
  rw [hown, h]
  dsimp only
  cases known.lookup height with
  | none => simp
  | some result => simp

/-- The genesis block always has a timestamp of 0. -/
theorem lookup_one (hown : env.transientBlockTimeLookup = none) : lookup env 1 = .ok 0 := by
  have hknown : heightMappedToBlockTimestamp env 1 (laterBlockTimes env.configuration) [(1, 0)] =
      .ok [(1, 0)] :=
    heightMapped_before (fun _ hnext =>
      MilestoneList.one_lt_height (List.mem_of_mem_head? hnext)) _
  exact (lookup_eq hown hknown 0).2 rfl

/-- The last block of the first span is known when it is the genesis block. -/
theorem lookup_last (hown : env.transientBlockTimeLookup = none) {next : MilestoneSearchResult}
    {later : List MilestoneSearchResult}
    (hlater : laterBlockTimes env.configuration = next :: later) (value : Int) :
    lookup env (next.height - 1) = .ok value ↔ next.height = 2 ∧ value = 0 := by
  have hone : 1 < next.height :=
    MilestoneList.one_lt_height (c := env.configuration) (hlater ▸ List.mem_cons_self)
  rw [lookup_eq hown (heightMapped_before (fun m hm => by
    rw [hlater] at hm
    cases hm
    omega) _)]
  by_cases htwo : next.height = 2
  · rw [htwo]
    simp [eq_comm]
  · have hne : (next.height - 1 == 1) = false := by
      rw [beq_eq_false_iff_ne]
      omega
    rw [List.lookup_cons, hne]
    simp [htwo]

/-- The first block of a later span is not known. -/
theorem lookup_first (hown : env.transientBlockTimeLookup = none) {next : MilestoneSearchResult}
    {later : List MilestoneSearchResult}
    (hlater : laterBlockTimes env.configuration = next :: later) (htwo : next.height = 2)
    (hstored : env.findBlockTimestampByHeight 1 = .ok (timestamp 1)) (value : Int) :
    lookup env 2 ≠ .ok value := by
  have hfollows := env.configuration.follows_milestonesWithNewKey Milestone.blockTime
  have hknown : heightMappedToBlockTimestamp env 2 (laterBlockTimes env.configuration) [(1, 0)] =
      .ok [(1, timestamp 1), (1, 0)] := by
    rw [hlater]
    unfold heightMappedToBlockTimestamp
    rw [if_pos htwo.le, htwo, show 2 - 1 = 1 from rfl, hstored]
    refine heightMapped_before (fun m hm => ?_) _
    cases later with
    | nil => cases hm
    | cons m' later =>
      cases hm
      unfold laterBlockTimes at hlater
      rw [hlater] at hfollows
      obtain ⟨-, -, hlt, -, -⟩ := MilestoneList.getNextMilestoneWithNewKey_eq_some hfollows.2.1
      omega
  rw [Ne, lookup_eq hown hknown]
  simp [List.lookup_cons]

/-! ## 3. When all are answered -/

/-- The span is there iff the block time of height 1 is and the loop gets through. -/
theorem spanAt_ok_iff (hheight : 1 ≤ height) : (∃ span, spanAt env height = .ok span) ↔
    ∃ first, firstSpan env = .ok first ∧ ∃ span, Slots.laterSpans env height
      (laterBlockTimes env.configuration) first = .ok span := by
  unfold spanAt getLatestHeight
  rw [if_pos (by omega)]
  cases firstSpan env with
  | error e => simp
  | ok first => simp

theorem answered_span_iff : Answered env timestamp height ↔
    (∃ span, spanAt env height = .ok span) ∧
      ∀ h ∈ lookedUpHeights height 1 (laterBlockTimes env.configuration),
        lookup env h = .ok (timestamp h) := by
  constructor
  · intro h
    refine ⟨?_, h.values⟩
    obtain ⟨info, hinfo⟩ := h.slotInfo .nan
    unfold getSlotInfo at hinfo
    cases hspan : spanAt env height with
    | error e =>
      rw [hspan] at hinfo
      cases hinfo
    | ok span => exact ⟨span, rfl⟩
  · rintro ⟨⟨span, hspan⟩, hvalues⟩
    refine ⟨fun time => ?_, fun slot => ?_, hvalues⟩
    · unfold getSlotInfo
      rw [hspan]
      exact ⟨_, rfl⟩
    · unfold getSlotTime
      rw [hspan]
      exact ⟨_, rfl⟩

/-- The changes of the block time up to a height. -/
def changedUpTo (c : MilestoneList) (height : Nat) : List Nat :=
  ((laterBlockTimes c).map (·.height)).takeWhile (· ≤ height)

/-- **All look-ups are answered rightly when the block time has not changed yet, or once, right
    after a genesis block of timestamp 0; and only then.** -/
theorem answered_iff (hheight : 1 ≤ height) (hstored : StoredBelow env timestamp height) :
    Answered env timestamp height ↔
      (∃ blockTime, calculateBlockTime env.configuration 1 = .ok blockTime) ∧
        (changedUpTo env.configuration height = [] ∨
          changedUpTo env.configuration height = [2] ∧ timestamp 1 = 0) := by
  have hblockTime : (∃ first, firstSpan env = .ok first) ↔
      ∃ blockTime, calculateBlockTime env.configuration 1 = .ok blockTime := by
    unfold firstSpan
    cases calculateBlockTime env.configuration 1 with
    | error e => simp
    | ok b => simp
  rw [answered_span_iff, spanAt_ok_iff hheight, ← hblockTime]
  by_cases hbefore : ∀ next ∈ (laterBlockTimes env.configuration).head?, height < next.height
  · -- no span is over
    have hempty : lookedUpHeights height 1 (laterBlockTimes env.configuration) = [] ∧
        changedUpTo env.configuration height = [] := by
      unfold changedUpTo
      cases hlater : laterBlockTimes env.configuration with
      | nil => exact ⟨rfl, rfl⟩
      | cons next later =>
        have hnext : height < next.height := hbefore next (by rw [hlater]; rfl)
        exact ⟨if_pos hnext, List.takeWhile_cons_of_neg (by simpa using hnext)⟩
    rw [hempty.1, hempty.2]
    constructor
    · rintro ⟨⟨first, hfirst, -⟩, -⟩
      exact ⟨⟨first, hfirst⟩, Or.inl rfl⟩
    · rintro ⟨⟨first, hfirst⟩, -⟩
      exact ⟨⟨first, hfirst, first, laterSpans_before hbefore first⟩, fun _ h => (nomatch h)⟩
  · cases hlater : laterBlockTimes env.configuration with
    | nil => exact absurd (fun _ h => by rw [hlater] at h; cases h) hbefore
    | cons next later =>
      have hnext : next.height ≤ height := by
        by_contra hlt
        exact hbefore fun m hm => by
          rw [hlater] at hm
          cases hm
          omega
      have hlooked : lookedUpHeights height 1 (next :: later) =
          1 :: (next.height - 1) :: lookedUpHeights height next.height later := if_neg (by omega)
      have hchanged : changedUpTo env.configuration height =
          next.height :: (later.map (·.height)).takeWhile (· ≤ height) := by
        unfold changedUpTo
        rw [hlater, List.map_cons, List.takeWhile_cons_of_pos (by simpa using hnext)]
      rw [hlooked, hchanged, List.forall_mem_cons, List.forall_mem_cons]
      constructor
      · rintro ⟨⟨first, hfirst, -⟩, hgenesis, hlast, hrest⟩
        rw [lookup_one hstored.own] at hgenesis
        obtain ⟨htwo, -⟩ := (lookup_last hstored.own hlater _).1 hlast
        refine ⟨⟨first, hfirst⟩, Or.inr ⟨?_, (Except.ok.inj hgenesis).symm⟩⟩
        rw [htwo]
        congr 1
        cases hmore : later with
        | nil => rfl
        | cons next' later' =>
          refine List.takeWhile_cons_of_neg ?_
          intro hle
          have hasked : (2 : Nat) ∈ lookedUpHeights height next.height later := by
            rw [hmore, htwo]
            unfold lookedUpHeights
            rw [if_neg (by simpa using hle)]
            exact List.mem_cons_self
          exact lookup_first hstored.own hlater htwo (hstored.stored 1 le_rfl (by omega)) _
            (hrest 2 hasked)
      · rintro ⟨⟨first, hfirst⟩, hcases⟩
        rcases hcases with hnil | ⟨hone, hgenesis⟩
        · cases hnil
        · obtain ⟨htwo, hnone⟩ := List.cons.inj hone
          have hend : ∀ next' ∈ later.head?, height < next'.height := by
            intro next' hnext'
            cases hmore : later with
            | nil =>
              rw [hmore] at hnext'
              cases hnext'
            | cons m more =>
              rw [hmore] at hnext' hnone
              cases hnext'
              by_contra hle
              rw [List.map_cons, List.takeWhile_cons_of_pos (by simpa using hle)] at hnone
              cases hnone
          have hfinal : lookedUpHeights height next.height later = [] := by
            cases hmore : later with
            | nil => rfl
            | cons m more => exact if_pos (hend m (by rw [hmore]; rfl))
          have hfirstBlock : lookup env first.previousMilestoneHeight = .ok 0 := by
            rw [(firstSpan_eq hfirst).2]
            exact lookup_one hstored.own
          have hlastBlock : lookup env (next.height - 1) = .ok 0 :=
            (lookup_last hstored.own hlater 0).2 ⟨htwo, rfl⟩
          refine ⟨⟨first, hfirst, ?_⟩, ?_, ?_, ?_⟩
          · have hspans := laterSpans_after later hnext hfirstBlock hlastBlock
            exact ⟨_, hspans.trans (laterSpans_before hend _)⟩
          · rw [lookup_one hstored.own, hgenesis]
          · rw [hlastBlock, htwo, hgenesis]
          · rw [hfinal]
            exact fun _ h => (nomatch h)

/-! ## 4. A change at height 3 -/

namespace Sample

/-- Slots of eight seconds, and of four from height 3 on. -/
def changedBlockTime : Configuration :=
  .of ⟨1, 1, ⟨1000, 10, 0⟩, 8, 0, 100⟩
    [⟨3, none, none, none, none, some 4, none, none⟩] (by decide)

/-- The blocks 1 and 2 are stored. -/
def changedBlockTimeTime : TimeServices where
  configuration := changedBlockTime
  height := 2
  findBlockTimestampByHeight height :=
    if height = 1 then .ok 0 else if height = 2 then .ok 8 else .error (.error "not stored")

theorem changedBlockTime_stored :
    StoredBelow changedBlockTimeTime (fun height => if height = 1 then 0 else 8) 3 where
  own := rfl
  stored height hone hlt := by
    have hcases : height = 1 ∨ height = 2 := by omega
    rcases hcases with rfl | rfl <;> rfl

end Sample

theorem answered_iff_sample :
    Answered Sample.changedBlockTimeTime (fun height => if height = 1 then 0 else 8) 3 ↔
      (∃ blockTime, calculateBlockTime Sample.changedBlockTime 1 = .ok blockTime) ∧
        (changedUpTo Sample.changedBlockTime 3 = [] ∨
          changedUpTo Sample.changedBlockTime 3 = [2] ∧ (if 1 = 1 then 0 else 8 : Int) = 0) :=
  answered_iff (by decide) Sample.changedBlockTime_stored

/-- **The block time changes at height 3**: the timestamp of block 2 is looked up and not known. -/
theorem changedBlockTime_not :
    StoredBelow Sample.changedBlockTimeTime (fun height => if height = 1 then 0 else 8) 3 ∧
      ¬Answered Sample.changedBlockTimeTime (fun height => if height = 1 then 0 else 8) 3 := by
  refine ⟨Sample.changedBlockTime_stored, fun h => ?_⟩
  obtain ⟨info, hinfo⟩ := h.slotInfo (.int 16)
  have hthrown : ∃ e, (getSlotInfo Sample.changedBlockTimeTime (.int 16) 3).settled = .error e :=
    ⟨_, rfl⟩
  obtain ⟨e, he⟩ := hthrown
  rw [he] at hinfo
  cases hinfo

end CoreEx
