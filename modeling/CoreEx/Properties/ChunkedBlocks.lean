/-
  File:      CoreEx/Properties/ChunkedBlocks.lean
  Subject:   Whether downloaded blocks are put into jobs that end at the milestones.

  `enqueueBlocks` looks at the next milestone height only, and goes on to the one after it when a
  block has that height. A height that is behind the first block, or there twice, is never left
  behind, and all later milestones are overlooked.

  * `Chunked` -- what is promised of the jobs;
  * `NotOverlooked` -- no milestone inside the list comes after a height that stays in front;
  * **`Blockchain.enqueueBlocks_iff`** -- for these milestones and heights the promise is kept;
  * **`Blockchain.enqueueBlocks_not`** -- blocks above the genesis block, and a milestone at height 3.
-/
import CoreEx.Blocks.BlockQueue
import CoreEx.Properties.KeptBlocks

namespace CoreEx

namespace Blockchain

/-- The jobs are the blocks in their order, none of them is too long, and a block at the height of a
    milestone is the last one of its job. -/
structure Chunked (milestones : List Milestone) (maxLastBlocks : Nat) (blocks : List BlockData)
    (jobs : List (List BlockData)) : Prop where
  all : jobs.flatten = blocks
  short : ∀ job ∈ jobs, job.length ≤ min maxLastBlocks 100
  cut : ∀ job ∈ jobs, ¬ Inside (milestones.map (·.height)) job

/-- Where a milestone has a height of the list that is not the last one, no milestone has a height
    from the last downloaded one to below the list, and none below it is there twice. -/
def NotOverlooked (milestones : List Milestone) (lastDownloadedHeight start count : Nat) : Prop :=
  ∀ m ∈ milestones.map (·.height), start ≤ m → m + 1 < start + count →
    (∀ q ∈ milestones.map (·.height), lastDownloadedHeight ≤ q → start ≤ q) ∧
      ∀ q, lastDownloadedHeight ≤ q → q < m → (milestones.map (·.height)).count q ≤ 1

variable {milestones : List Milestone} {lastDownloadedHeight start count : Nat}

theorem mem_milestoneHeights {q : Nat} : q ∈ milestoneHeights milestones lastDownloadedHeight ↔
    q ∈ milestones.map (·.height) ∧ lastDownloadedHeight ≤ q := by
  unfold milestoneHeights
  rw [List.mem_filter, List.mem_mergeSort, decide_eq_true_eq]

theorem sorted_milestoneHeights (milestones : List Milestone) (lastDownloadedHeight : Nat) :
    (milestoneHeights milestones lastDownloadedHeight).Pairwise (· ≤ ·) := by
  unfold milestoneHeights
  refine List.Pairwise.filter _ ?_
  refine (List.pairwise_mergeSort ?_ ?_ _).imp of_decide_eq_true
  · intro a b c hab hbc
    exact decide_eq_true ((of_decide_eq_true hab).trans (of_decide_eq_true hbc))
  · intro a b
    simpa using Nat.le_total a b

theorem count_milestoneHeights {q : Nat} (hq : lastDownloadedHeight ≤ q) :
    (milestoneHeights milestones lastDownloadedHeight).count q =
      (milestones.map (·.height)).count q := by
  unfold milestoneHeights
  rw [List.count_filter (p := fun x => decide (x ≥ lastDownloadedHeight)) (decide_eq_true hq),
    (List.mergeSort_perm _ _).count_eq]

/-- The next height is one to come, as far as that matters. -/
theorem regime_of_notOverlooked (hstart : lastDownloadedHeight < start)
    (h : NotOverlooked milestones lastDownloadedHeight start count) :
    OnTime (milestones.map (·.height)) (milestoneHeights milestones lastDownloadedHeight) start
      count ∨
      Quiet (milestones.map (·.height)) start count := by
  by_cases hquiet : Quiet (milestones.map (·.height)) start count
  · exact Or.inr hquiet
  · unfold Quiet at hquiet
    push Not at hquiet
    obtain ⟨m, hm, hle, hlt⟩ := hquiet
    refine Or.inl ⟨sorted_milestoneHeights _ _, fun q hq => ?_, fun m' hm' hle' => ?_, fun q hq => ?_,
      fun m' hm' hle' hlt' q hq => ?_⟩
    · obtain ⟨hmem, hge⟩ := mem_milestoneHeights.1 hq
      exact (h m hm hle hlt).1 q hmem hge
    · exact mem_milestoneHeights.2 ⟨hm', by omega⟩
    · exact (mem_milestoneHeights.1 hq).1
    · by_cases hge : lastDownloadedHeight ≤ q
      · rw [count_milestoneHeights hge]
        exact (h m' hm' hle' hlt').2 q hge hq
      · have hout : q ∉ milestoneHeights milestones lastDownloadedHeight :=
          fun hin => hge (mem_milestoneHeights.1 hin).2
        rw [List.count_eq_zero_of_not_mem hout]
        exact Nat.zero_le _

/-- The first two promises are kept always. -/
theorem chunked_enqueueBlocks {maxLastBlocks : Nat} (hmax : 1 ≤ maxLastBlocks)
    {blocks : List BlockData}
    (hcut : ∀ job ∈ enqueueBlocks milestones maxLastBlocks lastDownloadedHeight blocks,
      ¬ Inside (milestones.map (·.height)) job) :
    Chunked milestones maxLastBlocks blocks
      (enqueueBlocks milestones maxLastBlocks lastDownloadedHeight blocks) := by
  refine ⟨?_, ?_, hcut⟩
  · unfold enqueueBlocks
    split
    · rename_i hempty
      rw [List.eq_nil_of_length_eq_zero hempty]
      rfl
    · rw [flatten_enqueueFrom, List.nil_append]
  · intro job hjob
    unfold enqueueBlocks at hjob
    split at hjob
    · cases hjob
    · have hlimit : 1 ≤ min maxLastBlocks 100 := by omega
      have hempty : ([] : List BlockData).length < min maxLastBlocks 100 := hlimit
      exact length_le_of_mem_enqueueFrom hlimit hempty hjob

/-- Blocks with the heights from one on; the one before a height has 150 transactions, the others
    have none. -/
def blocksFrom (start count m : Nat) : List BlockData :=
  (List.range' start count).map fun h => Sample.header h (if h + 1 = m then 150 else 0) 0

theorem consecutive_blocksFrom (start count m : Nat) :
    Consecutive start (blocksFrom start count m) := by
  unfold Consecutive blocksFrom
  rw [List.map_map, List.length_map, List.length_range']
  exact List.map_id _

theorem length_blocksFrom (start count m : Nat) : (blocksFrom start count m).length = count := by
  unfold blocksFrom
  rw [List.length_map, List.length_range']

/-- The blocks around a height that is not the last one. -/
theorem blocksFrom_split {start count m : Nat} (hle : start ≤ m) (hlt : m + 1 < start + count) :
    blocksFrom start count m =
      blocksFrom start (m - start) m ++ Sample.header m 0 0 ::
        blocksFrom (m + 1) (count - (m - start) - 1) m := by
  unfold blocksFrom
  have hcount : count = (m - start) + ((count - (m - start) - 1) + 1) := by omega
  have hm : start + 1 * (m - start) = m := by omega
  conv_lhs => rw [hcount, ← List.range'_append, List.map_append, hm, List.range'_succ]
  rw [List.map_cons, if_neg (by omega)]

/-- The block before the height is full. -/
theorem blocksFrom_begins {start m : Nat} (hle : start ≤ m) :
    blocksFrom start (m - start) m = [] ∨
      ∃ front last, blocksFrom start (m - start) m = front ++ [last] ∧
        150 ≤ last.numberOfTransactions := by
  by_cases hfirst : m = start
  · subst hfirst
    rw [Nat.sub_self]
    exact Or.inl rfl
  · refine Or.inr ⟨blocksFrom start (m - start - 1) m, Sample.header (m - 1) 150 0, ?_,
      Nat.le_refl 150⟩
    have hcount : m - start = (m - start - 1) + 1 := by omega
    have hlast : start + 1 * (m - start - 1) = m - 1 := by omega
    unfold blocksFrom
    conv_lhs => rw [hcount, List.range'_concat, List.map_append, hlast]
    rw [List.map_cons, List.map_nil, if_pos (by omega)]

/-- A height that stays in front lets a milestone pass inside a job. -/
theorem exists_inside_blocksFrom {m : Nat} (hm : m ∈ milestones.map (·.height)) (hle : start ≤ m)
    (hlt : m + 1 < start + count)
    (hlate : Late (milestoneHeights milestones lastDownloadedHeight) start m) :
    ∃ job ∈ enqueueBlocks milestones 100 lastDownloadedHeight (blocksFrom start count m),
      Inside (milestones.map (·.height)) job := by
  have hlength : start + (blocksFrom start (m - start) m).length = m := by
    rw [length_blocksFrom]
    omega
  have hrest : blocksFrom (m + 1) (count - (m - start) - 1) m ≠ [] := by
    refine List.ne_nil_of_length_pos ?_
    rw [length_blocksFrom]
    omega
  have hlate' : Late (milestoneHeights milestones lastDownloadedHeight) start
      (start + (blocksFrom start (m - start) m).length) := hlength.symm ▸ hlate
  obtain ⟨job, hjob, hblock⟩ := exists_inside (blocksFrom_begins hle)
    (consecutive_blocksFrom start (m - start) m) hlate' hlength.symm
    (show (Sample.header m 0 0).numberOfTransactions < 150 from Nat.zero_lt_succ 149)
    (show 1 < min 100 100 by decide) hrest
  refine ⟨job, ?_, Sample.header m 0 0, hblock, hm⟩
  unfold enqueueBlocks
  rw [if_neg (by rw [length_blocksFrom]; omega), blocksFrom_split hle hlt]
  exact hjob

/-- **For these milestones and heights the promise is kept**, however many transactions the blocks
    have and however many blocks the state keeps, exactly when no milestone is overlooked. -/
theorem enqueueBlocks_iff (hstart : lastDownloadedHeight < start) :
    (∀ (maxLastBlocks : Nat) (blocks : List BlockData), 1 ≤ maxLastBlocks →
      blocks.length = count → Consecutive start blocks →
      Chunked milestones maxLastBlocks blocks
        (enqueueBlocks milestones maxLastBlocks lastDownloadedHeight blocks)) ↔
    NotOverlooked milestones lastDownloadedHeight start count := by
  refine ⟨fun h m hm hle hlt => ?_, fun h maxLastBlocks blocks hmax hcount hblocks => ?_⟩
  · have hnot : ¬ Late (milestoneHeights milestones lastDownloadedHeight) start m := by
      intro hlate
      obtain ⟨job, hjob, hinside⟩ := exists_inside_blocksFrom hm hle hlt hlate
      exact (h 100 (blocksFrom start count m) (by decide) (length_blocksFrom _ _ _)
        (consecutive_blocksFrom _ _ _)).cut job hjob hinside
    have hsorted := sorted_milestoneHeights milestones lastDownloadedHeight
    refine ⟨fun q hq hge => ?_, fun q hge hq => ?_⟩
    · by_contra hbehind
      exact hnot ⟨hsorted, Or.inl ⟨q, mem_milestoneHeights.2 ⟨hq, hge⟩, by omega⟩⟩
    · by_contra htwice
      rw [← count_milestoneHeights hge] at htwice
      have hthere : q ∈ milestoneHeights milestones lastDownloadedHeight :=
        List.count_pos_iff.1 (by omega)
      by_cases hbehind : q < start
      · exact hnot ⟨hsorted, Or.inl ⟨q, hthere, hbehind⟩⟩
      · exact hnot ⟨hsorted, Or.inr ⟨q, by omega, hq, by omega⟩⟩
  · subst hcount
    refine chunked_enqueueBlocks hmax fun job hjob => ?_
    unfold enqueueBlocks at hjob
    split at hjob
    · cases hjob
    · have hempty : ¬ Inside (milestones.map (·.height)) [] := fun hinside => by
        obtain ⟨block, hblock, -⟩ := hinside
        cases hblock
      exact notInside_enqueueFrom hblocks (by omega) (regime_of_notOverlooked hstart h) hempty
        (fun _ _ hblock => (nomatch hblock)) hjob

/-- A milestone at a height. -/
def milestoneAt (height : Nat) : Milestone := ⟨height, 1, ⟨1000, 10, 0⟩, 8, 0, 100⟩

/-- Ten blocks from height 6 on, where the milestones are at the heights 1 and 8. -/
theorem enqueueBlocks_iff_sample :
    Chunked [milestoneAt 1, milestoneAt 8] 100 (blocksFrom 6 10 0)
      (enqueueBlocks [milestoneAt 1, milestoneAt 8] 100 5 (blocksFrom 6 10 0)) := by
  have hnot : NotOverlooked [milestoneAt 1, milestoneAt 8] 5 6 10 := by
    have hnodup : ([milestoneAt 1, milestoneAt 8].map (·.height)).Nodup := by decide
    have hall : ∀ q ∈ [milestoneAt 1, milestoneAt 8].map (·.height), 5 ≤ q → 6 ≤ q := by decide
    exact fun m _ _ _ => ⟨hall, fun q _ _ => List.nodup_iff_count_le_one.1 hnodup q⟩
  exact (enqueueBlocks_iff (by decide)).2 hnot 100 _ (by decide) (length_blocksFrom _ _ _)
    (consecutive_blocksFrom _ _ _)

/-- **Above the genesis block**, whose height is that of the first milestone, the block at height 3
    is in the middle of a job though a milestone is there. -/
theorem enqueueBlocks_not :
    ¬ ∀ (milestones : List Milestone) (maxLastBlocks lastDownloadedHeight start : Nat)
        (blocks : List BlockData), 1 ≤ maxLastBlocks → lastDownloadedHeight < start →
      Consecutive start blocks →
      Chunked milestones maxLastBlocks blocks
        (enqueueBlocks milestones maxLastBlocks lastDownloadedHeight blocks) := by
  intro h
  have hchunked := h [milestoneAt 1, milestoneAt 3] 100 1 2 (blocksFrom 2 3 0) (by decide) (by decide)
    (consecutive_blocksFrom _ _ _)
  have hheights : milestoneHeights [milestoneAt 1, milestoneAt 3] 1 = [1, 3] := by
    unfold milestoneHeights
    rw [List.mergeSort_of_pairwise (by decide)]
    rfl
  have hjobs : enqueueBlocks [milestoneAt 1, milestoneAt 3] 100 1 (blocksFrom 2 3 0) =
      [blocksFrom 2 3 0] := by
    unfold enqueueBlocks
    rw [hheights]
    decide
  refine hchunked.cut (blocksFrom 2 3 0) (by rw [hjobs]; exact List.mem_cons_self) ?_
  exact ⟨Sample.header 3 0 0, by decide, by decide⟩

end Blockchain

end CoreEx
