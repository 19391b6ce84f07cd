/-
  File:      CoreEx/Blocks/BlockQueue.lean
  Subject:   `enqueueBlocks` of `core-blockchain/source/blockchain.ts`: downloaded blocks are put
             into the queue in jobs.

  * `enqueueBlocks` -- the code: the blocks of every job that is pushed;
  * `flatten_enqueueFrom`, `length_le_of_mem_enqueueFrom` -- no block is lost or moved, and no job
    is too long;
  * `advance` -- what is left of the milestone heights; **`notInside_enqueueFrom`** -- no milestone
    is passed inside a job while the next height is one to come, **`exists_inside`** -- and one is
    when the next height lies behind.
-/
import CoreEx.Crypto.Configuration
import CoreEx.Crypto.Data
import Mathlib.Data.List.Count
import Mathlib.Data.List.Sort

namespace CoreEx

/-! ## 1. The code -/

namespace Blockchain

/-- `milestoneHeights`. -/
def milestoneHeights (milestones : List Milestone) (lastDownloadedHeight : Nat) : List Nat :=
  ((milestones.map (·.height)).mergeSort (· ≤ ·)).filter (· ≥ lastDownloadedHeight)

/-- `milestoneHeights[0] && milestoneHeights[0] === block.height`. -/
def nextMilestone (milestoneHeights : List Nat) (height : Nat) : Bool :=
  match milestoneHeights with
  | [] => false
  | first :: _ => first ≠ 0 && first = height

/-- The loop, with `currentBlocksChunk` and `currentTransactionsCount`; `limit` is
    `Math.min(maxLastBlocks, 100)`. -/
def enqueueFrom (limit : Nat) :
    List Nat → List BlockData → Nat → List BlockData → List (List BlockData)
  | _, currentBlocksChunk, _, [] => [currentBlocksChunk]
  | milestoneHeights, currentBlocksChunk, currentTransactionsCount, block :: blocks =>
    let chunk := currentBlocksChunk ++ [block]
    let count := currentTransactionsCount + block.numberOfTransactions
    if count ≥ 150 ∨ chunk.length ≥ limit ∨ nextMilestone milestoneHeights block.height = true then
      chunk :: enqueueFrom limit
        (if nextMilestone milestoneHeights block.height then milestoneHeights.tail
          else milestoneHeights) [] 0 blocks
    else enqueueFrom limit milestoneHeights chunk count blocks

/-- `enqueueBlocks(blocks)`: the jobs in the order in which they are pushed. -/
def enqueueBlocks (milestones : List Milestone) (maxLastBlocks lastDownloadedHeight : Nat)
    (blocks : List BlockData) : List (List BlockData) :=
  if blocks.length = 0 then []
  else enqueueFrom (min maxLastBlocks 100) (milestoneHeights milestones lastDownloadedHeight) [] 0
    blocks

/-! ## 2. All blocks, in their order -/

variable {limit : Nat}

theorem flatten_enqueueFrom (limit : Nat) (blocks : List BlockData) (heights : List Nat)
    (chunk : List BlockData) (count : Nat) :
    (enqueueFrom limit heights chunk count blocks).flatten = chunk ++ blocks := by
  induction blocks generalizing heights chunk count with
  | nil =>
    unfold enqueueFrom
    rw [List.flatten_cons, List.flatten_nil]
  | cons block blocks ih =>
    unfold enqueueFrom
    dsimp only
    split
    · rw [List.flatten_cons, ih, List.nil_append, List.append_assoc]
      rfl
    · rw [ih, List.append_assoc]
      rfl

theorem length_le_of_mem_enqueueFrom (hlimit : 1 ≤ limit) {blocks job chunk : List BlockData}
    {heights : List Nat} {count : Nat} (hchunk : chunk.length < limit)
    (h : job ∈ enqueueFrom limit heights chunk count blocks) : job.length ≤ limit := by
  induction blocks generalizing heights chunk count with
  | nil =>
    unfold enqueueFrom at h
    obtain rfl := List.mem_singleton.1 h
    exact Nat.le_of_lt hchunk
  | cons block blocks ih =>
    have hlength : (chunk ++ [block]).length = chunk.length + 1 := by
      rw [List.length_append]
      rfl
    unfold enqueueFrom at h
    dsimp only at h
    split at h
    · rcases List.mem_cons.1 h with rfl | h
      · omega
      · have hempty : ([] : List BlockData).length < limit := hlimit
        exact ih hempty h
    · rename_i hopen
      exact ih (Nat.lt_of_not_le fun hfull => hopen (Or.inr (Or.inl hfull))) h

/-! ## 3. Milestones inside a job -/

/-- The milestone heights after a block. -/
def advance (heights : List Nat) (height : Nat) : List Nat :=
  if nextMilestone heights height then heights.tail else heights

/-- A milestone height among the blocks of a job before its last one. -/
def Inside (milestoneHeights : List Nat) (job : List BlockData) : Prop :=
  ∃ block ∈ job.dropLast, block.height ∈ milestoneHeights

theorem nextMilestone_iff {heights : List Nat} {height : Nat} :
    nextMilestone heights height = true ↔ height ≠ 0 ∧ ∃ rest, heights = height :: rest := by
  cases heights with
  | nil => exact ⟨fun h => (nomatch h), fun ⟨_, _, h⟩ => (nomatch h)⟩
  | cons first rest =>
    show (first ≠ 0 && decide (first = height)) = true ↔ _
    rw [Bool.and_eq_true, decide_eq_true_eq, decide_eq_true_eq]
    refine ⟨fun h => ⟨h.2 ▸ h.1, rest, h.2 ▸ rfl⟩, fun ⟨hne, rest', h⟩ => ?_⟩
    obtain ⟨rfl, -⟩ := List.cons.inj h
    exact ⟨hne, rfl⟩

/-- The heights from one on. -/
def Consecutive (start : Nat) (blocks : List BlockData) : Prop :=
  blocks.map (·.height) = List.range' start blocks.length

theorem consecutive_cons {start : Nat} {block : BlockData} {blocks : List BlockData} :
    Consecutive start (block :: blocks) ↔ block.height = start ∧ Consecutive (start + 1) blocks := by
  unfold Consecutive
  rw [List.map_cons, List.length_cons, List.range'_succ, List.cons.injEq]

/-- The next milestone height is one to come: all are, every milestone from here on is among them,
    and none is there twice that comes before another milestone inside the list. -/
structure OnTime (milestones heights : List Nat) (start count : Nat) : Prop where
  sorted : heights.Pairwise (· ≤ ·)
  toCome : ∀ q ∈ heights, start ≤ q
  all : ∀ m ∈ milestones, start ≤ m → m ∈ heights
  known : ∀ q ∈ heights, q ∈ milestones
  once : ∀ m ∈ milestones, start ≤ m → m + 1 < start + count →
    ∀ q, q < m → heights.count q ≤ 1

/-- No milestone is left but that of the last block. -/
def Quiet (milestones : List Nat) (start count : Nat) : Prop :=
  ∀ m ∈ milestones, start ≤ m → ¬ m + 1 < start + count

variable {milestones heights : List Nat} {start n : Nat}

/-- After a block that is a milestone. -/
theorem OnTime.after_milestone (h : OnTime milestones heights start (n + 1)) (hpos : 0 < start)
    (hm : start ∈ milestones) : nextMilestone heights start = true ∧
      (OnTime milestones heights.tail (start + 1) n ∨ Quiet milestones (start + 1) n) := by
  have hmem := h.all start hm (Nat.le_refl _)
  cases heights with
  | nil => cases hmem
  | cons first rest =>
    obtain ⟨hfirst, hsorted⟩ := List.pairwise_cons.1 h.sorted
    have hle := h.toCome first List.mem_cons_self
    have heq : first = start := by
      rcases List.mem_cons.1 hmem with heq | hrest
      · exact heq.symm
      · have := hfirst start hrest
        omega
    subst heq
    refine ⟨nextMilestone_iff.2 ⟨by omega, rest, rfl⟩, ?_⟩
    by_cases htwice : first ∈ rest
    · -- the second one stays in front, so no milestone may follow inside the list
      refine Or.inr fun m hmile hle' hlt => ?_
      have hcount := h.once m hmile (by omega) (by omega) first (by omega)
      rw [List.count_cons_self] at hcount
      have := List.count_pos_iff.2 htwice
      omega
    · refine Or.inl ⟨hsorted, fun q hq => ?_, fun m hmile hle' => ?_, fun q hq => ?_, ?_⟩
      · have hge := hfirst q hq
        have hne : q ≠ first := fun heq => htwice (heq ▸ hq)
        omega
      · rcases List.mem_cons.1 (h.all m hmile (by omega)) with rfl | hrest
        · omega
        · exact hrest
      · exact h.known q (List.mem_cons_of_mem _ hq)
      · intro m hmile hle' hlt q hq
        have hcount := h.once m hmile (by omega) (by omega) q hq
        exact (List.count_le_count_cons).trans hcount

/-- After a block that is none. -/
theorem OnTime.after_other (h : OnTime milestones heights start (n + 1))
    (hm : start ∉ milestones) : nextMilestone heights start = false ∧
      OnTime milestones heights (start + 1) n := by
  have hout : start ∉ heights := fun hin => hm (h.known start hin)
  refine ⟨?_, h.sorted, fun q hq => ?_, fun m hmile hle => h.all m hmile (by omega), h.known,
    fun m hmile hle hlt => h.once m hmile (by omega) (by omega)⟩
  · rw [← Bool.not_eq_true, nextMilestone_iff]
    intro hnext
    obtain ⟨-, rest, rfl⟩ := hnext
    exact hout List.mem_cons_self
  · have hle := h.toCome q hq
    have hne : q ≠ start := fun heq => hout (heq ▸ hq)
    omega

theorem Quiet.after (h : Quiet milestones start (n + 1)) : Quiet milestones (start + 1) n :=
  fun m hm hle hlt => h m hm (by omega) (by omega)

/-- **No milestone is passed inside a job** while the next height is one to come. -/
theorem notInside_enqueueFrom {blocks chunk job : List BlockData} {count : Nat}
    (hblocks : Consecutive start blocks) (hpos : 0 < start)
    (hregime : OnTime milestones heights start blocks.length ∨
      Quiet milestones start blocks.length)
    (hchunk : ¬ Inside milestones chunk)
    (hlast : blocks ≠ [] → ∀ block ∈ chunk, block.height ∉ milestones)
    (h : job ∈ enqueueFrom limit heights chunk count blocks) : ¬ Inside milestones job := by
  induction blocks generalizing start heights chunk count with
  | nil =>
    unfold enqueueFrom at h
    obtain rfl := List.mem_singleton.1 h
    exact hchunk
  | cons block blocks ih =>
    obtain ⟨hheight, hrest⟩ := consecutive_cons.1 hblocks
    have hjob : ¬ Inside milestones (chunk ++ [block]) := by
      intro hinside
      obtain ⟨b, hb, hmile⟩ := hinside
      rw [List.dropLast_concat] at hb
      exact hlast (List.cons_ne_nil _ _) b hb hmile
    -- what follows the block, whether it is a milestone or not
    have hnext : (nextMilestone heights block.height = false → blocks ≠ [] →
        block.height ∉ milestones) ∧
        (OnTime milestones (advance heights block.height) (start + 1) blocks.length ∨
          Quiet milestones (start + 1) blocks.length) := by
      rw [hheight]
      unfold advance
      rcases hregime with hontime | hquiet
      · by_cases hmile : start ∈ milestones
        · obtain ⟨hnext, hafter⟩ := hontime.after_milestone hpos hmile
          rw [if_pos hnext]
          exact ⟨fun hnot => (nomatch hnext.symm.trans hnot), hafter⟩
        · obtain ⟨hnext, hafter⟩ := hontime.after_other hmile
          rw [if_neg (by rw [hnext]; exact Bool.false_ne_true)]
          exact ⟨fun _ _ => hmile, Or.inl hafter⟩
      · refine ⟨fun _ hne hmile => ?_, Or.inr hquiet.after⟩
        refine hquiet start hmile (Nat.le_refl _) ?_
        have := List.length_pos_of_ne_nil hne
        rw [List.length_cons]
        omega
    have hempty : ¬ Inside milestones [] := fun hinside => by
      obtain ⟨b, hb, -⟩ := hinside
      cases hb
    unfold enqueueFrom at h
    dsimp only at h
    split at h
    · rcases List.mem_cons.1 h with rfl | h
      · exact hjob
      · exact ih hrest (Nat.succ_pos _) hnext.2 hempty (fun _ _ hb => (nomatch hb)) h
    · rename_i hopen
      have hnot : nextMilestone heights block.height = false := by
        rw [← Bool.not_eq_true]
        exact fun hyes => hopen (Or.inr (Or.inr hyes))
      have hkeep : advance heights block.height = heights := by
        unfold advance
        rw [if_neg (by rw [hnot]; exact Bool.false_ne_true)]
      rw [hkeep] at hnext
      refine ih hrest (Nat.succ_pos _) hnext.2 hjob (fun hne b hb => ?_) h
      rcases List.mem_append.1 hb with hb | hb
      · exact hlast (List.cons_ne_nil _ _) b hb
      · rw [List.mem_singleton.1 hb]
        exact hnext.1 hnot hne

/-! ## 4. A milestone that is overlooked -/

/-- The next height lies behind, or will: it is there twice below some height. -/
structure Late (heights : List Nat) (start stop : Nat) : Prop where
  sorted : heights.Pairwise (· ≤ ·)
  behind : (∃ q ∈ heights, q < start) ∨ ∃ q, start ≤ q ∧ q < stop ∧ 2 ≤ heights.count q

theorem Late.not_next {stop : Nat} (h : Late heights start stop)
    (hbehind : ∃ q ∈ heights, q < start) :
    nextMilestone heights start = false := by
  rw [← Bool.not_eq_true, nextMilestone_iff]
  intro hnext
  obtain ⟨-, rest, rfl⟩ := hnext
  obtain ⟨q, hq, hlt⟩ := hbehind
  rcases List.mem_cons.1 hq with rfl | hq
  · omega
  · have := (List.pairwise_cons.1 h.sorted).1 q hq
    omega

theorem Late.after {stop : Nat} (h : Late heights start stop) (hlt : start < stop) :
    Late (advance heights start) (start + 1) stop := by
  have hstill : (∃ q ∈ heights, q < start) →
      Late (advance heights start) (start + 1) stop := by
    intro hbehind
    unfold advance
    rw [if_neg (by rw [h.not_next hbehind]; exact Bool.false_ne_true)]
    obtain ⟨q, hq, hqlt⟩ := hbehind
    exact ⟨h.sorted, Or.inl ⟨q, hq, by omega⟩⟩
  rcases h.behind with hbehind | ⟨q, hle, hqlt, hcount⟩
  · exact hstill hbehind
  · unfold advance
    by_cases hnext : nextMilestone heights start = true
    · rw [if_pos hnext]
      obtain ⟨-, rest, rfl⟩ := nextMilestone_iff.1 hnext
      refine ⟨(List.pairwise_cons.1 h.sorted).2, ?_⟩
      by_cases hq : q = start
      · subst hq
        rw [List.count_cons_self] at hcount
        have hagain : 0 < rest.count q := by omega
        exact Or.inl ⟨q, List.count_pos_iff.1 hagain, Nat.lt_succ_self _⟩
      · rw [List.count_cons_of_ne (Ne.symm hq)] at hcount
        exact Or.inr ⟨q, by omega, hqlt, hcount⟩
    · rw [if_neg hnext]
      refine ⟨h.sorted, ?_⟩
      by_cases hq : q = start
      · subst hq
        have hthere : 0 < heights.count q := by omega
        exact Or.inl ⟨q, List.count_pos_iff.1 hthere, Nat.lt_succ_self _⟩
      · exact Or.inr ⟨q, by omega, hqlt, hcount⟩

/-- Late after all blocks below a height. -/
theorem Late.run {blocks : List BlockData} (hblocks : Consecutive start blocks)
    (h : Late heights start (start + blocks.length)) :
    Late (blocks.foldl (fun heights block => advance heights block.height) heights)
      (start + blocks.length) (start + blocks.length) := by
  induction blocks generalizing start heights with
  | nil => exact h
  | cons block blocks ih =>
    obtain ⟨hheight, hrest⟩ := consecutive_cons.1 hblocks
    have hlength : start + (block :: blocks).length = start + 1 + blocks.length := by
      rw [List.length_cons]
      omega
    rw [hlength] at h ⊢
    rw [List.foldl_cons, hheight]
    exact ih hrest (h.after (by omega))

/-- After a block with 150 transactions a job begins. -/
theorem enqueueFrom_append {before : List BlockData} {last : BlockData}
    (hfull : 150 ≤ last.numberOfTransactions) (blocks : List BlockData) (heights : List Nat)
    (chunk : List BlockData) (count : Nat) :
    ∃ jobs, enqueueFrom limit heights chunk count (before ++ last :: blocks) =
      jobs ++ enqueueFrom limit
        ((before ++ [last]).foldl (fun heights block => advance heights block.height) heights) [] 0
        blocks := by
  induction before generalizing heights chunk count with
  | nil =>
    refine ⟨[chunk ++ [last]], ?_⟩
    rw [List.nil_append]
    conv_lhs => unfold enqueueFrom
    dsimp only
    rw [if_pos (Or.inl (by omega))]
    rfl
  | cons block before ih =>
    rw [List.cons_append]
    conv in enqueueFrom limit heights chunk count _ => unfold enqueueFrom
    dsimp only
    rw [List.cons_append, List.foldl_cons]
    split
    · obtain ⟨jobs, hjobs⟩ := ih (advance heights block.height) [] 0
      exact ⟨(chunk ++ [block]) :: jobs, congrArg ((chunk ++ [block]) :: ·) hjobs⟩
    · rename_i hopen
      have hkeep : advance heights block.height = heights := by
        unfold advance
        exact if_neg fun hyes => hopen (Or.inr (Or.inr hyes))
      rw [hkeep]
      exact ih heights (chunk ++ [block]) (count + block.numberOfTransactions)

/-- A job that is open takes the next block too. -/
theorem exists_longer (limit : Nat) (heights : List Nat) (chunk : List BlockData) (count : Nat)
    {blocks : List BlockData} (hne : blocks ≠ []) :
    ∃ more, more ≠ [] ∧ chunk ++ more ∈ enqueueFrom limit heights chunk count blocks := by
  induction blocks generalizing heights chunk count with
  | nil => exact absurd rfl hne
  | cons block blocks ih =>
    unfold enqueueFrom
    dsimp only
    split
    · exact ⟨[block], List.cons_ne_nil _ _, List.mem_cons_self⟩
    · by_cases hnil : blocks = []
      · subst hnil
        exact ⟨[block], List.cons_ne_nil _ _, List.mem_singleton.2 rfl⟩
      · obtain ⟨more, -, hmem⟩ := ih heights (chunk ++ [block])
          (count + block.numberOfTransactions) hnil
        rw [List.append_assoc] at hmem
        exact ⟨[block] ++ more, List.cons_ne_nil _ _, hmem⟩

/-- **A milestone is passed inside a job** when the next height lies behind: a job begins with its
    block and takes the next one too. -/
theorem exists_inside {before rest : List BlockData} {block : BlockData}
    (hbegins : before = [] ∨ ∃ front last, before = front ++ [last] ∧ 150 ≤ last.numberOfTransactions)
    (hbefore : Consecutive start before) (hlate : Late heights start (start + before.length))
    (hheight : block.height = start + before.length) (hfew : block.numberOfTransactions < 150)
    (hlimit : 1 < limit) (hrest : rest ≠ []) :
    ∃ job ∈ enqueueFrom limit heights [] 0 (before ++ block :: rest), block ∈ job.dropLast := by
  have hstill := hlate.run hbefore
  generalize hleft : before.foldl (fun heights block => advance heights block.height) heights = left
    at hstill
  have hnext : nextMilestone left block.height = false := by
    rw [hheight]
    refine hstill.not_next ?_
    rcases hstill.behind with hbehind | ⟨q, hle, hlt, -⟩
    · exact hbehind
    · omega
  have hjobs : ∃ jobs, enqueueFrom limit heights [] 0 (before ++ block :: rest) =
      jobs ++ enqueueFrom limit left [] 0 (block :: rest) := by
    rcases hbegins with rfl | ⟨front, last, rfl, hfull⟩
    · exact ⟨[], by rw [← hleft]; rfl⟩
    · have happend : ∃ jobs, enqueueFrom limit heights [] 0 (front ++ last :: block :: rest) =
          jobs ++ enqueueFrom limit ((front ++ [last]).foldl
            (fun heights block => advance heights block.height) heights) [] 0 (block :: rest) :=
        enqueueFrom_append hfull (block :: rest) heights [] 0
      obtain ⟨jobs, hjobs⟩ := happend
      refine ⟨jobs, ?_⟩
      rw [← hleft, ← hjobs, List.append_assoc]
      rfl
  have hopen : enqueueFrom limit left [] 0 (block :: rest) =
      enqueueFrom limit left [block] (0 + block.numberOfTransactions) rest := by
    conv_lhs => unfold enqueueFrom
    dsimp only
    refine if_neg fun hcut => ?_
    rcases hcut with hcount | hlength | hyes
    · omega
    · exact absurd hlength (Nat.not_le.2 hlimit)
    · exact nomatch hnext.symm.trans hyes
  obtain ⟨jobs, hjobs⟩ := hjobs
  obtain ⟨more, hmore, hmem⟩ := exists_longer limit left [block] (0 + block.numberOfTransactions)
    hrest
  refine ⟨[block] ++ more, ?_, ?_⟩
  · rw [hjobs, hopen]
    exact List.mem_append_right _ hmem
  · rw [List.dropLast_append_of_ne_nil hmore]
    exact List.mem_append_left _ List.mem_cons_self

end Blockchain

end CoreEx
