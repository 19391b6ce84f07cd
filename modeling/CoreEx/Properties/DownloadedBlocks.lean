/-
  File:      CoreEx/Properties/DownloadedBlocks.lean
  Subject:   Whether the blocks of a download follow each other, over any run of calls.

  The chunks before the first missing one are put together as they are. Nobody asks whether a chunk
  is as long as was asked for, so what follows a chunk that was cut short leaves a gap.

  * `Honest` -- each answer counts up from the height asked for and is no longer than the limit;
  * `chunk`, `came` -- what the cache or the peers have for a chunk, and whether it is there in time;
  * `NothingBehindShort` -- the condition;
  * `Kept` -- the invariant of the cache: what is kept under a range lies in the range;
  * `kept_after` -- it holds after any calls; **`downloaded_iff`** -- the blocks of a call;
  * **`cutShort_not`** -- an answer of one block, and another chunk.
-/
import CoreEx.Lib.Consecutive
import CoreEx.P2P.NetworkMonitor
import CoreEx.Properties.VoteBalances

namespace CoreEx

open NetworkMonitor

/-! ## 1. The condition -/

/-- Every answer is a row of blocks above the height asked for, no longer than the limit. -/
def Network.Honest (network : Network) : Prop :=
  ∀ index attempt peer request blocks, network.getPeerBlocks index attempt peer request = .ok blocks →
    Consecutive BlockData.height request.fromBlockHeight blocks ∧
      blocks.length ≤ request.blockLimit

namespace NetworkMonitor

/-- What there is for a chunk: what the cache holds for its range, or else what the peers have. -/
def chunk (m : NetworkMonitor) (call : DownloadCall) (index : Nat) : Option (List BlockData) :=
  m.job call (m.chunkCache.get (m.blocksRange call index)).toOption index

/-- The chunk, when it is there in time: every chunk of a call without a failure; otherwise what is
    in the cache and what arrived before the failure. -/
def came (m : NetworkMonitor) (call : DownloadCall) (index : Nat) : Option (List BlockData) :=
  if (∀ i < m.chunksToDownload call, (m.chunk call i).isSome = true) ∨
      m.chunkCache.has (m.blocksRange call index) = true ∨ call.network.arrived index = true then
    m.chunk call index
  else none

/-- Behind a chunk with fewer blocks than were asked for there are none, up to the first chunk that
    is missing. -/
def NothingBehindShort (m : NetworkMonitor) (call : DownloadCall) : Prop :=
  ∀ i j c d, i < j → j < m.chunksToDownload call → (∀ k ≤ j, (m.came call k).isSome = true) →
    m.came call i = some c → m.came call j = some d → c.length < m.downloadChunkSize → d = []

/-! ## 2. The chunks of a call -/

variable {m : NetworkMonitor} {call : DownloadCall}

/-- `downloadResults` are the chunks that came. -/
theorem downloadResults_eq (m : NetworkMonitor) (call : DownloadCall) :
    m.downloadResults call
        (m.startJobs call (List.range (m.chunksToDownload call)) m.chunkCache).1 =
      (List.range (m.chunksToDownload call)).map (m.came call) := by
  have hmapIdx : ∀ (n : Nat) (g : Nat → Option (List BlockData))
      (k : Nat → Option (List BlockData) → Option (List BlockData)),
      ((List.range n).map g).mapIdx k = (List.range n).map fun i => k i (g i) := by
    intro n g k
    refine List.ext_getElem? fun i => ?_
    rw [List.getElem?_mapIdx, List.getElem?_map, List.getElem?_map]
    by_cases hi : i < n
    · simp [List.getElem?_range hi]
    · simp [not_lt.1 hi]
  rw [startJobs_fst List.nodup_range]
  unfold downloadResults someJobFailed
  rw [hmapIdx, hmapIdx]
  refine List.map_congr_left fun index _ => ?_
  have hfailed : (((List.range (m.chunksToDownload call)).map (m.chunk call)).any
      Option.isNone = false) ↔
      ∀ i < m.chunksToDownload call, (m.chunk call i).isSome = true := by
    rw [List.any_eq_false]
    refine ⟨fun h i hi => ?_, fun h o ho => ?_⟩
    · have hnot := h (m.chunk call i) (List.mem_map_of_mem (List.mem_range.2 hi))
      simpa [Option.isSome_iff_ne_none] using hnot
    · obtain ⟨i, hi, rfl⟩ := List.mem_map.1 ho
      simpa [Option.isSome_iff_ne_none] using h i (List.mem_range.1 hi)
  exact if_congr (or_congr hfailed (or_congr (by rw [ChunkCache.has_eq_isSome]) Iff.rfl)) rfl rfl

/-- The chunks before the first missing one, by their places. -/
theorem getElem?_uninterrupted {results : List (Option (List BlockData))} {i : Nat}
    {c : List BlockData} : (uninterrupted results)[i]? = some c ↔
      (∀ k ≤ i, ∃ d, results[k]? = some (some d)) ∧ results[i]? = some (some c) := by
  induction results generalizing i with
  | nil => simp [uninterrupted]
  | cons result results ih =>
    cases result with
    | none =>
      refine ⟨fun h => by simp [uninterrupted] at h, fun h => ?_⟩
      obtain ⟨d, hd⟩ := h.1 0 (Nat.zero_le i)
      cases hd
    | some blocks =>
      cases i with
      | zero =>
        refine ⟨fun h => ⟨fun k hk => ⟨blocks, ?_⟩, by simpa [uninterrupted] using h⟩, fun h => ?_⟩
        · obtain rfl : k = 0 := by omega
          rfl
        · simpa [uninterrupted] using h.2
      | succ i =>
        show (uninterrupted results)[i]? = some c ↔ _
        rw [ih]
        refine ⟨fun h => ⟨fun k hk => ?_, h.2⟩, fun h => ⟨fun k hk => h.1 (k + 1) (by omega), h.2⟩⟩
        cases k with
        | zero => exact ⟨blocks, rfl⟩
        | succ k => exact h.1 k (by omega)

/-- Chunks that begin at their places are spaced. -/
theorem spaced_uninterrupted {start size : Nat} {results : List (Option (List BlockData))}
    (h : ∀ i c, results[i]? = some (some c) →
      Consecutive BlockData.height (start + size * i) c ∧ c.length ≤ size) :
    Spaced BlockData.height size start (uninterrupted results) := by
  induction results generalizing start with
  | nil => trivial
  | cons result results ih =>
    cases result with
    | none => trivial
    | some blocks =>
      obtain ⟨hrow, hlength⟩ := h 0 blocks rfl
      refine ⟨hrow, hlength, ih fun i c hc => ?_⟩
      rw [show start + size + size * i = start + size * (i + 1) by rw [Nat.mul_succ]; omega]
      exact h (i + 1) c hc

/-- The condition, of the chunks that are put together. -/
theorem nothingBehindShort_iff : m.NothingBehindShort call ↔
    (uninterrupted ((List.range (m.chunksToDownload call)).map (m.came call))).Pairwise
      fun c d => c.length < m.downloadChunkSize → d = [] := by
  have hget : ∀ k d, ((List.range (m.chunksToDownload call)).map (m.came call))[k]? =
      some (some d) ↔ k < m.chunksToDownload call ∧ m.came call k = some d := by
    intro k d
    rw [List.getElem?_map]
    by_cases hk : k < m.chunksToDownload call
    · simp [hk]
    · simp [hk]
  have hchunk : ∀ i c, (uninterrupted
      ((List.range (m.chunksToDownload call)).map (m.came call)))[i]? = some c ↔
      i < m.chunksToDownload call ∧ (∀ k ≤ i, (m.came call k).isSome = true) ∧
        m.came call i = some c := by
    intro i c
    rw [getElem?_uninterrupted, hget]
    refine ⟨fun h => ⟨h.2.1, fun k hk => ?_, h.2.2⟩, fun h => ⟨fun k hk => ?_, h.1, h.2.2⟩⟩
    · obtain ⟨d, hd⟩ := h.1 k hk
      rw [((hget k d).1 hd).2]
      rfl
    · obtain ⟨d, hd⟩ := Option.isSome_iff_exists.1 (h.2.1 k hk)
      exact ⟨d, (hget k d).2 ⟨lt_of_le_of_lt hk h.1, hd⟩⟩
  rw [List.pairwise_iff_getElem]
  refine ⟨fun h i j hi hj hlt => ?_, fun h i j c d hlt hj hall hc hd => ?_⟩
  · have hci := (hchunk i _).1 (List.getElem?_eq_getElem hi)
    have hcj := (hchunk j _).1 (List.getElem?_eq_getElem hj)
    exact h i j _ _ hlt hcj.1 hcj.2.1 hci.2.2 hcj.2.2
  · have hci := (hchunk i c).2 ⟨by omega, fun k hk => hall k (by omega), hc⟩
    have hcj := (hchunk j d).2 ⟨hj, hall, hd⟩
    obtain ⟨hi, rfl⟩ := List.getElem?_eq_some_iff.1 hci
    obtain ⟨hj', rfl⟩ := List.getElem?_eq_some_iff.1 hcj
    exact h i j hi hj' hlt

/-! ## 3. The cache over calls -/

/-- What is kept under a range counts up from its first height and does not pass its last. -/
def Kept (cache : ChunkCache) : Prop :=
  ∀ c ∈ cache.chunks, ∃ height size, c.key = ⟨height + 1, some (height + size)⟩ ∧
    Consecutive BlockData.height height c.data ∧ c.data.length ≤ size

/-- A chunk that came counts up from its place. -/
theorem came_row (hkept : Kept m.chunkCache) (hhonest : call.network.Honest) {index : Nat}
    {blocks : List BlockData} (h : m.came call index = some blocks) :
    Consecutive BlockData.height (m.heightOf call index) blocks ∧
      blocks.length ≤ m.downloadChunkSize := by
  have hchunk : m.chunk call index = some blocks := by
    unfold came at h
    split at h
    · exact h
    · cases h
  unfold chunk job at hchunk
  cases hcached : (m.chunkCache.get (m.blocksRange call index)).toOption with
  | none =>
    rw [hcached] at hchunk
    obtain ⟨attempt, peer, hanswer⟩ := Network.tryPeers_answer hchunk
    exact hhonest _ _ _ _ _ hanswer
  | some data =>
    rw [hcached] at hchunk
    obtain rfl := Option.some.inj hchunk
    obtain ⟨height, size, hkey, hrow, hlength⟩ := hkept _ (ChunkCache.mem_of_get hcached)
    unfold blocksRange at hkey
    dsimp only at hkey hrow hlength
    rw [BlocksRange.mk.injEq] at hkey
    obtain rfl : m.heightOf call index = height := Nat.succ.inj hkey.1
    have hsize := hkey.2
    split at hsize
    · cases hsize
    · obtain rfl : m.downloadChunkSize = size := Nat.add_left_cancel (Option.some.inj hsize)
      exact ⟨hrow, hlength⟩

/-- A call keeps the invariant. -/
theorem kept_download (hkept : Kept m.chunkCache) (hhonest : call.network.Honest) :
    Kept (m.downloadBlocksFromHeight call).2.chunkCache := by
  unfold downloadBlocksFromHeight
  split
  · exact hkept
  · intro c hc
    rcases mem_keep hc with hold | hnew
    · exact hkept c (mem_startJobs hold)
    · obtain ⟨index, blocks, hresult, rfl⟩ := hnew
      rw [downloadResults_eq, List.getElem?_map] at hresult
      obtain ⟨i, hi, hcame⟩ := Option.map_eq_some_iff.1 hresult
      obtain rfl : index = i := by
        obtain ⟨hlt, hget⟩ := List.getElem?_eq_some_iff.1 hi
        rw [List.getElem_range] at hget
        exact hget
      obtain ⟨hrow, hlength⟩ := came_row hkept hhonest hcame
      exact ⟨m.heightOf call index, m.downloadChunkSize, rfl, hrow, hlength⟩

/-- The monitor after some calls. -/
def after (calls : List DownloadCall) : NetworkMonitor :=
  calls.foldl (fun m call => (m.downloadBlocksFromHeight call).2) fresh

/-- **Whatever was called, what is kept lies in its range.** -/
theorem kept_after (calls : List DownloadCall) (h : ∀ call ∈ calls, call.network.Honest) :
    Kept (after calls).chunkCache := by
  have hrun : ∀ m : NetworkMonitor, Kept m.chunkCache →
      Kept (calls.foldl (fun m call => (m.downloadBlocksFromHeight call).2) m).chunkCache := by
    induction calls with
    | nil => exact fun _ hkept => hkept
    | cons call calls ih =>
      intro m hkept
      exact ih (fun c hc => h c (List.mem_cons_of_mem _ hc)) _
        (kept_download hkept (h call List.mem_cons_self))
  exact hrun fresh fun c hc => absurd hc List.not_mem_nil

/-! ## 4. The blocks of a call -/

/-- One call, from a monitor whose cache is in order. -/
theorem download_iff (hkept : Kept m.chunkCache) (hhonest : call.network.Honest) :
    Consecutive BlockData.height call.fromBlockHeight (m.downloadBlocksFromHeight call).1 ↔
      m.NothingBehindShort call := by
  unfold downloadBlocksFromHeight
  split
  · rename_i hnone
    have hforked : call.network.peersNotForked = [] := by
      rcases hnone with hempty | hforked
      · have hperm := call.network.shuffle_perm 0
          (call.network.getPeers.filter fun peer => !peer.isForked)
        rw [hempty] at hperm
        unfold Network.peersNotForked
        rw [hempty]
        exact hperm.eq_nil
      · exact hforked
    have hzero : m.chunksToDownload call = 0 := by
      unfold chunksToDownload
      rw [hforked, List.length_nil, Nat.min_zero, Nat.zero_min]
    refine ⟨fun _ i j c d _ hj => ?_, fun _ => Consecutive.nil _ _⟩
    rw [hzero] at hj
    exact absurd hj (Nat.not_lt_zero j)
  · show Consecutive _ _ (uninterrupted _).flatten ↔ _
    rw [downloadResults_eq, nothingBehindShort_iff]
    refine (spaced_uninterrupted fun i c hc => ?_).flatten_iff
    rw [List.getElem?_map] at hc
    obtain ⟨j, hj, hcame⟩ := Option.map_eq_some_iff.1 hc
    obtain ⟨hlt, hget⟩ := List.getElem?_eq_some_iff.1 hj
    rw [List.getElem_range] at hget
    subst hget
    exact came_row hkept hhonest hcame

/-- **After any calls, a download is without gap or repetition exactly when nothing comes behind a
    chunk that was cut short.** -/
theorem downloaded_iff (calls : List DownloadCall) (call : DownloadCall)
    (h : ∀ c ∈ call :: calls, c.network.Honest) :
    Consecutive BlockData.height call.fromBlockHeight
        ((after calls).downloadBlocksFromHeight call).1 ↔
      (after calls).NothingBehindShort call :=
  download_iff (kept_after calls fun c hc => h c (List.mem_cons_of_mem _ hc))
    (h call List.mem_cons_self)

end NetworkMonitor

/-! ## 5. A chunk that was cut short -/

namespace Sample

/-- Two peers at the height 800 that answer every request with one block. -/
def shortAnswers : Network where
  getPeers := [⟨"10.0.0.1", 4000, false, some 800⟩, ⟨"10.0.0.2", 4000, false, some 800⟩]
  shuffle := fun _ peers => peers
  shuffle_perm := fun _ peers => List.Perm.refl peers
  getPeerBlocks := fun _ _ _ request =>
    .ok (if 0 < request.blockLimit then [header (request.fromBlockHeight + 1) 0 0] else [])
  arrived := fun _ => true

/-- A download from the beginning. -/
def shortDownload : DownloadCall where
  network := shortAnswers
  fromBlockHeight := 0

theorem shortAnswers_honest : shortAnswers.Honest := by
  intro index attempt peer request blocks h
  obtain rfl := Except.ok.inj h
  by_cases hlimit : 0 < request.blockLimit
  · rw [if_pos hlimit]
    exact ⟨rfl, hlimit⟩
  · rw [if_neg hlimit]
    exact ⟨rfl, Nat.zero_le _⟩

theorem shortDownload_honest : ∀ c ∈ [shortDownload, shortDownload], c.network.Honest := by
  intro c hc
  simp only [List.mem_cons, List.not_mem_nil, or_false, or_self] at hc
  exact hc ▸ shortAnswers_honest

end Sample

/-- The theorem at a second download like the first. -/
theorem downloaded_iff_sample :
    Consecutive BlockData.height Sample.shortDownload.fromBlockHeight
        ((after [Sample.shortDownload]).downloadBlocksFromHeight Sample.shortDownload).1 ↔
      (after [Sample.shortDownload]).NothingBehindShort Sample.shortDownload :=
  downloaded_iff [Sample.shortDownload] Sample.shortDownload Sample.shortDownload_honest

/-- The first download is the blocks at the heights 1 and 401. -/
theorem cutShort_not : ¬ ∀ (calls : List DownloadCall) (call : DownloadCall),
    (∀ c ∈ call :: calls, c.network.Honest) →
    Consecutive BlockData.height call.fromBlockHeight
      ((after calls).downloadBlocksFromHeight call).1 := by
  intro h
  have hrow := h [] Sample.shortDownload fun c hc =>
    Sample.shortDownload_honest c (List.mem_cons_of_mem _ hc)
  exact absurd hrow (by decide)

end CoreEx
