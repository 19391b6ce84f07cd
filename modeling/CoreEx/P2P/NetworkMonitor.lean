/-
  File:      CoreEx/P2P/NetworkMonitor.lean
  Subject:   `core-p2p/source/network-monitor.ts` and `chunk-cache.ts`: the download of blocks.

  The blocks above a height are asked for in chunks, each from another peer and all at once. What
  came of the chunks before the first missing one is returned; later chunks are kept for the next
  call. A range of heights is shown here by its two numbers, not by the text that is built of them.

  * `ChunkCache` -- `has`, `get`, `set`, `remove`;
  * `Network` -- the peers, their answers and what is left to chance in one call;
  * `NetworkMonitor.downloadBlocksFromHeight` -- the code;
  * `startJobs_fst` -- each job looks into the cache as it was at the call;
  * `mem_keep` -- what a call leaves in the cache.
-/
import CoreEx.Contracts.Exceptions
import CoreEx.Crypto.Data
import CoreEx.Lib.Prog
import Mathlib.Data.List.Sort

namespace CoreEx

/-! ## 1. The chunk cache -/

/-- `blocksRange`, the text `[first, last]`; the last chunk of a call has `..` for its end. -/
structure BlocksRange where
  first : Nat
  last : Option Nat
  deriving DecidableEq, Repr

/-- `ChunkData`. -/
structure ChunkData where
  key : BlocksRange
  data : List BlockData

/-- `#downloadedChunksCache`. -/
structure ChunkCache where
  chunks : List ChunkData

namespace ChunkCache

/-- `#downloadedChunksCacheMax`. -/
def downloadedChunksCacheMax : Nat := 100

/-- `has(key)`. -/
def has (cache : ChunkCache) (key : BlocksRange) : Bool := cache.chunks.any fun c => c.key = key

/-- `get(key)`. -/
def get (cache : ChunkCache) (key : BlocksRange) : Except Exception (List BlockData) :=
  match cache.chunks.find? fun c => c.key = key with
  | none => .error (.error "Downloaded chunk for key is not defined.")
  | some chunkData => .ok chunkData.data

/-- `set(key, data)`; the oldest chunk goes when there are too many. -/
def set (cache : ChunkCache) (key : BlocksRange) (data : List BlockData) : ChunkCache :=
  let chunks := cache.chunks ++ [⟨key, data⟩]
  ⟨if chunks.length > downloadedChunksCacheMax then chunks.tail else chunks⟩

/-- `remove(key)`. -/
def remove (cache : ChunkCache) (key : BlocksRange) : ChunkCache :=
  ⟨cache.chunks.filter fun c => c.key ≠ key⟩

variable {cache : ChunkCache} {key key' : BlocksRange} {data : List BlockData}

theorem mem_set {c : ChunkData} (h : c ∈ (cache.set key data).chunks) :
    c ∈ cache.chunks ∨ c = ⟨key, data⟩ := by
  have happend : c ∈ cache.chunks ++ [⟨key, data⟩] := by
    unfold set at h
    dsimp only at h
    split at h
    · exact List.mem_of_mem_tail h
    · exact h
  rcases List.mem_append.1 happend with hmem | hmem
  · exact Or.inl hmem
  · exact Or.inr (List.mem_singleton.1 hmem)

theorem mem_remove {c : ChunkData} (h : c ∈ (cache.remove key).chunks) : c ∈ cache.chunks :=
  (List.mem_filter.1 h).1

/-- Removing one range leaves the look-up of another as it is. -/
theorem get_remove (hne : key' ≠ key) : (cache.remove key).get key' = cache.get key' := by
  have hfind : (cache.chunks.filter fun c => c.key ≠ key).find? (fun c => c.key = key') =
      cache.chunks.find? fun c => c.key = key' := by
    rw [List.find?_filter]
    refine congrArg (fun p => cache.chunks.find? p) (funext fun c => ?_)
    by_cases h : c.key = key'
    · simp [h, hne]
    · simp [h]
  unfold get remove
  rw [hfind]

theorem has_eq_isSome : cache.has key = (cache.get key).toOption.isSome := by
  unfold has get
  cases h : cache.chunks.find? fun c => c.key = key with
  | none =>
    have hnone := List.find?_eq_none.1 h
    show (cache.chunks.any fun c => c.key = key) = false
    exact List.any_eq_false.2 hnone
  | some c =>
    have hmem := List.mem_of_find?_eq_some h
    have hkey : c.key = key := by simpa using List.find?_some h
    exact List.any_eq_true.2 ⟨c, hmem, by simpa using hkey⟩

/-- What is found is there, under its range. -/
theorem mem_of_get (h : (cache.get key).toOption = some data) : ⟨key, data⟩ ∈ cache.chunks := by
  unfold get at h
  cases hfind : cache.chunks.find? fun c => c.key = key with
  | none =>
    rw [hfind] at h
    cases h
  | some c =>
    rw [hfind] at h
    have hkey : c.key = key := by simpa using List.find?_some hfind
    have hdata : c.data = data := Option.some.inj h
    rw [← hkey, ← hdata]
    exact List.mem_of_find?_eq_some hfind

end ChunkCache

/-! ## 2. The peers -/

/-- What is used of `Contracts.P2P.Peer`. -/
structure Peer where
  ip : String
  port : Nat
  isForked : Bool
  height : Option Nat
  deriving DecidableEq, Repr

/-- The arguments of `getPeerBlocks`. -/
structure BlocksRequest where
  blockLimit : Nat
  fromBlockHeight : Nat
  deriving DecidableEq, Repr

/-- The peers as one call finds them. `getPeerBlocks index attempt` is what comes of an attempt of
    the job of a chunk, and `arrived` tells which jobs were through when the first one failed. -/
structure Network where
  getPeers : List Peer
  shuffle : Nat → List Peer → List Peer
  shuffle_perm : ∀ n peers, (shuffle n peers).Perm peers
  getPeerBlocks : Nat → Nat → Peer → BlocksRequest → Except Exception (List BlockData)
  arrived : Nat → Bool

namespace Network

/-- `getNetworkHeight()`: the median of the heights that are known. -/
def getNetworkHeight (network : Network) : Nat :=
  let medians := ((network.getPeers.filterMap Peer.height).filter (· ≠ 0)).insertionSort (· ≤ ·)
  medians[medians.length / 2]?.getD 0

/-- `peersNotForked`. -/
def peersNotForked (network : Network) : List Peer :=
  network.shuffle 0 (network.getPeers.filter fun peer => !peer.isForked)

/-- `peersToTry` of the job of a chunk. -/
def peersToTry (network : Network) (chunksToDownload index : Nat) : List Peer :=
  match network.peersNotForked[index]? with
  | none => []
  | some first =>
    let peersToTry := first ::
      network.shuffle (index + 1) (network.peersNotForked.drop chunksToDownload)
    if peersToTry.length = 1 then
      peersToTry ++ network.peersNotForked.filter fun peer => peer.ip ≠ first.ip
    else peersToTry

/-- The loop of a job over its peers: the first answer with blocks, for the last chunk the first
    answer, or nothing. -/
def tryPeers (network : Network) (index : Nat) (isLastChunk : Bool) (request : BlocksRequest) :
    Nat → List Peer → Option (List BlockData)
  | _, [] => none
  | attempt, peer :: peers =>
    match network.getPeerBlocks index attempt peer request with
    | .error _ => tryPeers network index isLastChunk request (attempt + 1) peers
    | .ok blocks =>
      if blocks.length > 0 ∨ isLastChunk = true then some blocks
      else tryPeers network index isLastChunk request (attempt + 1) peers

/-- What a job comes back with is an answer to its request. -/
theorem tryPeers_answer {network : Network} {index : Nat} {isLastChunk : Bool}
    {request : BlocksRequest} {attempt : Nat} {peers : List Peer} {blocks : List BlockData}
    (h : network.tryPeers index isLastChunk request attempt peers = some blocks) :
    ∃ attempt peer, network.getPeerBlocks index attempt peer request = .ok blocks := by
  induction peers generalizing attempt with
  | nil => cases h
  | cons peer peers ih =>
    unfold tryPeers at h
    split at h
    · exact ih h
    · split at h
      · obtain rfl := Option.some.inj h
        exact ⟨attempt, peer, ‹_›⟩
      · exact ih h

end Network

/-! ## 3. The download -/

/-- `NetworkMonitor`, as far as downloads go; a chunk has room for a block. -/
structure NetworkMonitor where
  chunkCache : ChunkCache
  downloadChunkSize : Nat
  positive : 0 < downloadChunkSize

/-- A call of `downloadBlocksFromHeight`, and the peers it finds. -/
structure DownloadCall where
  network : Network
  fromBlockHeight : Nat
  maxParallelDownloads : Nat := 10

namespace NetworkMonitor

/-- `defaultDownloadChunkSize`. -/
def defaultDownloadChunkSize : Nat := 400

/-- A monitor that has not been used. -/
def fresh : NetworkMonitor := ⟨⟨[]⟩, defaultDownloadChunkSize, by decide⟩

/-- `chunksMissingToSync`. -/
def chunksMissingToSync (m : NetworkMonitor) (call : DownloadCall) : Nat :=
  let networkHeight := call.network.getNetworkHeight
  if networkHeight = 0 ∨ networkHeight ≤ call.fromBlockHeight then 1
  else (networkHeight - call.fromBlockHeight + m.downloadChunkSize - 1) / m.downloadChunkSize

/-- `chunksToDownload`. -/
def chunksToDownload (m : NetworkMonitor) (call : DownloadCall) : Nat :=
  min (min (m.chunksMissingToSync call) call.network.peersNotForked.length)
    call.maxParallelDownloads

/-- The height below a chunk. -/
def heightOf (m : NetworkMonitor) (call : DownloadCall) (index : Nat) : Nat :=
  call.fromBlockHeight + m.downloadChunkSize * index

/-- `isLastChunk`. -/
def isLastChunk (m : NetworkMonitor) (call : DownloadCall) (index : Nat) : Bool :=
  index + 1 = m.chunksToDownload call

/-- `blocksRange` of a job. -/
def blocksRange (m : NetworkMonitor) (call : DownloadCall) (index : Nat) : BlocksRange :=
  ⟨m.heightOf call index + 1,
    if m.isLastChunk call index then none else some (m.heightOf call index + m.downloadChunkSize)⟩

/-- `blocksRange` under which a chunk is kept; here the last chunk is none of its own. -/
def keptRange (m : NetworkMonitor) (call : DownloadCall) (index : Nat) : BlocksRange :=
  ⟨m.heightOf call index + 1, some (m.heightOf call index + m.downloadChunkSize)⟩

/-- The jobs up to their first `await`: a chunk that is in the cache is taken from there. -/
def startJobs (m : NetworkMonitor) (call : DownloadCall) :
    List Nat → ChunkCache → List (Option (List BlockData)) × ChunkCache
  | [], cache => ([], cache)
  | index :: indices, cache =>
    if cache.has (m.blocksRange call index) then
      let later := m.startJobs call indices (cache.remove (m.blocksRange call index))
      ((cache.get (m.blocksRange call index)).toOption :: later.1, later.2)
    else
      let later := m.startJobs call indices cache
      (none :: later.1, later.2)

/-- What the peers have for a chunk. -/
def fetch (m : NetworkMonitor) (call : DownloadCall) (index : Nat) : Option (List BlockData) :=
  call.network.tryPeers index (m.isLastChunk call index)
    ⟨m.downloadChunkSize, m.heightOf call index⟩ 0
    (call.network.peersToTry (m.chunksToDownload call) index)

/-- What a job comes to; nothing when it throws. -/
def job (m : NetworkMonitor) (call : DownloadCall) (cached : Option (List BlockData))
    (index : Nat) : Option (List BlockData) :=
  match cached with
  | some blocks => some blocks
  | none => m.fetch call index

/-- A job throws. -/
def someJobFailed (m : NetworkMonitor) (call : DownloadCall)
    (cached : List (Option (List BlockData))) : Bool :=
  (cached.mapIdx fun index blocks => m.job call blocks index).any Option.isNone

/-- `downloadResults` when `Promise.all` is settled: all of them, or after a failure what came from
    the cache or had arrived. -/
def downloadResults (m : NetworkMonitor) (call : DownloadCall)
    (cached : List (Option (List BlockData))) : List (Option (List BlockData)) :=
  cached.mapIdx fun index blocks =>
    if m.someJobFailed call cached = false ∨ blocks.isSome = true ∨
        call.network.arrived index = true then
      m.job call blocks index
    else none

/-- The chunks before the first missing one. -/
def uninterrupted : List (Option (List BlockData)) → List (List BlockData)
  | some blocks :: results => blocks :: uninterrupted results
  | _ => []

/-- The second loop: the chunks behind the first missing one are kept. -/
def keep (m : NetworkMonitor) (call : DownloadCall) (results : List (Option (List BlockData))) :
    List Nat → ChunkCache → ChunkCache
  | [], cache => cache
  | index :: indices, cache =>
    match (results[index]?).join with
    | some blocks => m.keep call results indices (cache.set (m.keptRange call index) blocks)
    | none => m.keep call results indices cache

/-- The chunk size of the next call. -/
def nextChunkSize (m : NetworkMonitor) (downloadedBlocks : List BlockData) : Nat :=
  if downloadedBlocks.length = 0 then (m.downloadChunkSize + 9) / 10 else defaultDownloadChunkSize

theorem nextChunkSize_pos (m : NetworkMonitor) (downloadedBlocks : List BlockData) :
    0 < m.nextChunkSize downloadedBlocks := by
  have hpos := m.positive
  unfold nextChunkSize
  split
  · omega
  · decide

/-- `downloadBlocksFromHeight`. -/
def downloadBlocksFromHeight (m : NetworkMonitor) (call : DownloadCall) :
    List BlockData × NetworkMonitor :=
  if call.network.getPeers = [] ∨ call.network.peersNotForked = [] then ([], m)
  else
    let chunksToDownload := m.chunksToDownload call
    let started := m.startJobs call (List.range chunksToDownload) m.chunkCache
    let results := m.downloadResults call started.1
    let chunks := uninterrupted results
    let later := List.range' (chunks.length + 1) (chunksToDownload - (chunks.length + 1))
    let cache := m.keep call results later started.2
    (chunks.flatten, ⟨cache, m.nextChunkSize chunks.flatten, m.nextChunkSize_pos chunks.flatten⟩)

/-! ## 4. The cache in one call -/

variable {m : NetworkMonitor} {call : DownloadCall} {cache : ChunkCache}

theorem heightOf_injective : Function.Injective (m.heightOf call) := by
  intro i j h
  have hmul : m.downloadChunkSize * i = m.downloadChunkSize * j := Nat.add_left_cancel h
  exact Nat.eq_of_mul_eq_mul_left m.positive hmul

theorem blocksRange_ne {i j : Nat} (h : i ≠ j) : m.blocksRange call i ≠ m.blocksRange call j := by
  intro e
  exact h (heightOf_injective (Nat.succ.inj (congrArg BlocksRange.first e)))

/-- **Each job looks into the cache as it was at the call.** -/
theorem startJobs_fst {indices : List Nat} (h : indices.Nodup) (cache : ChunkCache) :
    (m.startJobs call indices cache).1 =
      indices.map fun index => (cache.get (m.blocksRange call index)).toOption := by
  induction indices generalizing cache with
  | nil => rfl
  | cons index indices ih =>
    obtain ⟨hnotin, hrest⟩ := List.nodup_cons.1 h
    unfold startJobs
    split
    · show _ :: (m.startJobs call indices _).1 = _
      rw [ih hrest, List.map_cons]
      refine congrArg _ (List.map_congr_left fun j hj => ?_)
      have hne : j ≠ index := fun e => hnotin (e ▸ hj)
      rw [ChunkCache.get_remove (blocksRange_ne hne)]
    · rename_i hhas
      have hnone : (cache.get (m.blocksRange call index)).toOption = none := by
        rw [ChunkCache.has_eq_isSome, Bool.not_eq_true, Option.isSome_eq_false_iff] at hhas
        exact Option.isNone_iff_eq_none.1 hhas
      show none :: (m.startJobs call indices cache).1 = _
      rw [ih hrest, List.map_cons, hnone]

/-- The jobs add nothing to the cache. -/
theorem mem_startJobs {indices : List Nat} {c : ChunkData}
    (h : c ∈ (m.startJobs call indices cache).2.chunks) : c ∈ cache.chunks := by
  induction indices generalizing cache with
  | nil => exact h
  | cons index indices ih =>
    unfold startJobs at h
    split at h
    · exact ChunkCache.mem_remove (ih h)
    · exact ih h

/-- What a call leaves in the cache was there or is a chunk of the call. -/
theorem mem_keep {results : List (Option (List BlockData))} {indices : List Nat} {c : ChunkData}
    (h : c ∈ (m.keep call results indices cache).chunks) : c ∈ cache.chunks ∨
      ∃ index blocks, results[index]? = some (some blocks) ∧
        c = ⟨m.keptRange call index, blocks⟩ := by
  induction indices generalizing cache with
  | nil => exact Or.inl h
  | cons index indices ih =>
    unfold keep at h
    split at h
    · rename_i blocks hblocks
      rcases ih h with hmem | hnew
      · rcases ChunkCache.mem_set hmem with hold | hset
        · exact Or.inl hold
        · exact Or.inr ⟨index, blocks, Option.join_eq_some_iff.1 hblocks, hset⟩
      · exact Or.inr hnew
    · exact ih h

end NetworkMonitor

end CoreEx
