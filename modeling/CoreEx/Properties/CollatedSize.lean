/-
  File:      CoreEx/Properties/CollatedSize.lean
  Subject:   Whether a block made of the collated transactions is within the limits the verifier
             sets.

  The collator counts from a header of 144 bytes, with eight bytes for the timestamp and none for
  the signature; a signed block has 204 bytes besides its transactions. And it looks up the limits
  at the height of the last block, the verifier at the height of the new one.

  * `Assembled` -- a block made of collated transactions;
  * `Takes`, `Overfills` -- a turn that takes the transaction, and one that does so without room;
  * `room_take_iff`, `room_loop_iff` -- what one pass and the loop do to the room;
  * **`collated_within_limits_iff`** -- the block is within the limits when no turn overfills it;
  * **`collated_too_large_sample`** -- a block filled to the brim.
-/
import CoreEx.Pool.Collator
import CoreEx.Properties.BlockVerification
import CoreEx.State.TransactionValidator

namespace CoreEx

open WalletRepository Base BlockVerifier

/-! ## 1. The block and its limits -/

/-- A block of these transactions, one above the last height: hash and key have 32 bytes, the
    signature has 64. -/
structure Assembled (lastHeight : Nat) (transactions : List Transaction) (b : Block) : Prop where
  height : b.data.height = lastHeight + 1
  transactions : b.transactions.map (·.serialized) = transactions.map (·.serialized)
  payloadHash : halfBytes b.data.payloadHash = 2 * 32
  generatorPublicKey : halfBytes b.data.generatorPublicKey.text = 2 * 32
  blockSignature : ∃ signature, b.data.blockSignature = some signature ∧
    halfBytes signature = 2 * 64

/-- What the verifier asks of size and number. -/
structure WithinLimits (configuration : Configuration) (b : Block) : Prop where
  size : ∃ n, size b = .ok n ∧
    n ≤ 2 * (configuration.getMilestone b.data.height).block.maxPayload
  maxTransactions : b.transactions.length ≤
    (configuration.getMilestone b.data.height).block.maxTransactions

/-- The bytes of a signed block besides its transactions. -/
def signedHeaderSize : Nat := 2 * 204

namespace Collator

variable {σ : Type}

/-- `milestone.block` at the height of the new block. -/
def nextBlock (x : Collator σ) : MilestoneBlock :=
  (x.configuration.getMilestone (x.lastHeight + 1)).block

/-- A signed block has room for these transactions. -/
def Room (x : Collator σ) (transactions : List Transaction) : Prop :=
  signedHeaderSize + (transactions.map Collation.weight).sum ≤ 2 * x.nextBlock.maxPayload ∧
    transactions.length ≤ x.nextBlock.maxTransactions

theorem assembled_size {lastHeight : Nat} {transactions : List Transaction} {b : Block}
    (h : Assembled lastHeight transactions b) :
    size b = .ok (signedHeaderSize + (transactions.map Collation.weight).sum) := by
  obtain ⟨signature, hsome, hlength⟩ := h.blockSignature
  have hweights : (b.transactions.map fun t => 2 * 4 + halfBytes t.serialized) =
      transactions.map Collation.weight := by
    have hmap := congrArg (List.map fun text => 2 * 4 + halfBytes text) h.transactions
    rw [List.map_map, List.map_map] at hmap
    exact hmap
  unfold size
  rw [hsome, hweights, h.payloadHash, h.generatorPublicKey]
  dsimp only
  rw [hlength]
  rfl

theorem withinLimits_iff (x : Collator σ) {transactions : List Transaction} {b : Block}
    (h : Assembled x.lastHeight transactions b) :
    WithinLimits x.configuration b ↔ x.Room transactions := by
  have hcount : b.transactions.length = transactions.length := by
    have hlength := congrArg List.length h.transactions
    rwa [List.length_map, List.length_map] at hlength
  constructor
  · intro hlimits
    obtain ⟨⟨n, hn, hle⟩, hmax⟩ := hlimits
    rw [assembled_size h] at hn
    obtain rfl := Except.ok.inj hn
    rw [h.height] at hle hmax
    exact ⟨hle, hcount ▸ hmax⟩
  · intro hroom
    refine ⟨⟨_, assembled_size h, ?_⟩, ?_⟩
    · rw [h.height]
      exact hroom.1
    · rw [h.height, hcount]
      exact hroom.2

/-! ## 2. Turns -/

/-- The pass takes the transaction: nothing ends the loop, the transaction is neither passed over
    nor expired, and the validator accepts it. -/
structure Takes (x : Collator σ) (c : Collation σ) (t : Transaction) : Prop where
  below : c.candidateTransactions.length ≠ x.milestoneBlock.maxTransactions
  sender : c.senderFailed t = false
  current : ExpirationService.isExpired x.lastHeight t = false
  fits : 0 ≤ c.bytesLeft - Collation.weight t
  valid : ((x.validate t).run c.state).isDone = true

/-- The pass takes the transaction, although fewer bytes are left after it than the signed header
    has more, or the new block may have no more transactions. Where the new height has its own
    limit, the bytes are counted against that. -/
structure Overfills (x : Collator σ) (c : Collation σ) (t : Transaction) : Prop where
  takes : x.Takes c t
  full : c.bytesLeft - Collation.weight t + 2 * x.nextBlock.maxPayload <
      2 * 60 + 2 * x.milestoneBlock.maxPayload ∨
    x.nextBlock.maxTransactions ≤ c.candidateTransactions.length

/-- The remainder is what the candidates have left of the limit. -/
def Counted (x : Collator σ) (c : Collation σ) : Prop :=
  c.bytesLeft = 2 * x.milestoneBlock.maxPayload - blockHeaderSize -
    (c.candidateTransactions.map Collation.weight).sum

theorem counted_start (x : Collator σ) (s : σ) : x.Counted (x.start s) := by
  unfold Counted start
  simp

theorem counted_take {x : Collator σ} {c : Collation σ} (h : x.Counted c) (s : σ)
    (t : Transaction) : x.Counted ({ c with state := s }.take t) := by
  unfold Counted at h ⊢
  simp only [Collation.take, List.map_append, List.map_cons, List.map_nil, List.sum_append,
    List.sum_cons, List.sum_nil, h]
  push_cast
  omega

/-- **One more transaction has room when there was room before and the turn does not overfill.** -/
theorem room_take_iff {x : Collator σ} {c : Collation σ} {t : Transaction} (h : x.Counted c)
    (ht : x.Takes c t) : x.Room (c.candidateTransactions ++ [t]) ↔
      x.Room c.candidateTransactions ∧ ¬x.Overfills c t := by
  have hover : x.Overfills c t ↔
      (c.bytesLeft - Collation.weight t + 2 * x.nextBlock.maxPayload <
          2 * 60 + 2 * x.milestoneBlock.maxPayload ∨
        x.nextBlock.maxTransactions ≤ c.candidateTransactions.length) :=
    ⟨fun ho => ho.full, fun hf => ⟨ht, hf⟩⟩
  rw [hover]
  unfold Counted blockHeaderSize at h
  unfold Room signedHeaderSize
  simp only [List.map_append, List.map_cons, List.map_nil, List.sum_append, List.sum_cons,
    List.sum_nil, List.length_append, List.length_cons, List.length_nil]
  omega

/-- A pass that takes the transaction. -/
theorem step_of_takes {x : Collator σ} {c : Collation σ} {t : Transaction} (h : x.Takes c t) :
    ∃ s, x.step c t = some ({ c with state := s }.take t) := by
  cases hrun : (x.validate t).run c.state with
  | thrown e s =>
    have hvalid := h.valid
    rw [hrun] at hvalid
    cases hvalid
  | done u s =>
    refine ⟨s, ?_⟩
    unfold step validated
    rw [if_neg h.below, if_neg (by rw [h.sender]; exact Bool.false_ne_true),
      if_neg (by rw [h.current]; exact Bool.false_ne_true), if_neg (not_lt.2 h.fits), hrun]

/-- Any other pass leaves candidates and remainder alone. -/
theorem step_of_not_takes {x : Collator σ} {c c' : Collation σ} {t : Transaction}
    (h : ¬x.Takes c t) (hs : x.step c t = some c') :
    c'.candidateTransactions = c.candidateTransactions ∧ c'.bytesLeft = c.bytesLeft := by
  unfold step at hs
  split at hs
  · cases hs
  rename_i hbelow
  split at hs
  · cases hs
    exact ⟨rfl, rfl⟩
  rename_i hsender
  split at hs
  · cases hs
    exact ⟨rfl, rfl⟩
  rename_i hcurrent
  split at hs
  · cases hs
  rename_i hfits
  cases hs
  unfold validated
  split
  · rename_i s hrun
    refine absurd ⟨hbelow, Bool.eq_false_iff.2 hsender, Bool.eq_false_iff.2 hcurrent,
      not_lt.1 hfits, ?_⟩ h
    rw [hrun]
    rfl
  · exact ⟨rfl, rfl⟩

/-- **What the loop collects has room when its start had and no turn overfills.** -/
theorem room_loop_iff {x : Collator σ} (ts : List Transaction) {c : Collation σ}
    (h : x.Counted c) : x.Room (x.loop ts c).candidateTransactions ↔
      x.Room c.candidateTransactions ∧ ∀ p ∈ x.turns ts c, ¬x.Overfills p.1 p.2 := by
  induction ts generalizing c with
  | nil => exact ⟨fun hroom => ⟨hroom, fun _ hp => absurd hp List.not_mem_nil⟩, And.left⟩
  | cons t ts ih =>
    by_cases ht : x.Takes c t
    · obtain ⟨s, hs⟩ := step_of_takes ht
      have hcandidates : (({ c with state := s } : Collation σ).take t).candidateTransactions =
        c.candidateTransactions ++ [t] := rfl
      rw [loop_of_some hs, turns_of_some hs, List.forall_mem_cons, ih (counted_take h s t),
        hcandidates, room_take_iff h ht, and_assoc]
    · have hnot : ¬x.Overfills c t := fun ho => ht ho.takes
      cases hs : x.step c t with
      | none =>
        rw [loop_of_none hs, turns_of_none hs, List.forall_mem_singleton]
        exact ⟨fun hroom => ⟨hroom, hnot⟩, And.left⟩
      | some c' =>
        obtain ⟨hcandidates, hbytes⟩ := step_of_not_takes ht hs
        have h' : x.Counted c' := by
          unfold Counted at h ⊢
          rw [hcandidates, hbytes]
          exact h
        rw [loop_of_some hs, turns_of_some hs, List.forall_mem_cons, ih h', hcandidates]
        exact ⟨fun hroom => ⟨hroom.1, hnot, hroom.2⟩, fun hroom => ⟨hroom.1, hroom.2.2⟩⟩

end Collator

/-! ## 3. Blocks within the limits -/

/-- **A block made of the collated transactions is within the limits of its height exactly when an
    empty block is, and no turn of the loop takes a transaction that leaves fewer than the 60 bytes
    the collator's header is short of, or that the new height has no number left for.** -/
theorem collated_within_limits_iff {σ : Type} (x : Collator σ) (m : Mempool) (s : σ) (b : Block)
    (h : Assembled x.lastHeight (x.getBlockCandidateTransactions m s).candidateTransactions b) :
    WithinLimits x.configuration b ↔ 204 ≤ x.nextBlock.maxPayload ∧
      ∀ p ∈ x.turns (Query.getFromHighestPriority m) (x.start s), ¬x.Overfills p.1 p.2 := by
  have hempty : x.Room (x.start s).candidateTransactions ↔ 204 ≤ x.nextBlock.maxPayload := by
    show signedHeaderSize + 0 ≤ _ ∧ 0 ≤ _ ↔ _
    unfold signedHeaderSize
    omega
  rw [x.withinLimits_iff h]
  unfold Collator.getBlockCandidateTransactions
  rw [Collator.room_loop_iff _ (x.counted_start s), hempty]

/-! ## 4. A block filled to the brim -/

namespace Sample

/-- Blocks of at most 300 bytes. -/
def narrowConfiguration : Configuration := .of ⟨1, 1, ⟨300, 10, 0⟩, 8, 0, 100⟩ [] (by decide)

/-- A transfer of 106 bytes. -/
def filling : Transaction where
  data :=
    { version := some 1, network := some 30, typeGroup := some 1, type := TransactionType.transfer,
      nonce := some 1, senderPublicKey := some .small, fee := 1, amount := 1,
      expiration := some 0, recipientId := some .small, vendorField := none, asset := none,
      id := some "ff011e0100000000000100000000000000010201000000000000000001000000",
      signature := some (toHex (Bytes.zeros 64)), signatures := none }
  serialized := "ff011e0100000000000100000000000000010201000000000000000001000000000000000000" ++
    "00000a0b" ++ toHex (Bytes.zeros 64)

/-- The sender has a balance of 100. -/
def funder : WalletRepository :=
  Outcome.state ((do
    let sender ← findByPublicKey .simple .small
    update sender (·.setBalance 100) : RepositoryProg Unit).run .empty)

def collator : Collator WalletRepository where
  configuration := narrowConfiguration
  lastHeight := 1
  validate := TransactionValidator.validate { CodecServices.small with maxPayload := 300 } .simple

/-- The pool with this transfer. -/
def brim : Mempool where
  senderMempools := ⟨[(.small, [filling])], List.nodup_singleton _⟩
  owned := fun e he t ht => by
    obtain rfl := List.mem_singleton.1 he
    obtain rfl := List.mem_singleton.1 ht
    rfl
  consecutive := fun e he => by
    obtain rfl := List.mem_singleton.1 he
    exact List.isChain_singleton _

/-- The block forged of it. -/
def brimBlock : Block where
  data :=
    { id := none, timestamp := 8, version := 0, height := 2, previousBlock := none,
      numberOfTransactions := 1, totalAmount := 1, totalFee := 1, reward := 100,
      payloadLength := 32, payloadHash := toHex (Bytes.zeros 32),
      generatorPublicKey := ⟨toHex (Bytes.zeros 32), by decide⟩,
      blockSignature := some (toHex (Bytes.zeros 64)) }
  transactions := [filling]

theorem brim_candidates : (collator.getBlockCandidateTransactions brim
    funder).candidateTransactions.map (·.serialized) = [filling.serialized] := by
  have hsorted : Query.getFromHighestPriority brim = [filling] := List.mergeSort_singleton _
  unfold Collator.getBlockCandidateTransactions
  rw [hsorted]
  decide +kernel

theorem assembled_brimBlock : Assembled 1 (collator.getBlockCandidateTransactions brim
    funder).candidateTransactions brimBlock where
  height := rfl
  transactions := brim_candidates.symm
  payloadHash := by decide +kernel
  generatorPublicKey := by decide +kernel
  blockSignature := ⟨_, rfl, by decide +kernel⟩

/-- The collator where blocks may have 400 bytes. -/
def roomyCollator : Collator WalletRepository :=
  { collator with configuration := .of ⟨1, 1, ⟨400, 10, 0⟩, 8, 0, 100⟩ [] (by decide) }

theorem roomy_candidates : (roomyCollator.getBlockCandidateTransactions brim
    funder).candidateTransactions.map (·.serialized) = [filling.serialized] := by
  have hsorted : Query.getFromHighestPriority brim = [filling] := List.mergeSort_singleton _
  unfold Collator.getBlockCandidateTransactions
  rw [hsorted]
  decide +kernel

theorem assembled_roomy : Assembled 1 (roomyCollator.getBlockCandidateTransactions brim
    funder).candidateTransactions brimBlock where
  height := rfl
  transactions := roomy_candidates.symm
  payloadHash := by decide +kernel
  generatorPublicKey := by decide +kernel
  blockSignature := ⟨_, rfl, by decide +kernel⟩

/-- The only turn leaves more than 60 bytes. -/
theorem roomy_turns : ∀ p ∈ roomyCollator.turns (Query.getFromHighestPriority brim)
    (roomyCollator.start funder), ¬roomyCollator.Overfills p.1 p.2 := by
  have hsorted : Query.getFromHighestPriority brim = [filling] := List.mergeSort_singleton _
  intro p hp hover
  rw [hsorted, Collator.turns_singleton, List.mem_singleton] at hp
  subst hp
  exact absurd hover.full (by decide +kernel)

end Sample

/-- The theorem where there is room, and where there is not. -/
theorem collated_within_limits_iff_sample :
    WithinLimits Sample.roomyCollator.configuration Sample.brimBlock ∧
      (WithinLimits Sample.narrowConfiguration Sample.brimBlock ↔
        204 ≤ Sample.collator.nextBlock.maxPayload ∧
        ∀ p ∈ Sample.collator.turns (Query.getFromHighestPriority Sample.brim)
          (Sample.collator.start Sample.funder), ¬Sample.collator.Overfills p.1 p.2) :=
  ⟨(collated_within_limits_iff Sample.roomyCollator Sample.brim Sample.funder Sample.brimBlock
      Sample.assembled_roomy).2 ⟨by decide +kernel, Sample.roomy_turns⟩,
    collated_within_limits_iff Sample.collator Sample.brim Sample.funder Sample.brimBlock
      Sample.assembled_brimBlock⟩

/-- **The transfer fits beside the collator's header, and the block has 314 bytes where 300 are
    allowed.** -/
theorem collated_too_large_sample :
    Assembled 1 (Sample.collator.getBlockCandidateTransactions Sample.brim
      Sample.funder).candidateTransactions Sample.brimBlock ∧
    size Sample.brimBlock = .ok (2 * 314) ∧
    ¬WithinLimits Sample.narrowConfiguration Sample.brimBlock := by
  have hsize : size Sample.brimBlock = .ok (2 * 314) := by decide +kernel
  refine ⟨Sample.assembled_brimBlock, hsize, fun h => ?_⟩
  obtain ⟨n, hn, hle⟩ := h.size
  rw [hsize] at hn
  obtain rfl := Except.ok.inj hn
  revert hle
  decide

end CoreEx
