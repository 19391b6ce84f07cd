/-
  File:      CoreEx/Pool/Collator.lean
  Subject:   `core-transaction-pool/source/collator.ts` and `expiration-service.ts`: the
             transactions a block is forged from.

  The transactions come by priority. A loop tries each of them on the validator, keeps those that
  pass, and remembers the others; the later transactions of a sender with one that failed are
  passed over. What failed is removed from the pool afterwards. The loop counts the bytes a block
  has left, from a header size of its own.

  Sizes are in half bytes here as they are in `BlockVerifier.size`.

  * `Collator`, `Collation` -- what the loop works with, and its variables;
  * `step`, `loop`, `getBlockCandidateTransactions` -- the code;
  * `turns` -- the transactions whose turn it is, each with the variables it finds;
  * **`turns_induction`** -- what every pass preserves.
-/
import CoreEx.Blocks.BlockVerifier
import CoreEx.Lib.Prog
import CoreEx.Pool.Query

namespace CoreEx

open BlockVerifier

/-! ## 1. Expiration -/

namespace ExpirationService

/-- `canExpire(transaction)`. -/
def canExpire (t : Transaction) : Bool := t.data.expiration.getD 0 ≠ 0

/-- `getExpirationHeight(transaction)`, for transactions that can expire. -/
def getExpirationHeight (t : Transaction) : Nat := t.data.expiration.getD 0

/-- `isExpired(transaction)`. -/
def isExpired (lastHeight : Nat) (t : Transaction) : Bool :=
  canExpire t && getExpirationHeight t ≤ lastHeight + 1

end ExpirationService

/-! ## 2. The loop -/

/-- What the collator has injected: the milestones, the height of the last block, and a validator
    that works on a state. -/
structure Collator (σ : Type) where
  configuration : Configuration
  lastHeight : Nat
  validate : Transaction → Prog σ Exception Unit

/-- What the `catch` block of the loop is given. -/
inductive CollateError where
  /-- `TransactionHasExpiredError`. -/
  | transactionHasExpired (expirationHeight : Nat)
  /-- What the validator threw. -/
  | invalid (e : Exception)
  deriving DecidableEq, Repr

/-- The variables of the loop, and the state of the validator. -/
structure Collation (σ : Type) where
  state : σ
  bytesLeft : Int
  candidateTransactions : List Transaction
  failedTransactions : List (Transaction × CollateError)

namespace Collation

variable {σ : Type}

/-- `failedTransactions.some(..)`: another transaction of the sender has failed. -/
def senderFailed (c : Collation σ) (t : Transaction) : Bool :=
  c.failedTransactions.any fun f => f.1.data.senderPublicKey = t.data.senderPublicKey

/-- The `catch` block. -/
def fail (c : Collation σ) (t : Transaction) (e : CollateError) : Collation σ :=
  { c with failedTransactions := c.failedTransactions ++ [(t, e)] }

/-- `4 + transaction.serialized.length`. -/
def weight (t : Transaction) : Nat := 2 * 4 + halfBytes t.serialized

/-- The `try` block after the transaction was validated. -/
def take (c : Collation σ) (t : Transaction) : Collation σ :=
  { c with
    candidateTransactions := c.candidateTransactions ++ [t]
    bytesLeft := c.bytesLeft - weight t }

end Collation

namespace Collator

variable {σ : Type}

/-- `blockHeaderSize`. -/
def blockHeaderSize : Nat :=
  2 * (4 + -- version
    8 + -- timestamp
    4 + -- height
    32 + -- previousBlockId
    4 + -- numberOfTransactions
    8 + -- totalAmount
    8 + -- totalFee
    8 + -- reward
    4 + -- payloadLength
    32 + -- payloadHash
    32) -- generatorPublicKey

/-- `milestone.block`. -/
def milestoneBlock (x : Collator σ) : MilestoneBlock :=
  (x.configuration.getMilestone x.lastHeight).block

/-- `validator.validate(transaction)` and what follows. -/
def validated (x : Collator σ) (c : Collation σ) (t : Transaction) : Collation σ :=
  match (x.validate t).run c.state with
  | .done _ s => { c with state := s }.take t
  | .thrown e s => { c with state := s }.fail t (.invalid e)

/-- One pass of the loop; `none` where it breaks. -/
def step (x : Collator σ) (c : Collation σ) (t : Transaction) : Option (Collation σ) :=
  if c.candidateTransactions.length = x.milestoneBlock.maxTransactions then none
  else if c.senderFailed t then some c
  else if ExpirationService.isExpired x.lastHeight t then
    some (c.fail t (.transactionHasExpired (ExpirationService.getExpirationHeight t)))
  else if c.bytesLeft - Collation.weight t < 0 then none
  else some (x.validated c t)

/-- The loop. -/
def loop (x : Collator σ) : List Transaction → Collation σ → Collation σ
  | [], c => c
  | t :: ts, c =>
    match x.step c t with
    | none => c
    | some c' => x.loop ts c'

/-- The variables before the loop, with a validator just created. -/
def start (x : Collator σ) (s : σ) : Collation σ where
  state := s
  bytesLeft := 2 * x.milestoneBlock.maxPayload - blockHeaderSize
  candidateTransactions := []
  failedTransactions := []

/-- `getBlockCandidateTransactions()`: the candidates, and with them what is then removed from the
    pool. -/
def getBlockCandidateTransactions (x : Collator σ) (m : Mempool) (s : σ) : Collation σ :=
  x.loop (Query.getFromHighestPriority m) (x.start s)

/-! ## 3. Turns -/

/-- The transactions whose turn it is, with the variables each finds. -/
def turns (x : Collator σ) : List Transaction → Collation σ → List (Collation σ × Transaction)
  | [], _ => []
  | t :: ts, c =>
    (c, t) ::
      match x.step c t with
      | none => []
      | some c' => x.turns ts c'

section Passes

variable {x : Collator σ} {c c' : Collation σ} {t : Transaction}

/-- The loop breaks. -/
theorem loop_of_none (hs : x.step c t = none) (ts : List Transaction) :
    x.loop (t :: ts) c = c := by
  unfold loop
  rw [hs]

/-- The loop goes on. -/
theorem loop_of_some (hs : x.step c t = some c') (ts : List Transaction) :
    x.loop (t :: ts) c = x.loop ts c' := by
  conv_lhs => unfold loop
  rw [hs]

theorem turns_of_none (hs : x.step c t = none) (ts : List Transaction) :
    x.turns (t :: ts) c = [(c, t)] := by
  unfold turns
  rw [hs]

theorem turns_of_some (hs : x.step c t = some c') (ts : List Transaction) :
    x.turns (t :: ts) c = (c, t) :: x.turns ts c' := by
  conv_lhs => unfold turns
  rw [hs]

theorem turns_singleton (c : Collation σ) (t : Transaction) : x.turns [t] c = [(c, t)] := by
  cases hs : x.step c t with
  | none => rw [turns_of_none hs]
  | some c' =>
    rw [turns_of_some hs]
    rfl

end Passes

/-- **What every pass preserves, of the variables and the transactions to come, holds at every
    turn.** -/
theorem turns_induction {x : Collator σ} {I : Collation σ → List Transaction → Prop}
    (hstep : ∀ c t ts c', I c (t :: ts) → x.step c t = some c' → I c' ts)
    {ts : List Transaction} {c : Collation σ} (h : I c ts) {p : Collation σ × Transaction}
    (hp : p ∈ x.turns ts c) : ∃ rest, I p.1 (p.2 :: rest) := by
  induction ts generalizing c with
  | nil => cases hp
  | cons t ts ih =>
    cases hs : x.step c t with
    | none =>
      rw [turns_of_none hs] at hp
      obtain rfl := List.mem_singleton.1 hp
      exact ⟨ts, h⟩
    | some c' =>
      rw [turns_of_some hs] at hp
      rcases List.mem_cons.1 hp with rfl | hp
      · exact ⟨ts, h⟩
      · exact ih (hstep c t ts c' h hs) hp

/-! ## 4. One pass -/

/-- The ways a pass ends that does not break. -/
theorem step_cases {x : Collator σ} {c c' : Collation σ} {t : Transaction}
    (h : x.step c t = some c') :
    (c.senderFailed t = true ∧ c' = c) ∨
    (c.senderFailed t = false ∧ ∃ e, c' = c.fail t e) ∨
    (c.senderFailed t = false ∧ ∃ e s, (x.validate t).run c.state = .thrown e s ∧
      c' = { c with state := s }.fail t (.invalid e)) ∨
    (c.senderFailed t = false ∧ ∃ s, (x.validate t).run c.state = .done () s ∧
      c.candidateTransactions.length ≠ x.milestoneBlock.maxTransactions ∧
      0 ≤ c.bytesLeft - Collation.weight t ∧ c' = { c with state := s }.take t) := by
  unfold step at h
  split at h
  · cases h
  rename_i hmax
  split at h
  · rename_i hfailed
    cases h
    exact Or.inl ⟨hfailed, rfl⟩
  rename_i hfailed
  have hnot : c.senderFailed t = false := Bool.eq_false_iff.2 hfailed
  split at h
  · cases h
    exact Or.inr (Or.inl ⟨hnot, _, rfl⟩)
  split at h
  · cases h
  rename_i hfits
  cases h
  unfold validated
  split
  · rename_i s hrun
    exact Or.inr (Or.inr (Or.inr ⟨hnot, s, hrun, hmax, not_lt.1 hfits, rfl⟩))
  · rename_i e s hrun
    exact Or.inr (Or.inr (Or.inl ⟨hnot, e, s, hrun, rfl⟩))

end Collator

end CoreEx
