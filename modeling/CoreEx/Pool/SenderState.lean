/-
  File:      CoreEx/Pool/SenderState.lean
  Subject:   `core-transaction-pool/source/sender-state.ts` and what the pool throws
             (`core-contracts/source/exceptions/pool.ts`).

  What the state of a sender does between its suspensions is a function here; where it suspends is
  the matter of the list that calls it.

  * `PoolError`, `PoolConfiguration`;
  * `SenderState.check` -- `apply` up to the point where the handler is called.
-/
import CoreEx.Pool.Collator
import CoreEx.State.Transactions

namespace CoreEx

open BlockVerifier

/-- The exceptions of the pool. -/
inductive PoolError where
  | retryTransaction
  | transactionExceedsMaximumByteSize (maxSize : Nat)
  | transactionHasExpired (expirationHeight : Nat)
  | senderExceededMaximumTransactionCount (maxCount : Nat)
  | transactionFailedToApply (error : Exception)
  | transactionFailedToVerify
  | transactionFromWrongNetwork (currentNetwork : Nat)
  /-- What another package threw, passed on. -/
  | passed (error : Exception)
  deriving DecidableEq, Repr

/-- The settings of the package the lists of the senders read. -/
structure PoolConfiguration where
  maxTransactionsPerSender : Nat
  allowedSenders : List PublicKey
  maxTransactionBytes : Nat
  /-- `network.pubKeyHash`. -/
  pubKeyHash : Nat

namespace SenderState

/-- `data.network && data.network !== currentNetwork`. -/
def fromWrongNetwork (currentNetwork : Nat) (t : Transaction) : Bool :=
  t.data.network.getD 0 ≠ 0 && t.data.network ≠ some currentNetwork

/-- `apply(transaction)` up to the calls of the handler, given the height the expiration is
    compared with, the answer of `verifyTransaction`, and `#corrupt` as it is then. -/
def check (c : PoolConfiguration) (lastHeight : Nat) (verified : Except Exception Bool)
    (corrupt : Bool) (t : Transaction) : Except PoolError Unit :=
  if halfBytes t.serialized > 2 * c.maxTransactionBytes then
    .error (.transactionExceedsMaximumByteSize c.maxTransactionBytes)
  else if fromWrongNetwork c.pubKeyHash t then
    .error (.transactionFromWrongNetwork c.pubKeyHash)
  else if ExpirationService.isExpired lastHeight t then
    .error (.transactionHasExpired (ExpirationService.getExpirationHeight t))
  else
    match getActivatedHandlerForData handlers t.data with
    | .error e => .error (.passed e)
    | .ok _ =>
      match verified with
      | .error e => .error (.passed e)
      | .ok false => .error .transactionFailedToVerify
      | .ok true => if corrupt then .error .retryTransaction else .ok ()

/-- **A corrupt state applies nothing.** -/
theorem check_corrupt (c : PoolConfiguration) (lastHeight : Nat)
    (verified : Except Exception Bool) (t : Transaction) :
    check c lastHeight verified true t ≠ .ok () := by
  unfold check
  split
  · exact nofun
  split
  · exact nofun
  split
  · exact nofun
  split
  · exact nofun
  split
  · exact nofun
  · exact nofun
  · exact nofun

end SenderState

end CoreEx
