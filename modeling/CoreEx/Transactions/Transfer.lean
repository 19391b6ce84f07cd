/-
  File:      CoreEx/Transactions/Transfer.lean
  Subject:   `core-crypto-transaction-transfer/source/handlers/transfer.ts`.

  * `TransferTransactionHandler.handler`;
  * **`transfer_apply_decided`**, `transfer_revert_always` -- apply and revert are `handled` and
    `unhandled`.
-/
import CoreEx.Transactions.Effect

namespace CoreEx

open WalletRepository Base

namespace TransferTransactionHandler

def throwIfCannotBeApplied := Base.throwIfCannotBeApplied

def applyToSender := Base.applyToSender throwIfCannotBeApplied

def applyToRecipient (_ : Services) (t : Transaction) : RepositoryProg Unit := do
  let recipientId ← assertDefined t.data.recipientId
  let recipient ← findByAddress recipientId
  update recipient (·.increaseBalance t.data.amount)

def revertForRecipient (_ : Services) (t : Transaction) : RepositoryProg Unit := do
  let recipientId ← assertDefined t.data.recipientId
  let recipient ← findByAddress recipientId
  update recipient (·.decreaseBalance t.data.amount)

/-- `findByAddress(undefined)` fails its own assertion. -/
def bootstrap (_ : Services) (transactions : List Transaction) : RepositoryProg Unit :=
  Prog.forEach (fun data => do
    let recipientId ← assertDefined data.recipientId
    let recipient ← findByAddress recipientId
    update recipient (·.increaseBalance data.amount))
    (allTransactions TransactionType.transfer transactions)

def handler : TransactionHandler where
  key := "transfer"
  type := TransactionType.transfer
  version := 1
  throwIfCannotBeApplied := throwIfCannotBeApplied
  applyToSender := applyToSender
  applyToRecipient := applyToRecipient
  revertForSender := Base.revertForSender
  revertForRecipient := revertForRecipient
  bootstrap := bootstrap

variable {env : Services} {L : Ledger} {N : Names} {t : Transaction} {k : PublicKey}

theorem handled_eq (ht : t.data.type = TransactionType.transfer) {a : Address}
    (ha : t.data.recipientId = some a) (s : Address) (b : Books) : handled env t s b =
      ((b.1.change s (charge t)).change a (·.increaseBalance t.data.amount), b.2) := by
  have hre : ¬ reindexes t.data := by simp [reindexes, ht, TransactionType.transfer,
    TransactionType.validatorRegistration, TransactionType.validatorResignation]
  simp only [handled, if_neg hre]
  rw [change_charge]
  simp [shape, entries, transferred, ht, ha, Ledger.post_cons, TransactionType.transfer,
    TransactionType.vote, TransactionType.validatorRegistration,
    TransactionType.validatorResignation, TransactionType.multiSignature]

theorem unhandled_eq (ht : t.data.type = TransactionType.transfer) {a : Address}
    (ha : t.data.recipientId = some a) {s : Address} {b : Books}
    (hn : (b.1 s).nonce = nonceOf t) : unhandled env t s b =
      ((b.1.change s (refund t)).change a (·.decreaseBalance t.data.amount), b.2) := by
  have hre : ¬ reindexes t.data := by simp [reindexes, ht, TransactionType.transfer,
    TransactionType.validatorRegistration, TransactionType.validatorResignation]
  have hdec : (fun w : Account => w.increaseBalance (-t.data.amount)) =
      (·.decreaseBalance t.data.amount) := rfl
  simp only [unhandled, if_neg hre]
  rw [change_refund hn, ← hdec]
  simp [unshape, entries, transferred, ht, ha, negated, Ledger.post_cons,
    TransactionType.transfer, TransactionType.vote, TransactionType.validatorRegistration,
    TransactionType.validatorResignation, TransactionType.multiSignature]

/-- **A transfer is applied as a whole or not at all.** -/
theorem transfer_apply_decided (ht : t.data.type = TransactionType.transfer)
    (hn : t.data.nonce.isSome)
    (hk : t.data.senderPublicKey = some k) (hr : t.data.recipientId.isSome) :
    Prog.Decided (Stands env) (L, N) (handler.apply env t)
      (fun _ => Spendable L (env.addressFromPublicKey k) t)
      (handled env t (env.addressFromPublicKey k) (L, N))
      fun r => ((checked throwIfCannotBeApplied env t k).run r).isDone = true := by
  obtain ⟨a, ha⟩ := Option.isSome_iff_exists.1 hr
  rw [handled_eq ht ha]
  refine (applyToSender_decided hn hk (throwIfCannotBeApplied_atomic t _) id).andAlways
    fun _ hp => ?_
  refine (assertDefined_some ha).bind fun b hb => ?_
  subst hb
  refine (findByAddress_always b).bind fun c hc => ?_
  subst hc
  exact (update_always _ _).mono fun _ _ => hp

theorem transfer_revert_always (ht : t.data.type = TransactionType.transfer)
    (hk : t.data.senderPublicKey = some k) (hr : t.data.recipientId.isSome)
    (hn : (L (env.addressFromPublicKey k)).nonce = nonceOf t) :
    Prog.Always (Stands env) (L, N) (handler.revert env t) (fun _ => True)
      (unhandled env t (env.addressFromPublicKey k) (L, N)) := by
  obtain ⟨a, ha⟩ := Option.isSome_iff_exists.1 hr
  rw [unhandled_eq ht ha hn]
  refine (revertForSender_always hk hn).bind fun _ _ => ?_
  refine (assertDefined_some ha).bind fun b hb => ?_
  subst hb
  refine (findByAddress_always b).bind fun c hc => ?_
  subst hc
  exact update_always _ _

end TransferTransactionHandler

end CoreEx
