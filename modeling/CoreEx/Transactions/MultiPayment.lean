/-
  File:      CoreEx/Transactions/MultiPayment.lean
  Subject:   `core-crypto-transaction-multi-payment/source/handlers/multi-payment.ts`.

  The list of payments may name an address several times, and may name the sender.

  * `MultiPaymentTransactionHandler.handler`;
  * `payments_always` -- the loop over the payments makes the postings of the list;
  * **`multiPayment_apply_decided`**, `multiPayment_revert_always`.
-/
import CoreEx.Transactions.Effect

namespace CoreEx

open WalletRepository Base

namespace MultiPaymentTransactionHandler

def throwIfCannotBeApplied (env : Services) (t : Transaction) (wallet : Address) :
    RepositoryProg Unit := do
  let payments ← assertDefined t.data.payments
  let w ← account wallet
  Prog.throwIf (w.balance - totalPayments payments - t.data.fee < 0) .insufficientBalance
  Base.throwIfCannotBeApplied env t wallet

def applyToSender (env : Services) (t : Transaction) : RepositoryProg Unit := do
  Base.applyToSender throwIfCannotBeApplied env t
  let payments ← assertDefined t.data.payments
  let publicKey ← assertDefined t.data.senderPublicKey
  let sender ← findByPublicKey env publicKey
  update sender (·.decreaseBalance (totalPayments payments))

def revertForSender (env : Services) (t : Transaction) : RepositoryProg Unit := do
  Base.revertForSender env t
  let payments ← assertDefined t.data.payments
  let publicKey ← assertDefined t.data.senderPublicKey
  let sender ← findByPublicKey env publicKey
  update sender (·.increaseBalance (totalPayments payments))

def applyToRecipient (_ : Services) (t : Transaction) : RepositoryProg Unit := do
  let payments ← assertDefined t.data.payments
  Prog.forEach (fun payment => do
    let recipient ← findByAddress payment.recipientId
    update recipient (·.increaseBalance payment.amount)) payments

def revertForRecipient (_ : Services) (t : Transaction) : RepositoryProg Unit := do
  let payments ← assertDefined t.data.payments
  Prog.forEach (fun payment => do
    let recipient ← findByAddress payment.recipientId
    update recipient (·.decreaseBalance payment.amount)) payments

def bootstrap (env : Services) (transactions : List Transaction) : RepositoryProg Unit :=
  Prog.forEach (fun data => do
    let publicKey ← assertDefined data.senderPublicKey
    let payments ← assertDefined data.payments
    let sender ← findByPublicKey env publicKey
    Prog.forEach (fun payment => do
      let recipient ← findByAddress payment.recipientId
      update recipient (·.increaseBalance payment.amount)
      update sender (·.decreaseBalance payment.amount)) payments)
    (allTransactions TransactionType.multiPayment transactions)

def handler : TransactionHandler where
  key := "multiPayment"
  type := TransactionType.multiPayment
  version := 1
  throwIfCannotBeApplied := throwIfCannotBeApplied
  applyToSender := applyToSender
  applyToRecipient := applyToRecipient
  revertForSender := revertForSender
  revertForRecipient := revertForRecipient
  bootstrap := bootstrap

variable {env : Services} {L : Ledger} {N : Names} {t : Transaction} {k : PublicKey}
  {payments : List MultiPaymentItem}

/-- The loop over the payments, in either direction, makes the postings of the list. -/
theorem payments_always (sign : Int) (payments : List MultiPaymentItem) :
    Prog.Always (Stands env) (L, N)
      (Prog.forEach (fun p : MultiPaymentItem => do
        let recipient ← findByAddress p.recipientId
        update recipient (·.increaseBalance (sign * p.amount))) payments) (fun _ => True)
      (L.post (payments.map fun p => (p.recipientId, sign * p.amount)), N) := by
  induction payments generalizing L with
  | nil => exact (Ledger.post_nil L).symm ▸ Prog.Always.pure trivial
  | cons p ps ih =>
    rw [List.map_cons, Ledger.post_cons]
    refine Prog.Always.bind (P := fun _ => True) ?_ fun _ _ => ih
    refine (findByAddress_always p.recipientId).bind fun a ha => ?_
    subst ha
    exact update_always _ _

theorem credits_always (payments : List MultiPaymentItem) :
    Prog.Always (Stands env) (L, N)
      (Prog.forEach (fun p : MultiPaymentItem => do
        let recipient ← findByAddress p.recipientId
        update recipient (·.increaseBalance p.amount)) payments) (fun _ => True)
      (L.post (paid payments), N) := by
  have h := @payments_always env L N 1 payments
  simp only [one_mul] at h
  exact h

theorem debits_always (payments : List MultiPaymentItem) :
    Prog.Always (Stands env) (L, N)
      (Prog.forEach (fun p : MultiPaymentItem => do
        let recipient ← findByAddress p.recipientId
        update recipient (·.decreaseBalance p.amount)) payments) (fun _ => True)
      (L.post (negated (paid payments)), N) := by
  have h := @payments_always env L N (-1) payments
  have hlist : (payments.map fun p => (p.recipientId, -1 * p.amount)) =
      negated (paid payments) := by
    simp [negated, paid]
  rw [hlist] at h
  simp only [neg_mul, one_mul] at h
  exact h

theorem handled_eq (ht : t.data.type = TransactionType.multiPayment)
    (hp : t.data.payments = some payments) (s : Address) (b : Books) : handled env t s b =
      (((b.1.change s (charge t)).change s (·.decreaseBalance (totalPayments payments))).post
        (paid payments), b.2) := by
  have hre : ¬ reindexes t.data := by simp [reindexes, ht, TransactionType.multiPayment,
    TransactionType.validatorRegistration, TransactionType.validatorResignation]
  have hdec : (fun w : Account => w.increaseBalance (-totalPayments payments)) =
      (·.decreaseBalance (totalPayments payments)) := rfl
  simp only [handled, if_neg hre]
  rw [change_charge, ← hdec]
  simp [shape, entries, transferred, ht, hp, Ledger.post_cons, TransactionType.transfer,
    TransactionType.vote, TransactionType.validatorRegistration, TransactionType.multiPayment,
    TransactionType.validatorResignation, TransactionType.multiSignature]

theorem unhandled_eq (ht : t.data.type = TransactionType.multiPayment)
    (hp : t.data.payments = some payments) {s : Address} {b : Books}
    (hn : (b.1 s).nonce = nonceOf t) : unhandled env t s b =
      (((b.1.change s (refund t)).change s (·.increaseBalance (totalPayments payments))).post
        (negated (paid payments)), b.2) := by
  have hre : ¬ reindexes t.data := by simp [reindexes, ht, TransactionType.multiPayment,
    TransactionType.validatorRegistration, TransactionType.validatorResignation]
  simp only [unhandled, if_neg hre]
  rw [change_refund hn]
  simp [unshape, entries, transferred, ht, hp, negated, Ledger.post_cons,
    TransactionType.transfer, TransactionType.vote, TransactionType.validatorRegistration,
    TransactionType.multiPayment, TransactionType.validatorResignation,
    TransactionType.multiSignature]

/-- The check covers the fee on top of the whole list. -/
theorem throwIfCannotBeApplied_atomic (hp : t.data.payments = some payments) (s : Address) :
    Prog.Atomic (Stands env) (L, N) (throwIfCannotBeApplied env t s)
      (fun _ => Spendable L s t ∧ 0 ≤ (L s).balance - totalPayments payments - t.data.fee)
      (L, N) := by
  unfold throwIfCannotBeApplied
  refine (assertDefined_some hp).atomic.check fun ps hps => ?_
  subst hps
  refine (account_always s).atomic.check fun w hw => ?_
  subst hw
  refine Prog.Atomic.throwIf.check fun _ hb => ?_
  exact (Base.throwIfCannotBeApplied_atomic t s).mono fun _ h => ⟨h, by omega⟩

/-- **A multi-payment is applied as a whole or not at all.** -/
theorem multiPayment_apply_decided (ht : t.data.type = TransactionType.multiPayment)
    (hn : t.data.nonce.isSome)
    (hk : t.data.senderPublicKey = some k) :
    Prog.Decided (Stands env) (L, N) (handler.apply env t)
      (fun _ => Spendable L (env.addressFromPublicKey k) t ∧ ∃ payments,
        t.data.payments = some payments ∧
        0 ≤ (L (env.addressFromPublicKey k)).balance - totalPayments payments - t.data.fee)
      (handled env t (env.addressFromPublicKey k) (L, N))
      fun r => ((checked throwIfCannotBeApplied env t k).run r).isDone = true := by
  cases hp : t.data.payments with
  | none =>
    have hcheck : Prog.Atomic (Stands env) (L, N)
        (throwIfCannotBeApplied env t (env.addressFromPublicKey k)) (fun _ => False) (L, N) := by
      unfold throwIfCannotBeApplied
      rw [hp]
      exact (assertDefined_atomic none).check fun a ha => nomatch ha
    exact (applyToSender_refused hn hk hcheck).refuse.refuse
  | some payments =>
    rw [handled_eq ht hp]
    have hsender : Prog.Decided (Stands env) (L, N) (handler.applyToSender env t)
        (fun _ => Spendable L (env.addressFromPublicKey k) t ∧
          0 ≤ (L (env.addressFromPublicKey k)).balance - totalPayments payments - t.data.fee)
        ((L.change (env.addressFromPublicKey k) (charge t)).change (env.addressFromPublicKey k)
          (·.decreaseBalance (totalPayments payments)), N)
        fun r => ((checked throwIfCannotBeApplied env t k).run r).isDone = true := by
      refine (applyToSender_decided hn hk (throwIfCannotBeApplied_atomic hp _) And.left).andAlways
        fun _ hq => ?_
      refine (assertDefined_some hp).bind fun ps hps => ?_
      subst hps
      refine (assertDefined_some hk).bind fun k' hk' => ?_
      subst hk'
      refine (findByPublicKey_always k').bind fun a ha => ?_
      subst ha
      exact (update_always _ _).mono fun _ _ => hq
    refine hsender.andAlways fun _ hq => ?_
    refine (assertDefined_some hp).bind fun ps hps => ?_
    subst hps
    exact (credits_always ps).mono fun _ _ => ⟨hq.1, ps, rfl, hq.2⟩

theorem multiPayment_revert_always (ht : t.data.type = TransactionType.multiPayment)
    (hk : t.data.senderPublicKey = some k) (hp : t.data.payments = some payments)
    (hn : (L (env.addressFromPublicKey k)).nonce = nonceOf t) :
    Prog.Always (Stands env) (L, N) (handler.revert env t) (fun _ => True)
      (unhandled env t (env.addressFromPublicKey k) (L, N)) := by
  rw [unhandled_eq ht hp hn]
  have hsender : Prog.Always (Stands env) (L, N) (handler.revertForSender env t) (fun _ => True)
      ((L.change (env.addressFromPublicKey k) (refund t)).change (env.addressFromPublicKey k)
        (·.increaseBalance (totalPayments payments)), N) := by
    refine (revertForSender_always hk hn).bind fun _ _ => ?_
    refine (assertDefined_some hp).bind fun ps hps => ?_
    subst hps
    refine (assertDefined_some hk).bind fun k' hk' => ?_
    subst hk'
    refine (findByPublicKey_always k').bind fun a ha => ?_
    subst ha
    exact update_always _ _
  refine hsender.bind fun _ _ => ?_
  refine (assertDefined_some hp).bind fun ps hps => ?_
  subst hps
  exact debits_always ps

end MultiPaymentTransactionHandler

end CoreEx
