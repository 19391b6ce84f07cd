/-
  File:      CoreEx/Transactions/ValidatorRegistration.lean
  Subject:   `core-crypto-transaction-validator-registration/source/handlers/
             validator-registration.ts`.

  * `ValidatorRegistrationTransactionHandler.handler`;
  * `RegistrationAllowed` -- what the check makes sure of;
  * **`registration_apply_decided`**, `registration_revert_always`.
-/
import CoreEx.Transactions.Effect

namespace CoreEx

open WalletRepository Base

namespace ValidatorRegistrationTransactionHandler

def throwIfCannotBeApplied (env : Services) (t : Transaction) (wallet : Address) :
    RepositoryProg Unit := do
  let publicKey ← assertDefined t.data.senderPublicKey
  let sender ← findByPublicKey env publicKey
  let s ← account sender
  Prog.throwIf s.hasMultiSignature .notSupportedForMultiSignatureWallet
  let username ← assertDefined t.data.username
  let w ← account wallet
  Prog.throwIf w.isValidator .walletIsAlreadyValidator
  let taken ← Prog.gets fun r => r.hasByUsername username
  Prog.throwIf taken (.walletUsernameAlreadyRegistered username)
  Base.throwIfCannotBeApplied env t wallet

def applyToSender (env : Services) (t : Transaction) : RepositoryProg Unit := do
  Base.applyToSender throwIfCannotBeApplied env t
  let publicKey ← assertDefined t.data.senderPublicKey
  let sender ← findByPublicKey env publicKey
  let username ← assertDefined t.data.username
  update sender (·.setValidator (some (registered (some username))))
  index sender

def revertForSender (env : Services) (t : Transaction) : RepositoryProg Unit := do
  Base.revertForSender env t
  let publicKey ← assertDefined t.data.senderPublicKey
  let sender ← findByPublicKey env publicKey
  update sender (·.setValidator none)
  index sender

/-- The object `bootstrap` writes has no round. -/
def bootstrap (env : Services) (transactions : List Transaction) : RepositoryProg Unit :=
  Prog.forEach (fun data => do
    let publicKey ← assertDefined data.senderPublicKey
    let username ← assertDefined data.username
    let wallet ← findByPublicKey env publicKey
    update wallet (·.setValidator (some { registered (some username) with round := none }))
    index wallet)
    (allTransactions TransactionType.validatorRegistration transactions)

def handler : TransactionHandler where
  key := "validatorRegistration"
  type := TransactionType.validatorRegistration
  version := 1
  throwIfCannotBeApplied := throwIfCannotBeApplied
  applyToSender := applyToSender
  applyToRecipient := noRecipient
  revertForSender := revertForSender
  revertForRecipient := noRecipient
  bootstrap := bootstrap

variable {env : Services} {L : Ledger} {N : Names} {t : Transaction} {k : PublicKey}

/-- What the check makes sure of: the sender is no validator and the name is free. -/
structure RegistrationAllowed (L : Ledger) (N : Names) (sender : Address) (d : TransactionData) :
    Prop where
  fresh : (L sender).isValidator = false
  free : ∃ username, d.username = some username ∧ N.usernames username = none

theorem throwIfCannotBeApplied_atomic (t : Transaction) (s : Address) :
    Prog.Atomic (Stands env) (L, N) (throwIfCannotBeApplied env t s)
      (fun _ => Spendable L s t ∧ RegistrationAllowed L N s t.data) (L, N) := by
  unfold throwIfCannotBeApplied
  refine (assertDefined_atomic _).check fun k' _ => ?_
  refine (findByPublicKey_always k').atomic.check fun a _ => ?_
  refine (account_always a).atomic.check fun x _ => ?_
  refine Prog.Atomic.throwIf.check fun _ _ => ?_
  refine (assertDefined_atomic _).check fun username hu => ?_
  refine (account_always s).atomic.check fun w hw => ?_
  subst hw
  refine Prog.Atomic.throwIf.check fun _ hv => ?_
  refine (hasByUsername_always username).atomic.check fun taken htaken => ?_
  refine Prog.Atomic.throwIf.check fun _ hfree => ?_
  refine (Base.throwIfCannotBeApplied_atomic t s).mono fun _ hs => ⟨hs, by simpa using hv, ?_⟩
  exact ⟨username, hu, by simpa [htaken] using hfree⟩

theorem reindexes_registration (ht : t.data.type = TransactionType.validatorRegistration) :
    reindexes t.data := Or.inl ht

theorem handled_eq (ht : t.data.type = TransactionType.validatorRegistration) (s : Address)
    (b : Books) : handled env t s b =
      let L := (b.1.change s (charge t)).change s (·.setValidator (some (registered
        t.data.username)))
      (L, b.2.reindex s (L s)) := by
  simp only [handled, if_pos (reindexes_registration ht)]
  rw [change_charge]
  simp [shape, entries, transferred, ht, TransactionType.transfer, TransactionType.vote,
    TransactionType.multiPayment, TransactionType.validatorRegistration]

theorem unhandled_eq (ht : t.data.type = TransactionType.validatorRegistration) {s : Address}
    {b : Books} (hn : (b.1 s).nonce = nonceOf t) : unhandled env t s b =
      let L := (b.1.change s (refund t)).change s (·.setValidator none)
      (L, b.2.reindex s (L s)) := by
  simp only [unhandled, if_pos (reindexes_registration ht)]
  rw [change_refund hn]
  simp [unshape, entries, transferred, ht, negated, TransactionType.transfer,
    TransactionType.vote, TransactionType.multiPayment, TransactionType.validatorRegistration,
    add_comm]

/-- **A registration is applied as a whole or not at all.** -/
theorem registration_apply_decided (ht : t.data.type = TransactionType.validatorRegistration)
    (hn : t.data.nonce.isSome)
    (hk : t.data.senderPublicKey = some k) :
    Prog.Decided (Stands env) (L, N) (handler.apply env t)
      (fun _ => Spendable L (env.addressFromPublicKey k) t ∧
        RegistrationAllowed L N (env.addressFromPublicKey k) t.data)
      (handled env t (env.addressFromPublicKey k) (L, N))
      fun r => ((checked throwIfCannotBeApplied env t k).run r).isDone = true := by
  rw [handled_eq ht]
  refine Prog.Decided.andAlways (P := fun _ => Spendable L (env.addressFromPublicKey k) t ∧
    RegistrationAllowed L N (env.addressFromPublicKey k) t.data) ?_ fun _ hq =>
      Prog.Always.pure hq
  refine (applyToSender_decided hn hk (throwIfCannotBeApplied_atomic t _) And.left).andAlways
    fun _ hq => ?_
  obtain ⟨username, hu, hfree⟩ := hq.2.free
  refine (assertDefined_some hk).bind fun k' hk' => ?_
  subst hk'
  refine (findByPublicKey_always k').bind fun a ha => ?_
  subst ha
  refine (assertDefined_some hu).bind fun u hu' => ?_
  subst hu'
  refine (update_always _ _).bind fun _ _ => ?_
  rw [hu]
  refine (index_always fun _ => ?_).mono fun _ _ => hq
  rw [Ledger.change_self]
  rfl

theorem registration_revert_always (ht : t.data.type = TransactionType.validatorRegistration)
    (hk : t.data.senderPublicKey = some k)
    (hn : (L (env.addressFromPublicKey k)).nonce = nonceOf t) :
    Prog.Always (Stands env) (L, N) (handler.revert env t) (fun _ => True)
      (unhandled env t (env.addressFromPublicKey k) (L, N)) := by
  rw [unhandled_eq ht hn]
  refine Prog.Always.bind (P := fun _ => True) ?_ fun _ _ => Prog.Always.pure trivial
  refine (revertForSender_always hk hn).bind fun _ _ => ?_
  refine (assertDefined_some hk).bind fun k' hk' => ?_
  subst hk'
  refine (findByPublicKey_always k').bind fun a ha => ?_
  subst ha
  refine (update_always _ _).bind fun _ _ => ?_
  refine index_always fun hv => ?_
  rw [Ledger.change_self] at hv
  cases hv

end ValidatorRegistrationTransactionHandler

end CoreEx
