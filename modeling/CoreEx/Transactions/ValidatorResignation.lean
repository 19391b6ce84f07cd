/-
  File:      CoreEx/Transactions/ValidatorResignation.lean
  Subject:   `core-crypto-transaction-validator-resignation/source/handlers/
             validator-resignation.ts`.

  Indexing a resigned validator asserts its username, after the account was changed; a validator
  object without a username, which `setAttribute` can leave behind, would stop there. The results
  assume that there is none.

  * `ValidatorResignationTransactionHandler.handler`;
  * `ResignationAllowed` -- what the check makes sure of;
  * **`resignation_apply_decided`**, `resignation_revert_always`.
-/
import CoreEx.Transactions.Effect

namespace CoreEx

open WalletRepository Base

namespace ValidatorResignationTransactionHandler

/-- `allByUsername().filter((w) => w.hasAttribute("validator.resigned") === false).length`. -/
def currentValidatorsCount (r : WalletRepository) : Nat :=
  (r.allByUsername.filter fun a => !(r.accounts a).isResigned).length

def throwIfCannotBeApplied (env : Services) (t : Transaction) (wallet : Address) :
    RepositoryProg Unit := do
  let w ← account wallet
  Prog.throwIf (!w.isValidator) .walletNotAValidator
  Prog.throwIf w.isResigned .walletAlreadyResigned
  let count ← Prog.gets currentValidatorsCount
  Prog.throwIf ((count : Int) - 1 < env.activeValidators) .notEnoughValidators
  Base.throwIfCannotBeApplied env t wallet

def applyToSender (env : Services) (t : Transaction) : RepositoryProg Unit := do
  Base.applyToSender throwIfCannotBeApplied env t
  let publicKey ← assertDefined t.data.senderPublicKey
  let senderWallet ← findByPublicKey env publicKey
  update senderWallet (·.setResigned)
  index senderWallet

def revertForSender (env : Services) (t : Transaction) : RepositoryProg Unit := do
  Base.revertForSender env t
  let publicKey ← assertDefined t.data.senderPublicKey
  let senderWallet ← findByPublicKey env publicKey
  update senderWallet (·.forgetResigned)
  index senderWallet

def bootstrap (env : Services) (transactions : List Transaction) : RepositoryProg Unit :=
  Prog.forEach (fun data => do
    let publicKey ← assertDefined data.senderPublicKey
    let wallet ← findByPublicKey env publicKey
    update wallet (·.setResigned)
    index wallet)
    (allTransactions TransactionType.validatorResignation transactions)

def handler : TransactionHandler where
  key := "validatorResignation"
  type := TransactionType.validatorResignation
  version := 1
  throwIfCannotBeApplied := throwIfCannotBeApplied
  applyToSender := applyToSender
  applyToRecipient := noRecipient
  revertForSender := revertForSender
  revertForRecipient := noRecipient
  bootstrap := bootstrap

variable {env : Services} {L : Ledger} {N : Names} {t : Transaction} {k : PublicKey}

/-- What the check makes sure of: the sender is a validator that has not resigned. -/
structure ResignationAllowed (L : Ledger) (sender : Address) : Prop where
  validator : (L sender).isValidator = true
  active : (L sender).isResigned = false

theorem throwIfCannotBeApplied_atomic (t : Transaction) (s : Address) :
    Prog.Atomic (Stands env) (L, N) (throwIfCannotBeApplied env t s)
      (fun _ => Spendable L s t ∧ ResignationAllowed L s) (L, N) := by
  unfold throwIfCannotBeApplied
  refine (account_always s).atomic.check fun w hw => ?_
  subst hw
  refine Prog.Atomic.throwIf.check fun _ hv => ?_
  refine Prog.Atomic.throwIf.check fun _ hr => ?_
  refine (gets_always _).atomic.check fun count _ => ?_
  refine Prog.Atomic.throwIf.check fun _ _ => ?_
  exact (Base.throwIfCannotBeApplied_atomic t s).mono fun _ hs =>
    ⟨hs, by simpa using hv, by simpa using hr⟩

theorem reindexes_resignation (ht : t.data.type = TransactionType.validatorResignation) :
    reindexes t.data := Or.inr ht

theorem handled_eq (ht : t.data.type = TransactionType.validatorResignation) (s : Address)
    (b : Books) : handled env t s b =
      let L := (b.1.change s (charge t)).change s (·.setResigned)
      (L, b.2.reindex s (L s)) := by
  simp only [handled, if_pos (reindexes_resignation ht)]
  rw [change_charge]
  simp [shape, entries, transferred, ht, TransactionType.transfer, TransactionType.vote,
    TransactionType.multiPayment, TransactionType.validatorRegistration,
    TransactionType.validatorResignation]

theorem unhandled_eq (ht : t.data.type = TransactionType.validatorResignation) {s : Address}
    {b : Books} (hn : (b.1 s).nonce = nonceOf t) : unhandled env t s b =
      let L := (b.1.change s (refund t)).change s (·.forgetResigned)
      (L, b.2.reindex s (L s)) := by
  simp only [unhandled, if_pos (reindexes_resignation ht)]
  rw [change_refund hn]
  simp [unshape, entries, transferred, ht, negated, TransactionType.transfer,
    TransactionType.vote, TransactionType.multiPayment, TransactionType.validatorRegistration,
    TransactionType.validatorResignation, add_comm]

/-- **A resignation is applied as a whole or not at all**, when validators have usernames. -/
theorem resignation_apply_decided (ht : t.data.type = TransactionType.validatorResignation)
    (hn : t.data.nonce.isSome)
    (hk : t.data.senderPublicKey = some k)
    (hu : (L (env.addressFromPublicKey k)).isValidator = true →
      (L (env.addressFromPublicKey k)).username.isSome = true) :
    Prog.Decided (Stands env) (L, N) (handler.apply env t)
      (fun _ => Spendable L (env.addressFromPublicKey k) t ∧
        ResignationAllowed L (env.addressFromPublicKey k))
      (handled env t (env.addressFromPublicKey k) (L, N))
      fun r => ((checked throwIfCannotBeApplied env t k).run r).isDone = true := by
  rw [handled_eq ht]
  refine Prog.Decided.andAlways (P := fun _ => Spendable L (env.addressFromPublicKey k) t ∧
    ResignationAllowed L (env.addressFromPublicKey k)) ?_ fun _ hq => Prog.Always.pure hq
  refine (applyToSender_decided hn hk (throwIfCannotBeApplied_atomic t _) And.left).andAlways
    fun _ hq => ?_
  refine (assertDefined_some hk).bind fun k' hk' => ?_
  subst hk'
  refine (findByPublicKey_always k').bind fun a ha => ?_
  subst ha
  refine (update_always _ _).bind fun _ _ => ?_
  refine (index_always fun _ => ?_).mono fun _ _ => hq
  rw [Ledger.change_self, Ledger.change_self]
  have hname := hu hq.2.validator
  obtain ⟨v, hv⟩ := Option.isSome_iff_exists.1 hq.2.validator
  simpa [Account.username, Account.setResigned, Account.setValidator, Account.validatorObject,
    charge, Account.setNonce, Account.setBalance, hv] using hname

theorem resignation_revert_always (ht : t.data.type = TransactionType.validatorResignation)
    (hk : t.data.senderPublicKey = some k)
    (hu : (L (env.addressFromPublicKey k)).isValidator = true →
      (L (env.addressFromPublicKey k)).username.isSome = true)
    (hn : (L (env.addressFromPublicKey k)).nonce = nonceOf t) :
    Prog.Always (Stands env) (L, N) (handler.revert env t) (fun _ => True)
      (unhandled env t (env.addressFromPublicKey k) (L, N)) := by
  rw [unhandled_eq ht hn]
  refine Prog.Always.bind (P := fun _ => True) ?_ fun _ _ => Prog.Always.pure trivial
  refine (revertForSender_always hk hn).bind fun _ _ => ?_
  refine (assertDefined_some hk).bind fun k' hk' => ?_
  subst hk'
  refine (findByPublicKey_always k').bind fun a ha => ?_
  subst ha
  refine (update_always _ _).bind fun _ _ => ?_
  refine index_always fun hv => ?_
  rw [Ledger.change_self, Ledger.change_self] at hv ⊢
  have hval : (L (env.addressFromPublicKey k')).isValidator = true := by
    simpa [Account.isValidator, Account.forgetResigned, Account.setValidator, refund,
      Account.decreaseNonce, Account.increaseBalance, Account.setNonce,
      Account.setBalance] using hv
  have hname := hu hval
  obtain ⟨v, hv'⟩ := Option.isSome_iff_exists.1 hval
  simpa [Account.username, Account.forgetResigned, Account.setValidator, refund,
    Account.decreaseNonce, Account.increaseBalance, Account.setNonce, Account.setBalance,
    hv'] using hname

end ValidatorResignationTransactionHandler

end CoreEx
