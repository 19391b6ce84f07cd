/-
  File:      CoreEx/Transactions/MultiSignatureRegistration.lean
  Subject:   `core-crypto-transaction-multi-signature-registration/source/handlers/
             multi-signature-registration.ts`.

  The registration turns the wallet behind the aggregated key, not the sender's, into a
  multi-signature wallet. As in the base class the check negates a promise.

  * `MultiSignatureRegistrationTransactionHandler.handler`;
  * `AssetAllowed` -- what the check makes sure of;
  * **`multiSignature_apply_decided`**, `multiSignature_revert_always`.
-/
import CoreEx.Transactions.Effect

namespace CoreEx

open WalletRepository Base

namespace MultiSignatureRegistrationTransactionHandler

def throwIfCannotBeApplied (env : Services) (t : Transaction) (wallet : Address) :
    RepositoryProg Unit := do
  let asset ← assertDefined t.data.multiSignature
  Prog.throwIf (asset.min < 1 ∨ asset.min > asset.publicKeys.length ∨ asset.min > 16)
    .multiSignatureMinimumKeys
  let signatures ← assertDefined t.data.signatures
  Prog.throwIf (asset.publicKeys.length ≠ signatures.length) .multiSignatureKeyCountMismatch
  let multiSigPublicKey ← Prog.ofExcept (env.publicKeyFromMultiSignatureAsset asset)
  let recipientWallet ← findByPublicKey env multiSigPublicKey
  let recipient ← account recipientWallet
  Prog.throwIf recipient.hasMultiSignature .multiSignatureAlreadyRegistered
  let w ← account wallet
  -- the promise itself is negated, so this never throws
  Prog.throwIf (!(verifySignatures env w t.data (some asset)).truthy) .invalidMultiSignature
  Base.throwIfCannotBeApplied env t wallet

def applyToSender := Base.applyToSender throwIfCannotBeApplied

def applyToRecipient (env : Services) (t : Transaction) : RepositoryProg Unit := do
  let asset ← assertDefined t.data.multiSignature
  let publicKey ← Prog.ofExcept (env.publicKeyFromMultiSignatureAsset asset)
  let recipientWallet ← findByPublicKey env publicKey
  update recipientWallet (·.setMultiSignature (some asset))

def revertForRecipient (env : Services) (t : Transaction) : RepositoryProg Unit := do
  let asset ← assertDefined t.data.multiSignature
  let publicKey ← Prog.ofExcept (env.publicKeyFromMultiSignatureAsset asset)
  let recipientWallet ← findByPublicKey env publicKey
  update recipientWallet (·.setMultiSignature none)

def bootstrap (env : Services) (transactions : List Transaction) : RepositoryProg Unit :=
  Prog.forEach (fun data => do
    let asset ← assertDefined data.multiSignature
    let publicKey ← Prog.ofExcept (env.publicKeyFromMultiSignatureAsset asset)
    let wallet ← findByPublicKey env publicKey
    let w ← account wallet
    Prog.throwIf w.hasMultiSignature .multiSignatureAlreadyRegistered
    update wallet (·.setMultiSignature (some asset))
    index wallet)
    (allTransactions TransactionType.multiSignature transactions)

def handler : TransactionHandler where
  key := "multiSignature"
  type := TransactionType.multiSignature
  version := 1
  throwIfCannotBeApplied := throwIfCannotBeApplied
  applyToSender := applyToSender
  applyToRecipient := applyToRecipient
  revertForSender := Base.revertForSender
  revertForRecipient := revertForRecipient
  bootstrap := bootstrap

variable {env : Services} {L : Ledger} {N : Names} {t : Transaction} {k : PublicKey}

/-- What the check makes sure of: the asset has an aggregated key, and the wallet behind it is no
    multi-signature wallet yet. -/
structure AssetAllowed (env : Services) (L : Ledger) (d : TransactionData) : Prop where
  fresh : ∃ asset k, d.multiSignature = some asset ∧
    env.publicKeyFromMultiSignatureAsset asset = .ok k ∧
    (L (env.addressFromPublicKey k)).multiSignature = none

theorem throwIfCannotBeApplied_atomic (t : Transaction) (s : Address) :
    Prog.Atomic (Stands env) (L, N) (throwIfCannotBeApplied env t s)
      (fun _ => Spendable L s t ∧ AssetAllowed env L t.data) (L, N) := by
  unfold throwIfCannotBeApplied
  refine (assertDefined_atomic _).check fun asset hasset => ?_
  refine Prog.Atomic.throwIf.check fun _ _ => ?_
  refine (assertDefined_atomic _).check fun signatures _ => ?_
  refine Prog.Atomic.throwIf.check fun _ _ => ?_
  refine Prog.Atomic.ofExcept.check fun mk hmk => ?_
  refine (findByPublicKey_always mk).atomic.check fun a ha => ?_
  subst ha
  refine (account_always _).atomic.check fun w hw => ?_
  subst hw
  refine Prog.Atomic.throwIf.check fun _ hfresh => ?_
  refine (account_always s).atomic.check fun x _ => ?_
  refine Prog.Atomic.throwIf.check fun _ _ => ?_
  refine (Base.throwIfCannotBeApplied_atomic t s).mono fun _ hs =>
    ⟨hs, asset, mk, hasset, hmk, ?_⟩
  simpa [Account.hasMultiSignature] using hfresh

theorem handled_eq (ht : t.data.type = TransactionType.multiSignature)
    {asset : MultiSignatureAsset} {mk : PublicKey} (ha : t.data.multiSignature = some asset)
    (hm : env.publicKeyFromMultiSignatureAsset asset = .ok mk) (s : Address) (b : Books) :
    handled env t s b = ((b.1.change s (charge t)).change (env.addressFromPublicKey mk)
      (·.setMultiSignature (some asset)), b.2) := by
  have hre : ¬ reindexes t.data := by simp [reindexes, ht, TransactionType.multiSignature,
    TransactionType.validatorRegistration, TransactionType.validatorResignation]
  simp only [handled, if_neg hre]
  rw [change_charge]
  simp [shape, entries, transferred, ht, ha, hm, TransactionType.transfer, TransactionType.vote,
    TransactionType.multiPayment, TransactionType.validatorRegistration,
    TransactionType.validatorResignation, TransactionType.multiSignature]

theorem unhandled_eq (ht : t.data.type = TransactionType.multiSignature)
    {asset : MultiSignatureAsset} {mk : PublicKey} (ha : t.data.multiSignature = some asset)
    (hm : env.publicKeyFromMultiSignatureAsset asset = .ok mk) {s : Address} {b : Books}
    (hn : (b.1 s).nonce = nonceOf t) :
    unhandled env t s b = ((b.1.change s (refund t)).change (env.addressFromPublicKey mk)
      (·.setMultiSignature none), b.2) := by
  have hre : ¬ reindexes t.data := by simp [reindexes, ht, TransactionType.multiSignature,
    TransactionType.validatorRegistration, TransactionType.validatorResignation]
  simp only [unhandled, if_neg hre]
  rw [change_refund hn]
  simp [unshape, entries, transferred, ht, ha, hm, negated, TransactionType.transfer,
    TransactionType.vote, TransactionType.multiPayment, TransactionType.validatorRegistration,
    TransactionType.validatorResignation, TransactionType.multiSignature, add_comm]

/-- **A multi-signature registration is applied as a whole or not at all.** -/
theorem multiSignature_apply_decided (ht : t.data.type = TransactionType.multiSignature)
    (hn : t.data.nonce.isSome)
    (hk : t.data.senderPublicKey = some k) :
    Prog.Decided (Stands env) (L, N) (handler.apply env t)
      (fun _ => Spendable L (env.addressFromPublicKey k) t ∧ AssetAllowed env L t.data)
      (handled env t (env.addressFromPublicKey k) (L, N))
      fun r => ((checked throwIfCannotBeApplied env t k).run r).isDone = true := by
  by_cases hok : ∃ asset mk, t.data.multiSignature = some asset ∧
      env.publicKeyFromMultiSignatureAsset asset = .ok mk
  · obtain ⟨asset, mk, ha, hm⟩ := hok
    rw [handled_eq ht ha hm]
    refine (applyToSender_decided hn hk (throwIfCannotBeApplied_atomic t _) And.left).andAlways
      fun _ hq => ?_
    refine (assertDefined_some ha).bind fun asset' ha' => ?_
    subst ha'
    rw [hm]
    have hpure : Prog.Always (Stands env) (L.change (env.addressFromPublicKey k) (charge t), N)
        (Prog.ofExcept (.ok mk) : RepositoryProg PublicKey) (fun k => k = mk)
        (L.change (env.addressFromPublicKey k) (charge t), N) := Prog.Always.pure rfl
    refine hpure.bind fun k' hk' => ?_
    subst hk'
    refine (findByPublicKey_always k').bind fun a ha => ?_
    subst ha
    exact (update_always _ _).mono fun _ _ => hq
  · refine Prog.Decided.refuse (applyToSender_refused hn hk ?_)
    refine (throwIfCannotBeApplied_atomic t _).mono fun _ hq => ?_
    obtain ⟨asset, mk, ha, hm, -⟩ := hq.2.fresh
    exact hok ⟨asset, mk, ha, hm⟩

theorem multiSignature_revert_always (ht : t.data.type = TransactionType.multiSignature)
    (hk : t.data.senderPublicKey = some k) {asset : MultiSignatureAsset} {mk : PublicKey}
    (ha : t.data.multiSignature = some asset)
    (hm : env.publicKeyFromMultiSignatureAsset asset = .ok mk)
    (hn : (L (env.addressFromPublicKey k)).nonce = nonceOf t) :
    Prog.Always (Stands env) (L, N) (handler.revert env t) (fun _ => True)
      (unhandled env t (env.addressFromPublicKey k) (L, N)) := by
  rw [unhandled_eq ht ha hm hn]
  refine (revertForSender_always hk hn).bind fun _ _ => ?_
  refine (assertDefined_some ha).bind fun asset' ha' => ?_
  subst ha'
  rw [hm]
  have hpure : Prog.Always (Stands env) (L.change (env.addressFromPublicKey k) (refund t), N)
      (Prog.ofExcept (.ok mk) : RepositoryProg PublicKey) (fun k => k = mk)
      (L.change (env.addressFromPublicKey k) (refund t), N) := Prog.Always.pure rfl
  refine hpure.bind fun k' hk' => ?_
  subst hk'
  refine (findByPublicKey_always k').bind fun a ha => ?_
  subst ha
  exact update_always _ _

end MultiSignatureRegistrationTransactionHandler

end CoreEx
