/-
  File:      CoreEx/Transactions/TransactionHandler.lean
  Subject:   `core-transactions/source/handlers/transaction.ts`, the base class of the handlers,
             and the registry that finds a handler for a transaction.

  A handler is a record of the methods its class has; the base class is a set of functions the
  handlers of the six types build on. `applyToSender` of the base calls `throwIfCannotBeApplied`
  of the subclass, which is why it takes that check as an argument.

  The checks call `this.verifySignatures(..)`, which is asynchronous, and negate the promise. A
  promise is true, so the branch that should throw is never taken; the model keeps the promise
  (`Promise.truthy`) instead of its value.

  * `TransactionHandler`, `apply`, `revert`;
  * `Base.throwIfCannotBeApplied`, `Base.applyToSender`, `Base.revertForSender`, `Base.verify`;
  * `getActivatedHandlerForData` -- the registry;
  * **`Base.applyToSender_decided`**, `Base.revertForSender_always` -- what the base class does to
    the books: a check that fails leaves them alone.
-/
import CoreEx.Crypto.TransactionVerifier
import CoreEx.State.Ledger

namespace CoreEx

open WalletRepository

/-- What the registry and the state code use of a handler. -/
structure TransactionHandler where
  /-- `getConstructor().key`. -/
  key : String
  /-- `getConstructor().type`. -/
  type : Nat
  /-- `getConstructor().version`. -/
  version : Nat
  throwIfCannotBeApplied : Services → Transaction → Address → RepositoryProg Unit
  applyToSender : Services → Transaction → RepositoryProg Unit
  applyToRecipient : Services → Transaction → RepositoryProg Unit
  revertForSender : Services → Transaction → RepositoryProg Unit
  revertForRecipient : Services → Transaction → RepositoryProg Unit
  bootstrap : Services → List Transaction → RepositoryProg Unit

/-- `hasAttribute(key)`: a key nobody registered is refused before it is looked up. -/
def hasAttribute (env : Services) (key : String) (present : Bool) : RepositoryProg Bool := do
  Prog.throwIf (key ∉ env.knownAttributes) (.unknownAttribute key)
  pure present

namespace Base

/-! ## 1. Nonces -/

/-- `transaction.data.nonce || BigNumber.ZERO`. -/
def nonceOf (t : Transaction) : Int := t.data.nonce.getD 0

/-- `#verifyTransactionNonceApply`. -/
def verifyTransactionNonceApply (wallet : Address) (t : Transaction) : RepositoryProg Unit := do
  let w ← Prog.gets fun r => r.wallet wallet
  Prog.throwIf (w.nonce + 1 ≠ nonceOf t) (.unexpectedNonce (nonceOf t) w.publicKey w.nonce false)

/-- `#verifyTransactionNonceRevert`. -/
def verifyTransactionNonceRevert (wallet : Address) (t : Transaction) : RepositoryProg Unit := do
  let w ← Prog.gets fun r => r.wallet wallet
  Prog.throwIf (w.nonce ≠ nonceOf t) (.unexpectedNonce (nonceOf t) w.publicKey w.nonce true)

/-! ## 2. Signatures -/

/-- `verifySignatures(wallet, transaction, multiSignature)`; a missing asset is read off the
    wallet, which is asserted to have one. -/
def verifySignatures (env : Services) (wallet : Account) (data : TransactionData)
    (multiSignature : Option MultiSignatureAsset) : Promise Exception Bool :=
  match multiSignature.or wallet.multiSignature with
  | none => ⟨.error .notDefined⟩
  | some asset => TransactionVerifier.verifySignatures env data (some asset)

/-- `verify(transaction)`. -/
def verify (env : Services) (t : Transaction) : RepositoryProg Bool := do
  let publicKey ← assertDefined t.data.senderPublicKey
  let senderWallet ← findByPublicKey env publicKey
  let w ← account senderWallet
  if w.hasMultiSignature then
    (verifySignatures env w t.data none).await
  else
    (TransactionVerifier.verifyHash env t.data).await

/-! ## 3. The check -/

/-- The part of `throwIfCannotBeApplied` for a sender with a multi-signature. -/
def checkMultiSignature (env : Services) (t : Transaction) : RepositoryProg Unit := do
  let publicKey ← assertDefined t.data.senderPublicKey
  let databaseSender ← findByPublicKey env publicKey
  let w ← account databaseSender
  Prog.throwIf (!w.hasMultiSignature) .missingMultiSignatureOnSender
  let legacy ← hasAttribute env "multiSignature.legacy"
    (w.multiSignature.bind (·.legacy)).isSome
  Prog.throwIf legacy .legacyMultiSignature
  let asset ← assertDefined w.multiSignature
  -- the promise itself is negated, so this never throws
  Prog.throwIf (!(verifySignatures env w t.data (some asset)).truthy) .invalidMultiSignatures

/-- `transaction.type === MultiSignature && transaction.typeGroup === Core`. -/
def isMultiSignatureRegistration (t : Transaction) : Bool :=
  t.data.isCore TransactionType.multiSignature

/-- `throwIfCannotBeApplied`. -/
def throwIfCannotBeApplied (env : Services) (t : Transaction) (sender : Address) :
    RepositoryProg Unit := do
  let senderWallet ← findByAddress sender
  let w ← Prog.gets fun r => r.wallet sender
  let publicKey ← assertDefined w.publicKey
  let known ← Prog.gets fun r => r.hasByPublicKey publicKey
  let stored ← account senderWallet
  Prog.throwIf (!known ∧ stored.balance = 0) .coldWallet
  verifyTransactionNonceApply sender t
  Prog.throwIf (w.balance - t.data.amount - t.data.fee < 0) .insufficientBalance
  Prog.throwIf (t.data.senderPublicKey ≠ w.publicKey) .senderWalletMismatch
  if w.hasMultiSignature then
    checkMultiSignature env t
  else
    Prog.throwIf (t.data.signatures.isSome ∧ !isMultiSignatureRegistration t)
      .unsupportedMultiSignatureRegistrationTransaction

/-! ## 4. The sender's side -/

/-- `if (data.version)`. -/
def hasVersion (d : TransactionData) : Bool := d.version.getD 0 ≠ 0

/-- `applyToSender`, with the check of the subclass. -/
def applyToSender (check : Services → Transaction → Address → RepositoryProg Unit)
    (env : Services) (t : Transaction) : RepositoryProg Unit := do
  let publicKey ← assertDefined t.data.senderPublicKey
  let sender ← findByPublicKey env publicKey
  check env t sender
  if hasVersion t.data then
    verifyTransactionNonceApply sender t
    let nonce ← assertDefined t.data.nonce
    update sender (·.setNonce nonce)
  else
    update sender (·.increaseNonce)
  update sender fun w => w.setBalance (w.balance - t.data.amount - t.data.fee)

/-- `revertForSender`; the balance goes up before the nonce is looked at. -/
def revertForSender (env : Services) (t : Transaction) : RepositoryProg Unit := do
  let publicKey ← assertDefined t.data.senderPublicKey
  let sender ← findByPublicKey env publicKey
  update sender (·.increaseBalance (t.data.amount + t.data.fee))
  verifyTransactionNonceRevert sender t
  update sender (·.decreaseNonce)

/-- `applyToRecipient` and `revertForRecipient` of the types without a recipient. -/
def noRecipient (_ : Services) (_ : Transaction) : RepositoryProg Unit := pure ()

/-- `allTransactions`: the data of the transactions of one type. -/
def allTransactions (type : Nat) (transactions : List Transaction) : List TransactionData :=
  (transactions.map Transaction.data).filter (·.isCore type)

end Base

namespace TransactionHandler

/-- `apply`. -/
def apply (h : TransactionHandler) (env : Services) (t : Transaction) : RepositoryProg Unit := do
  h.applyToSender env t
  h.applyToRecipient env t

/-- `revert`. -/
def revert (h : TransactionHandler) (env : Services) (t : Transaction) : RepositoryProg Unit := do
  h.revertForSender env t
  h.revertForRecipient env t

end TransactionHandler

/-! ## 5. The registry -/

/-- `getRegisteredHandlerByType`, with the group every core handler has. -/
def getRegisteredHandlerByType (handlers : List TransactionHandler)
    (internalType : InternalTransactionType) (version : Nat) :
    Except Exception TransactionHandler :=
  match handlers.find? fun h =>
      InternalTransactionType.from h.type (some TransactionTypeGroup.core) = internalType ∧
        h.version = version with
  | some h => .ok h
  | none => .error (.invalidTransactionType internalType)

/-- `getActivatedHandlerForData`; all six handlers are activated, and a missing version is 1. -/
def getActivatedHandlerForData (handlers : List TransactionHandler) (data : TransactionData) :
    Except Exception TransactionHandler :=
  getRegisteredHandlerByType handlers (InternalTransactionType.from data.type data.typeGroup)
    (data.version.getD 1)

/-! ## 6. What the base class does to the books -/

namespace Base

variable {env : Services} {L : Ledger} {N : Names} {t : Transaction} {k : PublicKey}

/-- What `throwIfCannotBeApplied` of the base class makes sure of. -/
structure Spendable (L : Ledger) (sender : Address) (t : Transaction) : Prop where
  nonce : (L sender).nonce + 1 = nonceOf t
  balance : 0 ≤ (L sender).balance - t.data.amount - t.data.fee

/-- The sender's account after `applyToSender`. -/
def charge (t : Transaction) (w : Account) : Account :=
  (w.setNonce (nonceOf t)).setBalance (w.balance - t.data.amount - t.data.fee)

/-- The sender's account after `revertForSender`. -/
def refund (t : Transaction) (w : Account) : Account :=
  (w.increaseBalance (t.data.amount + t.data.fee)).decreaseNonce

theorem verifyTransactionNonceApply_atomic (a : Address) (t : Transaction) :
    Prog.Atomic (Stands env) (L, N) (verifyTransactionNonceApply a t)
      (fun _ => (L a).nonce + 1 = nonceOf t) (L, N) := by
  unfold verifyTransactionNonceApply
  refine (wallet_always a).atomic.check fun w hw => ?_
  refine Prog.Atomic.throwIf.mono fun _ hn => ?_
  have hnonce : w.nonce + 1 = nonceOf t := Classical.byContradiction hn
  rw [← hw, hnonce]

/-- With the nonce that comes next the check passes. -/
theorem verifyTransactionNonceApply_always {a : Address} (h : (L a).nonce + 1 = nonceOf t) :
    Prog.Always (Stands env) (L, N) (verifyTransactionNonceApply a t) (fun _ => True) (L, N) := by
  unfold verifyTransactionNonceApply
  refine (wallet_always a).bind fun w hw => ?_
  have hnext : w.nonce + 1 = nonceOf t := by
    rw [hw]
    exact h
  exact Prog.Always.when (fun hne => absurd hnext hne) fun _ => rfl

theorem checkMultiSignature_atomic (t : Transaction) :
    Prog.Atomic (Stands env) (L, N) (checkMultiSignature env t) (fun _ => True) (L, N) := by
  unfold checkMultiSignature hasAttribute
  refine (assertDefined_atomic _).check fun k _ => ?_
  refine (findByPublicKey_always k).atomic.check fun a _ => ?_
  refine (account_always a).atomic.check fun w _ => ?_
  refine Prog.Atomic.throwIf.check fun _ _ => ?_
  refine (Prog.Atomic.throwIf.check fun _ _ => (Prog.Always.pure trivial).atomic).check
    (P := fun _ => True) fun legacy _ => ?_
  refine Prog.Atomic.throwIf.check fun _ _ => ?_
  refine (assertDefined_atomic _).check fun asset _ => ?_
  exact Prog.Atomic.throwIf.mono fun _ _ => trivial

theorem throwIfCannotBeApplied_atomic (t : Transaction) (sender : Address) :
    Prog.Atomic (Stands env) (L, N) (throwIfCannotBeApplied env t sender)
      (fun _ => Spendable L sender t) (L, N) := by
  unfold throwIfCannotBeApplied
  refine (findByAddress_always sender).atomic.check fun b _ => ?_
  refine (wallet_always sender).atomic.check fun w hw => ?_
  refine (assertDefined_atomic _).check fun publicKey _ => ?_
  refine (gets_always _).atomic.check fun known _ => ?_
  refine (account_always b).atomic.check fun stored _ => ?_
  refine Prog.Atomic.throwIf.check fun _ _ => ?_
  refine (verifyTransactionNonceApply_atomic sender t).check fun _ hnonce => ?_
  refine Prog.Atomic.throwIf.check fun _ hbalance => ?_
  refine Prog.Atomic.throwIf.check fun _ _ => ?_
  have hok : Spendable L sender t := by
    refine ⟨hnonce, ?_⟩
    rw [← hw]
    omega
  refine Prog.Atomic.ite (fun _ => ?_) fun _ => ?_
  · exact (checkMultiSignature_atomic t).mono fun _ _ => hok
  · exact Prog.Atomic.throwIf.mono fun _ _ => hok

/-- What decides on a transaction: its check, on the wallet of its sender. -/
def checked (check : Services → Transaction → Address → RepositoryProg Unit) (env : Services)
    (t : Transaction) (k : PublicKey) : RepositoryProg Unit := do
  let sender ← findByPublicKey env k
  check env t sender

/-- Nonce and balance of the sender, after the check. -/
theorem settle_always (hn : t.data.nonce.isSome) {s : Address} (hs : Spendable L s t) :
    Prog.Always (Stands env) (L, N) (do
        if hasVersion t.data then
          verifyTransactionNonceApply s t
          let nonce ← assertDefined t.data.nonce
          update s (·.setNonce nonce)
        else
          update s (·.increaseNonce)
        update s fun w => w.setBalance (w.balance - t.data.amount - t.data.fee)) (fun _ => True)
      (L.change s (charge t), N) := by
  have hcharge : ∀ f : Account → Account, f (L s) = (L s).setNonce (nonceOf t) →
      ((L.change s f).change s fun w => w.setBalance (w.balance - t.data.amount - t.data.fee)) =
        L.change s (charge t) := by
    intro f hf
    funext b
    rw [Ledger.change_change, Ledger.change_apply, Ledger.change_apply]
    by_cases hb : b = s
    · subst hb
      simp only [if_true, hf]
      rfl
    · simp only [if_neg hb]
  have hlast : ∀ f : Account → Account, f (L s) = (L s).setNonce (nonceOf t) →
      Prog.Always (Stands env) (L.change s f, N)
        (update s fun w => w.setBalance (w.balance - t.data.amount - t.data.fee)) (fun _ => True)
        (L.change s (charge t), N) := by
    intro f hf
    rw [← hcharge f hf]
    exact update_always _ _
  by_cases hv : hasVersion t.data = true
  · obtain ⟨nonce, hnonce⟩ := Option.isSome_iff_exists.1 hn
    have hset : nonce = nonceOf t := by simp [nonceOf, hnonce]
    simp only [hv, if_true]
    refine (verifyTransactionNonceApply_always hs.nonce).bind fun _ _ => ?_
    refine (assertDefined_some hnonce).bind fun n hn' => ?_
    subst hn'
    exact (update_always _ _).bind fun _ _ => hlast _ (by rw [hset])
  · simp only [hv]
    exact (update_always _ _).bind fun _ _ => hlast _ (by
      simp only [Account.increaseNonce, hs.nonce])

/-- **The sender is charged, or the check threw and nothing happened.** -/
theorem applyToSender_decided {check : Services → Transaction → Address → RepositoryProg Unit}
    {P : Prop} (hn : t.data.nonce.isSome) (hk : t.data.senderPublicKey = some k)
    (hcheck : Prog.Atomic (Stands env) (L, N) (check env t (env.addressFromPublicKey k))
      (fun _ => P) (L, N))
    (hP : P → Spendable L (env.addressFromPublicKey k) t) :
    Prog.Decided (Stands env) (L, N) (applyToSender check env t) (fun _ => P)
      (L.change (env.addressFromPublicKey k) (charge t), N)
      fun r => ((checked check env t k).run r).isDone = true := by
  intro r hr
  obtain ⟨a, r₁, hfind, hr₁, ha⟩ := (findByPublicKey_always k).run hr
  subst ha
  have hspec := hcheck r₁ hr₁
  have hchecked : (checked check env t k).run r =
      (check env t (env.addressFromPublicKey k)).run r₁ := Prog.run_bind_of_done hfind
  unfold Prog.Spec at hspec ⊢
  unfold applyToSender
  rw [hk, Prog.run_bind_of_done (show (assertDefined (some k) : RepositoryProg PublicKey).run r =
    .done k r from rfl), Prog.run_bind_of_done hfind]
  cases hc : (check env t (env.addressFromPublicKey k)).run r₁ with
  | thrown e r₂ =>
    rw [hc] at hspec hchecked
    rw [Prog.run_bind_of_thrown hc]
    refine ⟨hspec, ?_⟩
    show ¬ ((checked check env t k).run r).isDone = true
    rw [hchecked]
    exact Bool.false_ne_true
  | done u r₂ =>
    rw [hc] at hspec hchecked
    rw [Prog.run_bind_of_done hc]
    obtain ⟨u', r₃, hrun, hr₃, -⟩ := (settle_always hn (hP hspec.2)).run hspec.1
    rw [hrun]
    refine ⟨⟨hr₃, hspec.2⟩, ?_⟩
    show ((checked check env t k).run r).isDone = true
    rw [hchecked]
    rfl

/-- A check that refuses the transaction leaves the books alone. -/
theorem applyToSender_refused {check : Services → Transaction → Address → RepositoryProg Unit}
    (hn : t.data.nonce.isSome) (hk : t.data.senderPublicKey = some k)
    (hcheck : Prog.Atomic (Stands env) (L, N) (check env t (env.addressFromPublicKey k))
      (fun _ => False) (L, N)) :
    Prog.Decided (Stands env) (L, N) (applyToSender check env t) (fun _ => False) (L, N)
      fun r => ((checked check env t k).run r).isDone = true :=
  fun r hr => (applyToSender_decided hn hk hcheck False.elim r hr).mono
    (fun _ _ h => h.1.2.elim) fun _ _ h => h

/-- With the right nonce, the sender is refunded. -/
theorem revertForSender_always (hk : t.data.senderPublicKey = some k)
    (hn : (L (env.addressFromPublicKey k)).nonce = nonceOf t) :
    Prog.Always (Stands env) (L, N) (revertForSender env t) (fun _ => True)
      (L.change (env.addressFromPublicKey k) (refund t), N) := by
  unfold revertForSender
  refine (assertDefined_some hk).bind fun k' hk' => ?_
  subst hk'
  refine (findByPublicKey_always k').bind fun sender hs => ?_
  subst hs
  refine (update_always _ _).bind fun _ _ => ?_
  have hcheck : Prog.Always (Stands env)
      (L.change (env.addressFromPublicKey k') (·.increaseBalance (t.data.amount + t.data.fee)), N)
      (verifyTransactionNonceRevert (env.addressFromPublicKey k') t) (fun _ => True)
      (L.change (env.addressFromPublicKey k') (·.increaseBalance (t.data.amount + t.data.fee)),
        N) := by
    unfold verifyTransactionNonceRevert
    refine (wallet_always _).bind fun w hw => ?_
    have hnonce : w.nonce = nonceOf t := by
      rw [hw, Ledger.change_self, ← hn]
      rfl
    exact Prog.Always.when (fun hne => absurd hnonce hne) fun _ => rfl
  refine hcheck.bind fun _ _ => ?_
  have hlast := @update_always env
    (L.change (env.addressFromPublicKey k') (·.increaseBalance (t.data.amount + t.data.fee))) N
    (env.addressFromPublicKey k') (·.decreaseNonce)
  rw [Ledger.change_change] at hlast
  exact hlast

end Base

end CoreEx
