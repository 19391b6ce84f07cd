/-
  File:      CoreEx/Properties/MultiSignature.lean
  Subject:   Whether the handlers make a multi-signature wallet's participants sign.

  They ask the verifier and negate the promise it returns, which is never true; so the answer
  decides nothing. Whatever passes the other checks is applied, and the property holds where one
  of those fails or the signatures happen to be right. One of the other checks fails for every
  multi-signature wallet unless somebody registers the attribute `multiSignature.legacy`.

  * `Signed` -- what should have been made sure of;
  * `EnforcedByApply`, `EnforcedByRegistration` -- the property of the two places;
  * **`enforced_iff`** -- when it holds.
-/
import CoreEx.Properties.Reversal
import CoreEx.Transactions.Admission

namespace CoreEx

open WalletRepository Base

/-- The verifier says so, and at least `min` different participants signed. -/
structure Signed (env : Services) (data : TransactionData) (asset : MultiSignatureAsset) : Prop where
  verified : (TransactionVerifier.verifySignatures env data (some asset)).settled = .ok true
  enough : TransactionVerifier.EnoughSigned env data asset

theorem signed_iff {env : Services} {data : TransactionData} {asset : MultiSignatureAsset} :
    Signed env data asset ↔
      (TransactionVerifier.verifySignatures env data (some asset)).settled = .ok true :=
  ⟨Signed.verified, fun h => ⟨h, TransactionVerifier.verifySignatures_sound h⟩⟩

/-- What `apply` applies for a multi-signature wallet is signed. -/
def EnforcedByApply (env : Services) (x : TransactionHandler) (r : WalletRepository)
    (t : Transaction) (k : PublicKey) : Prop :=
  ∀ asset, (r.accounts (env.addressFromPublicKey k)).multiSignature = some asset →
    ((x.apply env t).run r).isDone = true → Signed env t.data asset

/-- A registration the check lets through is signed by its participants. -/
def EnforcedByRegistration (env : Services) (r : WalletRepository) (t : Transaction)
    (wallet : Address) : Prop :=
  ((MultiSignatureRegistrationTransactionHandler.throwIfCannotBeApplied env t wallet).run
    r).isDone = true → ∃ asset, t.data.multiSignature = some asset ∧ Signed env t.data asset

section Enforcement

variable {env : Services} {t : Transaction} {x : TransactionHandler} {k : PublicKey}

/-- `apply` returns exactly when everything but signatures is in order. -/
theorem apply_isDone_iff (r : ConsistentRepository env) (hd : t.data.SchemaValid)
    (hx : getActivatedHandlerForData handlers t.data = .ok x)
    (hk : t.data.senderPublicKey = some k) :
    ((x.apply env t).run r.toWalletRepository).isDone = true ↔
      Passes env r.toWalletRepository t k := by
  obtain ⟨hmem, htype⟩ := handler_found hd hx
  have happly := handler_apply_decided (N := r.names) hd r.good.consistent hk hx
  rw [happly.isDone_iff r.stands]
  exact checked_isDone_iff r.sound hmem htype k

/-- The check of a registration, on any wallet. -/
theorem registration_isDone_iff (r : ConsistentRepository env) (wallet : Address) :
    ((MultiSignatureRegistrationTransactionHandler.throwIfCannotBeApplied env t wallet).run
      r.toWalletRepository).isDone = true ↔
    MultiSignatureRegistrationTransactionHandler.Passes env r.toWalletRepository t ∧
      Base.Passes env r.toWalletRepository ((aggregatedKey env t.data).toList.foldl
        (Keyring.lookup env) r.keyring) t wallet :=
  (MultiSignatureRegistrationTransactionHandler.decides (looked_self r.sound)).isDone_iff
    (looked_self r.sound)

end Enforcement

/-- **Signatures of a multi-signature are enforced exactly where something else refuses the
    transaction, or where they are right anyway.** -/
theorem enforced_iff (env : Services) (r : ConsistentRepository env) (t : Transaction)
    (x : TransactionHandler) (k : PublicKey) (hd : t.data.SchemaValid)
    (hx : getActivatedHandlerForData handlers t.data = .ok x)
    (hk : t.data.senderPublicKey = some k) :
    (EnforcedByApply env x r.toWalletRepository t k ↔
      ∀ asset, (r.accounts (env.addressFromPublicKey k)).multiSignature = some asset →
        Passes env r.toWalletRepository t k →
          (TransactionVerifier.verifySignatures env t.data (some asset)).settled = .ok true) ∧
    ∀ wallet, (EnforcedByRegistration env r.toWalletRepository t wallet ↔
      (MultiSignatureRegistrationTransactionHandler.Passes env r.toWalletRepository t →
        Base.Passes env r.toWalletRepository ((aggregatedKey env t.data).toList.foldl
          (Keyring.lookup env) r.keyring) t wallet →
        ∃ asset, t.data.multiSignature = some asset ∧
          (TransactionVerifier.verifySignatures env t.data (some asset)).settled = .ok true)) := by
  refine ⟨?_, fun wallet => ?_⟩
  · unfold EnforcedByApply
    simp only [apply_isDone_iff r hd hx hk, signed_iff]
  · unfold EnforcedByRegistration
    rw [registration_isDone_iff, and_imp]
    simp only [signed_iff]

/-- In the configuration that ships, nobody registers `multiSignature.legacy`: no transaction of a
    multi-signature wallet is applied. -/
theorem apply_multiSignature_throws {env : Services} (r : ConsistentRepository env)
    {t : Transaction} {x : TransactionHandler} {k : PublicKey} (hd : t.data.SchemaValid)
    (hx : getActivatedHandlerForData handlers t.data = .ok x)
    (hk : t.data.senderPublicKey = some k) (hother : env.otherWalletAttributes = [])
    (hms : (r.accounts (env.addressFromPublicKey k)).hasMultiSignature = true) :
    ((x.apply env t).run r.toWalletRepository).isDone = false := by
  rw [← Bool.not_eq_true, apply_isDone_iff r hd hx hk]
  intro h
  have hlegacy := (h.base.multi hms).1
  unfold Services.knownAttributes at hlegacy
  rw [hother] at hlegacy
  revert hlegacy
  decide

namespace Sample

/-- Services with a plugin that registers the attribute. -/
def legacyServices : Services :=
  { Services.simple with otherWalletAttributes := ["multiSignature.legacy"] }

theorem legacyServices_injective : Function.Injective legacyServices.addressFromPublicKey :=
  Services.simple_injective

/-- The only participant of a multi-signature. -/
def carol : PublicKey := ⟨"carol", by decide⟩

/-- A registration with one signature, which is none. -/
def multiSignatureRegistration : Transaction where
  data := { (transaction TransactionType.multiSignature 1 0 none
    { TransactionAsset.empty with multiSignature := some ⟨1, [carol], none⟩ }).data with
      signatures := some ["00"] }
  serialized := "00"

/-- A transfer of the multi-signature wallet, without a signature. -/
def unsigned : Transaction where
  data := { (transaction TransactionType.transfer 1 7 (some bob) .empty).data with
    senderPublicKey := some carol, signature := none }
  serialized := "00"

theorem multiSignatureRegistration_valid : multiSignatureRegistration.data.SchemaValid :=
  ⟨rfl, rfl, rfl, rfl, by decide, by decide, fun _ => rfl, fun h => (nomatch h),
    fun _ h => (nomatch h), fun _ h => (nomatch h), fun _ h => (nomatch h)⟩

theorem unsigned_valid : unsigned.data.SchemaValid :=
  ⟨rfl, rfl, rfl, rfl, by decide, by decide, fun h => absurd rfl h, fun _ => rfl,
    fun _ h => (nomatch h), fun _ h => (nomatch h), fun _ h => (nomatch h)⟩

/-- `alice` and `carol` have 100 each. -/
def paidOut : WalletRepository :=
  ((BalanceMutator.apply legacyServices ⟨"carol", carol.nonempty⟩ (header 1 0 0)).run
    ((BalanceMutator.apply legacyServices ⟨"alice", alice.nonempty⟩ (header 1 0 0)).run
      .empty).state).state

/-- `carol` is a multi-signature wallet. -/
def multiSigned : WalletRepository :=
  ((applyTransaction legacyServices multiSignatureRegistration).run paidOut).state

/-- `alice` has 100, and her key is known. -/
def aliceKnown : WalletRepository :=
  ((findByPublicKey Services.simple alice).run funded).state

theorem multiSigned_run :
    Run legacyServices .empty multiSigned [multiSignatureRegistration] :=
  .apply 1 multiSignatureRegistration (.reward 1 ⟨"carol", by decide⟩ (header 1 0 0)
    (.reward 1 ⟨"alice", by decide⟩ (header 1 0 0) .start (Outcome.eq_done (by decide)))
    (Outcome.eq_done (by decide))) multiSignatureRegistration_valid (Outcome.eq_done (by decide))

def multiSignedRepository : ConsistentRepository legacyServices where
  toWalletRepository := multiSigned
  sound := (consistent_of_run legacyServices_injective (.empty legacyServices)
    (voteBalances_empty _) multiSigned_run).1
  good := (consistent_of_run legacyServices_injective (.empty legacyServices)
    (voteBalances_empty _) multiSigned_run).2

end Sample

/-- The unsigned transfer of a multi-signature wallet is applied, and the registration nobody
    signed passes its check. -/
theorem enforced_fails :
    ¬ EnforcedByApply Sample.legacyServices TransferTransactionHandler.handler Sample.multiSigned
      Sample.unsigned Sample.carol ∧
    ¬ EnforcedByRegistration Services.simple Sample.aliceKnown Sample.multiSignatureRegistration
      ⟨"alice", by decide⟩ := by
  refine ⟨fun h => ?_, fun h => ?_⟩
  · have hsigned := h ⟨1, [Sample.carol], none⟩ (by decide) (by decide)
    exact absurd hsigned.verified (by decide)
  · obtain ⟨asset, hasset, hsigned⟩ := h (by decide)
    cases hasset
    exact absurd hsigned.verified (by decide)

/-- The theorem at the unsigned transfer. -/
theorem enforced_iff_sample :
    EnforcedByApply Sample.legacyServices TransferTransactionHandler.handler Sample.multiSigned
      Sample.unsigned Sample.carol ↔
    ∀ asset, (Sample.multiSigned.accounts ⟨"carol", by decide⟩).multiSignature = some asset →
      Passes Sample.legacyServices Sample.multiSigned Sample.unsigned Sample.carol →
        (TransactionVerifier.verifySignatures Sample.legacyServices Sample.unsigned.data
          (some asset)).settled = .ok true :=
  (enforced_iff Sample.legacyServices Sample.multiSignedRepository Sample.unsigned
    TransferTransactionHandler.handler Sample.carol Sample.unsigned_valid rfl rfl).1

end CoreEx
