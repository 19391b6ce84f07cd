/-
  File:      CoreEx/Properties/BlockAcceptance.lean
  Subject:   Whether the first check of a block agrees with the signatures its senders owe.

  The verifier asks every transaction for the signature of its sender's own key. When that fails
  and there are participants' signatures, the handlers are asked, but nobody listens: the verifier
  is asked the same again. So a transaction of a multi-signature wallet is judged by a signature it
  does not owe; and the question itself gives the scheme the hash for the signature and the
  signature for the hash.

  * `Verifies` -- the scheme's answer, with the arguments where the class declares them;
  * `ValidlySigned` -- the signatures a transaction owes;
  * `AcceptanceAgrees` -- the check agrees with them;
  * `AcceptedExchanged`, `verifyHash_true_iff` -- what the verifier asks instead;
  * **`acceptanceAgrees_iff`** -- for which blocks the check agrees;
  * **`acceptanceAgrees_fails`** -- a block of a multi-signed and one of a signed transaction.
-/
import CoreEx.Blocks.BlockProcessor
import CoreEx.Properties.BlockVerification
import CoreEx.Properties.MultiSignature

namespace CoreEx

open BlockProcessor BlockVerifier TransactionVerifier

/-! ## 1. What is owed -/

/-- `verify(signature, message, publicKey)` of the signature factory returns `true`. -/
def Verifies (env : Services) (signature message : String) (publicKey : PublicKey) : Prop :=
  env.verify signature message publicKey.text = .ok true

instance (env : Services) (signature message : String) (publicKey : PublicKey) :
    Decidable (Verifies env signature message publicKey) :=
  inferInstanceAs (Decidable (_ = _))

/-- The key of the sender signed the data. -/
def SenderSigned (env : Services) (data : TransactionData) : Prop :=
  ∃ signature k hash, data.signature = some signature ∧ data.senderPublicKey = some k ∧
    env.toHash data ⟨true, false⟩ = .ok hash ∧ Verifies env signature hash k

/-- The participant at position `i` of the asset signed the data. -/
def ParticipantSigned (env : Services) (data : TransactionData) (asset : MultiSignatureAsset)
    (i : Nat) : Prop :=
  ∃ k hash, asset.publicKeys[i]? = some k ∧ env.toHash data ⟨true, true⟩ = .ok hash ∧
    ∃ signature ∈ data.signatures.getD [], publicKeyIndex signature = some (i : Int) ∧
      Verifies env (partialSignature signature) hash k

/-- At least `min` different participants signed. -/
def ParticipantsSigned (env : Services) (data : TransactionData) (asset : MultiSignatureAsset) :
    Prop :=
  ∃ signers : Finset Nat, asset.min ≤ signers.card ∧
    ∀ i ∈ signers, ParticipantSigned env data asset i

/-- The multi-signature of the sender's wallet, if it has one. -/
def senderMultiSignature (env : Services) (L : Ledger) (t : Transaction) :
    Option MultiSignatureAsset :=
  t.data.senderPublicKey.bind fun k => (L (env.addressFromPublicKey k)).multiSignature

/-- The transaction carries what its sender owes: its own signature, or those of enough
    participants. -/
def ValidlySigned (env : Services) (L : Ledger) (t : Transaction) : Prop :=
  match senderMultiSignature env L t with
  | none => SenderSigned env t.data
  | some asset => ParticipantsSigned env t.data asset

/-- When the checks of the header pass, `#verifyBlock` returns `true` if and only if every
    transaction is validly signed. -/
def AcceptanceAgrees (env : BlockServices) (r : WalletRepository) (now later : Int)
    (block : Block) : Prop :=
  HeaderAgrees env now block →
    ((∃ r', (verifyBlock env now later block).run r = .done true r') ↔
      ∀ t ∈ block.transactions, ValidlySigned env.toServices r.accounts t)

/-! ## 2. What is asked -/

/-- Some signature of the transaction is not empty, and the scheme accepts the hash as a signature
    of it by the sender's own key. -/
def AcceptedExchanged (env : Services) (data : TransactionData) : Prop :=
  ∃ signature k hash, data.signature = some signature ∧ signature ≠ "" ∧
    data.senderPublicKey = some k ∧ env.toHash data ⟨true, false⟩ = .ok hash ∧
    Verifies env hash signature k

theorem verifyHash_true_iff {env : Services} {data : TransactionData} :
    (verifyHash env data).settled = .ok true ↔ AcceptedExchanged env data := by
  unfold verifyHash
  dsimp only
  refine ⟨fun h => ?_, fun h => ?_⟩
  · cases hsignature : data.signature with
    | none => rw [hsignature] at h; cases h
    | some signature =>
      cases hk : data.senderPublicKey with
      | none => rw [hsignature, hk] at h; cases h
      | some k =>
        rw [hsignature, hk] at h
        dsimp only at h
        by_cases hempty : signature = ""
        · rw [if_pos hempty] at h
          cases h
        rw [if_neg hempty] at h
        cases hhash : env.toHash data ⟨true, false⟩ with
        | error e => rw [hhash] at h; cases h
        | ok hash =>
          rw [hhash] at h
          exact ⟨signature, k, hash, hsignature, hempty, hk, hhash, h⟩
  · obtain ⟨signature, k, hash, hsignature, hempty, hk, hhash, hverify⟩ := h
    rw [hsignature, hk]
    dsimp only
    rw [if_neg hempty, hhash]
    exact hverify

/-- What `#verifyBlock` returns. -/
theorem verifyBlock_true_iff {env : BlockServices} (r : ConsistentRepository env.toServices)
    {now later : Int} {block : Block} (hheader : HeaderAgrees env now block) :
    (∃ r', (verifyBlock env now later block).run r.toWalletRepository = .done true r') ↔
      ∀ t ∈ block.transactions, AcceptedExchanged env.toServices t.data := by
  have hsigned : TransactionsSigned env.toServices block.transactions ↔
      ∀ t ∈ block.transactions, AcceptedExchanged env.toServices t.data :=
    forall₂_congr fun _ _ => verifyHash_true_iff
  rw [← hsigned]
  obtain ⟨verified, r', hrun, -, hverified⟩ := verifyBlock_always.run r.stands
  rw [hrun, hverified]
  constructor
  · intro h
    obtain ⟨r'', h⟩ := h
    cases hv : (verify env now block).verified with
    | false =>
      rw [hv] at h
      cases h
    | true => exact (verified_iff.1 hv).2
  · intro h
    rw [verified_iff.2 ⟨hheader, h⟩]
    exact ⟨r', rfl⟩

/-! ## 3. Where they agree -/

/-- **The check agrees with the signatures that are owed exactly when all transactions carry them
    and are accepted with exchanged arguments as well, or when one transaction does not carry them
    and one, the same or another, is not accepted.** -/
theorem acceptanceAgrees_iff (env : BlockServices) (r : ConsistentRepository env.toServices)
    (now later : Int) (block : Block) :
    AcceptanceAgrees env r.toWalletRepository now later block ↔
      (HeaderAgrees env now block →
        (∀ t ∈ block.transactions, ValidlySigned env.toServices r.accounts t ∧
          AcceptedExchanged env.toServices t.data) ∨
        (∃ t ∈ block.transactions, ¬ValidlySigned env.toServices r.accounts t) ∧
          ∃ t ∈ block.transactions, ¬AcceptedExchanged env.toServices t.data) := by
  unfold AcceptanceAgrees
  refine forall_congr' fun hheader => ?_
  rw [verifyBlock_true_iff r hheader]
  refine ⟨fun h => ?_, fun h => ?_⟩
  · by_cases hvalid : ∀ t ∈ block.transactions, ValidlySigned env.toServices r.accounts t
    · exact Or.inl fun t ht => ⟨hvalid t ht, h.2 hvalid t ht⟩
    · have hrefused : ¬∀ t ∈ block.transactions, AcceptedExchanged env.toServices t.data :=
        fun haccepted => hvalid (h.1 haccepted)
      push Not at hvalid hrefused
      exact Or.inr ⟨hvalid, hrefused⟩
  · rcases h with hboth | ⟨⟨t, ht, hinvalid⟩, u, hu, hrefused⟩
    · exact ⟨fun _ t ht => (hboth t ht).1, fun _ t ht => (hboth t ht).2⟩
    · exact ⟨fun haccepted => absurd (haccepted u hu) hrefused,
        fun hvalid => absurd (hvalid t ht) hinvalid⟩

/-! ## 4. Two blocks that are refused -/

namespace Sample

/-- A signature is the message with the key behind it, and is asked for as the class declares it. -/
def declaredServices : BlockServices :=
  { blockServices with
    verify := fun signature message publicKey => .ok (signature = message ++ publicKey) }

/-- A transfer of the multi-signature wallet, signed by its only participant. -/
def participantSigned : Transaction :=
  { unsigned with data := { unsigned.data with signatures := some ["00idcarol"] } }

/-- A block of that transfer. -/
def multiSignedBlock : Block := { signed with transactions := [participantSigned] }

/-- The header of it agrees with the milestone and the transfer. -/
theorem headerAgrees_multiSignedBlock : HeaderAgrees declaredServices 0 multiSignedBlock :=
  ⟨fun _ => by decide, by decide, by decide, by decide, ⟨_, rfl, by decide⟩, by decide,
    fun _ => by decide, ⟨by decide, by decide, by decide⟩, by decide, by decide, by decide⟩

theorem headerAgrees_signed : HeaderAgrees declaredServices 0 signed :=
  ⟨fun _ => by decide, by decide, by decide, by decide, ⟨_, rfl, by decide⟩, by decide,
    fun _ => by decide, ⟨by decide, by decide, by decide⟩, by decide, by decide, by decide⟩

end Sample

/-- The wallet's participants signed the transaction, and the block is refused; `alice` signed the
    transfer, and so is its block. -/
theorem acceptanceAgrees_fails :
    ¬AcceptanceAgrees Sample.declaredServices Sample.multiSigned 0 0 Sample.multiSignedBlock ∧
    ¬AcceptanceAgrees Sample.declaredServices Sample.multiSigned 0 0 Sample.signed := by
  refine ⟨fun h => ?_, fun h => ?_⟩
  · have howed : ∀ t ∈ Sample.multiSignedBlock.transactions, ValidlySigned
        Sample.declaredServices.toServices Sample.multiSigned.accounts t := by
      intro t ht
      obtain rfl : t = Sample.participantSigned := List.mem_singleton.1 ht
      refine ⟨{0}, by decide, fun i hi => ?_⟩
      obtain rfl := Finset.mem_singleton.1 hi
      exact ⟨Sample.carol, "id", rfl, rfl, "00idcarol", List.mem_singleton_self _, by decide,
        by decide⟩
    obtain ⟨r', hrun⟩ := (h Sample.headerAgrees_multiSignedBlock).2 howed
    have hfalse : ((verifyBlock Sample.declaredServices 0 0 Sample.multiSignedBlock).run
        Sample.multiSigned).value? = some false := by decide
    rw [hrun] at hfalse
    cases hfalse
  · have howed : ∀ t ∈ Sample.signed.transactions, ValidlySigned
        Sample.declaredServices.toServices Sample.multiSigned.accounts t := by
      intro t ht
      obtain rfl := List.mem_singleton.1 ht
      exact ⟨_, _, _, rfl, rfl, rfl, by decide⟩
    obtain ⟨r', hrun⟩ := (h Sample.headerAgrees_signed).2 howed
    have hfalse : ((verifyBlock Sample.declaredServices 0 0 Sample.signed).run
        Sample.multiSigned).value? = some false := by decide
    rw [hrun] at hfalse
    cases hfalse

end CoreEx
