/-
  File:      CoreEx/Properties/ThresholdCounting.lean
  Subject:   Whether the verifier counts the signatures of a multi-signature wallet rightly.

  It does count: the first pass that reaches the threshold, or finds it out of reach, gives the
  answer that a count of all signatures would give, and a participant is never counted twice. What
  it counts is another matter: it calls the scheme with the hash where the class declares the
  signature, and with the signature where it declares the message.

  * `accepts`, `verifies` -- a signature as the verifier asks about it, and as the class means it;
  * `CountsSignatures`, `ThrowsOnRepeated` -- the two parts of the property;
  * `countsAccepted`, `throwsOnRepeated` -- what the loop does, whatever the scheme;
  * **`thresholdCounting_iff`** -- when the verdict is that on the signatures;
  * **`exchangedArguments_not`** -- two participants who signed.
-/
import CoreEx.Properties.Signing

namespace CoreEx

open TransactionVerifier

/-! ## 1. The property -/

section

variable (env : CodecServices) (hash : Bytes) (publicKeys : List PublicKey)

/-- The scheme's answer to a call about the signature and the key of its index. -/
def answer (call : Bytes → Bytes → Except Exception Bool) (signature : String) : Bool :=
  match publicKeyAt publicKeys (publicKeyIndex signature) with
  | none => false
  | some k =>
    match call (ofHex (partialSignature signature)) k.bytes with
    | .ok valid => valid
    | .error _ => false

/-- The signature verifies under the key of its index. -/
def verifies (signature : String) : Bool :=
  answer publicKeys (fun signature k => env.scheme.verify signature hash k) signature

/-- What the verifier asks the scheme instead. -/
def accepts (signature : String) : Bool :=
  answer publicKeys (fun signature k => env.scheme.verify hash signature k) signature

end

/-- Every signature has the index of a participant. -/
def InRange (asset : MultiSignatureAsset) (signatures : List String) : Prop :=
  ∀ s ∈ signatures, ∃ i : Nat, publicKeyIndex s = some (i : Int) ∧ i < asset.publicKeys.length

/-- The verdict on signatures of different participants is whether `min` of them verify. -/
def CountsSignatures (env : CodecServices) (base : Services) (hash : Bytes) (data : TransactionData)
    (asset : MultiSignatureAsset) : Prop :=
  ((data.signatures.getD []).map publicKeyIndex).Nodup →
    (verifySignatures (env.services base) data (some asset)).settled =
      .ok (decide (asset.min ≤
        ((data.signatures.getD []).countP (verifies env hash asset.publicKeys) : Nat)))

/-- The loop has not ended before the first signature behind `before`: there, the threshold is
    neither reached nor out of reach. -/
def Undecided (env : CodecServices) (hash : Bytes) (asset : MultiSignatureAsset) (total : Nat)
    (before : List String) : Prop :=
  (before.countP (accepts env hash asset.publicKeys) : Int) < asset.min ∧
    asset.min ≤ (total : Int) -
      (before.length - before.countP (accepts env hash asset.publicKeys))

/-- A second signature of a participant is not counted when the loop gets to it. -/
def ThrowsOnRepeated (env : CodecServices) (base : Services) (hash : Bytes) (data : TransactionData)
    (asset : MultiSignatureAsset) : Prop :=
  ∀ before repeated after, data.signatures.getD [] = before ++ repeated :: after →
    (before.map publicKeyIndex).Nodup → publicKeyIndex repeated ∈ before.map publicKeyIndex →
    Undecided env hash asset (data.signatures.getD []).length before →
    (verifySignatures (env.services base) data (some asset)).settled =
      .error .duplicateParticipantInMultiSignature

/-! ## 2. What the loop does -/

variable {env : CodecServices} {base : Services} {hash : Bytes} {data : TransactionData}
  {asset : MultiSignatureAsset}

/-- With a scheme that answers, the check of a signature in range returns the answer to the
    exchanged arguments. -/
theorem accepted_eq (hverify : ∀ signature message publicKey,
      ∃ valid, env.scheme.verify signature message publicKey = .ok valid)
    {signatures : List String} (hrange : InRange asset signatures) {s : String}
    (hs : s ∈ signatures) : Checked (env.services base) (toHex hash) asset.publicKeys s ∧
      accepted (env.services base) (toHex hash) asset.publicKeys s =
        accepts env hash asset.publicKeys s := by
  obtain ⟨i, hindex, hlt⟩ := hrange s hs
  obtain ⟨k, hk⟩ : ∃ k, publicKeyAt asset.publicKeys (publicKeyIndex s) = some k := by
    rw [hindex]
    exact ⟨_, List.getElem?_eq_getElem hlt⟩
  obtain ⟨valid, hvalid⟩ := hverify hash (ofHex (partialSignature s)) k.bytes
  have hsubset : verifyPartial (env.services base) (toHex hash) asset.publicKeys s = .ok valid := by
    unfold verifyPartial
    rw [hk]
    show env.scheme.verify (ofHex (toHex hash)) (ofHex (partialSignature s)) (ofHex k.text) = _
    rw [ofHex_toHex]
    exact hvalid
  have haccepted : accepted (env.services base) (toHex hash) asset.publicKeys s = valid := by
    unfold accepted
    rw [hsubset]
  refine ⟨hsubset.trans (congrArg Except.ok haccepted.symm), haccepted.trans ?_⟩
  unfold accepts answer
  rw [hk]
  dsimp only
  rw [hvalid]

theorem acceptedCount_eq (hverify : ∀ signature message publicKey,
      ∃ valid, env.scheme.verify signature message publicKey = .ok valid)
    {signatures : List String} (hrange : InRange asset signatures) :
    acceptedCount (env.services base) (toHex hash) asset.publicKeys signatures =
      signatures.countP (accepts env hash asset.publicKeys) :=
  List.countP_congr fun s hs => by
    rw [(accepted_eq hverify hrange hs).2]

/-- The verdict is the loop's. -/
theorem verifySignatures_run (hhash : TransactionUtils.toHash env data ⟨true, true⟩ = .ok hash) :
    (verifySignatures (env.services base) data (some asset)).settled =
      verifyLoop (env.services base) (toHex hash) asset.publicKeys asset.min
        (data.signatures.getD []).length (data.signatures.getD []) 0 [] 0 := by
  have hhash' : (env.services base).toHash data ⟨true, true⟩ = .ok (toHex hash) := by
    show (TransactionUtils.toHash env data ⟨true, true⟩).map toHex = _
    rw [hhash]
    rfl
  unfold verifySignatures
  dsimp only
  rw [hhash']

/-- **The verdict on different participants is whether the scheme accepts `min` of the calls.** -/
theorem countsAccepted (hverify : ∀ signature message publicKey,
      ∃ valid, env.scheme.verify signature message publicKey = .ok valid)
    (hhash : TransactionUtils.toHash env data ⟨true, true⟩ = .ok hash) (hmin : 1 ≤ asset.min)
    (hrange : InRange asset (data.signatures.getD []))
    (hnodup : ((data.signatures.getD []).map publicKeyIndex).Nodup) :
    (verifySignatures (env.services base) data (some asset)).settled =
      .ok (decide (asset.min ≤
        ((data.signatures.getD []).countP (accepts env hash asset.publicKeys) : Nat))) := by
  rw [verifySignatures_run hhash, verifyLoop_eq_ok
    (fun s hs => (accepted_eq hverify hrange hs).1) hnodup (fun _ _ => List.not_mem_nil)
    (Nat.zero_add _).symm (by omega), acceptedCount_eq hverify hrange, Nat.zero_add]

/-- **The loop throws when it gets to a participant again.** -/
theorem throwsOnRepeated (hverify : ∀ signature message publicKey,
      ∃ valid, env.scheme.verify signature message publicKey = .ok valid)
    (hhash : TransactionUtils.toHash env data ⟨true, true⟩ = .ok hash)
    (hrange : InRange asset (data.signatures.getD [])) :
    ThrowsOnRepeated env base hash data asset := by
  intro before repeated after hsplit hnodup hrepeated hundecided
  obtain ⟨hmissing, hreach⟩ := hundecided
  rw [verifySignatures_run hhash]
  generalize (data.signatures.getD []).length = total at hreach ⊢
  rw [hsplit] at hrange ⊢
  have hrange' : InRange asset before := fun s hs => hrange s (List.mem_append_left _ hs)
  have hcount : acceptedCount (env.services base) (toHex hash) asset.publicKeys before =
      before.countP (accepts env hash asset.publicKeys) := acceptedCount_eq hverify hrange'
  obtain ⟨seen, hseen, hrun⟩ : ∃ seen, (∀ k, k ∈ seen ↔ k ∈ before.map publicKeyIndex ∨ k ∈ []) ∧
      verifyLoop (env.services base) (toHex hash) asset.publicKeys asset.min total
        (before ++ repeated :: after) 0 [] 0 =
          verifyLoop (env.services base) (toHex hash) asset.publicKeys asset.min total
            (repeated :: after) (0 + before.length) seen
            (0 + acceptedCount (env.services base) (toHex hash) asset.publicKeys before) := by
    refine verifyLoop_passes (fun s hs => (accepted_eq hverify hrange' hs).1) hnodup
      (fun _ _ => List.not_mem_nil) ?_ ?_
    · rw [hcount]
      omega
    · rw [hcount]
      omega
  rw [hrun]
  unfold verifyLoop
  exact if_pos ((hseen _).2 (Or.inl hrepeated))

/-! ## 3. When the verdict is right -/

/-- **The verdict is that on the signatures exactly when the scheme accepts enough of the exchanged
    calls where enough signatures verify**; a participant is never counted twice. -/
theorem thresholdCounting_iff (hverify : ∀ signature message publicKey,
      ∃ valid, env.scheme.verify signature message publicKey = .ok valid)
    (hhash : TransactionUtils.toHash env data ⟨true, true⟩ = .ok hash) (hmin : 1 ≤ asset.min)
    (hrange : InRange asset (data.signatures.getD [])) :
    (CountsSignatures env base hash data asset ∧ ThrowsOnRepeated env base hash data asset) ↔
      (((data.signatures.getD []).map publicKeyIndex).Nodup →
        (asset.min ≤ ((data.signatures.getD []).countP (accepts env hash asset.publicKeys) : Nat) ↔
          asset.min ≤
            ((data.signatures.getD []).countP (verifies env hash asset.publicKeys) : Nat))) := by
  constructor
  · intro h hnodup
    have hcounts := (h.1 hnodup).symm.trans (countsAccepted hverify hhash hmin hrange hnodup)
    exact (decide_eq_decide.1 (Except.ok.inj hcounts)).symm
  · intro h
    refine ⟨fun hnodup => ?_, throwsOnRepeated hverify hhash hrange⟩
    rw [countsAccepted hverify hhash hmin hrange hnodup, decide_eq_decide.2 (h hnodup)]

/-! ## 4. A participant who signed -/

namespace Sample

/-- The hash that participants sign. -/
def participantHash : Bytes :=
  match TransactionUtils.toHash .small unsignedTransfer ⟨true, true⟩ with
  | .ok hash => hash
  | .error _ => []

/-- A transfer with the signature of the participant at index 0. -/
def cosigned : TransactionData :=
  { unsignedTransfer with
    signatures := some ["00" ++
      toHex (SignatureScheme.smallSignature PublicKey.small.bytes participantHash)] }

/-- One participant, whose signature is enough. -/
def oneParticipant : MultiSignatureAsset := ⟨1, [.small], none⟩

theorem verify_small (signature message publicKey : Bytes) :
    ∃ valid, CodecServices.small.scheme.verify signature message publicKey = .ok valid :=
  ⟨_, rfl⟩

theorem toHash_cosigned :
    TransactionUtils.toHash .small cosigned ⟨true, true⟩ = .ok participantHash := by
  decide +kernel

theorem inRange_cosigned : InRange oneParticipant (cosigned.signatures.getD []) := by
  intro s hs
  obtain rfl := List.mem_singleton.1 hs
  exact ⟨0, by decide +kernel, by decide⟩

end Sample

theorem thresholdCounting_iff_cosigned :
    (CountsSignatures .small .simple Sample.participantHash Sample.cosigned
        Sample.oneParticipant ∧
      ThrowsOnRepeated .small .simple Sample.participantHash Sample.cosigned
        Sample.oneParticipant) ↔
      (((Sample.cosigned.signatures.getD []).map publicKeyIndex).Nodup →
        (Sample.oneParticipant.min ≤ ((Sample.cosigned.signatures.getD []).countP
            (accepts .small Sample.participantHash Sample.oneParticipant.publicKeys) : Nat) ↔
          Sample.oneParticipant.min ≤ ((Sample.cosigned.signatures.getD []).countP
            (verifies .small Sample.participantHash Sample.oneParticipant.publicKeys) : Nat))) :=
  thresholdCounting_iff Sample.verify_small Sample.toHash_cosigned (by decide)
    Sample.inRange_cosigned

/-- **The signature verifies, and the verdict is `false`**: the scheme was asked whether the hash is
    a signature. -/
theorem exchangedArguments_not :
    (∀ signature message publicKey,
      ∃ valid, CodecServices.small.scheme.verify signature message publicKey = .ok valid) ∧
    TransactionUtils.toHash .small Sample.cosigned ⟨true, true⟩ = .ok Sample.participantHash ∧
    InRange Sample.oneParticipant (Sample.cosigned.signatures.getD []) ∧
    ¬CountsSignatures .small .simple Sample.participantHash Sample.cosigned
      Sample.oneParticipant := by
  refine ⟨Sample.verify_small, Sample.toHash_cosigned, Sample.inRange_cosigned, fun h => ?_⟩
  have hverdict : (verifySignatures (CodecServices.small.services .simple) Sample.cosigned
      (some Sample.oneParticipant)).settled = .ok false := by decide +kernel
  have hverified : (Sample.cosigned.signatures.getD []).countP
      (verifies .small Sample.participantHash Sample.oneParticipant.publicKeys) = 1 := by
    decide +kernel
  have hcounts := h (by decide +kernel)
  rw [hverdict, hverified] at hcounts
  cases hcounts

end CoreEx
