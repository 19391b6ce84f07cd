/-
  File:      CoreEx/Properties/Signing.lean
  Subject:   When what the signer produced passes the verifier.

  The verifier calls `verify` with the hash, the signature and the key, and the class declares the
  signature first: whether a signature passes depends on what the scheme says of the exchanged
  arguments.

  * `exchanged` -- what the verifier asks the scheme about a signer;
  * **`verifyHash_sign`** -- the verdict on a single signature is the answer to that;
  * `multiSignAll` -- a list of participants signs; **`verifySignatures_multiSignAll`**;
  * **`signing_verified`**; **`signing_fails`**.
-/
import CoreEx.Codec.Signer
import CoreEx.Properties.TransactionFields

namespace CoreEx

open TransactionVerifier

/-! ## 1. A single signature -/

/-- What the verifier asks the scheme about the signature of this signer. -/
def exchanged (env : CodecServices) (hash : Bytes) (keys : KeyPair) : Except Exception Bool :=
  match env.scheme.sign hash (ofHex keys.privateKey) with
  | .ok signature => env.scheme.verify hash signature keys.publicKey.bytes
  | .error e => .error e

variable {env : CodecServices} {base : Services}

theorem signHash_eq_ok {hash : Bytes} {keys : KeyPair} {signature : String}
    (h : Signer.signHash env hash keys = .ok signature) :
    IsHex signatureSize signature ∧
      exchanged env hash keys =
        env.scheme.verify hash (ofHex signature) keys.publicKey.bytes := by
  obtain ⟨bytes, hsign, rfl⟩ := Except.map_eq_ok.1 h
  refine ⟨isHex_iff.2 ⟨bytes, env.scheme.sign_length _ _ _ hsign, rfl⟩, ?_⟩
  unfold exchanged
  rw [hsign, ofHex_toHex]

theorem ne_empty_of_isHex {s : String} (h : IsHex signatureSize s) : s ≠ "" := by
  rintro rfl
  exact nomatch h.2

/-- Data without a signature have the same hash whether it is left out or not. -/
theorem toHash_unsigned {data : TransactionData} (h : data.signature.getD "" = "") (b m : Bool) :
    TransactionUtils.toHash env data ⟨b, m⟩ = TransactionUtils.toHash env data ⟨true, m⟩ := by
  have hoff : ∀ exclude : Bool, Prog.when (data.signature.getD "" ≠ "" ∧ ¬exclude)
      (ByteBuffer.writeBytes (ofHex (data.signature.getD ""))) = pure () :=
    fun exclude => if_neg fun hc => hc.1 h
  have hsame : TransactionSerializer.serializeSignatures data ⟨b, m⟩ =
      TransactionSerializer.serializeSignatures data ⟨true, m⟩ := by
    unfold TransactionSerializer.serializeSignatures
    rw [hoff, hoff]
  unfold TransactionUtils.toHash TransactionSerializer.getBytes TransactionTypeFactory.create
  cases TransactionTypeFactory.get data.type data.typeGroup with
  | error e => rfl
  | ok c =>
    have hsame' : TransactionSerializer.serializeSignatures
        { data with version := some (TransactionTypeFactory.version data) } ⟨b, m⟩ =
          TransactionSerializer.serializeSignatures
            { data with version := some (TransactionTypeFactory.version data) } ⟨true, m⟩ := hsame
    dsimp only
    unfold TransactionSerializer.serialize
    rw [hsame']

/-- The verdict on a signature, through the package's own hash and check. -/
theorem verifyHash_services {data : TransactionData} {signature : String} {k : PublicKey}
    {hash : Bytes} (hsignature : data.signature = some signature) (hne : signature ≠ "")
    (hk : data.senderPublicKey = some k)
    (hhash : TransactionUtils.toHash env data ⟨true, false⟩ = .ok hash) :
    (verifyHash (env.services base) data).settled =
      env.scheme.verify hash (ofHex signature) k.bytes := by
  unfold verifyHash CodecServices.services
  dsimp only
  rw [hsignature, hk, hhash]
  show (if signature = "" then _ else env.scheme.verify (ofHex (toHex hash)) (ofHex signature)
    (ofHex k.text)) = _
  rw [if_neg hne, ofHex_toHex]
  rfl

/-- **The verdict on a signature that `sign` has set is the scheme's answer to the exchanged
    arguments.** -/
theorem verifyHash_sign {data data' : TransactionData} {keys : KeyPair} {options : SignOptions}
    {signature : String} (hkey : data.senderPublicKey = some keys.publicKey)
    (hunsigned : data.signature.getD "" = "")
    (h : Signer.sign env data keys options = .ok (signature, data'))
    (hset : data'.signature = some signature) :
    ∃ hash, TransactionUtils.toHash env data ⟨true, false⟩ = .ok hash ∧
      (verifyHash (env.services base) data').settled = exchanged env hash keys := by
  unfold Signer.sign at h
  obtain ⟨hash, hhash, h⟩ := TransactionFactory.bind_eq_ok.1 h
  obtain ⟨signature', hsign, h⟩ := TransactionFactory.bind_eq_ok.1 h
  obtain ⟨hhex, hexchanged⟩ := signHash_eq_ok hsign
  obtain ⟨rfl, rfl⟩ := Prod.mk.inj (Except.ok.inj h)
  have hmulti : (Signer.signOptions options).excludeMultiSignature = false := by
    by_contra hon
    rw [if_neg fun hc => hc.2 (Bool.eq_true_of_not_eq_false hon)] at hset
    have hset : data.signature = some signature' := hset
    rw [hset] at hunsigned
    exact ne_empty_of_isHex hhex hunsigned
  have hhash' : TransactionUtils.toHash env data ⟨true, false⟩ = .ok hash := by
    rw [← toHash_unsigned hunsigned (Signer.signOptions options).excludeSignature false, ← hmulti]
    exact hhash
  refine ⟨hash, hhash', ?_⟩
  rw [if_pos ⟨hunsigned, by rw [hmulti]; exact Bool.false_ne_true⟩, hexchanged]
  refine verifyHash_services rfl (ne_empty_of_isHex hhex) hkey ?_
  rw [TransactionUtils.toHash_excludeSignature rfl, TransactionUtils.toHash_filled]
  exact hhash'

/-! ## 2. Several participants -/

/-- The signature text of a participant at this index. -/
def SignedAs (env : CodecServices) (hash : Bytes) (keys : KeyPair) (index : Int) (text : String) :
    Prop :=
  ∃ position signature, numberToHex index = .ok position ∧
    Signer.signHash env hash keys = .ok signature ∧ text = position ++ signature

theorem multiSign_eq_ok {data data' : TransactionData} {keys : KeyPair} {index : Int}
    {text : String} (h : Signer.multiSign env data keys index = .ok (text, data')) :
    ∃ hash, TransactionUtils.toHash env data ⟨true, true⟩ = .ok hash ∧
      SignedAs env hash keys
        (if index = -1 then ((data.signatures.getD []).length : Int) else index) text ∧
      data' = { data.filled with signatures := some (data.signatures.getD [] ++ [text]) } := by
  unfold Signer.multiSign at h
  obtain ⟨hash, hhash, h⟩ := TransactionFactory.bind_eq_ok.1 h
  obtain ⟨signature, hsign, h⟩ := TransactionFactory.bind_eq_ok.1 h
  obtain ⟨position, hposition, h⟩ := TransactionFactory.bind_eq_ok.1 h
  obtain ⟨rfl, rfl⟩ := Prod.mk.inj (Except.ok.inj h)
  exact ⟨hash, hhash, ⟨position, signature, hposition, hsign, rfl⟩, rfl⟩

/-- A participant's signature leaves the hash that participants sign as it was. -/
theorem toHash_multiSign {data data' : TransactionData} {keys : KeyPair} {index : Int}
    {text : String} (h : Signer.multiSign env data keys index = .ok (text, data')) :
    TransactionUtils.toHash env data' ⟨true, true⟩ =
      TransactionUtils.toHash env data ⟨true, true⟩ := by
  obtain ⟨hash, -, -, rfl⟩ := multiSign_eq_ok h
  rw [TransactionUtils.toHash_excludeMultiSignature rfl, TransactionUtils.toHash_filled]

/-- So does a single signature. -/
theorem toHash_sign {data data' : TransactionData} {keys : KeyPair} {options : SignOptions}
    {signature : String} (h : Signer.sign env data keys options = .ok (signature, data')) :
    TransactionUtils.toHash env data' ⟨true, true⟩ =
        TransactionUtils.toHash env data ⟨true, true⟩ ∧
      data'.signatures = data.signatures := by
  unfold Signer.sign at h
  obtain ⟨hash, hhash, h⟩ := TransactionFactory.bind_eq_ok.1 h
  obtain ⟨signature', hsign, h⟩ := TransactionFactory.bind_eq_ok.1 h
  obtain ⟨rfl, rfl⟩ := Prod.mk.inj (Except.ok.inj h)
  split
  · refine ⟨?_, rfl⟩
    rw [TransactionUtils.toHash_excludeSignature rfl, TransactionUtils.toHash_filled]
  · exact ⟨TransactionUtils.toHash_filled data, rfl⟩

/-- What the verifier makes of a participant's signature. -/
theorem verifyPartial_signedAs {hash : Bytes} {keys : KeyPair} {index : Nat} {text : String}
    {publicKeys : List PublicKey} (hlt : index < 256)
    (hkey : publicKeys[index]? = some keys.publicKey)
    (h : SignedAs env hash keys index text) :
    publicKeyIndex text = some (index : Int) ∧
      verifyPartial (env.services base) (toHex hash) publicKeys text = exchanged env hash keys := by
  obtain ⟨position, signature, hposition, hsign, rfl⟩ := h
  obtain ⟨position', hposition', hlength, hparse⟩ := numberToHex_index hlt
  have hsame : position = position' := Except.ok.inj (hposition.symm.trans hposition')
  subst hsame
  obtain ⟨hhex, hexchanged⟩ := signHash_eq_ok hsign
  have hcut : (position ++ signature).toList.take 2 = position.toList := by
    rw [String.toList_append, ← hlength, ← String.length_toList]
    exact List.take_left
  have hsubset : partialSignature (position ++ signature) = signature := by
    have htext : signature.toList.length = 128 :=
      String.length_toList.trans hhex.length_text
    have hposition₂ : position.toList.length = 2 := String.length_toList.trans hlength
    unfold partialSignature
    rw [String.toList_append, List.take_of_length_le (by rw [List.length_append]; omega),
      ← hposition₂, List.drop_left, String.ofList_toList]
  have hindex : publicKeyIndex (position ++ signature) = some (index : Int) := by
    unfold publicKeyIndex
    rw [hcut]
    exact hparse
  refine ⟨hindex, ?_⟩
  unfold verifyPartial
  rw [hindex, hsubset, hexchanged]
  have hat : publicKeyAt publicKeys (some (index : Int)) = some keys.publicKey := hkey
  rw [hat]
  show env.scheme.verify (ofHex (toHex hash)) (ofHex signature) (ofHex keys.publicKey.text) = _
  rw [ofHex_toHex]
  rfl

/-- The participants sign one after the other, each at its index. -/
def multiSignAll (env : CodecServices) :
    TransactionData → List (KeyPair × Nat) → Except Exception TransactionData
  | data, [] => .ok data
  | data, (keys, index) :: participants => do
    let (_, data) ← Signer.multiSign env data keys index
    multiSignAll env data participants

/-- **A run of participants keeps the hash they sign and adds their signatures in order.** -/
theorem multiSignAll_eq_ok {participants : List (KeyPair × Nat)} {data data' : TransactionData}
    {hash : Bytes} (hhash : TransactionUtils.toHash env data ⟨true, true⟩ = .ok hash)
    (h : multiSignAll env data participants = .ok data') :
    TransactionUtils.toHash env data' ⟨true, true⟩ = .ok hash ∧ ∃ texts,
      List.Forall₂ (fun p text => SignedAs env hash p.1 (p.2 : Nat) text) participants texts ∧
      data'.signatures.getD [] = data.signatures.getD [] ++ texts := by
  induction participants generalizing data with
  | nil =>
    cases h
    exact ⟨hhash, [], .nil, (List.append_nil _).symm⟩
  | cons p participants ih =>
    obtain ⟨keys, index⟩ := p
    unfold multiSignAll at h
    obtain ⟨⟨text, data₁⟩, hsign, h⟩ := TransactionFactory.bind_eq_ok.1 h
    obtain ⟨hash', hhash', hsigned, hdata₁⟩ := multiSign_eq_ok hsign
    have hsame : hash' = hash := Except.ok.inj (hhash'.symm.trans hhash)
    subst hsame
    rw [if_neg (by omega)] at hsigned
    obtain ⟨hlast, texts, htexts, hsignatures⟩ := ih ((toHash_multiSign hsign).trans hhash) h
    refine ⟨hlast, text :: texts, .cons hsigned htexts, ?_⟩
    rw [hsignatures, hdata₁]
    exact (List.append_assoc ..).trans rfl

/-- The indexes of participants' signatures and what the verifier makes of each. -/
theorem checks_of_signedAs {hash : Bytes} {publicKeys : List PublicKey}
    {participants : List (KeyPair × Nat)} {texts : List String} (hcount : publicKeys.length ≤ 16)
    (hkeys : ∀ p ∈ participants, publicKeys[p.2]? = some p.1.publicKey)
    (h : List.Forall₂ (fun p text => SignedAs env hash p.1 (p.2 : Nat) text) participants texts) :
    texts.map publicKeyIndex = (participants.map Prod.snd).map (fun i : Nat => some (i : Int)) ∧
      texts.map (verifyPartial (env.services base) (toHex hash) publicKeys) =
        participants.map fun p => exchanged env hash p.1 := by
  induction h with
  | nil => exact ⟨rfl, rfl⟩
  | @cons p text participants texts hsigned _ ih =>
    have hkey := hkeys p List.mem_cons_self
    have hlt : p.2 < publicKeys.length := (List.getElem?_eq_some_iff.1 hkey).1
    obtain ⟨hindex, hcheck⟩ : publicKeyIndex text = some ((p.2 : Nat) : Int) ∧
        verifyPartial (env.services base) (toHex hash) publicKeys text = exchanged env hash p.1 :=
      verifyPartial_signedAs (by omega) hkey hsigned
    obtain ⟨hindexes, hchecks⟩ := ih fun q hq => hkeys q (List.mem_cons_of_mem _ hq)
    simp only [List.map_cons]
    exact ⟨by rw [hindex, hindexes], by rw [hcheck, hchecks]⟩

/-- Whether the scheme, asked as the verifier asks it, accepts enough of these signers. -/
def EnoughExchanged (env : CodecServices) (data : TransactionData) (min : Int)
    (participants : List (KeyPair × Nat)) : Prop :=
  ∃ hash, TransactionUtils.toHash env data ⟨true, true⟩ = .ok hash ∧
    EnoughTrue min (participants.map fun p => exchanged env hash p.1)

/-- **After a run of different participants the verifier says `true` exactly when the scheme, asked
    as the verifier asks it, accepts enough of them.** -/
theorem verifySignatures_multiSignAll {data data' : TransactionData} {asset : MultiSignatureAsset}
    {participants : List (KeyPair × Nat)} (hmin : 1 ≤ asset.min)
    (hcount : asset.publicKeys.length ≤ 16) (hunsigned : data.signatures.getD [] = [])
    (hkeys : ∀ p ∈ participants, asset.publicKeys[p.2]? = some p.1.publicKey)
    (hdistinct : (participants.map Prod.snd).Nodup)
    (h : multiSignAll env data participants = .ok data') :
    (verifySignatures (env.services base) data' (some asset)).settled = .ok true ↔
      EnoughExchanged env data asset.min participants := by
  cases hhash : TransactionUtils.toHash env data ⟨true, true⟩ with
  | error e =>
    have hnone : ¬EnoughExchanged env data asset.min participants := by
      rintro ⟨hash, hok, -⟩
      rw [hhash] at hok
      cases hok
    refine ⟨fun hverified => ?_, fun henough => absurd henough hnone⟩
    cases participants with
    | nil =>
      cases h
      unfold verifySignatures CodecServices.services at hverified
      dsimp only at hverified
      rw [hhash] at hverified
      cases hverified
    | cons p participants =>
      unfold multiSignAll at h
      obtain ⟨⟨text, data₁⟩, hsign, -⟩ := TransactionFactory.bind_eq_ok.1 h
      obtain ⟨hash, hok, -⟩ := multiSign_eq_ok hsign
      rw [hhash] at hok
      cases hok
  | ok hash =>
    obtain ⟨hlast, texts, htexts, hsignatures⟩ := multiSignAll_eq_ok hhash h
    rw [hunsigned, List.nil_append] at hsignatures
    obtain ⟨hindexes, hchecks⟩ : _ ∧
        texts.map (verifyPartial (env.services base) (toHex hash) asset.publicKeys) = _ :=
      checks_of_signedAs hcount hkeys htexts
    have hnodup : (texts.map publicKeyIndex).Nodup := by
      rw [hindexes]
      exact hdistinct.map fun i j hij => Int.ofNat.inj (Option.some.inj hij)
    have hloop : verifyLoop (env.services base) (toHex hash) asset.publicKeys asset.min
        texts.length texts 0 [] 0 = .ok true ↔ EnoughTrue (asset.min - (0 : Nat))
          (texts.map (verifyPartial (env.services base) (toHex hash) asset.publicKeys)) :=
      verifyLoop_eq_true hnodup (fun _ _ => List.not_mem_nil) (Nat.zero_add _).symm (by omega)
    have hzero : asset.min - (0 : Nat) = asset.min := Int.sub_zero _
    rw [hzero, hchecks] at hloop
    have hrun : (verifySignatures (env.services base) data' (some asset)).settled =
        verifyLoop (env.services base) (toHex hash) asset.publicKeys asset.min
          texts.length texts 0 [] 0 := by
      unfold verifySignatures
      have hhash' : (env.services base).toHash data' ⟨true, true⟩ = .ok (toHex hash) := by
        show (TransactionUtils.toHash env data' ⟨true, true⟩).map toHex = _
        rw [hlast]
        rfl
      dsimp only
      rw [hhash', hsignatures]
    rw [hrun, hloop]
    constructor
    · exact fun henough => ⟨hash, hhash, henough⟩
    · rintro ⟨hash', hhash', henough⟩
      rw [hhash] at hhash'
      cases hhash'
      exact henough

/-! ## 3. Signing and verifying -/

/-- What later signing must leave as it is: the hash participants sign, their signatures so far,
    and a verdict that was reached. -/
structure KeepsSignatures (env : CodecServices) (base : Services) (data data' : TransactionData) :
    Prop where
  hash : TransactionUtils.toHash env data' ⟨true, true⟩ =
    TransactionUtils.toHash env data ⟨true, true⟩
  signatures : ∃ more, data'.signatures.getD [] = data.signatures.getD [] ++ more
  verdict : ∀ asset, (verifySignatures (env.services base) data (some asset)).settled = .ok true →
    (verifySignatures (env.services base) data' (some asset)).settled = .ok true

theorem keepsSignatures_of {data data' : TransactionData} {more : List String}
    (hhash : TransactionUtils.toHash env data' ⟨true, true⟩ =
      TransactionUtils.toHash env data ⟨true, true⟩)
    (hsignatures : data'.signatures.getD [] = data.signatures.getD [] ++ more) :
    KeepsSignatures env base data data' := by
  refine ⟨hhash, ⟨more, hsignatures⟩, fun asset h => verifySignatures_append ?_ hsignatures h⟩
  show (TransactionUtils.toHash env data' ⟨true, true⟩).map toHex =
    (TransactionUtils.toHash env data ⟨true, true⟩).map toHex
  rw [hhash]

/-- **A signature that `sign` has set passes exactly when the scheme accepts the exchanged
    arguments; so do, in sum, those of different participants; and what is signed later takes
    nothing back.** -/
theorem signing_verified (env : CodecServices) (base : Services) :
    (∀ data data' keys options signature, data.senderPublicKey = some keys.publicKey →
      data.signature.getD "" = "" →
      Signer.sign env data keys options = .ok (signature, data') →
      data'.signature = some signature →
      ((verifyHash (env.services base) data').settled = .ok true ↔
        ∃ hash, TransactionUtils.toHash env data ⟨true, false⟩ = .ok hash ∧
          exchanged env hash keys = .ok true)) ∧
    (∀ data data' (asset : MultiSignatureAsset) participants, 1 ≤ asset.min →
      asset.publicKeys.length ≤ 16 → data.signatures.getD [] = [] →
      (∀ p ∈ participants, asset.publicKeys[p.2]? = some p.1.publicKey) →
      (participants.map Prod.snd).Nodup → multiSignAll env data participants = .ok data' →
      ((verifySignatures (env.services base) data' (some asset)).settled = .ok true ↔
        EnoughExchanged env data asset.min participants)) ∧
    (∀ data data' keys,
      (∃ options signature, Signer.sign env data keys options = .ok (signature, data')) ∨
        (∃ index text, Signer.multiSign env data keys index = .ok (text, data')) →
      KeepsSignatures env base data data') := by
  refine ⟨?_, ?_, ?_⟩
  · intro data data' keys options signature hkey hunsigned h hset
    obtain ⟨hash, hhash, hverdict⟩ := verifyHash_sign hkey hunsigned h hset
    rw [hverdict]
    constructor
    · exact fun haccepts => ⟨hash, hhash, haccepts⟩
    · rintro ⟨hash', hhash', haccepts⟩
      have hsame : hash' = hash := Except.ok.inj (hhash'.symm.trans hhash)
      rw [← hsame]
      exact haccepts
  · intro data data' asset participants hmin hcount hunsigned hkeys hdistinct h
    exact verifySignatures_multiSignAll hmin hcount hunsigned hkeys hdistinct h
  · rintro data data' keys (⟨options, signature, h⟩ | ⟨index, text, h⟩)
    · obtain ⟨hhash, hsignatures⟩ := toHash_sign h
      have hsame : data'.signatures.getD [] = data.signatures.getD [] ++ [] := by
        rw [hsignatures, List.append_nil]
      exact keepsSignatures_of hhash hsame
    · obtain ⟨hash, -, -, hdata'⟩ := multiSign_eq_ok h
      have hadded : data'.signatures.getD [] = data.signatures.getD [] ++ [text] := by
        rw [hdata']
        rfl
      exact keepsSignatures_of (toHash_multiSign h) hadded

/-- **No signature passes with a scheme whose signatures all have 64 bytes, where a hash has 32.** -/
theorem exchanged_ne_true {data : TransactionData} {options : SerializeOptions} {hash : Bytes}
    {keys : KeyPair} (hsha : ∀ bs, (env.sha256 bs).length = 32)
    (hverify : ∀ signature message publicKey,
      env.scheme.verify signature message publicKey = .ok true → signature.length = signatureSize)
    (hhash : TransactionUtils.toHash env data options = .ok hash) :
    exchanged env hash keys ≠ .ok true := by
  intro haccepts
  obtain ⟨bytes, -, rfl⟩ := Except.map_eq_ok.1 hhash
  unfold exchanged at haccepts
  cases hsign : env.scheme.sign (env.sha256 bytes) (ofHex keys.privateKey) with
  | error e =>
    rw [hsign] at haccepts
    cases haccepts
  | ok signature =>
    rw [hsign] at haccepts
    have hlength := hverify _ _ _ haccepts
    rw [hsha] at hlength
    cases hlength

theorem length_of_verify_small {signature message publicKey : Bytes}
    (h : SignatureScheme.small.verify signature message publicKey = .ok true) :
    signature.length = signatureSize := by
  have hsame : signature = SignatureScheme.smallSignature publicKey message :=
    of_decide_eq_true (Except.ok.inj h)
  rw [hsame]
  exact SignatureScheme.small.sign_length message publicKey _ rfl

theorem length_sha256_small (bs : Bytes) : (CodecServices.small.sha256 bs).length = 32 := by
  show ((bs ++ Bytes.zeros 32).take 32).length = 32
  rw [List.length_take, List.length_append, Bytes.length_zeros]
  omega

/-- A key that is its own private key. -/
def smallKeys : KeyPair := ⟨.small, "0102"⟩

/-- A transfer before it is signed. -/
def unsignedTransfer : TransactionData := { signedTransfer none with signature := none }

theorem sign_unsignedTransfer : ∃ signature data',
    Signer.sign .small unsignedTransfer smallKeys ⟨none, none⟩ = .ok (signature, data') ∧
      data'.signature = some signature := by
  have hsigned : (match Signer.sign .small unsignedTransfer smallKeys ⟨none, none⟩ with
      | .ok (signature, data') => decide (data'.signature = some signature)
      | .error _ => false) = true := by decide +kernel
  cases h : Signer.sign .small unsignedTransfer smallKeys ⟨none, none⟩ with
  | error e =>
    rw [h] at hsigned
    cases hsigned
  | ok x =>
    rw [h] at hsigned
    exact ⟨x.1, x.2, rfl, of_decide_eq_true hsigned⟩

/-- Another key of this kind. -/
def otherKeys : KeyPair := ⟨⟨"0304", by decide⟩, "0304"⟩

/-- Two participants; the second signs first. -/
def smallParticipants : List (KeyPair × Nat) := [(otherKeys, 1), (smallKeys, 0)]

/-- Both are to sign. -/
def smallAsset : MultiSignatureAsset := ⟨2, [.small, otherKeys.publicKey], none⟩

theorem multiSignAll_unsignedTransfer : ∃ data',
    multiSignAll .small unsignedTransfer smallParticipants = .ok data' := by
  have hsigned : (multiSignAll .small unsignedTransfer smallParticipants).toBool = true := by
    decide +kernel
  cases h : multiSignAll .small unsignedTransfer smallParticipants with
  | error e =>
    rw [h] at hsigned
    cases hsigned
  | ok data' => exact ⟨data', rfl⟩

/-- One signature, those of two participants, and what the one leaves of the data. -/
theorem signing_verified_small : ∃ signature data' shared,
    Signer.sign .small unsignedTransfer smallKeys ⟨none, none⟩ = .ok (signature, data') ∧
      multiSignAll .small unsignedTransfer smallParticipants = .ok shared ∧
      ((verifyHash (CodecServices.small.services .simple) data').settled = .ok true ↔
        ∃ hash, TransactionUtils.toHash .small unsignedTransfer ⟨true, false⟩ = .ok hash ∧
          exchanged .small hash smallKeys = .ok true) ∧
      ((verifySignatures (CodecServices.small.services .simple) shared (some smallAsset)).settled =
        .ok true ↔ EnoughExchanged .small unsignedTransfer 2 smallParticipants) ∧
      KeepsSignatures .small .simple unsignedTransfer data' := by
  obtain ⟨signature, data', h, hset⟩ := sign_unsignedTransfer
  obtain ⟨shared, hshared⟩ := multiSignAll_unsignedTransfer
  obtain ⟨hone, hsome, hlater⟩ := signing_verified .small .simple
  refine ⟨signature, data', shared, h, hshared, hone _ _ _ _ _ rfl rfl h hset, ?_,
    hlater _ _ _ (.inl ⟨_, _, h⟩)⟩
  exact hsome unsignedTransfer shared smallAsset smallParticipants (by decide) (by decide) rfl
    (by decide) (by decide) hshared

/-- **The hash is passed where the signature belongs, and a transfer that was just signed does not
    pass.** -/
theorem signing_fails : ¬∀ (env : CodecServices) (base : Services) keys data data' options
    signature, env.scheme.Lawful keys → (∃ c : TransactionClass, c.schema env data) →
      data.senderPublicKey = some keys.publicKey →
      Signer.sign env data keys options = .ok (signature, data') →
      data'.signature = some signature →
      (verifyHash (env.services base) data').settled = .ok true := by
  intro hall
  obtain ⟨signature, data', h, hset⟩ := sign_unsignedTransfer
  have hverified := hall .small .simple smallKeys unsignedTransfer data' _ signature
    (SignatureScheme.lawful_small _) ⟨.transfer, by decide +kernel⟩ rfl h hset
  obtain ⟨hash, hhash, hverdict⟩ : ∃ hash, TransactionUtils.toHash .small unsignedTransfer
      ⟨true, false⟩ = .ok hash ∧ (verifyHash (CodecServices.small.services .simple) data').settled =
        exchanged .small hash smallKeys := verifyHash_sign rfl rfl h hset
  rw [hverdict] at hverified
  exact exchanged_ne_true length_sha256_small (fun _ _ _ => length_of_verify_small) hhash hverified

end CoreEx
