/-
  File:      CoreEx/Properties/TransactionCodec.lean
  Subject:   A single-signed transaction is deserialized from its own bytes.

  * `CodecInput` -- schema-valid data of one of the five types, with a 64-byte signature;
  * `RoundTrips` -- what comes back is what went in, and nothing is left over;
  * `Serializable` -- the data consist of what their class writes, in sizes the format has;
  * **`roundTrips_of_codecInput`**; **`roundTrips_fails`** -- a vote may carry a recipient, which is
    not written.
-/
import CoreEx.Codec.TransactionFactory

namespace CoreEx

/-! ## 1. The data -/

namespace TransactionData

/-- The addresses in the data. -/
def recipients (data : TransactionData) : List Address :=
  data.recipientId.toList ++ (data.payments.getD []).map MultiPaymentItem.recipientId

end TransactionData

/-- Schema-valid data of a single-signed transaction. -/
structure CodecInput (env : CodecServices) (c : TransactionClass) (data : TransactionData) :
    Prop where
  type : TransactionTypeFactory.get data.type data.typeGroup = .ok c
  single : c ≠ .multiSignature
  schema : c.schema env data
  signature : ∃ s, data.signature = some s ∧ IsHex 64 s
  signatures : data.signatures = none
  fee : 0 ≤ data.fee ∧ data.fee < 2 ^ 64
  nonce : ∀ nonce, data.nonce = some nonce → 0 ≤ nonce ∧ nonce < 2 ^ 64
  amount : 0 ≤ data.amount ∧ data.amount < 2 ^ 64
  payments : ∀ payment ∈ data.payments.getD [], 0 ≤ payment.amount ∧ payment.amount < 2 ^ 64
  expiration : c = .transfer → ∃ expiration, data.expiration = some expiration ∧
    expiration < 2 ^ 32
  vendorField : data.vendorField.isSome → c.hasVendorField
  addresses : ∀ a ∈ data.recipients, ∃ bs, env.CarriesAddress a bs

/-- The data with the defaults `#serializeCommon` has for the version, the network and the group,
    and without the id, which is not part of the bytes. -/
def TransactionData.written (env : CodecServices) (data : TransactionData) : TransactionData :=
  { data with
    version := some (TransactionTypeFactory.version data)
    network := some (TransactionSerializer.network env data)
    typeGroup := some (data.typeGroup.getD TransactionTypeGroup.core)
    id := none }

/-- The bytes are there, are taken completely, and say the same. -/
def RoundTrips (env : CodecServices) (data : TransactionData) : Prop :=
  ∃ bytes t, TransactionUtils.toBytes env data = .ok bytes ∧
    TransactionDeserializer.deserialize env bytes = .ok t ∧ t.serialized = toHex bytes ∧
    t.data = data.written env

/-- How long the class's part is. -/
def payloadLength (env : CodecServices) (data : TransactionData) : TransactionClass → Nat
  | .transfer => 12 + env.addressSize
  | .validatorRegistration => 1 + (encodeUtf8 (data.username.getD "").toList).length
  | .vote => 2 + env.publicKeySize *
      ((data.votes.getD []).length + (data.unvotes.getD []).length)
  | .multiSignature => 2 + env.publicKeySize * (data.multiSignature.elim 0 (·.publicKeys.length))
  | .multiPayment => 2 + (data.payments.getD []).length * (8 + env.addressSize)
  | .validatorResignation => 0

/-- The data hold what their class writes, in the sizes the format has room for. -/
structure Serializable (env : CodecServices) (c : TransactionClass) (data : TransactionData) :
    Prop where
  network : TransactionSerializer.network env data < 256
  transferFields : c ≠ .transfer → data.expiration = none ∧ data.recipientId = none
  noAsset : c = .transfer ∨ c = .validatorResignation → data.asset = none
  payments : c = .multiPayment → ∃ asset, data.asset = some asset
  count : (data.payments.getD []).length < 2 ^ 16
  vendorField : ∀ text, data.vendorField = some text →
    text.units ≠ [] ∧ text.WellFormed ∧ text.toUtf8.length < 256
  fits : 90 + env.publicKeySize + (TransactionSerializer.vendorField c data).length +
    payloadLength env data c ≤ env.maxPayload

/-! ## 2. The way there and back -/

theorem encodable_of_codecInput {env : CodecServices} {c : TransactionClass}
    {data : TransactionData} (h : CodecInput env c data) (hs : Serializable env c data) :
    Encodable env data c := by
  have hmax : TransactionSchema.maximum < 256 ^ 8 := by decide
  cases c with
  | transfer =>
    have hfacts := TransactionClass.schemaFacts h.schema
    obtain ⟨expiration, hexp, hlt⟩ := h.expiration rfl
    obtain ⟨r, hr⟩ := Option.isSome_iff_exists.1 (recipientId_of_schema h.schema)
    have hmem : r ∈ data.recipients := by
      unfold TransactionData.recipients
      rw [hr]
      exact List.mem_append_left _ (List.mem_singleton.2 rfl)
    obtain ⟨bs, hbs⟩ := h.addresses r hmem
    have hle := hfacts.amount.2
    exact ⟨⟨hfacts.amount.1, by omega⟩, expiration, r, bs, hexp, hlt, hr, hbs⟩
  | validatorRegistration =>
    obtain ⟨username, hasset, hvalid⟩ := username_of_schema h.schema
    have hlen := TransactionSchema.length_of_validatorUsername hvalid
    exact ⟨username, hasset, by omega⟩
  | vote =>
    obtain ⟨votes, unvotes, hasset, hn, hm, hvotes, hunvotes⟩ := votes_of_schema h.schema
    exact ⟨votes, unvotes, hasset, by omega, by omega, hvotes, hunvotes⟩
  | multiSignature => exact absurd rfl h.single
  | multiPayment =>
    obtain ⟨asset, hasset⟩ := hs.payments rfl
    obtain ⟨payments, rfl, hamounts⟩ := payments_of_schema h.schema hasset
    have hpayments : data.payments = some payments := by
      unfold TransactionData.payments
      rw [hasset]
      rfl
    have hcount := hs.count
    rw [hpayments] at hcount
    refine ⟨(TransactionClass.schemaFacts h.schema).amount_zero (by decide), payments, hcount,
      hasset, fun payment hmem => ⟨⟨(hamounts payment hmem).1, ?_⟩, ?_⟩⟩
    · have hle := (hamounts payment hmem).2
      omega
    · apply h.addresses
      unfold TransactionData.recipients
      rw [hpayments]
      exact List.mem_append_right _ (List.mem_map_of_mem hmem)
  | validatorResignation => trivial

theorem length_shares {env : CodecServices} {shares : List Bytes} {payments : List MultiPaymentItem}
    (h : List.Forall₂ (fun share payment => PaymentOf env payment share) shares payments) :
    shares.flatten.length = payments.length * (8 + env.addressSize) := by
  induction h with
  | nil => exact (Nat.zero_mul _).symm
  | @cons share payment shares payments hshare _ ih =>
    obtain ⟨_, _, recipient, hlen, _, rfl⟩ := hshare
    rw [List.flatten_cons, List.length_append, List.length_append, length_leBytes, hlen, ih,
      List.length_cons, Nat.succ_mul]
    omega

theorem length_of_payloadOf {env : CodecServices} {c : TransactionClass} {data : TransactionData}
    {p : Bytes} (h : PayloadOf env data p c) (hw : Written env data p c) :
    p.length = payloadLength env data c := by
  cases c with
  | transfer =>
    obtain ⟨_, _, _, _, recipient, _, _, _, hlen, _, rfl⟩ := h
    rw [List.length_append, List.length_append, length_leBytes, length_leBytes, hlen]
    show 8 + (4 + env.addressSize) = 12 + env.addressSize
    omega
  | validatorRegistration =>
    obtain ⟨username, hname, _, rfl⟩ := hw
    unfold payloadLength
    rw [List.length_append, length_leBytes, hname]
    rfl
  | vote =>
    obtain ⟨votes, unvotes, hasset, _, _, hvotes, hunvotes, rfl⟩ := h
    unfold payloadLength TransactionData.votes TransactionData.unvotes
    simp only [List.length_append, length_leBytes, hasset]
    rw [length_flatMap_keys hvotes, length_flatMap_keys hunvotes]
    show 1 + (_ + (1 + _)) = 2 + env.publicKeySize * (votes.length + unvotes.length)
    rw [Nat.mul_add]
    omega
  | multiSignature =>
    obtain ⟨min, keys, _, _, hkeys, hasset, rfl⟩ := h
    unfold payloadLength TransactionData.multiSignature
    simp only [List.length_append, length_leBytes, hasset]
    rw [length_flatMap_keys hkeys]
    show 1 + (1 + _) = 2 + env.publicKeySize * keys.length
    omega
  | multiPayment =>
    obtain ⟨_, payments, _, hasset, shares, hall, rfl⟩ := h
    unfold payloadLength TransactionData.payments
    rw [List.length_append, length_leBytes, hasset, length_shares hall]
    rfl
  | validatorResignation =>
    rw [h]
    rfl

/-- The frame of the data. -/
def TransactionData.frame (env : CodecServices) (c : TransactionClass) (data : TransactionData)
    (k : PublicKey) (p : Bytes) : TransactionFrame :=
  { marker := [0xff], version := 1, network := TransactionSerializer.network env data,
    typeGroup := TransactionTypeGroup.core, type := data.type,
    nonce := (data.nonce.getD 0).toNat, senderPublicKey := k, fee := data.fee.toNat,
    vendorField := TransactionSerializer.vendorField c data, payload := p,
    signature := ofHex (data.signature.getD "") }

/-- The vendor field that is read is the one in the data. -/
theorem vendorField_eq {c : TransactionClass} {data : TransactionData}
    (hkept : data.vendorField.isSome → c.hasVendorField)
    (htext : ∀ text, data.vendorField = some text → text.units ≠ [] ∧ text.WellFormed) :
    (if TransactionSerializer.vendorField c data ≠ [] ∧ c.hasVendorField
      then some (Text.ofUtf8 (TransactionSerializer.vendorField c data)) else none) =
      data.vendorField := by
  unfold TransactionSerializer.vendorField TransactionSerializer.vendorFieldOf
  cases hv : data.vendorField with
  | none =>
    rw [ite_self]
    exact if_neg fun h => h.1 rfl
  | some text =>
    obtain ⟨hne, hwell⟩ := htext text hv
    have hc : c.hasVendorField := hkept (by rw [hv]; rfl)
    rw [if_pos hc]
    have hbytes : text.toUtf8 ≠ [] := fun h => hne (Text.toUtf8_eq_nil.1 h)
    rw [if_pos ⟨hbytes, hc⟩]
    exact congrArg some (Text.ofUtf8_toUtf8_iff.2 hwell)

theorem vendorField_length {env : CodecServices} {c : TransactionClass} {data : TransactionData}
    (hs : Serializable env c data) : (TransactionSerializer.vendorField c data).length < 256 := by
  unfold TransactionSerializer.vendorField TransactionSerializer.vendorFieldOf
  split
  · cases hv : data.vendorField with
    | none => exact Nat.zero_lt_succ 255
    | some text => exact (hs.vendorField text hv).2.2
  · exact Nat.zero_lt_succ 255

/-- The bytes of the data are those of its frame. -/
theorem toBytes_frame {env : CodecServices} {c : TransactionClass} {data : TransactionData}
    {k : PublicKey} {p : Bytes} (h : CodecInput env c data) (hs : Serializable env c data)
    (hk : data.senderPublicKey = some k) (hcarries : env.CarriesKey k)
    (hp : PayloadOf env data p c) (hw : Written env data p c) :
    TransactionUtils.toBytes env data = .ok (data.frame env c k p).bytes := by
  have hfacts := TransactionClass.schemaFacts h.schema
  obtain ⟨nonce, hnonce, hnonneg, hnoncele⟩ := hfacts.nonce
  have hnetwork := hs.network
  obtain ⟨s, hsig, hhex⟩ := h.signature
  obtain ⟨htype, hgroup⟩ := TransactionTypeFactory.get_eq_ok.1 h.type
  have hmax : TransactionSchema.maximum < 256 ^ 8 := by decide
  have hvf := vendorField_length hs
  have hcreate : TransactionTypeFactory.create data = .ok (c, { data with version := some 1 }) := by
    rw [TransactionDeserializer.create_eq_ok, hfacts.version_eq]
    exact ⟨⟨htype, hgroup⟩, rfl⟩
  generalize hd : { data with version := some 1 } = filled at hcreate
  have hversion : TransactionTypeFactory.version filled = 1 := by
    rw [← hd]
    rfl
  have hnetwork' : TransactionSerializer.network env filled =
      TransactionSerializer.network env data := by
    rw [← hd]
    rfl
  have hgroup' : filled.typeGroup.getD TransactionTypeGroup.core = TransactionTypeGroup.core := by
    rw [← hd]
    exact hgroup
  have htype' : filled.type = data.type := by rw [← hd]
  have hnonce' : filled.nonce = some nonce := by
    rw [← hd]
    exact hnonce
  have hk' : filled.senderPublicKey = some k := by
    rw [← hd]
    exact hk
  have hfee : filled.fee = data.fee := by rw [← hd]
  have hvf' : TransactionSerializer.vendorField c filled =
      TransactionSerializer.vendorField c data := by
    rw [← hd]
    rfl
  have hsigs : TransactionSerializer.signatureBytes filled .none =
      ofHex (data.signature.getD "") := by
    unfold TransactionSerializer.signatureBytes TransactionSerializer.signature
      TransactionSerializer.signatures
    rw [← hd]
    show ofHex (data.signature.getD "") ++ ofHex (String.join (data.signatures.getD [])) = _
    rw [h.signatures]
    exact List.append_nil _
  have hpayload : TransactionSerializer.payload env c filled = .ok p := by
    rw [payload_eq_ok, ← hd]
    cases c <;> exact hw
  have hbytes : TransactionSerializer.commonBytes env filled ++
      TransactionSerializer.vendorFieldBytes c filled ++ p ++
        TransactionSerializer.signatureBytes filled .none = (data.frame env c k p).bytes := by
    unfold TransactionSerializer.commonBytes TransactionSerializer.nonceBytes
      TransactionSerializer.senderBytes TransactionSerializer.vendorFieldBytes
    rw [hversion, hnetwork', hgroup', htype', hnonce', hk', hfee, hvf', hsigs]
    unfold TransactionFrame.bytes TransactionFrame.commonBytes TransactionFrame.vendorFieldBytes
      TransactionData.frame
    rw [hnonce]
    simp only [List.append_assoc]
    rfl
  unfold TransactionUtils.toBytes TransactionSerializer.getBytes
  rw [hcreate]
  refine TransactionSerializer.serialize_eq_ok.2 ⟨?_, p, hpayload, ?_, hbytes.symm⟩
  · refine ⟨by omega, by omega, ?_, ?_, ?_, ?_, by rw [hvf']; exact hvf⟩
    · rw [hgroup']
      decide
    · rw [htype', htype]
      cases c <;> decide
    · intro nonce₁ hnonce₁
      have hsame : nonce₁ = nonce := Option.some.inj (hnonce₁.symm.trans hnonce')
      rw [hsame]
      exact ⟨hnonneg, by omega⟩
    · rw [hfee]
      have hle := hfacts.fee.2
      exact ⟨hfacts.fee.1, by omega⟩
  · have hfits := hs.fits
    have hlen := length_of_payloadOf hp hw
    have hkey := hcarries.length
    have hsiglen : (ofHex (data.signature.getD "")).length = 64 := by
      rw [hsig]
      exact hhex.2
    unfold TransactionFrame.bytes TransactionFrame.commonBytes TransactionFrame.vendorFieldBytes
      TransactionData.frame
    simp only [List.length_append, length_leBytes, List.length_singleton]
    omega

/-- The frame is read as the data. -/
theorem holds_frame {env : CodecServices} {c : TransactionClass} {data : TransactionData}
    {k : PublicKey} {p : Bytes} (h : CodecInput env c data) (hs : Serializable env c data)
    (hk : data.senderPublicKey = some k) (hcarries : env.CarriesKey k)
    (hp : PayloadOf env data p c) :
    (data.frame env c k p).Holds env c [] (data.written env) := by
  have hfacts := TransactionClass.schemaFacts h.schema
  obtain ⟨nonce, hnonce, hnonneg, hnoncele⟩ := hfacts.nonce
  have hnetwork := hs.network
  obtain ⟨s, hsig, hhex⟩ := h.signature
  obtain ⟨htype, hgroup⟩ := TransactionTypeFactory.get_eq_ok.1 h.type
  have hmax : TransactionSchema.maximum < 256 ^ 8 := by decide
  have hfee := hfacts.fee
  have hsiglen : (ofHex (data.signature.getD "")).length = 64 := by
    rw [hsig]
    exact hhex.2
  have hvflen : (TransactionSerializer.vendorField c data).length < 256 := vendorField_length hs
  refine ⟨⟨rfl, Nat.lt_of_lt_of_le Nat.one_lt_two (by decide), ?_, ?_, ?_, ?_, hcarries, ?_⟩, rfl,
    htype, hvflen, ?_, ?_, ?_⟩
  · exact hnetwork
  · show 1 < 256 ^ 4
    decide
  · show data.type < _
    rw [htype]
    cases c <;> decide
  · show (data.nonce.getD 0).toNat < _
    rw [hnonce]
    show nonce.toNat < _
    omega
  · show data.fee.toNat < _
    omega
  · cases c <;> exact hp
  · have hcan : TransactionDeserializer.canReadNonMultiSignature
        ((data.frame env c k p).signature.length + ([] : Bytes).length) = true := by
      show TransactionDeserializer.canReadNonMultiSignature
        ((ofHex (data.signature.getD "")).length + 0) = true
      rw [hsiglen]
      decide
    rw [if_pos hcan]
    exact hsiglen
  · have hsigtext : (data.frame env c k p).signatureText = some s := by
      unfold TransactionFrame.signatureText TransactionData.frame
      rw [hsig] at hsiglen ⊢
      have hne : ofHex ((some s).getD "") ≠ [] := by
        intro hnil
        rw [hnil] at hsiglen
        cases hsiglen
      show (if ofHex ((some s).getD "") = [] then none else some (toHex (ofHex s))) = some s
      rw [if_neg hne]
      exact congrArg some hhex.1.symm
    have hvf := vendorField_eq h.vendorField fun text htext =>
      ⟨(hs.vendorField text htext).1, (hs.vendorField text htext).2.1⟩
    apply TransactionData.ext
    · exact congrArg some hfacts.version_eq
    · rfl
    · exact congrArg some hgroup
    · rfl
    · show data.nonce = some ((data.nonce.getD 0).toNat : Int)
      rw [hnonce]
      exact congrArg some (Int.toNat_of_nonneg hnonneg).symm
    · exact hk
    · exact (Int.toNat_of_nonneg hfee.1).symm
    · cases c with
      | transfer => rfl
      | multiPayment => rfl
      | _ => exact hfacts.amount_zero (by decide)
    · cases c with
      | transfer => rfl
      | _ => exact (hs.transferFields (by decide)).1
    · cases c with
      | transfer => rfl
      | _ => exact (hs.transferFields (by decide)).2
    · exact hvf.symm
    · cases c with
      | transfer => exact hs.noAsset (Or.inl rfl)
      | validatorResignation => exact hs.noAsset (Or.inr rfl)
      | _ => rfl
    · rfl
    · rw [hsigtext]
      exact hsig
    · exact h.signatures

/-- **Data of the five types are deserialized from their bytes as they were, the defaults filled
    in, and nothing of the buffer is left over.** -/
theorem roundTrips_of_codecInput {env : CodecServices} {c : TransactionClass}
    {data : TransactionData} (h : CodecInput env c data) (hs : Serializable env c data) :
    RoundTrips env data := by
  obtain ⟨k, hk, hcarries⟩ := (TransactionClass.schemaFacts h.schema).senderPublicKey
  obtain ⟨p, hp, hw⟩ := exists_payload (encodable_of_codecInput h hs)
  refine ⟨(data.frame env c k p).bytes, ⟨data.written env, toHex (data.frame env c k p).bytes⟩,
    toBytes_frame h hs hk hcarries hp hw, ?_, rfl, rfl⟩
  exact TransactionDeserializer.deserialize_eq_ok.2 ⟨data.frame env c k p, c, [],
    (List.append_nil _).symm, holds_frame h hs hk hcarries hp, rfl⟩

/-- A signed vote for the key `0102`. -/
def signedVote (recipientId : Option Address) : TransactionData :=
  { version := none, network := some 30, typeGroup := none, type := TransactionType.vote,
    nonce := some 1, senderPublicKey := some .small, fee := 1, amount := 0,
    expiration := none, recipientId := recipientId, vendorField := none,
    asset := some { TransactionAsset.empty with
      votes := some [.small], unvotes := some [] },
    id := none, signature := some (toHex (Bytes.zeros 64)), signatures := none }

theorem codecInput_signedVote {recipientId : Option Address}
    (hschema : TransactionClass.schema .small (signedVote recipientId) .vote)
    (haddress : ∀ a ∈ recipientId, ∃ bs, CodecServices.small.CarriesAddress a bs) :
    CodecInput .small .vote (signedVote recipientId) where
  type := rfl
  single := by decide
  schema := hschema
  signature := ⟨_, rfl, isHex_iff.2 ⟨Bytes.zeros 64, rfl, rfl⟩⟩
  signatures := rfl
  fee := ⟨Int.one_nonneg, show (1 : Int) < 2 ^ 64 by decide⟩
  nonce := by
    intro nonce h
    cases h
    decide
  amount := ⟨le_refl 0, show (0 : Int) < 2 ^ 64 by decide⟩
  payments := fun payment h => absurd h List.not_mem_nil
  expiration := fun h => (nomatch h)
  vendorField := fun h => (nomatch h)
  addresses := by
    intro a h
    unfold TransactionData.recipients at h
    rcases List.mem_append.1 h with h | h
    · exact haddress a (Option.mem_toList.1 h)
    · exact (nomatch h)

theorem roundTrips_signedVote : RoundTrips .small (signedVote none) := by
  apply roundTrips_of_codecInput (c := .vote)
    (codecInput_signedVote (by decide +kernel) fun a h => absurd h (Option.not_mem_none a))
  exact
    { network := show 30 < 256 by decide
      transferFields := fun _ => ⟨rfl, rfl⟩
      noAsset := fun h => h.elim (fun h => (nomatch h)) (fun h => (nomatch h))
      payments := fun h => (nomatch h)
      count := Nat.two_pow_pos 16
      vendorField := fun _ h => (nomatch h)
      fits := by decide }

/-- The recipient of a vote is not written. -/
theorem recipientId_of_roundTrips {env : CodecServices} {data : TransactionData}
    (htype : data.type = TransactionType.vote) (h : RoundTrips env data) :
    data.recipientId = none := by
  obtain ⟨bytes, t, -, ht, -, hdata⟩ := h
  obtain ⟨f, c, rest, -, hf, -⟩ := TransactionDeserializer.deserialize_eq_ok.1 ht
  have hrecipient := congrArg TransactionData.recipientId hf.data
  have hclass := congrArg TransactionData.type hf.data
  rw [hdata] at hrecipient hclass
  have hc : c.type = TransactionType.vote := by
    rw [← hf.class_type, ← htype]
    exact hclass.symm
  cases c with
  | vote => exact hrecipient
  | _ => cases hc

/-- **The schema lets a vote carry a recipient, and the bytes do not hold it.** -/
theorem roundTrips_fails : ¬∀ env c data, CodecInput env c data → RoundTrips env data := by
  intro hall
  have h := hall .small .vote (signedVote (some .small)) (codecInput_signedVote
    (by decide +kernel) (by
      intro a ha
      cases ha
      exact ⟨[0x0a, 0x0b], rfl, rfl, rfl⟩))
  exact nomatch recipientId_of_roundTrips rfl h

end CoreEx
