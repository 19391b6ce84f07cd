/-
  File:      CoreEx/Properties/TransactionFields.lean
  Subject:   Which fields of accepted data a transaction made of them still has.

  * `commonBytes_frame` -- the common part of the bytes is that of the data's frame;
  * `frame_of_bytes` -- bytes of data are read through a frame of the data's class, with the vendor
    field that was written;
  * `FieldsSurvive`; **`fromData_fields`**;
  * **`fromData_loses_signatures`** -- the list of participants' signatures is written, never read.
-/
import CoreEx.Properties.TransactionCodec

namespace CoreEx

/-! ## 1. The frame of the bytes -/

theorem commonBytes_frame {env : CodecServices} {c : TransactionClass} {data : TransactionData}
    {k : PublicKey} {p : Bytes} (hgroup : data.typeGroup.getD TransactionTypeGroup.core =
      TransactionTypeGroup.core) (hnonce : data.nonce.isSome)
    (hk : data.senderPublicKey = some k) :
    TransactionSerializer.commonBytes env { data with version := some 1 } =
      (data.frame env c k p).commonBytes := by
  obtain ⟨nonce, hnonce⟩ := Option.isSome_iff_exists.1 hnonce
  unfold TransactionSerializer.commonBytes TransactionSerializer.nonceBytes
    TransactionSerializer.senderBytes TransactionFrame.commonBytes TransactionData.frame
  simp only [hgroup, hnonce, hk, List.append_assoc]
  rfl

theorem commonHolds_frame {env : CodecServices} {c : TransactionClass} {data : TransactionData}
    {k : PublicKey} {p : Bytes}
    (hfits : TransactionSerializer.Fits env c { data with version := some 1 })
    (hnonce : data.nonce.isSome) (hcarries : env.CarriesKey k) :
    (data.frame env c k p).CommonHolds env := by
  obtain ⟨nonce, hnonce⟩ := Option.isSome_iff_exists.1 hnonce
  have hn := hfits.nonce nonce hnonce
  have hfee := hfits.fee
  refine ⟨rfl, Nat.lt_of_lt_of_le Nat.one_lt_two (by decide), hfits.network, ?_, hfits.type, ?_,
    hcarries, ?_⟩
  · show 1 < 256 ^ 4
    decide
  · show (data.nonce.getD 0).toNat < _
    rw [hnonce]
    show nonce.toNat < _
    omega
  · have hfee : 0 ≤ data.fee ∧ data.fee < 256 ^ 8 := hfee
    show data.fee.toNat < _
    omega

/-- **The bytes of data are read through a frame of the data's class, with the vendor field that
    was written.** -/
theorem frame_of_bytes {env : CodecServices} {data : TransactionData} {bytes rest : Bytes}
    {c c' : TransactionClass} {data' : TransactionData} {f : TransactionFrame}
    (hget : TransactionTypeFactory.get data.type data.typeGroup = .ok c)
    (hfacts : SchemaFacts env data c) (h : TransactionUtils.toBytes env data = .ok bytes)
    (hbytes : bytes = f.bytes ++ rest) (hf : f.Holds env c' rest data') :
    c' = c ∧ f.vendorField = TransactionSerializer.vendorField c data := by
  obtain ⟨htype, hgroup⟩ := TransactionTypeFactory.get_eq_ok.1 hget
  obtain ⟨nonce, hnonce, -⟩ := hfacts.nonce
  obtain ⟨k, hk, hcarries⟩ := hfacts.senderPublicKey
  have hsome : data.nonce.isSome := by
    rw [hnonce]
    rfl
  have hcreate : TransactionTypeFactory.create data = .ok (c, { data with version := some 1 }) := by
    rw [TransactionDeserializer.create_eq_ok, hfacts.version_eq]
    exact ⟨⟨htype, hgroup⟩, rfl⟩
  unfold TransactionUtils.toBytes TransactionSerializer.getBytes at h
  rw [hcreate] at h
  obtain ⟨hfits, p, hp, -, hwritten⟩ := TransactionSerializer.serialize_eq_ok.1 h
  have hcommon := @commonBytes_frame env c data k p hgroup hsome hk
  have hholds := commonHolds_frame (k := k) (p := p) hfits hsome hcarries
  have hvf : TransactionSerializer.vendorField c { data with version := some 1 } =
      TransactionSerializer.vendorField c data := rfl
  have hvflen : (TransactionSerializer.vendorField c data).length < 256 ^ 1 := hfits.vendorField
  unfold TransactionSerializer.vendorFieldBytes at hwritten
  rw [hcommon, hvf, hbytes] at hwritten
  unfold TransactionFrame.bytes TransactionFrame.vendorFieldBytes at hwritten
  simp only [List.append_assoc] at hwritten
  obtain ⟨heq, -, hrest⟩ := (TransactionDeserializer.reads_deserializeCommon env).unique
    ⟨f, hf.toCommonHolds, rfl, rfl⟩ ⟨_, hholds, rfl, rfl⟩ hwritten
  constructor
  · have hsame : f.type = data.type := congrArg TransactionData.type heq
    have hget' : TransactionTypeFactory.get data.type data.typeGroup = .ok c' :=
      TransactionTypeFactory.get_eq_ok.2 ⟨hsame.symm.trans hf.class_type, hgroup⟩
    exact Except.ok.inj (hget'.symm.trans hget)
  · obtain ⟨hlength, hrest⟩ := List.append_inj hrest (by rw [length_leBytes, length_leBytes])
    exact (List.append_inj hrest (leBytes_inj hf.vendorField hvflen hlength)).1

/-! ## 2. The fields -/

/-- The data have no participants' signatures, and a vendor field on a transfer only, where it is
    a non-empty text without unpaired surrogates. -/
structure TransactionData.FieldsSurvive (data : TransactionData) : Prop where
  signatures : data.signatures = none
  vendorField : ∀ text, data.vendorField = some text →
    data.type = TransactionType.transfer ∧ text.units ≠ [] ∧ text.WellFormed

theorem hasVendorField_iff {c : TransactionClass} :
    c.hasVendorField ↔ c.type = TransactionType.transfer := by
  cases c <;> decide

/-- What is read of the vendor field that was written. -/
theorem vendorField_survives_iff {c : TransactionClass} {data : TransactionData}
    (htype : data.type = c.type) :
    (if TransactionSerializer.vendorField c data ≠ [] ∧ c.hasVendorField
      then some (Text.ofUtf8 (TransactionSerializer.vendorField c data)) else none) =
      data.vendorField ↔
    ∀ text, data.vendorField = some text →
      data.type = TransactionType.transfer ∧ text.units ≠ [] ∧ text.WellFormed := by
  constructor
  · intro h text htext
    unfold TransactionSerializer.vendorField TransactionSerializer.vendorFieldOf at h
    rw [htext] at h
    by_cases hc : c.hasVendorField
    · rw [if_pos hc] at h
      by_cases hne : text.toUtf8 = []
      · rw [if_neg fun hboth => hboth.1 hne] at h
        cases h
      · rw [if_pos ⟨hne, hc⟩] at h
        have hback : Text.ofUtf8 text.toUtf8 = text := Option.some.inj h
        exact ⟨htype.trans (hasVendorField_iff.1 hc), fun hnil => hne (Text.toUtf8_eq_nil.2 hnil),
          Text.ofUtf8_toUtf8_iff.1 hback⟩
    · rw [if_neg fun hboth => hc hboth.2] at h
      cases h
  · intro h
    apply vendorField_eq
    · intro hsome
      obtain ⟨text, htext⟩ := Option.isSome_iff_exists.1 hsome
      exact hasVendorField_iff.2 (htype.symm.trans (h text htext).1)
    · exact fun text htext => (h text htext).2

/-- **A transaction made of data has their participants' signatures and their vendor field exactly
    when there are no such signatures, and a vendor field only as a proper text on a transfer; and
    no multi-signature registration is made.** -/
theorem fromData_fields {env : CodecServices} {data : TransactionData} {strict : Option Bool}
    {t : Transaction} (h : TransactionFactory.fromData env data strict = .ok t) :
    (t.data.signatures = data.signatures ∧ t.data.vendorField = data.vendorField ↔
      data.FieldsSurvive) ∧ data.type ≠ TransactionType.multiSignature := by
  obtain ⟨hschema, bytes, hbytes, hfrom⟩ := TransactionFactory.fromData_eq_ok.1 h
  obtain ⟨c, hget, hschema, -⟩ := verifySchema_eq_ok.1 hschema
  obtain ⟨⟨data', text⟩, id, hread, -, rfl, hagain⟩ := TransactionFactory.fromBytes_eq_ok.1 hfrom
  obtain ⟨f, c', rest, heq, hf, -⟩ := TransactionDeserializer.deserialize_eq_ok.1 hread
  obtain ⟨hclass, hvf⟩ :=
    frame_of_bytes hget (TransactionClass.schemaFacts hschema) hbytes heq hf
  subst hclass
  obtain ⟨htype, -⟩ := TransactionTypeFactory.get_eq_ok.1 hget
  have hsignatures : data'.signatures = none := congrArg TransactionData.signatures hf.data
  have hvendor : data'.vendorField = if f.vendorField ≠ [] ∧ c'.hasVendorField
      then some (Text.ofUtf8 f.vendorField) else none := congrArg TransactionData.vendorField hf.data
  rw [hvf] at hvendor
  constructor
  · show data'.signatures = data.signatures ∧ data'.vendorField = data.vendorField ↔ _
    rw [hsignatures, hvendor, vendorField_survives_iff htype]
    exact ⟨fun h => ⟨h.1.symm, h.2⟩, fun h => ⟨h.signatures.symm, h.vendorField⟩⟩
  · intro hmulti
    obtain ⟨c'', hget'', hagain, -⟩ := verifySchema_eq_ok.1 hagain
    have htype' : data'.type = f.type := congrArg TransactionData.type hf.data
    have hc : c'' = .multiSignature := by
      have hsame := (TransactionTypeFactory.get_eq_ok.1 hget'').1
      have hread : data'.type = c''.type := hsame
      rw [htype', hf.class_type, ← htype, hmulti] at hread
      cases c'' with
      | multiSignature => rfl
      | _ => cases hread
    subst hc
    have hfull := signatures_of_schema hagain
    have hsome : data'.signatures.isSome := hfull
    rw [hsignatures] at hsome
    cases hsome

/-! ## 3. A transfer of a multi-signature wallet -/

/-- A signed transfer, with these signatures of participants. -/
def signedTransfer (signatures : Option (List String)) : TransactionData :=
  { version := none, network := some 30, typeGroup := none, type := TransactionType.transfer,
    nonce := some 1, senderPublicKey := some .small, fee := 1, amount := 1,
    expiration := some 0, recipientId := some .small, vendorField := none,
    asset := none, id := none, signature := some (toHex (Bytes.zeros 64)),
    signatures := signatures }

/-- The participants' signatures of the transaction that is made, where one is made. -/
def madeSignatures (env : CodecServices) (data : TransactionData) :
    Option (Option (List String)) :=
  ((TransactionFactory.fromData env data none).toOption).map (·.data.signatures)

theorem exists_of_madeSignatures {env : CodecServices} {data : TransactionData}
    {signatures : Option (List String)} (h : madeSignatures env data = some signatures) :
    ∃ t, TransactionFactory.fromData env data none = .ok t ∧ t.data.signatures = signatures := by
  unfold madeSignatures at h
  cases hmade : TransactionFactory.fromData env data none with
  | error e =>
    rw [hmade] at h
    cases h
  | ok t =>
    rw [hmade] at h
    exact ⟨t, rfl, Option.some.inj h⟩

theorem fields_signedTransfer : ∃ t,
    TransactionFactory.fromData .small (signedTransfer none) none = .ok t ∧
    t.data.signatures = none ∧ t.data.vendorField = none := by
  have hmade : madeSignatures .small (signedTransfer none) = some none := by decide +kernel
  obtain ⟨t, h, -⟩ := exists_of_madeSignatures hmade
  exact ⟨t, h, (fromData_fields h).1.2 ⟨rfl, fun _ htext => (nomatch htext)⟩⟩

/-- **The signature of a participant is accepted and written, and is not there afterwards.** -/
theorem fromData_loses_signatures : ¬∀ env data strict t,
    TransactionFactory.fromData env data strict = .ok t →
      t.data.signatures = data.signatures ∧ t.data.vendorField = data.vendorField := by
  intro hall
  have hmade : madeSignatures .small (signedTransfer (some [toHex (Bytes.zeros 65)])) =
      some none := by decide +kernel
  obtain ⟨t, h, hnone⟩ := exists_of_madeSignatures hmade
  have hkept := (hall _ _ _ _ h).1
  rw [hnone] at hkept
  cases hkept

end CoreEx
