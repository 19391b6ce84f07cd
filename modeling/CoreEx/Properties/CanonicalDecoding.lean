/-
  File:      CoreEx/Properties/CanonicalDecoding.lean
  Subject:   Which accepted byte strings are the bytes of the transaction they are read as.

  * `TransactionFrame.canonical` -- the frame that is written for what a frame is read as;
  * **`toBytes_of_holds`** -- what is written after reading is the canonical frame;
  * `CanonicalBytes` -- nothing skipped, nothing replaced, nothing left over;
  * **`fromBytes_canonical`**; **`fromBytes_malleable`** -- the marker byte is skipped.
-/
import CoreEx.Codec.TransactionFactory

namespace CoreEx

/-! ## 1. The canonical frame -/

namespace TransactionFrame

/-- The vendor field that is written for the one that was read. -/
def writtenVendorField (f : TransactionFrame) (c : TransactionClass) : Bytes :=
  if f.vendorField ≠ [] ∧ c.hasVendorField then (Text.ofUtf8 f.vendorField).toUtf8 else []

/-- The frame that is written for what the frame is read as. -/
def canonical (f : TransactionFrame) (c : TransactionClass) : TransactionFrame :=
  { f with marker := [0xff], version := 1, vendorField := f.writtenVendorField c }

/-- The frame is written as it was read. -/
structure IsCanonical (f : TransactionFrame) (c : TransactionClass) : Prop where
  marker : f.marker = [0xff]
  version : f.version = 1
  vendorField : if c.hasVendorField then IsUtf8 f.vendorField else f.vendorField = []

theorem writtenVendorField_eq_iff {f : TransactionFrame} {c : TransactionClass} :
    f.vendorField = f.writtenVendorField c ↔
      if c.hasVendorField then IsUtf8 f.vendorField else f.vendorField = [] := by
  unfold writtenVendorField
  by_cases hc : c.hasVendorField
  · rw [if_pos hc]
    by_cases hne : f.vendorField = []
    · rw [hne, if_neg fun h => h.1 rfl]
      exact ⟨fun _ => rfl, fun _ => rfl⟩
    · rw [if_pos ⟨hne, hc⟩, eq_comm]
      exact Text.toUtf8_ofUtf8_iff
  · rw [if_neg hc, if_neg fun h => hc h.2]

theorem IsCanonical.canonical_eq {f : TransactionFrame} {c : TransactionClass}
    (h : f.IsCanonical c) : f.canonical c = f := by
  obtain ⟨hmarker, hversion, hvendor⟩ := h
  have hvf := writtenVendorField_eq_iff.2 hvendor
  unfold canonical
  rw [← hvf, ← hmarker, ← hversion]

/-- A frame with some bytes behind it equals its canonical frame only if it is that frame. -/
theorem isCanonical_of_bytes {env : CodecServices} {f : TransactionFrame} {c : TransactionClass}
    {rest : Bytes} (h : f.CommonHolds env) (hvf : f.vendorField.length < 256 ^ 1)
    (hvf' : (f.writtenVendorField c).length < 256 ^ 1)
    (heq : f.bytes ++ rest = (f.canonical c).bytes) : f.IsCanonical c ∧ rest = [] := by
  unfold bytes commonBytes vendorFieldBytes canonical at heq
  simp only [List.append_assoc] at heq
  obtain ⟨hmarker, heq⟩ := List.append_inj heq h.marker
  obtain ⟨hversion, heq⟩ := List.append_inj heq (by rw [length_leBytes, length_leBytes])
  have heq := List.append_cancel_left heq
  have heq := List.append_cancel_left heq
  have heq := List.append_cancel_left heq
  have heq := List.append_cancel_left heq
  have heq := List.append_cancel_left heq
  have heq := List.append_cancel_left heq
  obtain ⟨hlength, heq⟩ := List.append_inj heq (by rw [length_leBytes, length_leBytes])
  obtain ⟨hvendor, heq⟩ := List.append_inj heq (leBytes_inj hvf hvf' hlength)
  have heq := List.append_cancel_left heq
  have hrest : f.signature ++ rest = f.signature ++ [] := by
    rw [heq, List.append_nil]
  refine ⟨⟨hmarker, ?_, writtenVendorField_eq_iff.1 hvendor⟩, List.append_cancel_left hrest⟩
  exact leBytes_inj h.version (by decide) hversion

end TransactionFrame

/-! ## 2. What is written after reading -/

/-- No text that was read as a username holds a replaced byte. -/
theorem username_of_holds {env : CodecServices} {f : TransactionFrame} {c : TransactionClass}
    {rest : Bytes} {data data' : TransactionData} (hf : f.Holds env c rest data)
    (hasset : data'.asset = data.asset) (hschema : c.schema env data') {username : String}
    (h : data.username = some username) : replacementChar ∉ username.toList := by
  unfold TransactionData.username at h
  have hpayload := hf.payload
  have hdata := congrArg TransactionData.asset hf.data
  cases c with
  | validatorRegistration =>
    obtain ⟨name, hname, hvalid⟩ := username_of_schema hschema
    rw [hasset] at hname
    rw [hname] at h
    cases h
    exact TransactionSchema.notMem_of_validatorUsername hvalid
  | transfer =>
    have hnone : data.asset = none := hdata
    rw [hnone] at h
    cases h
  | validatorResignation =>
    have hnone : data.asset = none := hdata
    rw [hnone] at h
    cases h
  | vote =>
    obtain ⟨_, _, heq, _⟩ := hpayload
    rw [heq] at h
    cases h
  | multiSignature =>
    obtain ⟨_, _, _, _, _, heq, _⟩ := hpayload
    rw [heq] at h
    cases h
  | multiPayment =>
    obtain ⟨_, _, _, heq, _⟩ := hpayload
    rw [heq] at h
    cases h

/-- **What is written for accepted data is the canonical frame of what they were read from.** -/
theorem toBytes_of_holds {env : CodecServices} (hinv : env.AddressesReturn) {f : TransactionFrame}
    {c : TransactionClass} {rest out : Bytes} {data : TransactionData} {id : Option String}
    (hf : f.Holds env c rest data) (hschema : c.schema env { data with id := id })
    (h : TransactionUtils.toBytes env { data with id := id } = .ok out) :
    out = (f.canonical c).bytes ∧ (f.writtenVendorField c).length < 256 ^ 1 := by
  have hfacts := TransactionClass.schemaFacts hschema
  have husername : ∀ username, data.username = some username →
      replacementChar ∉ username.toList := fun username hname =>
    @username_of_holds env f c rest data { data with id := id } hf rfl hschema _ hname
  have hbyte : env.pubKeyHash = 0 ∨ f.network = env.pubKeyHash :=
    hfacts.network f.network (congrArg TransactionData.network hf.data)
  have hnetwork : data.network = some f.network := congrArg TransactionData.network hf.data
  have hgroup : data.typeGroup = some f.typeGroup := congrArg TransactionData.typeGroup hf.data
  have htype : data.type = f.type := congrArg TransactionData.type hf.data
  have hnonce : data.nonce = some (f.nonce : Int) := congrArg TransactionData.nonce hf.data
  have hsender : data.senderPublicKey = some f.senderPublicKey :=
    congrArg TransactionData.senderPublicKey hf.data
  have hfee : data.fee = (f.fee : Int) := congrArg TransactionData.fee hf.data
  have hvendor : data.vendorField =
      if f.vendorField ≠ [] ∧ c.hasVendorField then some (Text.ofUtf8 f.vendorField) else none :=
    congrArg TransactionData.vendorField hf.data
  have hsignature : data.signature = f.signatureText :=
    congrArg TransactionData.signature hf.data
  have hsignatures : data.signatures = none := congrArg TransactionData.signatures hf.data
  have hcreate : TransactionTypeFactory.create { data with id := id } =
      .ok (c, { data with id := id, version := some 1 }) := by
    rw [TransactionDeserializer.create_eq_ok, hfacts.version_eq]
    refine ⟨⟨htype.trans hf.class_type, ?_⟩, rfl⟩
    show data.typeGroup.getD _ = _
    rw [hgroup]
    exact hf.core
  have hnet : TransactionSerializer.network env { data with id := id, version := some 1 } =
      f.network := by
    unfold TransactionSerializer.network
    dsimp only
    rw [hnetwork]
    cases hn : f.network with
    | zero =>
      rw [hn] at hbyte
      show env.pubKeyHash = 0
      omega
    | succ n => rfl
  have hvf : TransactionSerializer.vendorField c { data with id := id, version := some 1 } =
      f.writtenVendorField c := by
    unfold TransactionSerializer.vendorField TransactionSerializer.vendorFieldOf
      TransactionFrame.writtenVendorField
    show ((if c.hasVendorField then data.vendorField else none).map Text.toUtf8).getD [] = _
    rw [hvendor]
    by_cases hne : f.vendorField ≠ [] ∧ c.hasVendorField
    · rw [if_pos hne, if_pos hne, if_pos hne.2]
      rfl
    · rw [if_neg hne, if_neg hne, ite_self]
      rfl
  have hsig : TransactionSerializer.signatureBytes { data with id := id, version := some 1 } .none =
      f.signature := by
    show ofHex (data.signature.getD "") ++ ofHex (String.join (data.signatures.getD [])) = _
    rw [hsignature, hsignatures]
    unfold TransactionFrame.signatureText
    by_cases hnil : f.signature = []
    · rw [if_pos hnil, hnil]
      rfl
    · rw [if_neg hnil]
      show ofHex (toHex f.signature) ++ [] = _
      rw [ofHex_toHex, List.append_nil]
  unfold TransactionUtils.toBytes TransactionSerializer.getBytes at h
  rw [hcreate] at h
  obtain ⟨hfits, p, hp, -, rfl⟩ := TransactionSerializer.serialize_eq_ok.1 h
  have hpayload : p = f.payload := by
    rw [payload_eq_ok] at hp
    refine payload_unique hinv hf.payload ?_ husername
    cases c <;> exact hp
  have hvflen := hfits.vendorField
  rw [hvf] at hvflen
  refine ⟨?_, hvflen⟩
  unfold TransactionSerializer.commonBytes TransactionSerializer.vendorFieldBytes
    TransactionSerializer.nonceBytes TransactionSerializer.senderBytes
  rw [hnet, hvf, hsig, hpayload]
  simp only [hgroup, htype, hnonce, hsender, hfee]
  unfold TransactionFrame.bytes TransactionFrame.commonBytes TransactionFrame.vendorFieldBytes
    TransactionFrame.canonical
  simp only [List.append_assoc]
  rfl

/-! ## 3. Canonical bytes -/

/-- The id is not part of the bytes. -/
theorem toBytes_id {env : CodecServices} (data : TransactionData) (id : Option String) :
    TransactionUtils.toBytes env { data with id := id } = TransactionUtils.toBytes env data := by
  unfold TransactionUtils.toBytes TransactionSerializer.getBytes TransactionTypeFactory.create
  dsimp only
  cases TransactionTypeFactory.get data.type data.typeGroup with
  | error e => rfl
  | ok c => cases c <;> rfl

/-- What accepted data are written as, for any frame they are read from. -/
theorem toBytes_of_accepted {env : CodecServices} (hinv : env.AddressesReturn) {strict : Bool}
    {data : TransactionData} {id : String} (hid : TransactionUtils.getId env data = .ok id)
    (hschema : TransactionVerifier.verifySchema env { data with id := some id } strict = .ok true)
    {f : TransactionFrame} {c : TransactionClass} {rest : Bytes} (hf : f.Holds env c rest data) :
    TransactionUtils.toBytes env { data with id := some id } = .ok (f.canonical c).bytes ∧
      (f.writtenVendorField c).length < 256 ^ 1 := by
  obtain ⟨c', hget, hschema, -⟩ := verifySchema_eq_ok.1 hschema
  have htype : data.type = f.type := congrArg TransactionData.type hf.data
  have hgroup : data.typeGroup = some f.typeGroup := congrArg TransactionData.typeGroup hf.data
  have hget' : TransactionTypeFactory.get data.type data.typeGroup = .ok c := by
    rw [TransactionTypeFactory.get_eq_ok, htype, hgroup]
    exact ⟨hf.class_type, hf.core⟩
  have hclass : c' = c := Except.ok.inj (hget.symm.trans hget')
  subst hclass
  obtain ⟨hash, hhash, -⟩ := Except.map_eq_ok.1 hid
  obtain ⟨out, hout, -⟩ := Except.map_eq_ok.1 hhash
  have hwritten : TransactionUtils.toBytes env { data with id := some id } = .ok out :=
    (toBytes_id data (some id)).trans hout
  obtain ⟨rfl, hvf⟩ := toBytes_of_holds hinv hf hschema hwritten
  exact ⟨hwritten, hvf⟩

/-- Nothing is skipped, nothing is replaced, and nothing is left over: the bytes are a frame with
    the marker `0xff` and the version written out, whose vendor field is UTF-8 if the class has one
    and empty if it has not. -/
def CanonicalBytes (env : CodecServices) (bytes : Bytes) : Prop :=
  ∃ (f : TransactionFrame) (c : TransactionClass) (data : TransactionData),
    bytes = f.bytes ∧ f.Holds env c [] data ∧ f.IsCanonical c

/-- **Accepted bytes are the bytes of their transaction exactly when they are canonical.** -/
theorem toBytes_iff_canonical {env : CodecServices} (hinv : env.AddressesReturn) {bytes : Bytes}
    {strict : Option Bool} {t : Transaction}
    (h : TransactionFactory.fromBytes env bytes strict = .ok t) :
    TransactionUtils.toBytes env t.data = .ok bytes ↔ CanonicalBytes env bytes := by
  obtain ⟨⟨data, text⟩, id, hread, hid, rfl, hschema⟩ := TransactionFactory.fromBytes_eq_ok.1 h
  constructor
  · intro hback
    obtain ⟨f, c, rest, hbytes, hf, -⟩ := TransactionDeserializer.deserialize_eq_ok.1 hread
    obtain ⟨hwritten, hvf⟩ := toBytes_of_accepted hinv hid hschema hf
    have heq : (f.canonical c).bytes = bytes := Except.ok.inj (hwritten.symm.trans hback)
    rw [hbytes] at heq
    obtain ⟨hcanonical, hrest⟩ :=
      TransactionFrame.isCanonical_of_bytes hf.toCommonHolds hf.vendorField hvf heq.symm
    rw [hrest] at hf hbytes
    rw [List.append_nil] at hbytes
    exact ⟨f, c, data, hbytes, hf, hcanonical⟩
  · rintro ⟨f, c, data', rfl, hf, hcanonical⟩
    -- The bytes are read in one way only, so the canonical frame is the one they were read from.
    have hread' : TransactionDeserializer.deserialize env f.bytes = .ok ⟨data', toHex f.bytes⟩ :=
      TransactionDeserializer.deserialize_eq_ok.2 ⟨f, c, [], (List.append_nil _).symm, hf, rfl⟩
    have hsame : data' = data :=
      congrArg Transaction.data (Except.ok.inj (hread'.symm.trans hread))
    rw [hsame] at hf
    have hwritten := (toBytes_of_accepted hinv hid hschema hf).1
    rw [hcanonical.canonical_eq] at hwritten
    exact hwritten

/-- **Accepted bytes are the bytes of their transaction exactly when they are canonical, and two
    canonical byte strings that are read as the same data are the same.** -/
theorem fromBytes_canonical {env : CodecServices} (hinv : env.AddressesReturn) {bytes : Bytes}
    {strict : Option Bool} {t : Transaction}
    (h : TransactionFactory.fromBytes env bytes strict = .ok t) :
    (TransactionUtils.toBytes env t.data = .ok bytes ↔ CanonicalBytes env bytes) ∧
      ∀ bytes' strict' t', TransactionFactory.fromBytes env bytes' strict' = .ok t' →
        t'.data = t.data → CanonicalBytes env bytes → CanonicalBytes env bytes' →
          bytes' = bytes := by
  refine ⟨toBytes_iff_canonical hinv h, fun bytes' strict' t' h' hdata hc hc' => ?_⟩
  have hback := (toBytes_iff_canonical hinv h).2 hc
  have hback' := (toBytes_iff_canonical hinv h').2 hc'
  rw [hdata] at hback'
  exact Except.ok.inj (hback'.symm.trans hback)

/-! ## 4. A resignation with another marker -/

theorem addressesReturn_small : CodecServices.small.AddressesReturn := by
  intro bs a bs' hfrom hto
  cases hto
  unfold CodecServices.small at hfrom
  dsimp only at hfrom
  split at hfrom
  · cases hfrom
  · cases hfrom
    exact ofHex_toHex bs

/-- A signed resignation with this marker byte. -/
def resignationBytes (marker : UInt8) : Bytes :=
  [marker, 1, 30, 1, 0, 0, 0, 7, 0] ++ leBytes 8 1 ++ [1, 2] ++ leBytes 8 1 ++ [0] ++
    Bytes.zeros 64

/-- What is written for what was read, where something was read. -/
def rewritten (env : CodecServices) (bytes : Bytes) : Option Bytes :=
  match TransactionFactory.fromBytes env bytes none with
  | .ok t => (TransactionUtils.toBytes env t.data).toOption
  | .error _ => none

theorem exists_of_rewritten {env : CodecServices} {bytes out : Bytes}
    (h : rewritten env bytes = some out) : ∃ t,
      TransactionFactory.fromBytes env bytes none = .ok t ∧
      TransactionUtils.toBytes env t.data = .ok out := by
  unfold rewritten at h
  cases hread : TransactionFactory.fromBytes env bytes none with
  | error e =>
    rw [hread] at h
    cases h
  | ok t =>
    rw [hread] at h
    have h : (TransactionUtils.toBytes env t.data).toOption = some out := h
    cases hback : TransactionUtils.toBytes env t.data with
    | error e =>
      rw [hback] at h
      cases h
    | ok bytes' =>
      rw [hback] at h
      cases h
      exact ⟨t, rfl, hback⟩

theorem canonicalBytes_resignation : CanonicalBytes .small (resignationBytes 0xff) := by
  have hsome : rewritten .small (resignationBytes 0xff) = some (resignationBytes 0xff) := by
    decide +kernel
  obtain ⟨t, h, hback⟩ := exists_of_rewritten hsome
  exact (fromBytes_canonical addressesReturn_small h).1.1 hback

/-- **The marker byte is skipped: with the marker `0`, the resignation is accepted, and written
    with `0xff`.** -/
theorem fromBytes_malleable : ¬∀ (env : CodecServices) (_ : env.AddressesReturn) bytes strict t,
    TransactionFactory.fromBytes env bytes strict = .ok t →
      TransactionUtils.toBytes env t.data = .ok bytes := by
  intro hall
  have hsome : rewritten .small (resignationBytes 0) = some (resignationBytes 0xff) := by
    decide +kernel
  obtain ⟨t, h, hback⟩ := exists_of_rewritten hsome
  have hback' := hall .small addressesReturn_small _ none t h
  have hsame : resignationBytes 0xff = resignationBytes 0 :=
    Except.ok.inj (hback.symm.trans hback')
  exact absurd hsame (by decide)

end CoreEx
