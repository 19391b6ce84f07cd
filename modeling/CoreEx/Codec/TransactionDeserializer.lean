/-
  File:      CoreEx/Codec/TransactionDeserializer.lean
  Subject:   `core-crypto-transaction/source/deserializer.ts`, and what a byte string it takes
             consists of.

  * `deserializeCommon`, `deserializeVendorField`, `deserializeSignatures`, `deserialize`;
  * `TransactionFrame` -- the parts of such a byte string, with the marker nobody looks at, the
    vendor field that may be skipped and the bytes nobody reads;
  * `TransactionFrame.Holds` -- the data they are read as;
  * **`deserialize_eq_ok`** -- `deserialize` returns exactly the reading of a frame.
-/
import CoreEx.Codec.Payload

namespace CoreEx

namespace TransactionDeserializer

/-! ## 1. The code -/

/-- `deserializeCommon`. -/
def deserializeCommon (env : CodecServices) : Prog ByteBuffer Exception TransactionData := do
  ByteBuffer.skip 1
  let version ← ByteBuffer.readUint8
  let network ← ByteBuffer.readUint8
  let typeGroup ← ByteBuffer.readUint32
  let type ← ByteBuffer.readUint16
  let nonce ← ByteBuffer.readUint64
  let senderPublicKey ← readPublicKey env
  let fee ← ByteBuffer.readUint64
  pure
    { version := some version, network := some network, typeGroup := some typeGroup, type := type,
      nonce := some nonce, senderPublicKey := some senderPublicKey, fee := fee, amount := 0,
      expiration := none, recipientId := none, vendorField := none, asset := none, id := none,
      signature := none, signatures := none }

/-- `#deserializeVendorField`. -/
def deserializeVendorField (c : TransactionClass) (data : TransactionData) :
    Prog ByteBuffer Exception TransactionData := do
  let vendorFieldLength ← ByteBuffer.readUint8
  if 0 < vendorFieldLength then
    if c.hasVendorField then do
      let vendorFieldBuffer ← ByteBuffer.readBytes vendorFieldLength
      pure { data with vendorField := some (Text.ofUtf8 vendorFieldBuffer) }
    else do
      ByteBuffer.skip vendorFieldLength
      pure data
  else pure data

/-- `canReadNonMultiSignature()`. -/
def canReadNonMultiSignature (remainder : Nat) : Bool :=
  remainder ≠ 0 && (remainder % 64 = 0 || remainder % 65 ≠ 0)

/-- `#deserializeSignatures`. The list of participants' signatures is never read. -/
def deserializeSignatures (data : TransactionData) :
    Prog ByteBuffer Exception TransactionData := do
  let remainder ← ByteBuffer.getRemainderLength
  if canReadNonMultiSignature remainder then do
    let signature ← ByteBuffer.readBytes signatureSize
    pure { data with signature := some (toHex signature) }
  else pure data

/-- The body of `deserialize`. -/
def read (env : CodecServices) : Prog ByteBuffer Exception TransactionData := do
  let data ← deserializeCommon env
  let (c, data) ← Prog.ofExcept (TransactionTypeFactory.create data)
  let data ← deserializeVendorField c data
  let data ← c.deserialize env data
  deserializeSignatures data

/-- `deserialize(serialized)`. -/
def deserialize (env : CodecServices) (serialized : Bytes) : Except Exception Transaction :=
  match (read env).run (ByteBuffer.fromBuffer serialized) with
  | .done data buff => .ok { data := data, serialized := toHex buff.getResult }
  | .thrown e _ => .error e

end TransactionDeserializer

/-! ## 2. Frames -/

/-- The parts of a byte string that is read as a transaction. -/
structure TransactionFrame where
  marker : Bytes
  version : Nat
  network : Nat
  typeGroup : Nat
  type : Nat
  nonce : Nat
  senderPublicKey : PublicKey
  fee : Nat
  vendorField : Bytes
  payload : Bytes
  signature : Bytes

namespace TransactionFrame

/-- The bytes up to the fee. -/
def commonBytes (f : TransactionFrame) : Bytes :=
  f.marker ++ (leBytes 1 f.version ++ (leBytes 1 f.network ++ (leBytes 4 f.typeGroup ++
    (leBytes 2 f.type ++ (leBytes 8 f.nonce ++ (f.senderPublicKey.bytes ++ leBytes 8 f.fee))))))

/-- The bytes of the vendor field. -/
def vendorFieldBytes (f : TransactionFrame) : Bytes :=
  leBytes 1 f.vendorField.length ++ f.vendorField

/-- The bytes the frame is made of. -/
def bytes (f : TransactionFrame) : Bytes :=
  f.commonBytes ++ (f.vendorFieldBytes ++ (f.payload ++ f.signature))

/-- The data after `deserializeCommon`. -/
def common (f : TransactionFrame) : TransactionData :=
  { version := some f.version, network := some f.network, typeGroup := some f.typeGroup,
    type := f.type, nonce := some f.nonce, senderPublicKey := some f.senderPublicKey, fee := f.fee,
    amount := 0, expiration := none, recipientId := none, vendorField := none, asset := none,
    id := none, signature := none, signatures := none }

/-- The data before the payload is read: the version is filled in, and the vendor field kept. -/
def base (f : TransactionFrame) (c : TransactionClass) : TransactionData :=
  { f.common with
    version := some (TransactionTypeFactory.version f.common)
    vendorField :=
      if f.vendorField ≠ [] ∧ c.hasVendorField then some (Text.ofUtf8 f.vendorField) else none }

/-- The signature that was read. -/
def signatureText (f : TransactionFrame) : Option String :=
  if f.signature = [] then none else some (toHex f.signature)

/-- The common part is one `deserializeCommon` takes. -/
structure CommonHolds (env : CodecServices) (f : TransactionFrame) : Prop where
  marker : f.marker.length = 1
  version : f.version < 256 ^ 1
  network : f.network < 256 ^ 1
  typeGroup : f.typeGroup < 256 ^ 4
  type : f.type < 256 ^ 2
  nonce : f.nonce < 256 ^ 8
  senderPublicKey : env.CarriesKey f.senderPublicKey
  fee : f.fee < 256 ^ 8

/-- The frame, with `rest` behind it, is read as these data of the class `c`. -/
structure Holds (env : CodecServices) (c : TransactionClass) (f : TransactionFrame) (rest : Bytes)
    (data : TransactionData) : Prop extends CommonHolds env f where
  core : f.typeGroup = TransactionTypeGroup.core
  class_type : f.type = c.type
  vendorField : f.vendorField.length < 256 ^ 1
  payload : PayloadOf env data f.payload c
  signature : if TransactionDeserializer.canReadNonMultiSignature (f.signature.length + rest.length)
    then f.signature.length = signatureSize else f.signature = []
  data : data = { c.fill (f.base c) data with signature := f.signatureText }

end TransactionFrame

namespace TransactionDeserializer

/-! ## 3. What is taken -/

theorem reads_deserializeCommon (env : CodecServices) :
    Cursor.Reads (deserializeCommon env) fun consumed _ data =>
      ∃ f : TransactionFrame, f.CommonHolds env ∧ consumed = f.commonBytes ∧ data = f.common := by
  refine ((ByteBuffer.reads_skip 1).bind fun _ => (ByteBuffer.reads_readLE 1).bindEnc
    fun version => (ByteBuffer.reads_readLE 1).bindEnc fun network =>
      (ByteBuffer.reads_readLE 4).bindEnc fun typeGroup => (ByteBuffer.reads_readLE 2).bindEnc
        fun type => (ByteBuffer.reads_readLE 8).bindEnc fun nonce =>
          (reads_readPublicKey env).bindEnc fun key => (ByteBuffer.reads_readLE 8).bindEnc
            fun fee => Cursor.Reads.pure _).congr fun consumed rest data => ?_
  constructor
  · rintro ⟨marker, _, _, rfl, hmarker, version, _, rfl, hversion, network, _, rfl, hnetwork,
      typeGroup, _, rfl, hgroup, type, _, rfl, htype, nonce, _, rfl, hnonce, key, _, rfl, hkey,
      fee, _, rfl, hfee, rfl, rfl⟩
    refine ⟨⟨marker, version, network, typeGroup, type, nonce, key, fee, [], [], []⟩,
      ⟨hmarker, hversion, hnetwork, hgroup, htype, hnonce, hkey, hfee⟩, ?_, rfl⟩
    rw [List.append_nil]
    rfl
  · rintro ⟨f, h, rfl, rfl⟩
    exact ⟨f.marker, _, (), rfl, h.marker, f.version, _, rfl, h.version, f.network, _, rfl,
      h.network, f.typeGroup, _, rfl, h.typeGroup, f.type, _, rfl, h.type, f.nonce, _, rfl,
      h.nonce, f.senderPublicKey, _, rfl, h.senderPublicKey, f.fee, [],
      (List.append_nil _).symm, h.fee, rfl, rfl⟩

theorem reads_deserializeVendorField (c : TransactionClass) (data : TransactionData) :
    Cursor.Reads (deserializeVendorField c data) fun consumed _ data' =>
      ∃ vendorField : Bytes, vendorField.length < 256 ^ 1 ∧
        consumed = leBytes 1 vendorField.length ++ vendorField ∧
        data' = { data with vendorField :=
          if vendorField ≠ [] ∧ c.hasVendorField then some (Text.ofUtf8 vendorField)
          else data.vendorField } := by
  refine ((ByteBuffer.reads_readLE 1).bindEnc fun n => Cursor.Reads.ite
    (fun _ => Cursor.Reads.ite
      (fun _ => (ByteBuffer.reads_readBytes n).bind fun bs => Cursor.Reads.pure _)
      (fun _ => (ByteBuffer.reads_skip n).bind fun _ => Cursor.Reads.pure _))
    (fun _ => Cursor.Reads.pure _)).congr fun consumed rest data' => ?_
  constructor
  · rintro ⟨n, _, rfl, hn, ⟨hpos, ⟨hc, bs, _, _, rfl, ⟨rfl, rfl⟩, rfl, rfl⟩ |
      ⟨hc, bs, _, _, rfl, rfl, rfl, rfl⟩⟩ | ⟨hzero, rfl, rfl⟩⟩
    · have hne : bs ≠ [] := List.length_pos_iff.1 hpos
      refine ⟨bs, hn, by rw [List.append_nil], ?_⟩
      rw [if_pos ⟨hne, hc⟩]
    · refine ⟨bs, hn, by rw [List.append_nil], ?_⟩
      rw [if_neg fun h => hc h.2]
    · have hn0 : n = 0 := by omega
      subst hn0
      exact ⟨[], hn, rfl, by rw [if_neg fun h => h.1 rfl]⟩
  · rintro ⟨bs, hn, rfl, rfl⟩
    refine ⟨bs.length, bs, rfl, hn, ?_⟩
    by_cases hne : bs = []
    · subst hne
      refine Or.inr ⟨lt_irrefl _, rfl, ?_⟩
      rw [if_neg fun h => h.1 rfl]
    · refine Or.inl ⟨List.length_pos_iff.2 hne, ?_⟩
      by_cases hc : c.hasVendorField
      · refine Or.inl ⟨hc, bs, [], bs, (List.append_nil _).symm, ⟨rfl, rfl⟩, rfl, ?_⟩
        rw [if_pos ⟨hne, hc⟩]
      · refine Or.inr ⟨hc, bs, [], (), (List.append_nil _).symm, rfl, rfl, ?_⟩
        rw [if_neg fun h => hc h.2]

theorem reads_deserializeSignatures (data : TransactionData) :
    Cursor.Reads (deserializeSignatures data) fun consumed rest data' =>
      (if canReadNonMultiSignature (consumed.length + rest.length)
        then consumed.length = signatureSize else consumed = []) ∧
      data' = { data with
        signature := if consumed = [] then data.signature else some (toHex consumed) } := by
  refine (ByteBuffer.reads_getRemainderLength.bind fun n => Cursor.Reads.ite
    (fun _ => (ByteBuffer.reads_readBytes signatureSize).bind fun bs => Cursor.Reads.pure _)
    (fun _ => Cursor.Reads.pure _)).congr fun consumed rest data' => ?_
  constructor
  · rintro ⟨_, _, n, rfl, ⟨rfl, rfl⟩, ⟨hcan, bs, _, _, rfl, ⟨rfl, hlen⟩, rfl, rfl⟩ |
      ⟨hcan, rfl, rfl⟩⟩
    · rw [List.append_nil, List.length_append] at hcan
      have hne : bs ≠ [] := by
        rintro rfl
        cases hlen
      rw [List.append_nil, List.nil_append, if_pos hcan, if_neg hne]
      exact ⟨hlen, rfl⟩
    · rw [List.nil_append] at hcan
      rw [List.nil_append, List.length_nil, Nat.zero_add, if_neg hcan, if_pos rfl]
      exact ⟨rfl, rfl⟩
  · rintro ⟨hconsumed, rfl⟩
    refine ⟨[], consumed, _, rfl, ⟨rfl, rfl⟩, ?_⟩
    rw [List.length_append]
    by_cases hcan : canReadNonMultiSignature (consumed.length + rest.length)
    · rw [if_pos hcan] at hconsumed
      have hne : consumed ≠ [] := by
        rintro rfl
        cases hconsumed
      refine Or.inl ⟨hcan, consumed, [], consumed, (List.append_nil _).symm, ⟨rfl, hconsumed⟩,
        rfl, ?_⟩
      rw [if_neg hne]
    · rw [if_neg hcan] at hconsumed
      subst hconsumed
      refine Or.inr ⟨hcan, rfl, ?_⟩
      rw [if_pos rfl]

theorem create_eq_ok {data : TransactionData} {x : TransactionClass × TransactionData} :
    TransactionTypeFactory.create data = .ok x ↔
      (data.type = x.1.type ∧
        data.typeGroup.getD TransactionTypeGroup.core = TransactionTypeGroup.core) ∧
      x.2 = { data with version := some (TransactionTypeFactory.version data) } := by
  obtain ⟨c, data'⟩ := x
  unfold TransactionTypeFactory.create
  rw [← TransactionTypeFactory.get_eq_ok]
  cases TransactionTypeFactory.get data.type data.typeGroup with
  | error e => exact ⟨fun h => (nomatch h), fun h => (nomatch h.1)⟩
  | ok c' =>
    constructor
    · intro h
      cases h
      exact ⟨rfl, rfl⟩
    · rintro ⟨h, rfl⟩
      cases h
      rfl

theorem reads_read (env : CodecServices) :
    Cursor.Reads (read env) fun consumed rest data =>
      ∃ (f : TransactionFrame) (c : TransactionClass), f.Holds env c rest data ∧
        consumed = f.bytes := by
  refine ((reads_deserializeCommon env).bind fun data => (Cursor.Reads.ofExcept
    (TransactionTypeFactory.create data)).bind fun x => (reads_deserializeVendorField x.1 x.2).bind
      fun data => (reads_deserialize env data x.1).bind fun data =>
        reads_deserializeSignatures data).congr fun consumed rest data => ?_
  constructor
  · rintro ⟨_, _, _, rfl, ⟨f, hf, rfl, rfl⟩, _, _, ⟨c, data₁⟩, rfl, ⟨rfl, hcreate⟩, _, _, data₂, rfl,
      ⟨vf, hvf, rfl, rfl⟩, p, sig, data₃, rfl, ⟨hp, hdata₃⟩, hsig, hdata⟩
    obtain ⟨⟨htype, hgroup⟩, hdata₁⟩ := create_eq_ok.1 hcreate
    simp only at htype hdata₁
    subst hdata₁
    have hnone : data₃.signature = none := congrArg TransactionData.signature hdata₃
    rw [hnone] at hdata
    subst hdata
    refine ⟨{ f with vendorField := vf, payload := p, signature := sig }, c,
      { marker := hf.marker, version := hf.version, network := hf.network,
        typeGroup := hf.typeGroup, type := hf.type, nonce := hf.nonce,
        senderPublicKey := hf.senderPublicKey, fee := hf.fee, core := hgroup, class_type := htype,
        vendorField := hvf, payload := ?_, signature := hsig, data := ?_ }, rfl⟩
    · cases c <;> exact hp
    · exact congrArg (fun d : TransactionData =>
        { d with signature := if sig = [] then none else some (toHex sig) }) hdata₃
  · rintro ⟨f, c, h, rfl⟩
    have hcreate : TransactionTypeFactory.create f.common = .ok
        (c, { f.common with version := some (TransactionTypeFactory.version f.common) }) :=
      create_eq_ok.2 ⟨⟨h.class_type, h.core⟩, rfl⟩
    refine ⟨f.commonBytes, _, f.common, rfl, ⟨f, h.toCommonHolds, rfl, rfl⟩, [], _, _, rfl,
      ⟨rfl, hcreate⟩, f.vendorFieldBytes, _, f.base c, rfl, ⟨f.vendorField, h.vendorField, rfl, rfl⟩,
      f.payload, f.signature, { data with signature := none }, rfl, ⟨?_, ?_⟩, h.signature, ?_⟩
    · have hp := h.payload
      cases c <;> exact hp
    · exact congrArg (fun d : TransactionData => { d with signature := none }) h.data
    · exact congrArg (fun s => { data with signature := s })
        (congrArg TransactionData.signature h.data)

/-- **A byte string is deserialized exactly when it begins with a frame, into what the frame is
    read as. The bytes behind the frame do not matter.** -/
theorem deserialize_eq_ok {env : CodecServices} {serialized : Bytes} {t : Transaction} :
    deserialize env serialized = .ok t ↔
      ∃ (f : TransactionFrame) (c : TransactionClass) (rest : Bytes),
        serialized = f.bytes ++ rest ∧ f.Holds env c rest t.data ∧ t.serialized = toHex f.bytes := by
  obtain ⟨data, text⟩ := t
  unfold deserialize ByteBuffer.fromBuffer
  constructor
  · intro h
    cases hrun : (read env).run ⟨serialized, 0⟩ with
    | thrown e c =>
      rw [hrun] at h
      cases h
    | done data' c =>
      rw [hrun] at h
      cases h
      obtain ⟨_, rest, rfl, ⟨f, c, hf, rfl⟩, rfl⟩ := (reads_read env).from_start.1 hrun
      refine ⟨f, c, rest, rfl, hf, ?_⟩
      exact congrArg toHex List.take_left
  · rintro ⟨f, c, rest, rfl, hf, rfl⟩
    rw [(reads_read env).from_start.2 ⟨f.bytes, rest, rfl, ⟨f, c, hf, rfl⟩, rfl⟩]
    have hresult : ByteBuffer.getResult (Cursor.at f.bytes rest) = f.bytes := List.take_left
    show Except.ok (Transaction.mk data (toHex (ByteBuffer.getResult (Cursor.at f.bytes rest)))) = _
    rw [hresult]

end TransactionDeserializer

end CoreEx
