/-
  File:      CoreEx/Codec/TransactionSerializer.lean
  Subject:   `core-crypto-transaction/source/serializer.ts` and `utils.ts`: the bytes of a
             transaction, their hash and the id.

  * `serializeCommon`, `serializeVendorField`, `serializeSignatures`, `serialize`, `getBytes`;
  * `toBytes`, `toHash`, `getId` -- the three methods of `Utils`;
  * `commonBytes`, `vendorFieldBytes`, `signatureBytes` -- what each part puts down, and `Fits`;
  * **`serialize_eq_ok`** -- exactly when there are bytes, and which.
-/
import CoreEx.Codec.TransactionTypes
import CoreEx.Crypto.Services

namespace CoreEx

namespace TransactionSerializer

/-! ## 1. The code -/

/-- `transaction.network || configuration.get("network.pubKeyHash")`. -/
def network (env : CodecServices) (data : TransactionData) : Nat :=
  match data.network with
  | none | some 0 => env.pubKeyHash
  | some n => n

/-- `if (transaction.nonce) { .. }`; a `BigNumber` is never falsy. -/
def writeNonce : Option Int → Prog ByteBuffer Exception Unit
  | some nonce => ByteBuffer.writeUint64 nonce
  | none => pure ()

/-- `if (transaction.senderPublicKey) { .. }`. -/
def writeSender : Option PublicKey → Prog ByteBuffer Exception Unit
  | some senderPublicKey => ByteBuffer.writeBytes senderPublicKey.bytes
  | none => pure ()

/-- `#serializeCommon`. -/
def serializeCommon (env : CodecServices) (data : TransactionData) :
    Prog ByteBuffer Exception Unit := do
  ByteBuffer.writeUint8 0xff
  ByteBuffer.writeUint8 (TransactionTypeFactory.version data)
  ByteBuffer.writeUint8 (network env data)
  ByteBuffer.writeUint32 (data.typeGroup.getD TransactionTypeGroup.core)
  ByteBuffer.writeUint16 data.type
  writeNonce data.nonce
  writeSender data.senderPublicKey
  ByteBuffer.writeUint64 data.fee

/-- `data.vendorField`, where `transaction.hasVendorField()`. -/
def vendorFieldOf (c : TransactionClass) (data : TransactionData) : Option Text :=
  if c.hasVendorField then data.vendorField else none

/-- `#serializeVendorField`; an empty text is falsy. -/
def serializeVendorField (c : TransactionClass) (data : TransactionData) :
    Prog ByteBuffer Exception Unit :=
  match vendorFieldOf c data with
  | some vendorField =>
    if vendorField.units ≠ [] then do
      ByteBuffer.writeUint8 vendorField.toUtf8.length
      ByteBuffer.writeBytes vendorField.toUtf8
    else ByteBuffer.writeUint8 0
  | none => ByteBuffer.writeUint8 0

/-- `#serializeSignatures`. -/
def serializeSignatures (data : TransactionData) (options : SerializeOptions) :
    Prog ByteBuffer Exception Unit := do
  Prog.when (data.signature.getD "" ≠ "" ∧ ¬options.excludeSignature)
    (ByteBuffer.writeBytes (ofHex (data.signature.getD "")))
  Prog.when (data.signatures.isSome ∧ ¬options.excludeMultiSignature)
    (ByteBuffer.writeBytes (ofHex (String.join (data.signatures.getD []))))

/-- `serialized.getResult()`, or the throw when the class has nothing to write. -/
def payload (env : CodecServices) (c : TransactionClass) (data : TransactionData) :
    Except Exception Bytes :=
  match c.serialize env data with
  | .ok (some serialized) => .ok serialized.getResult
  | .ok none => .error (.error "")
  | .error e => .error e

/-- `serialize(transaction, options)`. -/
def serialize (env : CodecServices) (c : TransactionClass) (data : TransactionData)
    (options : SerializeOptions) : Except Exception Bytes :=
  (ByteBuffer.runOn (ByteBuffer.fromSize env.maxPayload) do
    serializeCommon env data
    serializeVendorField c data
    let serialized ← Prog.ofExcept (payload env c data)
    ByteBuffer.writeBytes serialized
    serializeSignatures data options).map ByteBuffer.getResult

/-- `getBytes(transaction, options)`. -/
def getBytes (env : CodecServices) (data : TransactionData) (options : SerializeOptions) :
    Except Exception Bytes :=
  match TransactionTypeFactory.create data with
  | .ok (c, data) => serialize env c data options
  | .error e => .error e

end TransactionSerializer

/-- `{}`. -/
def SerializeOptions.none : SerializeOptions := ⟨false, false⟩

namespace TransactionUtils

def toBytes (env : CodecServices) (data : TransactionData) : Except Exception Bytes :=
  TransactionSerializer.getBytes env data .none

def toHash (env : CodecServices) (data : TransactionData) (options : SerializeOptions) :
    Except Exception Bytes :=
  (TransactionSerializer.getBytes env data options).map env.sha256

def getId (env : CodecServices) (data : TransactionData) : Except Exception String :=
  (toHash env data .none).map toHex

end TransactionUtils

namespace TransactionSerializer

/-! ## 2. What the parts put down -/

/-- The bytes of a number that may be missing. -/
def nonceBytes (data : TransactionData) : Bytes :=
  match data.nonce with
  | some nonce => leBytes 8 nonce.toNat
  | none => []

/-- The bytes of the sender's key. -/
def senderBytes (data : TransactionData) : Bytes :=
  (data.senderPublicKey.map PublicKey.bytes).getD []

/-- What `#serializeCommon` puts down. -/
def commonBytes (env : CodecServices) (data : TransactionData) : Bytes :=
  [0xff] ++ leBytes 1 (TransactionTypeFactory.version data) ++ leBytes 1 (network env data) ++
    leBytes 4 (data.typeGroup.getD TransactionTypeGroup.core) ++ leBytes 2 data.type ++
    nonceBytes data ++ senderBytes data ++ leBytes 8 data.fee.toNat

/-- The bytes of a vendor field that is kept. -/
def vendorField (c : TransactionClass) (data : TransactionData) : Bytes :=
  ((vendorFieldOf c data).map Text.toUtf8).getD []

/-- What `#serializeVendorField` puts down. -/
def vendorFieldBytes (c : TransactionClass) (data : TransactionData) : Bytes :=
  leBytes 1 (vendorField c data).length ++ vendorField c data

/-- The bytes of the single signature, when it is written. -/
def signature (data : TransactionData) (options : SerializeOptions) : Bytes :=
  if options.excludeSignature then [] else ofHex (data.signature.getD "")

/-- The bytes of the participants' signatures, when they are written. -/
def signatures (data : TransactionData) (options : SerializeOptions) : Bytes :=
  if options.excludeMultiSignature then [] else ofHex (String.join (data.signatures.getD []))

/-- What `#serializeSignatures` puts down. -/
def signatureBytes (data : TransactionData) (options : SerializeOptions) : Bytes :=
  signature data options ++ signatures data options

/-- The numbers of the common part fit their bytes. -/
structure Fits (env : CodecServices) (c : TransactionClass) (data : TransactionData) : Prop where
  version : TransactionTypeFactory.version data < 256
  network : network env data < 256
  typeGroup : data.typeGroup.getD TransactionTypeGroup.core < 256 ^ 4
  type : data.type < 256 ^ 2
  nonce : ∀ nonce, data.nonce = some nonce → 0 ≤ nonce ∧ nonce < 256 ^ 8
  fee : 0 ≤ data.fee ∧ data.fee < 256 ^ 8
  vendorField : (vendorField c data).length < 256

theorem puts_nat (n v : Nat) :
    ByteBuffer.Puts (ByteBuffer.writeLE n v) (v < 256 ^ n) (leBytes n v) := by
  refine (ByteBuffer.writes_writeLE n v).congr fun bs _ => ?_
  rw [Int.toNat_natCast, natCast_lt_pow]
  exact and_congr_left fun _ => and_iff_right (Int.natCast_nonneg v)

theorem puts_writeNonce (data : TransactionData) :
    ByteBuffer.Puts (writeNonce data.nonce)
      (∀ nonce, data.nonce = some nonce → 0 ≤ nonce ∧ nonce < 256 ^ 8) (nonceBytes data) := by
  unfold nonceBytes
  cases data.nonce with
  | none =>
    refine (Cursor.Writes.pure ()).congr fun bs _ => ?_
    exact ⟨fun h => ⟨fun nonce heq => (nomatch heq), h.1⟩, fun h => ⟨h.2, rfl⟩⟩
  | some nonce =>
    refine (ByteBuffer.writes_writeLE 8 nonce).congr fun bs _ => and_congr_left fun _ => ?_
    exact ⟨fun h nonce' heq => Option.some.inj heq ▸ h, fun h => h nonce rfl⟩

theorem puts_writeSender (data : TransactionData) :
    ByteBuffer.Puts (writeSender data.senderPublicKey) True (senderBytes data) := by
  unfold senderBytes
  cases data.senderPublicKey with
  | none =>
    refine (Cursor.Writes.pure ()).congr fun bs _ => ?_
    exact ⟨fun h => ⟨trivial, h.1⟩, fun h => ⟨h.2, rfl⟩⟩
  | some k => exact ByteBuffer.writes_writeBytes k.bytes

theorem puts_serializeVendorField (c : TransactionClass) (data : TransactionData) :
    ByteBuffer.Puts (serializeVendorField c data) ((vendorField c data).length < 256)
      (vendorFieldBytes c data) := by
  unfold serializeVendorField vendorFieldBytes vendorField
  have hzero : ByteBuffer.Puts (ByteBuffer.writeUint8 0) (([] : Bytes).length < 256)
      (leBytes 1 ([] : Bytes).length ++ []) := by
    rw [List.append_nil]
    exact puts_nat 1 0
  cases vendorFieldOf c data with
  | none => exact hzero
  | some vf =>
    show ByteBuffer.Puts (if vf.units ≠ [] then _ else _) (vf.toUtf8.length < 256)
      (leBytes 1 vf.toUtf8.length ++ vf.toUtf8)
    by_cases hvf : vf.units = []
    · rw [if_neg (not_not.2 hvf), Text.toUtf8_eq_nil.2 hvf]
      exact hzero
    · rw [if_pos hvf]
      refine ((puts_nat 1 _).seq (ByteBuffer.writes_writeBytes _)).congr fun bs _ => ?_
      rw [and_true, pow_one]

theorem puts_when {c : Prop} [Decidable c] {bs : Bytes} :
    ByteBuffer.Puts (Prog.when c (ByteBuffer.writeBytes bs)) True (if c then bs else []) := by
  unfold Prog.when
  split
  · exact ByteBuffer.writes_writeBytes bs
  · exact (Cursor.Writes.pure ()).congr fun bs' _ => ⟨fun h => ⟨trivial, h.1⟩, fun h => ⟨h.2, rfl⟩⟩

theorem puts_serializeSignatures (data : TransactionData) (options : SerializeOptions) :
    ByteBuffer.Puts (serializeSignatures data options) True (signatureBytes data options) := by
  have hone : (if data.signature.getD "" ≠ "" ∧ ¬options.excludeSignature
      then ofHex (data.signature.getD "") else []) = signature data options := by
    unfold signature
    by_cases hs : data.signature.getD "" = ""
    · rw [if_neg fun h => h.1 hs, hs]
      exact (ite_self _).symm
    · cases options.excludeSignature with
      | true => exact if_neg fun h => h.2 rfl
      | false => exact if_pos ⟨hs, Bool.false_ne_true⟩
  have hmany : (if data.signatures.isSome ∧ ¬options.excludeMultiSignature
      then ofHex (String.join (data.signatures.getD [])) else []) = signatures data options := by
    unfold signatures
    cases data.signatures with
    | none => exact (if_neg fun h => Bool.false_ne_true h.1).trans (ite_self _).symm
    | some ss =>
      cases options.excludeMultiSignature with
      | true => exact if_neg fun h => h.2 rfl
      | false => exact if_pos ⟨rfl, Bool.false_ne_true⟩
  refine (puts_when.seq puts_when).congr fun bs _ => ?_
  rw [hone, hmany, and_true]
  rfl

theorem puts_serializeCommon (env : CodecServices) (data : TransactionData) :
    ByteBuffer.Puts (serializeCommon env data)
      (TransactionTypeFactory.version data < 256 ∧ network env data < 256 ∧
        data.typeGroup.getD TransactionTypeGroup.core < 256 ^ 4 ∧ data.type < 256 ^ 2 ∧
        (∀ nonce, data.nonce = some nonce → 0 ≤ nonce ∧ nonce < 256 ^ 8) ∧
        0 ≤ data.fee ∧ data.fee < 256 ^ 8) (commonBytes env data) := by
  refine ((puts_nat 1 0xff).seq ((puts_nat 1 _).seq ((puts_nat 1 _).seq ((puts_nat 4 _).seq
    ((puts_nat 2 _).seq ((puts_writeNonce data).seq ((puts_writeSender data).seq
      (ByteBuffer.writes_writeLE 8 data.fee)))))))).congr fun bs _ => ?_
  have hmarker : 0xff < 256 ^ 1 := by decide
  unfold commonBytes
  simp only [hmarker, true_and, List.append_assoc]
  exact Iff.rfl

/-- **There are bytes exactly when every number fits, the class has something to write and the
    whole fits the buffer; and these are the bytes.** -/
theorem serialize_eq_ok {env : CodecServices} {c : TransactionClass} {data : TransactionData}
    {options : SerializeOptions} {bytes : Bytes} :
    serialize env c data options = .ok bytes ↔
      Fits env c data ∧ ∃ p, payload env c data = .ok p ∧ bytes.length ≤ env.maxPayload ∧
        bytes = commonBytes env data ++ vendorFieldBytes c data ++ p ++
          signatureBytes data options := by
  have hwrites : Cursor.Writes 0 (do
      serializeCommon env data
      serializeVendorField c data
      let serialized ← Prog.ofExcept (payload env c data)
      ByteBuffer.writeBytes serialized
      serializeSignatures data options) fun bs _ =>
        Fits env c data ∧ ∃ p, payload env c data = .ok p ∧
          bs = commonBytes env data ++ vendorFieldBytes c data ++ p ++
            signatureBytes data options := by
    refine ((puts_serializeCommon env data).bind fun _ => (puts_serializeVendorField c data).bind
      fun _ => (Cursor.Writes.ofExcept (payload env c data)).bind fun p =>
        (ByteBuffer.writes_writeBytes p).seq (puts_serializeSignatures data options)).congr
      fun bs _ => ?_
    constructor
    · rintro ⟨_, _, _, rfl, ⟨⟨hv, hn, hg, ht, hnonce, hfee⟩, rfl⟩, _, _, _, rfl, ⟨hvf, rfl⟩,
        _, _, p, rfl, ⟨rfl, hp⟩, -, rfl⟩
      refine ⟨⟨hv, hn, hg, ht, hnonce, hfee, hvf⟩, p, hp, ?_⟩
      simp only [List.append_assoc, List.nil_append]
    · rintro ⟨h, p, hp, rfl⟩
      refine ⟨commonBytes env data, _, (), ?_,
        ⟨⟨h.version, h.network, h.typeGroup, h.type, h.nonce, h.fee⟩, rfl⟩,
        vendorFieldBytes c data, _, (), rfl, ⟨h.vendorField, rfl⟩, [], _, p, rfl, ⟨rfl, hp⟩,
        ⟨trivial, trivial⟩, rfl⟩
      simp only [List.append_assoc, List.nil_append]
  unfold serialize
  rw [Except.map_eq_ok, ByteBuffer.getResult_runOn hwrites]
  constructor
  · rintro ⟨⟨hfits, p, hp, hbytes⟩, hfit⟩
    exact ⟨hfits, p, hp, hfit, hbytes⟩
  · rintro ⟨hfits, p, hp, hfit, hbytes⟩
    exact ⟨⟨hfits, p, hp, hbytes⟩, hfit⟩

end TransactionSerializer

end CoreEx
