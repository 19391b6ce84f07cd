/-
  File:      CoreEx/Codec/BlockSerializer.lean
  Subject:   `core-crypto-block/source/serializer.ts` and `id.factory.ts`: the bytes of a block's
             header, with and without what follows it, and the block's id.

  * `FullBlockData`, `BlockProperty`, `FullBlockData.record` -- a block's data as the tables see it;
  * `BlockSerializer.serialize`, `serializeWithTransactions`, `IDFactory.make`;
  * `headerParts`, `HeaderSizes` -- the header's bytes where its fields have their sizes;
  * **`serialize_header`**, **`serializeWithTransactions_eq_ok`**.
-/
import CoreEx.Codec.Serializer

namespace CoreEx

/-! ## 1. The data -/

/-- `IBlockData`: the header and, where they are there, the transactions. -/
structure FullBlockData extends BlockData where
  transactions : Option (List TransactionData)
  deriving DecidableEq, Repr

/-- The properties the tables name. -/
inductive BlockProperty
  | version
  | timestamp
  | height
  | previousBlock
  | numberOfTransactions
  | totalAmount
  | totalFee
  | reward
  | payloadLength
  | payloadHash
  | generatorPublicKey
  | blockSignature
  | transactions
  deriving DecidableEq, Repr

namespace FullBlockData

/-- `data[property]`. -/
def record (data : FullBlockData) : BlockProperty → Option SerializerValue
  | .version => some (.number data.version)
  | .timestamp => some (.number data.timestamp)
  | .height => some (.number data.height)
  | .previousBlock => data.previousBlock.map .text
  | .numberOfTransactions => some (.number data.numberOfTransactions)
  | .totalAmount => some (.bigNumber data.totalAmount)
  | .totalFee => some (.bigNumber data.totalFee)
  | .reward => some (.bigNumber data.reward)
  | .payloadLength => some (.number data.payloadLength)
  | .payloadHash => some (.text data.payloadHash)
  | .generatorPublicKey => some (.text data.generatorPublicKey.text)
  | .blockSignature => data.blockSignature.map .text
  | .transactions => data.transactions.map .transactions

end FullBlockData

/-! ## 2. The code -/

namespace BlockSerializer

/-- `length: 2_000_000`. -/
def length : Nat := 2000000

/-- The table of `serialize`. -/
def schema (includeSignature : Bool) : List (BlockProperty × SerializationSchema) :=
  [(.version, ⟨.uint32, true⟩),
    (.timestamp, ⟨.uint32, true⟩),
    (.height, ⟨.uint32, true⟩),
    (.previousBlock, ⟨.hash, true⟩),
    (.numberOfTransactions, ⟨.uint32, true⟩),
    (.totalAmount, ⟨.bigint, true⟩),
    (.totalFee, ⟨.bigint, true⟩),
    (.reward, ⟨.bigint, true⟩),
    (.payloadLength, ⟨.uint32, true⟩),
    (.payloadHash, ⟨.hash, true⟩),
    (.generatorPublicKey, ⟨.publicKey, true⟩),
    (.blockSignature, ⟨.signature, includeSignature⟩)]

/-- The table of `serializeWithTransactions`. -/
def schemaWithTransactions : List (BlockProperty × SerializationSchema) :=
  [(.version, ⟨.uint32, true⟩),
    (.timestamp, ⟨.uint32, true⟩),
    (.height, ⟨.uint32, true⟩),
    (.previousBlock, ⟨.hash, true⟩),
    (.numberOfTransactions, ⟨.uint32, true⟩),
    (.totalAmount, ⟨.bigint, true⟩),
    (.totalFee, ⟨.bigint, true⟩),
    (.reward, ⟨.bigint, true⟩),
    (.payloadLength, ⟨.uint32, true⟩),
    (.payloadHash, ⟨.hash, true⟩),
    (.generatorPublicKey, ⟨.publicKey, true⟩),
    (.blockSignature, ⟨.signature, true⟩),
    (.transactions, ⟨.transactions, false⟩)]

/-- `serialize(block, includeSignature)`. -/
def serialize (env : CodecServices) (block : FullBlockData) (includeSignature : Bool) :
    Except Exception Bytes :=
  Serializer.serialize env length (schema includeSignature) block.record

/-- `serializeWithTransactions(block)`. -/
def serializeWithTransactions (env : CodecServices) (block : FullBlockData) :
    Except Exception Bytes :=
  Serializer.serialize env length schemaWithTransactions block.record

end BlockSerializer

/-- `IDFactory.make(data)`. -/
def IDFactory.make (env : CodecServices) (data : FullBlockData) : Except Exception String :=
  (BlockSerializer.serialize env data true).map fun bytes => toHex (env.sha256 bytes)

/-! ## 3. The header -/

namespace BlockSerializer

/-- The rows the three tables have in common. -/
def header : List (BlockProperty × PropertyType) :=
  [(.version, .uint32), (.timestamp, .uint32), (.height, .uint32), (.previousBlock, .hash),
    (.numberOfTransactions, .uint32), (.totalAmount, .bigint), (.totalFee, .bigint),
    (.reward, .bigint), (.payloadLength, .uint32), (.payloadHash, .hash),
    (.generatorPublicKey, .publicKey)]

theorem schema_eq (includeSignature : Bool) : schema includeSignature =
    header.map (fun s => (s.1, ⟨s.2, true⟩)) ++
      [(.blockSignature, ⟨.signature, includeSignature⟩)] := rfl

theorem schemaWithTransactions_eq : schemaWithTransactions =
    header.map (fun s => (s.1, ⟨s.2, true⟩)) ++
      [(.blockSignature, ⟨.signature, true⟩), (.transactions, ⟨.transactions, false⟩)] := rfl

/-- The bytes of the header's fields. -/
def headerParts (data : FullBlockData) : List Bytes :=
  [leBytes 4 data.version, leBytes 4 data.timestamp.toNat, leBytes 4 data.height,
    ofHex (data.previousBlock.getD ""), leBytes 4 data.numberOfTransactions,
    leBytes 8 data.totalAmount.toNat, leBytes 8 data.totalFee.toNat, leBytes 8 data.reward.toNat,
    leBytes 4 data.payloadLength, ofHex data.payloadHash, data.generatorPublicKey.bytes]

/-- The header without the signature. -/
def headerBytes (data : FullBlockData) : Bytes := (headerParts data).flatten

end BlockSerializer

/-- The fields of the header fit their widths and have their sizes. -/
structure HeaderSizes (env : CodecServices) (data : FullBlockData) : Prop where
  version : data.version < 2 ^ 32
  timestamp : 0 ≤ data.timestamp ∧ data.timestamp < 2 ^ 32
  height : data.height < 2 ^ 32
  previousBlock : ∃ previousBlock, data.previousBlock = some previousBlock ∧
    IsHex env.hashSize previousBlock
  numberOfTransactions : data.numberOfTransactions < 2 ^ 32
  totalAmount : 0 ≤ data.totalAmount ∧ data.totalAmount < 2 ^ 64
  totalFee : 0 ≤ data.totalFee ∧ data.totalFee < 2 ^ 64
  reward : 0 ≤ data.reward ∧ data.reward < 2 ^ 64
  payloadLength : data.payloadLength < 2 ^ 32
  payloadHash : IsHex env.hashSize data.payloadHash
  generatorPublicKey : env.CarriesKey data.generatorPublicKey

namespace BlockSerializer

open Serializer

variable {env : CodecServices} {data : FullBlockData}

/-- The header is a row of values of fixed sizes. -/
theorem fixed_header (h : HeaderSizes env data) :
    List.Forall₂ (fun s part => ∃ value, data.record s.1 = some value ∧
      FixedValue env value part s.2) header (headerParts data) := by
  obtain ⟨previousBlock, hprevious, hhex⟩ := h.previousBlock
  have hnat : ∀ n : Nat, n < 2 ^ 32 →
      FixedValue env (.number (n : Nat)) (leBytes 4 n) .uint32 := fun n hn =>
    ⟨n, rfl, by omega, rfl⟩
  have hbig : ∀ n : Int, 0 ≤ n ∧ n < 2 ^ 64 →
      FixedValue env (.bigNumber n) (leBytes 8 n.toNat) .bigint := fun n hn =>
    ⟨n, rfl, by omega, rfl⟩
  unfold header headerParts
  refine .cons ⟨_, rfl, hnat _ h.version⟩ (.cons ⟨_, rfl, _, rfl, h.timestamp, rfl⟩
    (.cons ⟨_, rfl, hnat _ h.height⟩ (.cons ⟨.text previousBlock, ?_, ?_⟩
      (.cons ⟨_, rfl, hnat _ h.numberOfTransactions⟩ (.cons ⟨_, rfl, hbig _ h.totalAmount⟩
        (.cons ⟨_, rfl, hbig _ h.totalFee⟩ (.cons ⟨_, rfl, hbig _ h.reward⟩
          (.cons ⟨_, rfl, hnat _ h.payloadLength⟩ (.cons ⟨_, rfl, _, rfl, h.payloadHash, rfl⟩
            (.cons ⟨_, rfl, _, rfl, h.generatorPublicKey, rfl⟩ .nil))))))))))
  · show data.previousBlock.map SerializerValue.text = _
    rw [hprevious]
    rfl
  · rw [hprevious]
    exact ⟨previousBlock, rfl, hhex, rfl⟩

/-- **The header's bytes, what stands for the signature, and blanks.** -/
theorem serialize_header (h : HeaderSizes env data) {includeSignature : Bool} {bytes : Bytes} :
    serialize env data includeSignature = .ok bytes ↔ ∃ signature,
      PropertyWritten env ⟨.signature, includeSignature⟩ (data.record .blockSignature) signature ∧
      (headerBytes data ++ signature).length ≤ length ∧
      bytes = headerBytes data ++ signature ++
        Bytes.zeros (length - (headerBytes data ++ signature).length) := by
  unfold serialize
  rw [schema_eq, serialize_of_fixed (fixed_header h)]
  constructor
  · rintro ⟨more, hmore, hfit, rfl⟩
    cases hmore with
    | cons hsignature hnil =>
      cases hnil
      rw [List.flatten_singleton] at hfit ⊢
      exact ⟨_, hsignature, hfit, rfl⟩
  · rintro ⟨signature, hsignature, hfit, rfl⟩
    refine ⟨[signature], .cons hsignature .nil, ?_⟩
    rw [List.flatten_singleton]
    exact ⟨hfit, rfl⟩

/-- **The header's bytes, the signature's, those of the transactions, and blanks.** -/
theorem serializeWithTransactions_eq_ok (h : HeaderSizes env data) {signature : String}
    (hsignature : data.blockSignature = some signature) (hhex : IsHex signatureSize signature)
    {bytes : Bytes} :
    serializeWithTransactions env data = .ok bytes ↔ ∃ transactions,
      PropertyWritten env ⟨.transactions, false⟩ (data.record .transactions) transactions ∧
      (headerBytes data ++ ofHex signature ++ transactions).length ≤ length ∧
      bytes = headerBytes data ++ ofHex signature ++ transactions ++
        Bytes.zeros (length - (headerBytes data ++ ofHex signature ++ transactions).length) := by
  have hfixed : FixedValue env (.text signature) (ofHex signature) .signature :=
    ⟨signature, rfl, hhex, rfl⟩
  have hrecord : data.record .blockSignature = some (.text signature) := by
    show data.blockSignature.map SerializerValue.text = _
    rw [hsignature]
    rfl
  unfold serializeWithTransactions
  rw [schemaWithTransactions_eq, serialize_of_fixed (fixed_header h)]
  constructor
  · rintro ⟨more, hmore, hfit, rfl⟩
    cases hmore with
    | cons hpart hrest =>
      cases hrest with
      | cons htransactions hnil =>
        cases hnil
        dsimp only at hpart
        rw [hrecord] at hpart
        have heq := eq_of_written_fixed hfixed hpart
        subst heq
        simp only [List.flatten_cons, List.flatten_nil, List.append_nil] at hfit ⊢
        simp only [List.append_assoc] at hfit ⊢
        exact ⟨_, htransactions, hfit, rfl⟩
  · rintro ⟨transactions, htransactions, hfit, rfl⟩
    refine ⟨[ofHex signature, transactions], .cons ?_ (.cons htransactions .nil), ?_⟩
    · dsimp only
      rw [hrecord]
      exact propertyWritten_of_fixed hfixed
    · simp only [List.flatten_cons, List.flatten_nil, List.append_nil]
      simp only [List.append_assoc] at hfit ⊢
      exact ⟨hfit, rfl⟩

end BlockSerializer

end CoreEx
