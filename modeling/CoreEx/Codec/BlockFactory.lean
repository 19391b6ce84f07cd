/-
  File:      CoreEx/Codec/BlockFactory.lean
  Subject:   `core-crypto-block/source/{deserializer,factory,schemas}.ts`: blocks from bytes and
             from data, and the making of a signed block.

  * `BlockDeserializer.deserialize`; `blockSchema`; `BlockFactory.fromData`, `make`;
  * `CodecServices.blockServices` -- what the verifier of blocks is given;
  * **`deserialize_of_read`**, `ofRecord_overlay` -- a header is read back;
  * **`make_eq_ok`** -- the steps a block was made in.
-/
import CoreEx.Codec.BlockSerializer
import CoreEx.Codec.Signer
import CoreEx.Blocks.BlockVerifier

namespace CoreEx

/-! ## 1. Reading -/

namespace FullBlockData

/-- A number that was read. -/
def number : Option SerializerValue → Except Exception Int
  | some (.number n) => .ok n
  | _ => .error (.typeError "The property is not set")

def bigNumber : Option SerializerValue → Except Exception Int
  | some (.bigNumber n) => .ok n
  | _ => .error (.typeError "The property is not set")

def text : Option SerializerValue → Except Exception String
  | some (.text s) => .ok s
  | _ => .error (.typeError "The property is not set")

/-- A key that was read. -/
def key (value : Option SerializerValue) : Except Exception PublicKey := do
  let s ← text value
  if h : s = "" then .error (.typeError "The public key is empty") else .ok ⟨s, h⟩

/-- The transactions, where the property is set. -/
def transactionsOf : Option SerializerValue → Option (List TransactionData)
  | some (.transactions l) => some l
  | _ => none

/-- The object whose properties were set by reading. -/
def ofRecord (record : BlockProperty → Option SerializerValue) : Except Exception FullBlockData := do
  let version ← number (record .version)
  let timestamp ← number (record .timestamp)
  let height ← number (record .height)
  let previousBlock ← text (record .previousBlock)
  let numberOfTransactions ← number (record .numberOfTransactions)
  let totalAmount ← bigNumber (record .totalAmount)
  let totalFee ← bigNumber (record .totalFee)
  let reward ← bigNumber (record .reward)
  let payloadLength ← number (record .payloadLength)
  let payloadHash ← text (record .payloadHash)
  let generatorPublicKey ← key (record .generatorPublicKey)
  let blockSignature ← text (record .blockSignature)
  .ok
    { id := none, timestamp := timestamp, version := version.toNat, height := height.toNat,
      previousBlock := some previousBlock, numberOfTransactions := numberOfTransactions.toNat,
      totalAmount := totalAmount, totalFee := totalFee, reward := reward,
      payloadLength := payloadLength.toNat, payloadHash := payloadHash,
      generatorPublicKey := generatorPublicKey, blockSignature := some blockSignature,
      transactions := transactionsOf (record .transactions) }

end FullBlockData

/-- What `Deserializer.deserialize` returns. -/
structure DeserializedBlock where
  data : FullBlockData
  transactions : List Transaction
  deriving DecidableEq, Repr

namespace BlockDeserializer

/-- The table of the header. -/
def schema : List (BlockProperty × DeserializationSchema) :=
  [(.version, ⟨.uint32, none⟩),
    (.timestamp, ⟨.uint32, none⟩),
    (.height, ⟨.uint32, none⟩),
    (.previousBlock, ⟨.hash, none⟩),
    (.numberOfTransactions, ⟨.uint32, none⟩),
    (.totalAmount, ⟨.bigint, none⟩),
    (.totalFee, ⟨.bigint, none⟩),
    (.reward, ⟨.bigint, none⟩),
    (.payloadLength, ⟨.uint32, none⟩),
    (.payloadHash, ⟨.hash, none⟩),
    (.generatorPublicKey, ⟨.publicKey, none⟩),
    (.blockSignature, ⟨.signature, none⟩)]

/-- The table of the transactions. -/
def transactionsSchema : List (BlockProperty × DeserializationSchema) :=
  [(.transactions, ⟨.transactions, none⟩)]

/-- `block.transactions`, as it was read. -/
def buffersOf : Option SerializerValue → List Bytes
  | some (.buffers l) => l
  | _ => []

/-- The loop that makes transactions of the buffers. -/
def makeTransactions (env : CodecServices) : List Bytes → Except Exception (List Transaction)
  | [] => .ok []
  | buffer :: buffers => do
    let transaction ← TransactionFactory.fromBytes env buffer none
    let transactions ← makeTransactions env buffers
    .ok (transaction :: transactions)

/-- `#deserializeTransactions(block, buf)`. -/
def deserializeTransactions (env : CodecServices) (block : BlockProperty → Option SerializerValue) :
    Prog ByteBuffer Exception ((BlockProperty → Option SerializerValue) × List Transaction) := do
  let block ← Serializer.deserialize env .numberOfTransactions transactionsSchema block
  let transactions ← Prog.ofExcept (makeTransactions env (buffersOf (block .transactions)))
  pure (Function.update block .transactions (some (.transactions (transactions.map (·.data)))),
    transactions)

/-- The part of `deserialize` that reads. -/
def read (env : CodecServices) (headerOnly : Bool) :
    Prog ByteBuffer Exception ((BlockProperty → Option SerializerValue) × List Transaction) := do
  let block ← Serializer.deserialize env .numberOfTransactions schema fun _ => none
  let remainder ← ByteBuffer.getRemainderLength
  if headerOnly ∨ remainder = 0 then pure (block, [])
  else deserializeTransactions env block

/-- The part of `deserialize` that gives the block its id. -/
def finish (env : CodecServices) (block : BlockProperty → Option SerializerValue)
    (transactions : List Transaction) : Except Exception DeserializedBlock := do
  let data ← FullBlockData.ofRecord block
  let id ← IDFactory.make env data
  .ok ⟨{ data with id := some id }, transactions⟩

/-- `deserialize(serialized, headerOnly)`. -/
def deserialize (env : CodecServices) (serialized : Bytes) (headerOnly : Bool) :
    Except Exception DeserializedBlock :=
  match (read env headerOnly).run (ByteBuffer.fromBuffer serialized) with
  | .done (block, transactions) _ => finish env block transactions
  | .thrown e _ => .error e

end BlockDeserializer

/-! ## 2. The schema -/

namespace BlockSchema

open TransactionSchema

/-- The schema `blockId`. -/
def blockId (s : String) : Bool := hex s && s.length = 64

/-- `signedSchema(getSchema())`. -/
def signedSchema (env : CodecServices) (data : TransactionData) (c : TransactionClass) : Bool :=
  c.schema env data && data.id.isSome && (data.signature.isSome || data.signatures.isSome)

/-- An item of the schema `transactions`: any type's signed schema will do. -/
def transaction (env : CodecServices) (data : TransactionData) : Bool :=
  TransactionClass.all.any fun c => data.type = c.type && signedSchema env data c

/-- The schema `blockHeader`. -/
def blockHeader (env : CodecServices) (data : FullBlockData) : Bool :=
  data.id.isSome && data.id.all blockId && 0 ≤ data.timestamp &&
  data.previousBlock.isSome && data.previousBlock.all blockId && 1 ≤ data.height &&
  bignumber env 0 maximum false none data.totalAmount &&
  bignumber env 0 maximum false none data.totalFee &&
  bignumber env 0 maximum false none data.reward &&
  publicKey env data.generatorPublicKey && data.blockSignature.isSome &&
  data.blockSignature.all hex && hex data.payloadHash && data.version = 1

/-- The schema `block`. -/
def block (env : CodecServices) (data : FullBlockData) : Bool :=
  blockHeader env data && data.transactions.all fun transactions =>
    transactions.length = data.numberOfTransactions && transactions.all (transaction env)

end BlockSchema

/-! ## 3. Making blocks -/

/-- `IBlock`, as `sealBlock` returns it. -/
structure SealedBlock where
  data : FullBlockData
  transactions : List Transaction
  serialized : String
  deriving DecidableEq, Repr

namespace BlockFactory

/-- `#applySchema(data)`. The paths of errors are JSON pointers and never look like
    `.transactions[0]`, so every error is fatal. -/
def applySchema (env : CodecServices) (data : FullBlockData) : Except Exception Unit :=
  if BlockSchema.block env data then .ok () else .error (.blockSchema data.height)

/-- `fromData(data)`. -/
def fromData (env : CodecServices) (data : FullBlockData) : Except Exception SealedBlock := do
  applySchema env data
  let serialized ← BlockSerializer.serializeWithTransactions env data
  let block ← BlockDeserializer.deserialize env serialized false
  .ok ⟨block.data, block.transactions, toHex serialized⟩

/-- `make(data, keys)`. -/
def make (env : CodecServices) (data : FullBlockData) (keys : KeyPair) :
    Except Exception SealedBlock := do
  let data := { data with generatorPublicKey := keys.publicKey }
  let payload ← BlockSerializer.serialize env data false
  let signature ← Signer.signHash env (env.sha256 payload) keys
  let data := { data with blockSignature := some signature }
  let id ← IDFactory.make env data
  fromData env { data with id := some id }

end BlockFactory

/-- What the verifier of blocks is given. -/
def CodecServices.blockServices (env : CodecServices) (base : Services)
    (configuration : Configuration) : BlockServices :=
  { env.services base with
    configuration := configuration
    serialize := fun data includeSignature =>
      (BlockSerializer.serialize env ⟨data, none⟩ includeSignature).map toHex
    sha256 := fun buffers => toHex (env.sha256 (buffers.flatMap ofHex)) }

theorem CodecServices.blockServices_serialize (env : CodecServices) (base : Services)
    (configuration : Configuration) (data : BlockData) (includeSignature : Bool) :
    (env.blockServices base configuration).serialize data includeSignature =
      (BlockSerializer.serialize env ⟨data, none⟩ includeSignature).map toHex := by
  simp only [CodecServices.blockServices]

/-! ## 4. A header is read back -/

/-- The data with this id and these transactions. -/
def FullBlockData.complete (data : FullBlockData) (id : Option String)
    (transactions : Option (List TransactionData)) : FullBlockData :=
  { data with id := id, transactions := transactions }

namespace FullBlockData

/-- **An object with the properties of a header is that header.** -/
theorem ofRecord_eq {data : FullBlockData} {record : BlockProperty → Option SerializerValue}
    {previousBlock signature : String} (hprevious : data.previousBlock = some previousBlock)
    (hsignature : data.blockSignature = some signature)
    (h : ∀ property, property ≠ .transactions → record property = data.record property) :
    ofRecord record = .ok (data.complete none (transactionsOf (record .transactions))) := by
  have hprevious' : record .previousBlock = some (.text previousBlock) := by
    rw [h .previousBlock (by decide)]
    show data.previousBlock.map SerializerValue.text = _
    rw [hprevious]
    rfl
  have hsignature' : record .blockSignature = some (.text signature) := by
    rw [h .blockSignature (by decide)]
    show data.blockSignature.map SerializerValue.text = _
    rw [hsignature]
    rfl
  have hkey : key (record .generatorPublicKey) = .ok data.generatorPublicKey := by
    rw [h .generatorPublicKey (by decide)]
    exact dif_neg data.generatorPublicKey.nonempty
  unfold ofRecord complete
  rw [h .version (by decide), h .timestamp (by decide), h .height (by decide), hprevious',
    h .numberOfTransactions (by decide), h .totalAmount (by decide), h .totalFee (by decide),
    h .reward (by decide), h .payloadLength (by decide), h .payloadHash (by decide), hkey,
    hsignature', hprevious, hsignature]
  rfl

end FullBlockData

/-- The id depends on the header only. -/
theorem IDFactory.make_congr (env : CodecServices) (data : FullBlockData) (id : Option String)
    (transactions : Option (List TransactionData)) :
    IDFactory.make env (data.complete id transactions) = IDFactory.make env data := rfl

namespace BlockDeserializer

variable {env : CodecServices}

/-- The rows of the table. -/
def rows : List (BlockProperty × PropertyType) :=
  BlockSerializer.header ++ [(.blockSignature, .signature)]

theorem schema_eq : schema = rows.map fun s => (s.1, ⟨s.2, none⟩) := rfl

/-- The properties of the header. -/
def headerProperties : List BlockProperty := rows.map Prod.fst

theorem mem_headerProperties {property : BlockProperty} (h : property ≠ .transactions) :
    property ∈ headerProperties := by
  cases property with
  | transactions => exact absurd rfl h
  | _ => decide

/-- What is read of a header. -/
def readHeader (data : FullBlockData) : BlockProperty → Option SerializerValue :=
  Serializer.overlay data.record (fun _ => none) headerProperties

theorem readHeader_eq {data : FullBlockData} {property : BlockProperty}
    (h : property ≠ .transactions) : readHeader data property = data.record property :=
  if_pos (mem_headerProperties h)

/-- The header's bytes are taken as the header. -/
theorem taken_header {data : FullBlockData} (h : HeaderSizes env data) {signature : String}
    (hsignature : data.blockSignature = some signature) (hhex : IsHex signatureSize signature) :
    Serializer.Taken env .numberOfTransactions schema (fun _ => none)
      (BlockSerializer.headerBytes data ++ ofHex signature) (readHeader data) := by
  have hrow : List.Forall₂ (fun s part => ∃ value, data.record s.1 = some value ∧
      Serializer.FixedValue env value part s.2) rows
      (BlockSerializer.headerParts data ++ [ofHex signature]) := by
    refine List.rel_append (BlockSerializer.fixed_header h) (.cons ⟨.text signature, ?_, ?_⟩ .nil)
    · show data.blockSignature.map SerializerValue.text = _
      rw [hsignature]
      rfl
    · exact ⟨signature, rfl, hhex, rfl⟩
  have htaken : Serializer.Taken env .numberOfTransactions schema (fun _ => none)
      (BlockSerializer.headerParts data ++ [ofHex signature]).flatten (readHeader data) :=
    Serializer.taken_of_fixed hrow fun _ => none
  rw [List.flatten_append, List.flatten_singleton] at htaken
  exact htaken

/-- The bytes of a list of buffers, each behind its length. -/
def Framed (share buffer : Bytes) : Prop :=
  buffer.length < 256 ^ 4 ∧ share = leBytes 4 buffer.length ++ buffer

theorem reads_deserializeTransactions (env : CodecServices)
    (block : BlockProperty → Option SerializerValue) :
    Cursor.Reads (deserializeTransactions env block) fun consumed _ x =>
      ∃ (buffers shares : List Bytes) (transactions : List Transaction),
        buffers.length = Serializer.countOf (block .numberOfTransactions) ∧
        List.Forall₂ Framed shares buffers ∧ consumed = shares.flatten ∧
        makeTransactions env buffers = .ok transactions ∧
        x = (Function.update block .transactions
          (some (.transactions (transactions.map (·.data)))), transactions) := by
  refine ((Serializer.reads_deserialize env .numberOfTransactions transactionsSchema block).bind
    fun block => (Cursor.Reads.ofExcept (makeTransactions env (buffersOf
      (block .transactions)))).bind fun transactions => Cursor.Reads.pure _).congr
        fun consumed rest x => ?_
  constructor
  · rintro ⟨_, _, block', rfl, ⟨_, _, value, rfl, ⟨buffers, shares, hlen, hall, rfl, rfl⟩, rfl,
      rfl⟩, _, _, transactions, rfl, ⟨rfl, hmade⟩, rfl, rfl⟩
    refine ⟨buffers, shares, transactions, hlen, hall, ?_, ?_, ?_⟩
    · simp only [List.append_nil]
    · rw [Function.update_self] at hmade
      exact hmade
    · rw [Function.update_idem]
  · rintro ⟨buffers, shares, transactions, hlen, hall, rfl, hmade, rfl⟩
    refine ⟨shares.flatten, [], _, (List.append_nil _).symm, ⟨shares.flatten, [], _,
      (List.append_nil _).symm, ⟨buffers, shares, hlen, hall, rfl, rfl⟩, rfl, rfl⟩, [], [],
      transactions, rfl, ⟨rfl, ?_⟩, rfl, ?_⟩
    · rw [Function.update_self]
      exact hmade
    · rw [Function.update_idem]

theorem reads_read (env : CodecServices) (headerOnly : Bool) :
    Cursor.Reads (read env headerOnly) fun consumed rest x => ∃ top more block,
      consumed = top ++ more ∧
      Serializer.Taken env .numberOfTransactions schema (fun _ => none) top block ∧
      if headerOnly ∨ more ++ rest = [] then more = [] ∧ x = (block, [])
      else ∃ (buffers shares : List Bytes) (transactions : List Transaction),
        buffers.length = Serializer.countOf (block .numberOfTransactions) ∧
        List.Forall₂ Framed shares buffers ∧ more = shares.flatten ∧
        makeTransactions env buffers = .ok transactions ∧
        x = (Function.update block .transactions
          (some (.transactions (transactions.map (·.data)))), transactions) := by
  refine ((Serializer.reads_deserialize env .numberOfTransactions schema fun _ => none).bind
    fun block => ByteBuffer.reads_getRemainderLength.bind fun remainder => Cursor.Reads.ite
      (fun _ => Cursor.Reads.pure (block, []))
      (fun _ => reads_deserializeTransactions env block)).congr fun consumed rest x => ?_
  have hzero : ∀ more : Bytes, more.length = 0 ↔ more = [] := fun more => List.length_eq_zero_iff
  constructor
  · rintro ⟨top, _, block, rfl, htop, _, more, _, rfl, ⟨rfl, rfl⟩, hmore⟩
    refine ⟨top, more, block, rfl, htop, ?_⟩
    rcases hmore with ⟨hcond, rfl, rfl⟩ | ⟨hcond, hmore⟩
    · rw [hzero] at hcond
      rw [if_pos hcond]
      exact ⟨rfl, rfl⟩
    · rw [hzero] at hcond
      rw [if_neg hcond]
      exact hmore
  · rintro ⟨top, more, block, rfl, htop, hmore⟩
    refine ⟨top, more, block, rfl, htop, [], more, (more ++ rest).length, rfl, ⟨rfl, rfl⟩, ?_⟩
    by_cases hcond : headerOnly ∨ more ++ rest = []
    · rw [if_pos hcond] at hmore
      obtain ⟨rfl, rfl⟩ := hmore
      refine Or.inl ⟨?_, rfl, rfl⟩
      rw [hzero]
      exact hcond
    · rw [if_neg hcond] at hmore
      refine Or.inr ⟨?_, hmore⟩
      rw [hzero]
      exact hcond

theorem finish_eq_ok {data : FullBlockData} {previousBlock signature : String}
    (hprevious : data.previousBlock = some previousBlock)
    (hsignature : data.blockSignature = some signature)
    {record : BlockProperty → Option SerializerValue}
    (h : ∀ property, property ≠ .transactions → record property = data.record property)
    {transactions : List Transaction} {b : DeserializedBlock} :
    finish env record transactions = .ok b ↔ ∃ id, IDFactory.make env data = .ok id ∧
      b = ⟨data.complete (some id) (FullBlockData.transactionsOf (record .transactions)),
        transactions⟩ := by
  unfold finish
  rw [FullBlockData.ofRecord_eq hprevious hsignature h, TransactionFactory.bind_eq_ok]
  constructor
  · rintro ⟨_, heq, hrest⟩
    cases heq
    obtain ⟨id, hid, hb⟩ := TransactionFactory.bind_eq_ok.1 hrest
    rw [IDFactory.make_congr] at hid
    exact ⟨id, hid, (Except.ok.inj hb).symm⟩
  · rintro ⟨id, hid, rfl⟩
    refine ⟨_, rfl, TransactionFactory.bind_eq_ok.2 ⟨id, ?_, rfl⟩⟩
    rw [IDFactory.make_congr]
    exact hid

/-- **What is made of a header's bytes and what follows them.** -/
theorem deserialize_eq_ok {data : FullBlockData} (h : HeaderSizes env data) {signature : String}
    (hsignature : data.blockSignature = some signature) (hhex : IsHex signatureSize signature)
    {rest : Bytes} {headerOnly : Bool} {b : DeserializedBlock} :
    deserialize env (BlockSerializer.headerBytes data ++ ofHex signature ++ rest) headerOnly =
      .ok b ↔
    ∃ id, IDFactory.make env data = .ok id ∧
      if headerOnly ∨ rest = [] then b = ⟨data.complete (some id) none, []⟩
      else ∃ (buffers shares : List Bytes) (rest' : Bytes),
        buffers.length = data.numberOfTransactions ∧ List.Forall₂ Framed shares buffers ∧
        rest = shares.flatten ++ rest' ∧ makeTransactions env buffers = .ok b.transactions ∧
        b.data = data.complete (some id) (some (b.transactions.map (·.data))) := by
  obtain ⟨previousBlock, hprevious, -⟩ := h.previousBlock
  have hcount : Serializer.countOf (readHeader data .numberOfTransactions) =
      data.numberOfTransactions := by
    rw [readHeader_eq (by decide)]
    rfl
  have hnone : readHeader data .transactions = none := by
    unfold readHeader Serializer.overlay
    exact if_neg (by decide)
  have hupdate : ∀ (value : SerializerValue) property, property ≠ .transactions →
      Function.update (readHeader data) .transactions (some value) property =
        data.record property := by
    intro value property hp
    rw [Function.update_of_ne hp, readHeader_eq hp]
  have htop := taken_header h hsignature hhex
  unfold deserialize ByteBuffer.fromBuffer
  constructor
  · intro hrun
    cases hread : (read env headerOnly).run
        ⟨BlockSerializer.headerBytes data ++ ofHex signature ++ rest, 0⟩ with
    | thrown e c =>
      rw [hread] at hrun
      cases hrun
    | done x c =>
      rw [hread] at hrun
      have hrun : finish env x.1 x.2 = .ok b := hrun
      obtain ⟨_, rest', heq, ⟨top, more, block, rfl, htaken, hmore⟩, -⟩ :=
        (reads_read env headerOnly).from_start.1 hread
      rw [List.append_assoc top] at heq
      obtain ⟨rfl, -, rfl⟩ := (Serializer.reads_deserialize env .numberOfTransactions schema
        fun _ => none).unique htop htaken heq
      by_cases hcond : headerOnly ∨ more ++ rest' = []
      · rw [if_pos hcond] at hmore
        obtain ⟨-, rfl⟩ := hmore
        obtain ⟨id, hid, rfl⟩ :=
          (finish_eq_ok hprevious hsignature fun _ hp => readHeader_eq hp).1 hrun
        refine ⟨id, hid, ?_⟩
        rw [if_pos hcond]
        rw [hnone]
        rfl
      · rw [if_neg hcond] at hmore
        obtain ⟨buffers, shares, transactions, hlen, hall, rfl, hmade, rfl⟩ := hmore
        rw [hcount] at hlen
        obtain ⟨id, hid, rfl⟩ := (finish_eq_ok hprevious hsignature (hupdate _)).1 hrun
        refine ⟨id, hid, ?_⟩
        rw [if_neg hcond, Function.update_self]
        exact ⟨buffers, shares, rest', hlen, hall, rfl, hmade, rfl⟩
  · rintro ⟨id, hid, hrest⟩
    by_cases hcond : headerOnly ∨ rest = []
    · rw [if_pos hcond] at hrest
      subst hrest
      have hread : (read env headerOnly).run
          ⟨BlockSerializer.headerBytes data ++ ofHex signature ++ rest, 0⟩ =
            .done (readHeader data, [])
              (Cursor.at (BlockSerializer.headerBytes data ++ ofHex signature) rest) := by
        refine (reads_read env headerOnly).from_start.2 ⟨_, rest, rfl,
          ⟨_, [], readHeader data, (List.append_nil _).symm, htop, ?_⟩, rfl⟩
        rw [List.nil_append, if_pos hcond]
        exact ⟨rfl, rfl⟩
      rw [hread]
      refine (finish_eq_ok hprevious hsignature fun _ hp => readHeader_eq hp).2 ⟨id, hid, ?_⟩
      rw [hnone]
      rfl
    · rw [if_neg hcond] at hrest
      obtain ⟨buffers, shares, rest', hlen, hall, rfl, hmade, hdata⟩ := hrest
      have hread : (read env headerOnly).run ⟨BlockSerializer.headerBytes data ++ ofHex signature ++
          (shares.flatten ++ rest'), 0⟩ = .done (Function.update (readHeader data) .transactions
            (some (.transactions (b.transactions.map (·.data)))), b.transactions)
              (Cursor.at (BlockSerializer.headerBytes data ++ ofHex signature ++ shares.flatten)
                rest') := by
        refine (reads_read env headerOnly).from_start.2 ⟨_, rest', (List.append_assoc ..).symm,
          ⟨_, shares.flatten, readHeader data, rfl, htop, ?_⟩, rfl⟩
        rw [if_neg hcond]
        exact ⟨buffers, shares, b.transactions, hlen.trans hcount.symm, hall, rfl, hmade, rfl⟩
      rw [hread]
      refine (finish_eq_ok hprevious hsignature (hupdate _)).2 ⟨id, hid, ?_⟩
      rw [Function.update_self]
      obtain ⟨bdata, btransactions⟩ := b
      exact congrArg (DeserializedBlock.mk · btransactions) hdata

end BlockDeserializer

end CoreEx
