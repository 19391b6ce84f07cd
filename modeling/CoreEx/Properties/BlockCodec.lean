/-
  File:      CoreEx/Properties/BlockCodec.lean
  Subject:   A block is deserialized from the bytes of it and its transactions.

  * `Survives` -- a transaction that is made of its own bytes again;
  * `BlockCodecInput` -- a block whose fields have their sizes and whose transactions survive;
  * **`block_roundTrips`**.
-/
import CoreEx.Codec.BlockFactory

namespace CoreEx

/-- The transaction is made of its own bytes again. -/
def Survives (env : CodecServices) (transaction : TransactionData) : Prop :=
  ∃ bytes t, TransactionUtils.toBytes env transaction = .ok bytes ∧
    TransactionFactory.fromBytes env bytes none = .ok t ∧ t.data = transaction

/-- How many bytes a list of transactions takes. -/
def transactionsLength (env : CodecServices) (transactions : List TransactionData) : Nat :=
  (transactions.map fun transaction =>
    4 + ((TransactionUtils.toBytes env transaction).toOption.getD []).length).sum

/-- A block whose numbers fit, whose texts have their sizes, whose transactions are as many as it
    says and survive the transaction codec, and which fits the buffer. -/
structure BlockCodecInput (env : CodecServices) (data : FullBlockData) : Prop where
  sizes : HeaderSizes env data
  signature : ∃ signature, data.blockSignature = some signature ∧ IsHex signatureSize signature
  count : data.numberOfTransactions = (data.transactions.getD []).length
  transactions : ∀ transaction ∈ data.transactions.getD [], Survives env transaction
  fits : (BlockSerializer.headerBytes data).length + signatureSize +
    transactionsLength env (data.transactions.getD []) ≤ 2000000

/-- What is written for transactions that survive, and what is made of it. -/
theorem written_of_survives {env : CodecServices} {transactions : List TransactionData}
    (h : ∀ transaction ∈ transactions, Survives env transaction)
    (hfits : transactionsLength env transactions ≤ 2000000) :
    ∃ (shares buffers : List Bytes) (made : List Transaction),
      List.Forall₂ (Serializer.TransactionWritten env) transactions shares ∧
      List.Forall₂ BlockDeserializer.Framed shares buffers ∧
      buffers.length = transactions.length ∧
      shares.flatten.length = transactionsLength env transactions ∧
      BlockDeserializer.makeTransactions env buffers = .ok made ∧
      made.map (·.data) = transactions := by
  induction transactions with
  | nil => exact ⟨[], [], [], .nil, .nil, rfl, rfl, rfl, rfl⟩
  | cons transaction transactions ih =>
    obtain ⟨bytes, t, hbytes, hmade, hdata⟩ := h transaction List.mem_cons_self
    have hlength : transactionsLength env (transaction :: transactions) =
        4 + bytes.length + transactionsLength env transactions := by
      unfold transactionsLength
      rw [List.map_cons, List.sum_cons, hbytes]
      rfl
    rw [hlength] at hfits
    have hlt : bytes.length < 256 ^ 4 := by omega
    obtain ⟨shares, buffers, made, hshares, hframed, hcount, hsum, hrest, hmap⟩ :=
      ih (fun transaction hmem => h transaction (List.mem_cons_of_mem _ hmem)) (by omega)
    refine ⟨(leBytes 4 bytes.length ++ bytes) :: shares, bytes :: buffers, t :: made,
      .cons ⟨bytes, hbytes, hlt, rfl⟩ hshares, .cons ⟨hlt, rfl⟩ hframed, congrArg (· + 1) hcount,
      ?_, ?_, ?_⟩
    · rw [List.flatten_cons, List.length_append, List.length_append, length_leBytes, hsum, hlength]
    · unfold BlockDeserializer.makeTransactions
      rw [hmade, hrest]
      rfl
    · rw [List.map_cons, hmap, hdata]

/-- The bytes of the transactions, as the table has them. -/
theorem transactions_written {env : CodecServices} {data : FullBlockData} {shares : List Bytes}
    (h : List.Forall₂ (Serializer.TransactionWritten env) (data.transactions.getD []) shares) :
    Serializer.PropertyWritten env ⟨.transactions, false⟩ (data.record .transactions)
      shares.flatten := by
  unfold Serializer.PropertyWritten
  rcases Option.eq_none_or_eq_some data.transactions with htransactions | ⟨l, htransactions⟩
  · have hrecord : data.record .transactions = none := by
      show data.transactions.map SerializerValue.transactions = none
      rw [htransactions]
      rfl
    rw [htransactions] at h
    cases h
    rw [if_pos ⟨hrecord, rfl⟩]
    rfl
  · have hrecord : data.record .transactions = some (.transactions l) := by
      show data.transactions.map SerializerValue.transactions = _
      rw [htransactions]
      rfl
    rw [htransactions] at h
    rw [hrecord, if_neg fun hc => (nomatch hc.1)]
    exact ⟨l, shares, rfl, h, rfl⟩

/-- **A block is read back from its bytes: the header, the transactions in their order, and the id
    that its header has.** -/
theorem block_roundTrips {env : CodecServices} {data : FullBlockData}
    (h : BlockCodecInput env data) :
    ∃ bytes block id, BlockSerializer.serializeWithTransactions env data = .ok bytes ∧
      BlockDeserializer.deserialize env bytes false = .ok block ∧
      IDFactory.make env data = .ok id ∧
      block.data.toBlockData = { data.toBlockData with id := some id } ∧
      block.data.transactions.getD [] = data.transactions.getD [] ∧
      block.transactions.map (·.data) = data.transactions.getD [] := by
  obtain ⟨signature, hsignature, hhex⟩ := h.signature
  have hfits := h.fits
  obtain ⟨shares, buffers, made, hshares, hframed, hcount, hsum, hmade, hmap⟩ :=
    written_of_survives h.transactions (by omega)
  have hlength : (BlockSerializer.headerBytes data ++ ofHex signature ++
      shares.flatten).length ≤ BlockSerializer.length := by
    have hsize : (ofHex signature).length = signatureSize := hhex.2
    rw [List.length_append, List.length_append, hsum, hsize]
    exact hfits
  have hwritten := (BlockSerializer.serializeWithTransactions_eq_ok h.sizes hsignature hhex).2
    ⟨_, transactions_written hshares, hlength, rfl⟩
  obtain ⟨id, hid⟩ : ∃ id, IDFactory.make env data = .ok id := by
    have hsigned : Serializer.PropertyWritten env ⟨.signature, true⟩ (data.record .blockSignature)
        (ofHex signature) := by
      have hrecord : data.record .blockSignature = some (.text signature) := by
        show data.blockSignature.map SerializerValue.text = _
        rw [hsignature]
        rfl
      rw [hrecord]
      exact Serializer.propertyWritten_of_fixed ⟨signature, rfl, hhex, rfl⟩
    rw [List.length_append] at hlength
    have hheader := (BlockSerializer.serialize_header h.sizes).2
      ⟨ofHex signature, hsigned, by omega, rfl⟩
    exact ⟨_, Except.map_eq_ok.2 ⟨_, hheader, rfl⟩⟩
  have hcount' : buffers.length = data.numberOfTransactions := hcount.trans h.count.symm
  generalize hblanks : Bytes.zeros (BlockSerializer.length - (BlockSerializer.headerBytes data ++
    ofHex signature ++ shares.flatten).length) = blanks at hwritten
  rw [List.append_assoc (BlockSerializer.headerBytes data ++ ofHex signature)] at hwritten
  by_cases hempty : shares.flatten ++ blanks = []
  · have hnone : data.transactions.getD [] = [] := by
      have hzero : transactionsLength env (data.transactions.getD []) = 0 := by
        rw [← hsum, (List.append_eq_nil_iff.1 hempty).1]
        rfl
      cases htransactions : data.transactions.getD [] with
      | nil => rfl
      | cons transaction transactions =>
        rw [htransactions] at hzero
        unfold transactionsLength at hzero
        rw [List.map_cons, List.sum_cons] at hzero
        omega
    refine ⟨_, ⟨data.complete (some id) none, []⟩, id, hwritten,
      (BlockDeserializer.deserialize_eq_ok h.sizes hsignature hhex).2 ⟨id, hid, ?_⟩, hid, rfl,
      hnone.symm, hnone.symm⟩
    rw [if_pos (Or.inr hempty)]
  · refine ⟨_, ⟨data.complete (some id) (some (made.map Transaction.data)), made⟩, id, hwritten,
      (BlockDeserializer.deserialize_eq_ok h.sizes hsignature hhex).2 ⟨id, hid, ?_⟩, hid, rfl,
      hmap, hmap⟩
    rw [if_neg fun hc => hc.elim (fun hc => (nomatch hc)) hempty]
    exact ⟨buffers, shares, blanks, hcount', hframed, rfl, hmade, rfl⟩

/-! ## A block with a resignation -/

/-- The resignation whose bytes are `resignationBytes 0xff`. -/
def signedResignation : TransactionData :=
  { version := some 1, network := some 30, typeGroup := some 1,
    type := TransactionType.validatorResignation, nonce := some 1,
    senderPublicKey := some .small, fee := 1, amount := 0, expiration := none,
    recipientId := none, vendorField := none, asset := none,
    id := some "ff011e0100000007000100000000000000010201000000000000000000000000",
    signature := some (toHex (Bytes.zeros 64)), signatures := none }

/-- The check that a transaction survives. -/
def survives (env : CodecServices) (transaction : TransactionData) : Bool :=
  match TransactionUtils.toBytes env transaction with
  | .ok bytes =>
    match TransactionFactory.fromBytes env bytes none with
    | .ok t => decide (t.data = transaction)
    | .error _ => false
  | .error _ => false

theorem survives_signedResignation : Survives .small signedResignation := by
  have hsome : survives .small signedResignation = true := by decide +kernel
  unfold survives at hsome
  cases hbytes : TransactionUtils.toBytes .small signedResignation with
  | error e =>
    rw [hbytes] at hsome
    cases hsome
  | ok bytes =>
    rw [hbytes] at hsome
    dsimp only at hsome
    cases hmade : TransactionFactory.fromBytes .small bytes none with
    | error e =>
      rw [hmade] at hsome
      cases hsome
    | ok t =>
      rw [hmade] at hsome
      exact ⟨bytes, t, hbytes, hmade, of_decide_eq_true hsome⟩

/-- A block with that transaction. -/
def signedBlock : FullBlockData :=
  { id := none, timestamp := 0, version := 1, height := 2,
    previousBlock := some (toHex (Bytes.zeros 32)), numberOfTransactions := 1, totalAmount := 0,
    totalFee := 1, reward := 0, payloadLength := 32, payloadHash := toHex (Bytes.zeros 32),
    generatorPublicKey := .small, blockSignature := some (toHex (Bytes.zeros 64)),
    transactions := some [signedResignation] }

theorem isHex_zeros (n : Nat) : IsHex n (toHex (Bytes.zeros n)) :=
  isHex_iff.2 ⟨Bytes.zeros n, Bytes.length_zeros n, rfl⟩

theorem headerSizes_signedBlock : HeaderSizes .small signedBlock where
  version := by decide
  timestamp := by decide
  height := by decide
  previousBlock := ⟨_, rfl, isHex_zeros 32⟩
  numberOfTransactions := by decide
  totalAmount := by decide
  totalFee := by decide
  reward := by decide
  payloadLength := by decide
  payloadHash := isHex_zeros 32
  generatorPublicKey := isHex_iff.2 ⟨[1, 2], rfl, rfl⟩

theorem roundTrips_signedBlock : ∃ bytes block id,
    BlockSerializer.serializeWithTransactions .small signedBlock = .ok bytes ∧
    BlockDeserializer.deserialize .small bytes false = .ok block ∧
    IDFactory.make .small signedBlock = .ok id ∧ block.data.id = some id ∧
    block.transactions.map (·.data) = [signedResignation] := by
  obtain ⟨bytes, block, id, hwritten, hread, hid, hdata, -, hlist⟩ :=
    block_roundTrips
      { sizes := headerSizes_signedBlock
        signature := ⟨_, rfl, isHex_zeros 64⟩
        count := rfl
        transactions := by
          intro transaction hmem
          rw [List.mem_singleton.1 hmem]
          exact survives_signedResignation
        fits := by decide +kernel }
  exact ⟨bytes, block, id, hwritten, hread, hid, congrArg BlockData.id hdata, hlist⟩

end CoreEx
