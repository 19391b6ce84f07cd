/-
  File:      CoreEx/Properties/BlockSigning.lean
  Subject:   When a block that was just made passes the check of its signature.

  The maker hashes the header before the signature is in it; the verifier asks for the header
  without it too, and `required: false` leaves out only what is undefined. And the verifier passes
  the hash where the signature belongs.

  * `made_of_make` -- what `make` returns, and what it hashed;
  * `SameUpToBlanks` -- the signature's bytes are what stood at their place before;
  * **`verifySignature_make`**; **`blockSigning_fails`**.
-/
import CoreEx.Properties.BlockCodec
import CoreEx.Properties.BlockVerification
import CoreEx.Properties.Signing

namespace CoreEx

open BlockVerifier

/-! ## 1. What is made -/

/-- The data with this generator. -/
def FullBlockData.by (data : FullBlockData) (keys : KeyPair) : FullBlockData :=
  { data with generatorPublicKey := keys.publicKey }

/-- The data with this signature. -/
def FullBlockData.signed (data : FullBlockData) (signature : String) : FullBlockData :=
  { data with blockSignature := some signature }

variable {env : CodecServices} {data : FullBlockData} {keys : KeyPair}

theorem HeaderSizes.signed (h : HeaderSizes env data) (signature : String) :
    HeaderSizes env (data.signed signature) :=
  ⟨h.version, h.timestamp, h.height, h.previousBlock, h.numberOfTransactions, h.totalAmount,
    h.totalFee, h.reward, h.payloadLength, h.payloadHash, h.generatorPublicKey⟩

theorem HeaderSizes.complete (h : HeaderSizes env data) (id : Option String)
    (transactions : Option (List TransactionData)) :
    HeaderSizes env (data.complete id transactions) :=
  ⟨h.version, h.timestamp, h.height, h.previousBlock, h.numberOfTransactions, h.totalAmount,
    h.totalFee, h.reward, h.payloadLength, h.payloadHash, h.generatorPublicKey⟩

/-- The header's bytes with `signature` at its place, and blanks. -/
def headerWith (data : FullBlockData) (signature : Bytes) : Bytes :=
  BlockSerializer.headerBytes data ++ signature ++ Bytes.zeros (BlockSerializer.length -
    (BlockSerializer.headerBytes data ++ signature).length)

/-- `serialize(data, false)` leaves the signature out only where there is none. -/
theorem serialize_unsigned (h : HeaderSizes env data) {bytes : Bytes} :
    BlockSerializer.serialize env data false = .ok bytes ↔
      (BlockSerializer.headerBytes data ++ ofHex (data.blockSignature.getD "")).length ≤
        BlockSerializer.length ∧
      bytes = headerWith data (ofHex (data.blockSignature.getD "")) := by
  have hpart : ∀ part, Serializer.PropertyWritten env ⟨.signature, false⟩
      (data.record .blockSignature) part ↔ part = ofHex (data.blockSignature.getD "") := by
    intro part
    unfold Serializer.PropertyWritten
    rcases Option.eq_none_or_eq_some data.blockSignature with hnone | ⟨signature, hsome⟩
    · have hrecord : data.record .blockSignature = none := by
        show data.blockSignature.map SerializerValue.text = none
        rw [hnone]
        rfl
      rw [if_pos ⟨hrecord, rfl⟩, hnone]
      rfl
    · have hrecord : data.record .blockSignature = some (.text signature) := by
        show data.blockSignature.map SerializerValue.text = _
        rw [hsome]
        rfl
      rw [hrecord, if_neg fun hc => (nomatch hc.1), hsome]
      constructor
      · rintro ⟨_, heq, rfl⟩
        cases heq
        rfl
      · intro hpart
        exact ⟨signature, rfl, hpart⟩
  rw [BlockSerializer.serialize_header h]
  constructor
  · rintro ⟨part, hwritten, hfit, rfl⟩
    rw [hpart] at hwritten
    subst hwritten
    exact ⟨hfit, rfl⟩
  · rintro ⟨hfit, rfl⟩
    exact ⟨_, (hpart _).2 rfl, hfit, rfl⟩

/-- **What `make` returns: the header it was given, with the generator's key and a signature of
    the hash of what stood there before.** -/
theorem made_of_make (h : HeaderSizes env (data.by keys)) {block : SealedBlock}
    (hmake : BlockFactory.make env data keys = .ok block) :
    ∃ payload signature, BlockSerializer.serialize env (data.by keys) false = .ok payload ∧
      Signer.signHash env (env.sha256 payload) keys = .ok signature ∧
      (BlockSerializer.headerBytes (data.by keys) ++ ofHex signature).length ≤
        BlockSerializer.length ∧
      ∃ id transactions,
        block.data = ((data.by keys).signed signature).complete id transactions := by
  unfold BlockFactory.make at hmake
  obtain ⟨payload, hpayload, hmake⟩ := TransactionFactory.bind_eq_ok.1 hmake
  obtain ⟨signature, hsign, hmake⟩ := TransactionFactory.bind_eq_ok.1 hmake
  obtain ⟨id, hid, hmake⟩ := TransactionFactory.bind_eq_ok.1 hmake
  unfold BlockFactory.fromData at hmake
  obtain ⟨_, -, hmake⟩ := TransactionFactory.bind_eq_ok.1 hmake
  obtain ⟨serialized, hserialized, hmake⟩ := TransactionFactory.bind_eq_ok.1 hmake
  obtain ⟨b, hread, hsealed⟩ := TransactionFactory.bind_eq_ok.1 hmake
  have hblock : block.data = b.data := by
    rw [← Except.ok.inj hsealed]
  have hhex : IsHex signatureSize signature := (signHash_eq_ok hsign).1
  have hsizes : HeaderSizes env (((data.by keys).signed signature).complete (some id)
      data.transactions) := (h.signed signature).complete _ _
  obtain ⟨transactions, -, hfit, rfl⟩ :=
    (BlockSerializer.serializeWithTransactions_eq_ok hsizes rfl hhex).1 hserialized
  rw [List.append_assoc (BlockSerializer.headerBytes _ ++ ofHex signature)] at hread
  obtain ⟨id', -, hread⟩ := (BlockDeserializer.deserialize_eq_ok hsizes rfl hhex).1 hread
  rw [List.length_append] at hfit
  refine ⟨payload, signature, hpayload, hsign, Nat.le_trans (Nat.le_add_right _ _) hfit,
    some id', ?_⟩
  rw [hblock]
  split at hread
  · rw [hread]
    exact ⟨none, rfl⟩
  · obtain ⟨_, _, _, -, -, -, -, hdata⟩ := hread
    rw [hdata]
    exact ⟨_, rfl⟩

/-! ## 2. The message that is verified -/

/-- Up to blanks at the end, the signature is what stood at its place before. -/
def SameUpToBlanks (before signature : Bytes) : Prop :=
  ∃ k, signature = before ++ Bytes.zeros k ∨ before = signature ++ Bytes.zeros k

/-- What is filled up to the same length is the same just when one goes on with blanks where the
    other ends. -/
theorem filled_eq_iff {before signature : Bytes} {n : Nat} (hbefore : before.length ≤ n)
    (hsignature : signature.length ≤ n) :
    before ++ Bytes.zeros (n - before.length) =
      signature ++ Bytes.zeros (n - signature.length) ↔ SameUpToBlanks before signature := by
  have hzeros : ∀ a b, Bytes.zeros (a + b) = Bytes.zeros a ++ Bytes.zeros b := fun a b =>
    (List.replicate_append_replicate ..).symm
  have htake : ∀ {x y : Bytes} {k m : Nat}, x.length ≤ y.length →
      x ++ Bytes.zeros k = y ++ Bytes.zeros m → y = x ++ Bytes.zeros (y.length - x.length) := by
    intro x y k m hle heq
    have hprefix : y = (x ++ Bytes.zeros k).take y.length := by
      rw [heq, List.take_left]
    have hsum := congrArg List.length heq
    simp only [List.length_append, Bytes.length_zeros] at hsum
    rw [List.take_append, List.take_of_length_le hle] at hprefix
    have hmin : (Bytes.zeros k).take (y.length - x.length) =
        Bytes.zeros (y.length - x.length) := by
      unfold Bytes.zeros
      rw [List.take_replicate, Nat.min_eq_left (by omega)]
    rw [hmin] at hprefix
    exact hprefix
  constructor
  · intro heq
    rcases Nat.le_total before.length signature.length with hle | hle
    · exact ⟨_, Or.inl (htake hle heq)⟩
    · exact ⟨_, Or.inr (htake hle heq.symm)⟩
  · rintro ⟨k, rfl | rfl⟩
    · rw [List.length_append, Bytes.length_zeros] at hsignature ⊢
      rw [List.append_assoc, ← hzeros]
      congr 2
      omega
    · rw [List.length_append, Bytes.length_zeros] at hbefore ⊢
      rw [List.append_assoc, ← hzeros]
      congr 2
      omega

theorem headerWith_eq_iff {data data' : FullBlockData} {before signature : Bytes}
    (hheader : BlockSerializer.headerBytes data' = BlockSerializer.headerBytes data)
    (hbefore : (BlockSerializer.headerBytes data ++ before).length ≤ BlockSerializer.length)
    (hsignature : (BlockSerializer.headerBytes data ++ signature).length ≤
      BlockSerializer.length) :
    headerWith data before = headerWith data' signature ↔ SameUpToBlanks before signature := by
  unfold headerWith
  rw [hheader]
  rw [List.length_append] at hbefore hsignature
  rw [← filled_eq_iff (n := BlockSerializer.length - (BlockSerializer.headerBytes data).length)
    (by omega) (by omega), List.append_assoc, List.append_assoc, List.append_right_inj,
    List.length_append, List.length_append, Nat.sub_add_eq, Nat.sub_add_eq]

/-- The header's bytes do not depend on what is not in the header. -/
theorem headerWith_complete (id : Option String) (transactions : Option (List TransactionData))
    (signature : String) (bytes : Bytes) :
    headerWith ((data.signed signature).complete id transactions) bytes =
      headerWith data bytes := by
  have hheader : BlockSerializer.headerBytes ((data.signed signature).complete id transactions) =
      BlockSerializer.headerBytes data := rfl
  unfold headerWith
  rw [hheader]

/-- With a signature in it, the header is serialized with the signature. -/
theorem serialize_signed (h : HeaderSizes env data) {signature : String}
    (hfit : (BlockSerializer.headerBytes data ++ ofHex signature).length ≤ BlockSerializer.length)
    (id : Option String) (transactions : Option (List TransactionData)) :
    BlockSerializer.serialize env ((data.signed signature).complete id transactions) false =
      .ok (headerWith data (ofHex signature)) := by
  have hheader : BlockSerializer.headerBytes ((data.signed signature).complete id transactions) =
      BlockSerializer.headerBytes data := rfl
  have hsignature : ((data.signed signature).complete id transactions).blockSignature.getD "" =
      signature := rfl
  rw [serialize_unsigned ((h.signed signature).complete id transactions), hheader, hsignature,
    headerWith_complete]
  exact ⟨hfit, rfl⟩

/-- What the verifier asks of the scheme. -/
theorem verifySignature_eq (services : BlockServices) (block : Block) {bytes signature : String}
    (hserialize : services.serialize block.data false = .ok bytes)
    (hsignature : block.data.blockSignature = some signature) (hne : signature ≠ "") :
    (verifySignature services block).settled =
      services.verify (services.sha256 [bytes]) signature
        block.data.generatorPublicKey.text := by
  have hmissing : isMissing (some signature) = false := decide_eq_false hne
  unfold verifySignature
  dsimp only
  rw [hserialize, hsignature]
  dsimp only
  rw [hmissing]
  rfl

/-- The verdict on a signed header. -/
theorem verifySignature_signed {base : Services} {configuration : Configuration}
    (h : HeaderSizes env data) {signature : String} (hhex : IsHex signatureSize signature)
    (hfit : (BlockSerializer.headerBytes data ++ ofHex signature).length ≤ BlockSerializer.length)
    (id : Option String) (list : Option (List TransactionData)) (transactions : List Transaction) :
    (verifySignature (env.blockServices base configuration)
        ⟨((data.signed signature).complete id list).toBlockData, transactions⟩).settled =
      env.scheme.verify (env.sha256 (headerWith data (ofHex signature))) (ofHex signature)
        data.generatorPublicKey.bytes := by
  have hserialize : (env.blockServices base configuration).serialize
      ((data.signed signature).complete id list).toBlockData false =
        .ok (toHex (headerWith data (ofHex signature))) := by
    have hdata : (⟨((data.signed signature).complete id list).toBlockData, none⟩ : FullBlockData) =
        (data.signed signature).complete id none := rfl
    rw [CodecServices.blockServices_serialize, hdata, serialize_signed h hfit]
    rfl
  refine (verifySignature_eq (env.blockServices base configuration)
    ⟨((data.signed signature).complete id list).toBlockData, transactions⟩ hserialize rfl
    (ne_empty_of_isHex hhex)).trans ?_
  generalize headerWith data (ofHex signature) = payload
  show env.scheme.verify (ofHex (toHex (env.sha256 ([toHex payload].flatMap ofHex))))
    (ofHex signature) (ofHex data.generatorPublicKey.text) = _
  rw [ofHex_toHex, List.flatMap_singleton, ofHex_toHex]
  rfl

/-- **A block that was made passes, and the message that is verified is the one that was signed,
    exactly when its signature is what stood at its place before and the scheme accepts the
    exchanged arguments.** -/
theorem verifySignature_make {base : Services} {configuration : Configuration}
    {block : SealedBlock} (h : HeaderSizes env (data.by keys))
    (hmake : BlockFactory.make env data keys = .ok block) :
    ∃ payload signature message,
      BlockSerializer.serialize env (data.by keys) false = .ok payload ∧
      Signer.signHash env (env.sha256 payload) keys = .ok signature ∧
      BlockSerializer.serialize env block.data false = .ok message ∧
      (message = payload ↔ SameUpToBlanks (ofHex (data.blockSignature.getD "")) (ofHex signature)) ∧
      ((verifySignature (env.blockServices base configuration)
          ⟨block.data.toBlockData, block.transactions⟩).settled = .ok true ∧ message = payload ↔
        SameUpToBlanks (ofHex (data.blockSignature.getD "")) (ofHex signature) ∧
          exchanged env (env.sha256 payload) keys = .ok true) := by
  obtain ⟨payload, signature, hpayload, hsign, hfit, id, list, hdata⟩ := made_of_make h hmake
  obtain ⟨hhex, hexchanged⟩ := signHash_eq_ok hsign
  obtain ⟨hbefore, heq⟩ := (serialize_unsigned h).1 hpayload
  have hmessage : headerWith (data.by keys) (ofHex signature) = payload ↔
      SameUpToBlanks (ofHex (data.blockSignature.getD "")) (ofHex signature) := by
    rw [heq, eq_comm]
    exact headerWith_eq_iff rfl hbefore hfit
  refine ⟨payload, signature, headerWith (data.by keys) (ofHex signature), hpayload, hsign, ?_,
    hmessage, ?_⟩
  · rw [hdata]
    exact serialize_signed h hfit id list
  · rw [hdata, verifySignature_signed h hhex hfit id list, hexchanged, ← hmessage]
    constructor
    · rintro ⟨hverdict, hsame⟩
      refine ⟨hsame, ?_⟩
      rw [hsame] at hverdict
      exact hverdict
    · rintro ⟨hsame, hverdict⟩
      refine ⟨?_, hsame⟩
      rw [hsame]
      exact hverdict

/-! ## 3. A block that is made -/

/-- What goes through the codec and has the schema is made. -/
theorem exists_make {payload : Bytes} {signature : String}
    (hpayload : BlockSerializer.serialize env (data.by keys) false = .ok payload)
    (hsign : Signer.signHash env (env.sha256 payload) keys = .ok signature)
    (hinput : BlockCodecInput env ((data.by keys).signed signature))
    (hschema : ∀ bytes, BlockSchema.block env (((data.by keys).signed signature).complete
      (some (toHex (env.sha256 bytes))) data.transactions)) :
    ∃ block, BlockFactory.make env data keys = .ok block := by
  obtain ⟨_, _, id, -, -, hid, -⟩ := block_roundTrips hinput
  obtain ⟨bytes, -, hbytes⟩ := Except.map_eq_ok.1 hid
  have hinput' : BlockCodecInput env
      (((data.by keys).signed signature).complete (some id) data.transactions) :=
    ⟨hinput.sizes.complete (some id) data.transactions, hinput.signature, hinput.count,
      hinput.transactions, hinput.fits⟩
  obtain ⟨serialized, block, _, hserialized, hread, -⟩ := block_roundTrips hinput'
  have hschema' : BlockFactory.applySchema env
      (((data.by keys).signed signature).complete (some id) data.transactions) = .ok () := by
    rw [← hbytes]
    exact if_pos (hschema bytes)
  refine ⟨⟨block.data, block.transactions, toHex serialized⟩, ?_⟩
  unfold BlockFactory.make
  refine TransactionFactory.bind_eq_ok.2 ⟨payload, hpayload, TransactionFactory.bind_eq_ok.2
    ⟨signature, hsign, TransactionFactory.bind_eq_ok.2 ⟨id, hid, ?_⟩⟩⟩
  unfold BlockFactory.fromData
  exact TransactionFactory.bind_eq_ok.2 ⟨(), hschema', TransactionFactory.bind_eq_ok.2
    ⟨serialized, hserialized, TransactionFactory.bind_eq_ok.2 ⟨block, hread, rfl⟩⟩⟩

/-- A block without transactions, before it is signed. -/
def unsignedBlock : FullBlockData :=
  { signedBlock with
    numberOfTransactions := 0, totalFee := 0, payloadLength := 0, blockSignature := none,
    transactions := none }

theorem headerSizes_unsignedBlock : HeaderSizes .small (unsignedBlock.by smallKeys) where
  version := by decide
  timestamp := by decide
  height := by decide
  previousBlock := ⟨_, rfl, isHex_zeros 32⟩
  numberOfTransactions := by decide
  totalAmount := by decide
  totalFee := by decide
  reward := by decide
  payloadLength := by decide
  payloadHash := isHex_zeros 32
  generatorPublicKey := isHex_iff.2 ⟨[1, 2], rfl, rfl⟩

theorem length_headerBytes_unsignedBlock :
    (BlockSerializer.headerBytes (unsignedBlock.by smallKeys)).length = 110 := by decide +kernel

/-- The signatures of the small instance begin with the key. -/
theorem not_sameUpToBlanks_small (message : Bytes) :
    ¬SameUpToBlanks [] (SignatureScheme.smallSignature [1, 2] message) := by
  have hcons : SignatureScheme.smallSignature [1, 2] message =
      1 :: ((2 :: message) ++ Bytes.zeros 64).take 63 := rfl
  rintro ⟨k, heq | heq⟩
  · rw [hcons, List.nil_append] at heq
    have hmem : (1 : UInt8) ∈ Bytes.zeros k := by
      rw [← heq]
      exact List.mem_cons_self
    exact absurd (List.eq_of_mem_replicate hmem) (by decide)
  · rw [hcons] at heq
    cases heq

theorem hex_of_isHex {n : Nat} {s : String} (hn : 0 < n) (h : IsHex n s) :
    TransactionSchema.hex s := by
  have hne : s ≠ "" := by
    rintro rfl
    have hlen : 0 = 2 * n := h.length_text
    omega
  unfold TransactionSchema.hex TransactionSchema.«matches»
  rw [decide_eq_true hne, Bool.true_and, List.all_eq_true]
  exact h.digits

/-- It is made with the small instance. -/
theorem exists_make_unsignedBlock : ∃ block,
    BlockFactory.make .small unsignedBlock smallKeys = .ok block := by
  have hlength := length_headerBytes_unsignedBlock
  obtain ⟨payload, hpayload⟩ : ∃ payload,
      BlockSerializer.serialize .small (unsignedBlock.by smallKeys) false = .ok payload := by
    refine ⟨_, (serialize_unsigned headerSizes_unsignedBlock).2 ⟨?_, rfl⟩⟩
    show (_ ++ []).length ≤ BlockSerializer.length
    rw [List.append_nil, hlength]
    decide
  have hhex : IsHex signatureSize (toHex (SignatureScheme.smallSignature [1, 2]
      (CodecServices.small.sha256 payload))) :=
    isHex_iff.2 ⟨_, SignatureScheme.small.sign_length _ [1, 2] _ rfl, rfl⟩
  have hinput : BlockCodecInput .small ((unsignedBlock.by smallKeys).signed
      (toHex (SignatureScheme.smallSignature [1, 2] (CodecServices.small.sha256 payload)))) :=
    { sizes := headerSizes_unsignedBlock.signed _
      signature := ⟨_, rfl, hhex⟩
      count := rfl
      transactions := fun _ hmem => nomatch hmem
      fits := by
        show (BlockSerializer.headerBytes (unsignedBlock.by smallKeys)).length + 64 + 0 ≤ _
        rw [hlength]
        decide }
  refine exists_make hpayload rfl hinput fun bytes => ?_
  have hid : IsHex 32 (toHex (CodecServices.small.sha256 bytes)) :=
    isHex_iff.2 ⟨_, length_sha256_small bytes, rfl⟩
  have hblockId : BlockSchema.blockId (toHex (CodecServices.small.sha256 bytes)) = true := by
    unfold BlockSchema.blockId
    rw [hex_of_isHex (by decide) hid, hid.length_text]
    rfl
  have hprevious : BlockSchema.blockId (toHex (Bytes.zeros 32)) = true := by decide +kernel
  have hkey : TransactionSchema.publicKey .small smallKeys.publicKey = true := by decide +kernel
  have hpayloadHash : TransactionSchema.hex (toHex (Bytes.zeros 32)) = true := by decide +kernel
  have hsignature := hex_of_isHex (by decide) hhex
  unfold BlockSchema.block BlockSchema.blockHeader
  simp only [Bool.and_eq_true]
  exact ⟨⟨⟨⟨⟨⟨⟨⟨⟨⟨⟨⟨⟨⟨rfl, hblockId⟩, rfl⟩, rfl⟩, hprevious⟩, rfl⟩, rfl⟩, rfl⟩, rfl⟩,
    hkey⟩, rfl⟩, hsignature⟩, hpayloadHash⟩, rfl⟩, rfl⟩

theorem verifySignature_make_small : ∃ block payload signature message,
    BlockFactory.make .small unsignedBlock smallKeys = .ok block ∧
      BlockSerializer.serialize .small (unsignedBlock.by smallKeys) false = .ok payload ∧
      BlockSerializer.serialize .small block.data false = .ok message ∧
      (message = payload ↔ SameUpToBlanks [] (ofHex signature)) := by
  obtain ⟨block, hmake⟩ := exists_make_unsignedBlock
  obtain ⟨payload, signature, message, hpayload, -, hmessage, hstands, -⟩ :=
    @verifySignature_make .small _ _ .simple Sample.configuration _ headerSizes_unsignedBlock hmake
  exact ⟨block, payload, signature, message, hmake, hpayload, hmessage, hstands⟩

/-- **The header that is verified has the signature in it, and a block that was just made does not
    pass.** -/
theorem blockSigning_fails : ¬∀ (env : CodecServices) (base : Services)
    (configuration : Configuration) data keys block, env.scheme.Lawful keys →
      BlockFactory.make env data keys = .ok block →
      (verifySignature (env.blockServices base configuration)
          ⟨block.data.toBlockData, block.transactions⟩).settled = .ok true ∧
        BlockSerializer.serialize env block.data false =
          BlockSerializer.serialize env (data.by keys) false := by
  intro hall
  obtain ⟨block, hmake⟩ := exists_make_unsignedBlock
  obtain ⟨-, hsame⟩ := hall .small .simple Sample.configuration unsignedBlock smallKeys block
    (SignatureScheme.lawful_small _) hmake
  obtain ⟨payload, signature, hpayload, hsign, hfit, id, list, hdata⟩ :=
    made_of_make headerSizes_unsignedBlock hmake
  obtain ⟨hbefore, hmessage⟩ := (serialize_unsigned headerSizes_unsignedBlock).1 hpayload
  rw [hdata, serialize_signed headerSizes_unsignedBlock hfit, hpayload, hmessage] at hsame
  have hstands := (headerWith_eq_iff rfl hbefore hfit).1 (Except.ok.inj hsame).symm
  cases hsign
  rw [ofHex_toHex] at hstands
  exact not_sameUpToBlanks_small _ hstands

end CoreEx
