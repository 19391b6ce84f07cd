/-
  File:      CoreEx/Properties/HeaderCodec.lean
  Subject:   What the bytes of a block say about its size, and what may stand behind them.

  The serializer returns the whole buffer it was given to write to, so the bytes of every block,
  header or not, are 2,000,000, blanks and all. The deserializer takes bytes behind the header
  for transactions; behind the header of a block with transactions it finds blanks, that is an
  empty transaction, and throws. Behind the last transaction it looks at nothing.

  * `headerSize` -- how many bytes a header has; `FixedParts` -- the parts it is read from;
  * `HeaderReadBack`, `SizeAgrees`, `TrailingRefused` -- the three laws;
  * `headerReadBack_iff`, `deserialize_append_iff`, `sizeAgrees_iff` -- when each of them holds;
  * **`headerCodec`** -- the three together, and that they exclude each other.
-/
import CoreEx.Properties.BlockCodec
import CoreEx.Properties.CanonicalDecoding

namespace CoreEx

open Serializer

/-! ## 1. What is read of a header -/

/-- The sizes of a header's fields, summed up. -/
def headerSize (env : CodecServices) : Nat :=
  4 + 4 + 4 + env.hashSize + 4 + 8 + 8 + 8 + 4 + env.hashSize + env.publicKeySize + signatureSize

/-- The size of a property of fixed size. -/
def CodecServices.sizeOf (env : CodecServices) : PropertyType → Nat
  | .uint32 => 4
  | .bigint => 8
  | .hash => env.hashSize
  | .publicKey => env.publicKeySize
  | .signature => signatureSize
  | .transactions => 0

theorem fixedValue_length {env : CodecServices} {type : PropertyType} {bs : Bytes}
    {value : SerializerValue} (h : FixedValue env value bs type) : bs.length = env.sizeOf type := by
  cases type with
  | uint32 =>
    obtain ⟨n, rfl, -, rfl⟩ := h
    exact length_leBytes 4 n.toNat
  | bigint =>
    obtain ⟨n, rfl, -, rfl⟩ := h
    exact length_leBytes 8 n.toNat
  | transactions => exact h.elim
  | _ =>
    obtain ⟨s, rfl, ⟨-, hlength⟩, rfl⟩ := h
    exact hlength

/-- What is read of a value of fixed size is such a value. -/
theorem fixed_of_valueTaken {env : CodecServices} {type : PropertyType} (ht : type ≠ .transactions)
    {count : Option SerializerValue} {bs : Bytes} {value : SerializerValue}
    (h : ValueTaken env ⟨type, none⟩ count bs value) : FixedValue env value bs type := by
  have htext : bs = ofHex (toHex bs) := (ofHex_toHex bs).symm
  cases type with
  | uint32 =>
    obtain ⟨n, rfl, hn, rfl⟩ := h
    exact ⟨n, rfl, by omega, rfl⟩
  | bigint =>
    obtain ⟨n, rfl, hn, rfl⟩ := h
    exact ⟨n, rfl, by omega, rfl⟩
  | transactions => exact absurd rfl ht
  | _ =>
    obtain ⟨hlength, rfl⟩ := h
    exact ⟨_, rfl, isHex_iff.2 ⟨bs, hlength, rfl⟩, htext⟩

/-- The bytes of a value of fixed size are the only ones. -/
theorem fixedValue_unique {env : CodecServices} {type : PropertyType} {value : SerializerValue}
    {bs bs' : Bytes} (h : FixedValue env value bs type) (h' : FixedValue env value bs' type) :
    bs' = bs := by
  have hwritten : PropertyWritten env ⟨type, true⟩ (some value) bs' := propertyWritten_of_fixed h'
  exact eq_of_written_fixed h hwritten

/-- The parts that the properties of a row are read from. -/
abbrev FixedParts (env : CodecServices) (record : BlockProperty → Option SerializerValue) :
    List (BlockProperty × PropertyType) → List Bytes → Prop :=
  List.Forall₂ fun s part => ∃ value, record s.1 = some value ∧ FixedValue env value part s.2

theorem FixedParts.length {env : CodecServices} {record : BlockProperty → Option SerializerValue}
    {row : List (BlockProperty × PropertyType)} {parts : List Bytes}
    (h : FixedParts env record row parts) :
    parts.flatten.length = (row.map fun s => env.sizeOf s.2).sum := by
  induction h with
  | nil => rfl
  | cons hs _ ih =>
    obtain ⟨value, -, hfixed⟩ := hs
    rw [List.flatten_cons, List.length_append, fixedValue_length hfixed, ih]
    rfl

theorem FixedParts.value {env : CodecServices} {record : BlockProperty → Option SerializerValue}
    {row : List (BlockProperty × PropertyType)} {parts : List Bytes}
    (h : FixedParts env record row parts) {s : BlockProperty × PropertyType} (hs : s ∈ row) :
    ∃ value part, record s.1 = some value ∧ FixedValue env value part s.2 := by
  induction h with
  | nil => exact absurd hs List.not_mem_nil
  | cons hs' _ ih =>
    rcases List.mem_cons.1 hs with rfl | hs
    · obtain ⟨value, hvalue, hfixed⟩ := hs'
      exact ⟨value, _, hvalue, hfixed⟩
    · exact ih hs

theorem FixedParts.congr {env : CodecServices}
    {record record' : BlockProperty → Option SerializerValue}
    {row : List (BlockProperty × PropertyType)} {parts : List Bytes}
    (h : FixedParts env record row parts) (hsame : ∀ s ∈ row, record' s.1 = record s.1) :
    FixedParts env record' row parts := by
  induction h with
  | nil => exact .nil
  | cons hs _ ih =>
    obtain ⟨value, hvalue, hfixed⟩ := hs
    exact .cons ⟨value, (hsame _ List.mem_cons_self).trans hvalue, hfixed⟩
      (ih fun s hs => hsame s (List.mem_cons_of_mem _ hs))

theorem FixedParts.unique {env : CodecServices} {record : BlockProperty → Option SerializerValue}
    {row : List (BlockProperty × PropertyType)} {parts parts' : List Bytes}
    (h : FixedParts env record row parts) (h' : FixedParts env record row parts') :
    parts' = parts := by
  induction h generalizing parts' with
  | nil => cases h'; rfl
  | cons hs _ ih =>
    obtain ⟨value, hvalue, hfixed⟩ := hs
    cases h' with
    | cons hs' hrest =>
      obtain ⟨value', hvalue', hfixed'⟩ := hs'
      obtain rfl := Option.some.inj (hvalue.symm.trans hvalue')
      rw [fixedValue_unique hfixed hfixed', ih hrest]

/-- A row of properties of fixed size is read from such parts; no other property is touched. -/
theorem parts_of_taken {env : CodecServices} {count : BlockProperty} :
    ∀ {row : List (BlockProperty × PropertyType)} (_ : (row.map Prod.fst).Nodup)
      (_ : ∀ s ∈ row, s.2 ≠ .transactions)
      {target target' : BlockProperty → Option SerializerValue} {bs : Bytes},
      Taken env count (row.map fun s => (s.1, ⟨s.2, none⟩)) target bs target' →
        (∃ parts, FixedParts env target' row parts ∧ bs = parts.flatten) ∧
        ∀ property, property ∉ row.map Prod.fst → target' property = target property := by
  intro row
  induction row with
  | nil =>
    intro _ _ target target' bs h
    exact ⟨⟨[], .nil, h.1⟩, fun _ _ => by rw [h.2]⟩
  | cons s row ih =>
    intro hnodup hrow target target' bs h
    obtain ⟨hfresh, hnodup⟩ := List.nodup_cons.1 hnodup
    obtain ⟨part, more, value, rfl, hvalue, hmore⟩ := h
    obtain ⟨⟨parts, hparts, rfl⟩, hother⟩ :=
      ih hnodup (fun s hs => hrow s (List.mem_cons_of_mem _ hs)) hmore
    have hfixed := fixed_of_valueTaken (hrow s List.mem_cons_self) hvalue
    have hs : target' s.1 = some value := by
      rw [hother s.1 hfresh, Function.update_self]
    refine ⟨⟨part :: parts, .cons ⟨value, hs, hfixed⟩ hparts, rfl⟩, fun property hp => ?_⟩
    rw [List.map_cons, List.mem_cons, not_or] at hp
    rw [hother property hp.2, Function.update_of_ne hp.1]

/-- The header's parts have the header's size. -/
theorem headerParts_length {env : CodecServices} {record : BlockProperty → Option SerializerValue}
    {parts : List Bytes} (h : FixedParts env record BlockDeserializer.rows parts) :
    parts.flatten.length = headerSize env := by
  rw [h.length]
  show (4 + (4 + (4 + (env.hashSize + (4 + (8 + (8 + (8 + (4 + (env.hashSize +
    (env.publicKeySize + (signatureSize + 0)))))))))))) = _
  unfold headerSize
  omega

/-- The header is read from its parts. -/
theorem parts_of_header {env : CodecServices} {bs : Bytes}
    {record : BlockProperty → Option SerializerValue}
    (h : Taken env .numberOfTransactions BlockDeserializer.schema (fun _ => none) bs record) :
    ∃ parts, FixedParts env record BlockDeserializer.rows parts ∧ bs = parts.flatten := by
  rw [BlockDeserializer.schema_eq] at h
  exact (parts_of_taken (by decide) (by decide) h).1

/-- The header, with its signature, fits its widths and sizes. -/
structure HeaderComplete (env : CodecServices) (data : FullBlockData) : Prop where
  sizes : HeaderSizes env data
  signature : ∃ signature, data.blockSignature = some signature ∧ IsHex signatureSize signature

/-- **An object with properties of fixed sizes is the data of a complete header.** -/
theorem header_of_parts {env : CodecServices} {record : BlockProperty → Option SerializerValue}
    {parts : List Bytes} (h : FixedParts env record BlockDeserializer.rows parts)
    {data : FullBlockData} (hdata : FullBlockData.ofRecord record = .ok data) :
    HeaderComplete env data ∧
      ∀ property, property ≠ .transactions → record property = data.record property := by
  have hnumber : ∀ property, (property, PropertyType.uint32) ∈ BlockDeserializer.rows →
      ∃ n : Nat, record property = some (.number n) ∧ n < 2 ^ 32 := by
    intro property hp
    obtain ⟨_, _, hrecord, n, rfl, hn, -⟩ := h.value hp
    exact ⟨n.toNat, by rw [hrecord, Int.toNat_of_nonneg hn.1], by omega⟩
  have hbig : ∀ property, (property, PropertyType.bigint) ∈ BlockDeserializer.rows →
      ∃ n : Int, record property = some (.bigNumber n) ∧ 0 ≤ n ∧ n < 2 ^ 64 := by
    intro property hp
    obtain ⟨_, _, hrecord, n, rfl, hn, -⟩ := h.value hp
    exact ⟨n, hrecord, hn⟩
  have hhash : ∀ property, (property, PropertyType.hash) ∈ BlockDeserializer.rows →
      ∃ s, record property = some (.text s) ∧ IsHex env.hashSize s := by
    intro property hp
    obtain ⟨_, _, hrecord, s, rfl, hs, -⟩ := h.value hp
    exact ⟨s, hrecord, hs⟩
  obtain ⟨version, hversion, hversion'⟩ := hnumber .version (by decide)
  obtain ⟨timestamp, htimestamp, htimestamp'⟩ := hnumber .timestamp (by decide)
  obtain ⟨height, hheight, hheight'⟩ := hnumber .height (by decide)
  obtain ⟨previousBlock, hprevious, hprevious'⟩ := hhash .previousBlock (by decide)
  obtain ⟨count, hcount, hcount'⟩ := hnumber .numberOfTransactions (by decide)
  obtain ⟨amount, hamount, hamount'⟩ := hbig .totalAmount (by decide)
  obtain ⟨fee, hfee, hfee'⟩ := hbig .totalFee (by decide)
  obtain ⟨reward, hreward, hreward'⟩ := hbig .reward (by decide)
  obtain ⟨payloadLength, hlength, hlength'⟩ := hnumber .payloadLength (by decide)
  obtain ⟨payloadHash, hpayload, hpayload'⟩ := hhash .payloadHash (by decide)
  obtain ⟨_, _, hkey, key, rfl, hkey', -⟩ :=
    h.value (show (BlockProperty.generatorPublicKey, PropertyType.publicKey) ∈ _ by decide)
  obtain ⟨_, _, hsignature, signature, rfl, hsignature', -⟩ :=
    h.value (show (BlockProperty.blockSignature, PropertyType.signature) ∈ _ by decide)
  dsimp only at hkey hsignature
  unfold FullBlockData.ofRecord at hdata
  rw [hversion, htimestamp, hheight, hprevious, hcount, hamount, hfee, hreward, hlength, hpayload,
    hkey, hsignature] at hdata
  unfold FullBlockData.key at hdata
  dsimp only [FullBlockData.number, FullBlockData.bigNumber, FullBlockData.text, bind,
    Except.bind] at hdata
  have hint : (0 : Int) ≤ timestamp ∧ (timestamp : Int) < 2 ^ 32 := by omega
  by_cases hempty : key = ""
  · rw [dif_pos hempty] at hdata
    cases hdata
  · rw [dif_neg hempty] at hdata
    obtain rfl := Except.ok.inj hdata
    refine ⟨⟨⟨hversion', hint, hheight',
      ⟨_, rfl, hprevious'⟩, hcount', hamount', hfee', hreward', hlength', hpayload', hkey'⟩,
      _, rfl, hsignature'⟩, fun property hp => ?_⟩
    cases property with
    | transactions => exact absurd rfl hp
    | version => exact hversion
    | timestamp => exact htimestamp
    | height => exact hheight
    | previousBlock => exact hprevious
    | numberOfTransactions => exact hcount
    | totalAmount => exact hamount
    | totalFee => exact hfee
    | reward => exact hreward
    | payloadLength => exact hlength
    | payloadHash => exact hpayload
    | generatorPublicKey => exact hkey
    | blockSignature => exact hsignature

/-! ## 2. The laws -/

/-- The header that was serialized is the one that is deserialized. -/
def HeaderReadBack (env : CodecServices) (headerOnly : Bool) (data : FullBlockData) : Prop :=
  ∃ bytes block, BlockSerializer.serialize env data true = .ok bytes ∧
    BlockDeserializer.deserialize env bytes headerOnly = .ok block ∧
    block.data.toBlockData = { data.toBlockData with id := block.data.id }

/-- The block is serialized into as many bytes as the block built from it has. -/
def SizeAgrees (env : CodecServices) (data : FullBlockData) : Prop :=
  ∃ bytes block, BlockSerializer.serializeWithTransactions env data = .ok bytes ∧
    BlockDeserializer.deserialize env bytes false = .ok block ∧
    BlockVerifier.size ⟨block.data.toBlockData, block.transactions⟩ = .ok (2 * bytes.length)

/-- With more bytes behind it, the byte string is not the same block. -/
def TrailingRefused (env : CodecServices) (bytes : Bytes) : Prop :=
  ∀ extra block, extra ≠ [] → BlockDeserializer.deserialize env bytes false = .ok block →
    BlockDeserializer.deserialize env (bytes ++ extra) false ≠ .ok block

/-- The three laws for the data of a block. -/
structure HeaderCodecLaw (env : CodecServices) (data : FullBlockData) : Prop where
  header : HeaderReadBack env false data
  size : SizeAgrees env data
  trailing : ∀ bytes, BlockSerializer.serializeWithTransactions env data = .ok bytes →
    TrailingRefused env bytes

/-! ## 3. The header -/

variable {env : CodecServices} {data : FullBlockData}

/-- No transaction is made of no bytes. -/
theorem fromBytes_nil (strict : Option Bool) (t : Transaction) :
    TransactionFactory.fromBytes env [] strict ≠ .ok t := by
  intro h
  obtain ⟨t', id, hread, -⟩ := TransactionFactory.fromBytes_eq_ok.1 h
  cases hread

/-- Behind blanks there are no transactions. -/
theorem count_of_blanks {n : Nat} {buffers shares : List Bytes} {rest : Bytes}
    {transactions : List Transaction} (hall : List.Forall₂ BlockDeserializer.Framed shares buffers)
    (hzeros : Bytes.zeros n = shares.flatten ++ rest)
    (hmade : BlockDeserializer.makeTransactions env buffers = .ok transactions) :
    buffers = [] := by
  cases hall with
  | nil => rfl
  | @cons share buffer shares buffers hframed _ =>
    obtain ⟨hlt, rfl⟩ := hframed
    -- the first length is read off four blanks
    have hlength : buffer.length = 0 := by
      rw [List.flatten_cons, List.append_assoc, List.append_assoc] at hzeros
      have hblank : leBytes 4 buffer.length = leBytes 4 0 := by
        refine List.eq_replicate_iff.2 ⟨length_leBytes _ _, fun b hb => ?_⟩
        have hmem : b ∈ Bytes.zeros n := by
          rw [hzeros]
          exact List.mem_append_left _ hb
        exact List.eq_of_mem_replicate hmem
      exact leBytes_inj hlt (by decide) hblank
    obtain rfl := List.length_eq_zero_iff.1 hlength
    unfold BlockDeserializer.makeTransactions at hmade
    obtain ⟨t, ht, -⟩ := TransactionFactory.bind_eq_ok.1 hmade
    exact absurd ht (fromBytes_nil none t)

/-- The parts of a complete header. -/
theorem fixedParts_header (h : HeaderSizes env data) {signature : String}
    (hsignature : data.blockSignature = some signature) (hhex : IsHex signatureSize signature) :
    FixedParts env data.record BlockDeserializer.rows
      (BlockSerializer.headerParts data ++ [ofHex signature]) := by
  refine List.rel_append (BlockSerializer.fixed_header h) (.cons ⟨.text signature, ?_, ?_⟩ .nil)
  · show data.blockSignature.map SerializerValue.text = _
    rw [hsignature]
    rfl
  · exact ⟨signature, rfl, hhex, rfl⟩

theorem headerBytes_length (h : HeaderSizes env data) {signature : String}
    (hsignature : data.blockSignature = some signature) (hhex : IsHex signatureSize signature) :
    (BlockSerializer.headerBytes data ++ ofHex signature).length = headerSize env := by
  have hlength := headerParts_length (fixedParts_header h hsignature hhex)
  rw [List.flatten_append, List.flatten_singleton] at hlength
  exact hlength

/-- **What is deserialized begins with the bytes of its header.** -/
theorem bytes_of_deserialize {bytes : Bytes} {headerOnly : Bool} {block : DeserializedBlock}
    (h : BlockDeserializer.deserialize env bytes headerOnly = .ok block) :
    HeaderSizes env block.data ∧ ∃ signature rest, block.data.blockSignature = some signature ∧
      IsHex signatureSize signature ∧
      bytes = BlockSerializer.headerBytes block.data ++ ofHex signature ++ rest := by
  unfold BlockDeserializer.deserialize ByteBuffer.fromBuffer at h
  cases hread : (BlockDeserializer.read env headerOnly).run ⟨bytes, 0⟩ with
  | thrown e c =>
    rw [hread] at h
    cases h
  | done x c =>
    rw [hread] at h
    obtain ⟨_, rest, hbytes, ⟨top, more, taken, rfl, htaken, hmore⟩, -⟩ :=
      (BlockDeserializer.reads_read env headerOnly).from_start.1 hread
    obtain ⟨data, hdata, hfinish⟩ := TransactionFactory.bind_eq_ok.1 h
    obtain ⟨id, -, hblock⟩ := TransactionFactory.bind_eq_ok.1 hfinish
    obtain rfl := Except.ok.inj hblock
    have hsame : ∀ property, property ≠ .transactions → x.1 property = taken property := by
      intro property hp
      split at hmore
      · rw [hmore.2]
      · obtain ⟨_, _, transactions, -, -, -, -, rfl⟩ := hmore
        exact Function.update_of_ne hp _ _
    obtain ⟨parts, hparts, rfl⟩ := parts_of_header htaken
    have hheader : ∀ s ∈ BlockDeserializer.rows, s.1 ≠ BlockProperty.transactions := by decide
    have hparts' : FixedParts env x.1 BlockDeserializer.rows parts :=
      hparts.congr fun s hs => hsame s.1 (hheader s hs)
    obtain ⟨⟨hsizes, signature, hsignature, hhex⟩, hrecord⟩ := header_of_parts hparts' hdata
    have hunique : parts = BlockSerializer.headerParts data ++ [ofHex signature] := by
      refine (fixedParts_header hsizes hsignature hhex).unique (hparts'.congr fun s hs => ?_)
      exact (hrecord s.1 (hheader s hs)).symm
    refine ⟨⟨hsizes.version, hsizes.timestamp, hsizes.height, hsizes.previousBlock,
      hsizes.numberOfTransactions, hsizes.totalAmount, hsizes.totalFee, hsizes.reward,
      hsizes.payloadLength, hsizes.payloadHash, hsizes.generatorPublicKey⟩, signature,
      more ++ rest, hsignature, hhex, ?_⟩
    rw [hbytes, hunique, List.flatten_append, List.flatten_singleton, List.append_assoc]
    rfl

/-- A header is complete or not whatever id and transactions stand beside it. -/
theorem HeaderComplete.congr {d d' : FullBlockData} (h : HeaderComplete env d) {id : Option String}
    (hsame : d.toBlockData = { d'.toBlockData with id := id }) : HeaderComplete env d' := by
  obtain ⟨header, transactions⟩ := d
  obtain ⟨header', transactions'⟩ := d'
  dsimp only at hsame
  rw [hsame] at h
  obtain ⟨hsizes, hsignature⟩ := h
  exact ⟨⟨hsizes.version, hsizes.timestamp, hsizes.height, hsizes.previousBlock,
    hsizes.numberOfTransactions, hsizes.totalAmount, hsizes.totalFee, hsizes.reward,
    hsizes.payloadLength, hsizes.payloadHash, hsizes.generatorPublicKey⟩, hsignature⟩

/-- A complete header is serialized, with blanks behind it. -/
theorem serialize_complete (hroom : headerSize env ≤ BlockSerializer.length)
    (h : HeaderSizes env data) {signature : String}
    (hsignature : data.blockSignature = some signature) (hhex : IsHex signatureSize signature) :
    BlockSerializer.serialize env data true =
      .ok (BlockSerializer.headerBytes data ++ ofHex signature ++
        Bytes.zeros (BlockSerializer.length - headerSize env)) := by
  have hrecord : data.record .blockSignature = some (.text signature) := by
    show data.blockSignature.map SerializerValue.text = _
    rw [hsignature]
    rfl
  have hlength := headerBytes_length h hsignature hhex
  refine (BlockSerializer.serialize_header h).2 ⟨ofHex signature, ?_, ?_, ?_⟩
  · rw [hrecord]
    exact propertyWritten_of_fixed ⟨signature, rfl, hhex, rfl⟩
  · rw [hlength]
    exact hroom
  · rw [hlength]

theorem zeros_ne_nil {n : Nat} (h : 0 < n) : Bytes.zeros n ≠ [] := by
  intro hnil
  have hlength := congrArg List.length hnil
  rw [Bytes.length_zeros] at hlength
  exact h.ne' hlength

/-- **A header is read back exactly when it has no transactions, or when only it is asked for.** -/
theorem headerReadBack_iff (hroom : headerSize env < BlockSerializer.length) {headerOnly : Bool} :
    HeaderReadBack env headerOnly data ↔
      HeaderComplete env data ∧ (headerOnly = false → data.numberOfTransactions = 0) := by
  have hblanks := zeros_ne_nil (Nat.sub_pos_of_lt hroom)
  constructor
  · intro h
    obtain ⟨bytes, block, hwritten, hread, hsame⟩ := h
    obtain ⟨hread', signature', rest', hsignature', hhex', -⟩ := bytes_of_deserialize hread
    have hcomplete := HeaderComplete.congr ⟨hread', signature', hsignature', hhex'⟩ hsame
    refine ⟨hcomplete, fun hflag => ?_⟩
    obtain ⟨hsizes, signature, hsignature, hhex⟩ := hcomplete
    obtain rfl :=
      Except.ok.inj (hwritten.symm.trans (serialize_complete hroom.le hsizes hsignature hhex))
    obtain ⟨id, -, hrest⟩ := (BlockDeserializer.deserialize_eq_ok hsizes hsignature hhex).1 hread
    rw [hflag, if_neg fun hc => hc.elim (fun hc => (nomatch hc)) hblanks] at hrest
    obtain ⟨buffers, shares, rest, hcount, hall, hzeros, hmade, -⟩ := hrest
    rw [count_of_blanks hall hzeros hmade] at hcount
    exact hcount.symm
  · intro h
    obtain ⟨⟨hsizes, signature, hsignature, hhex⟩, hcount⟩ := h
    have hwritten := serialize_complete hroom.le hsizes hsignature hhex
    obtain ⟨id, hid⟩ : ∃ id, IDFactory.make env data = .ok id :=
      ⟨_, Except.map_eq_ok.2 ⟨_, hwritten, rfl⟩⟩
    cases headerOnly with
    | true =>
      refine ⟨_, ⟨data.complete (some id) none, []⟩, hwritten,
        (BlockDeserializer.deserialize_eq_ok hsizes hsignature hhex).2 ⟨id, hid, ?_⟩, rfl⟩
      rw [if_pos (Or.inl rfl)]
    | false =>
      refine ⟨_, ⟨data.complete (some id) (some []), []⟩, hwritten,
        (BlockDeserializer.deserialize_eq_ok hsizes hsignature hhex).2 ⟨id, hid, ?_⟩, rfl⟩
      rw [if_neg fun hc => hc.elim (fun hc => (nomatch hc)) hblanks]
      exact ⟨[], [], _, (hcount rfl).symm, .nil, rfl, rfl, rfl⟩

/-! ## 4. Bytes behind a block -/

/-- **More bytes are noticed exactly where nothing stood behind the header.** -/
theorem deserialize_append_iff {bytes extra : Bytes} {block : DeserializedBlock}
    (h : BlockDeserializer.deserialize env bytes false = .ok block) (hextra : extra ≠ []) :
    BlockDeserializer.deserialize env (bytes ++ extra) false ≠ .ok block ↔
      bytes.length = headerSize env := by
  obtain ⟨hsizes, signature, rest, hsignature, hhex, rfl⟩ := bytes_of_deserialize h
  have hlength := headerBytes_length hsizes hsignature hhex
  obtain ⟨id, hid, hblock⟩ := (BlockDeserializer.deserialize_eq_ok hsizes hsignature hhex).1 h
  have hmore : rest ++ extra ≠ [] := fun hnil => hextra (List.append_eq_nil_iff.1 hnil).2
  rw [List.length_append, hlength, List.append_assoc _ rest]
  by_cases hrest : rest = []
  · subst hrest
    rw [if_pos (Or.inr rfl)] at hblock
    refine iff_of_true (fun hread => ?_) (by simp)
    -- with bytes behind the header there is a list of transactions
    obtain ⟨id', -, hblock'⟩ :=
      (BlockDeserializer.deserialize_eq_ok hsizes hsignature hhex).1 hread
    rw [if_neg fun hc => hc.elim (fun hc => (nomatch hc)) hmore] at hblock'
    obtain ⟨_, _, _, -, -, -, -, hdata⟩ := hblock'
    have hnone : block.data.transactions = none := congrArg (·.data.transactions) hblock
    have hsome := congrArg FullBlockData.transactions hdata
    rw [hnone] at hsome
    cases hsome
  · rw [if_neg fun hc => hc.elim (fun hc => (nomatch hc)) hrest] at hblock
    obtain ⟨buffers, shares, rest', hcount, hall, rfl, hmade, hdata⟩ := hblock
    refine iff_of_false (fun hne => hne ?_) fun hsame =>
      hrest (List.length_eq_zero_iff.1 (by omega))
    refine (BlockDeserializer.deserialize_eq_ok hsizes hsignature hhex).2 ⟨id, hid, ?_⟩
    rw [if_neg fun hc => hc.elim (fun hc => (nomatch hc)) hmore]
    exact ⟨buffers, shares, rest' ++ extra, hcount, hall, List.append_assoc .., hmade, hdata⟩

/-! ## 5. The size -/

/-- Every block is serialized into a whole buffer. -/
theorem length_of_serialized {bytes : Bytes}
    (h : BlockSerializer.serializeWithTransactions env data = .ok bytes) :
    bytes.length = BlockSerializer.length := by
  obtain ⟨parts, -, hfit, rfl⟩ := serialize_eq_ok.1 h
  rw [List.length_append, Bytes.length_zeros]
  omega

/-- A transaction that is made of its own bytes keeps them. -/
theorem serialized_of_made (hinv : env.AddressesReturn) {bytes : Bytes} {t : Transaction}
    (hmade : TransactionFactory.fromBytes env bytes none = .ok t)
    (hbytes : TransactionUtils.toBytes env t.data = .ok bytes) :
    t.serialized = toHex bytes := by
  obtain ⟨f, c, data, rfl, hf, -⟩ := (toBytes_iff_canonical hinv hmade).1 hbytes
  obtain ⟨t', id, hread, -, rfl, -⟩ := TransactionFactory.fromBytes_eq_ok.1 hmade
  have hread' : TransactionDeserializer.deserialize env f.bytes = .ok ⟨data, toHex f.bytes⟩ :=
    TransactionDeserializer.deserialize_eq_ok.2 ⟨f, c, [], (List.append_nil _).symm, hf, rfl⟩
  exact congrArg Transaction.serialized (Except.ok.inj (hread.symm.trans hread'))

/-- What the size counts of transactions is the length of their shares. -/
theorem weight_of_made (hinv : env.AddressesReturn) {transactions : List TransactionData}
    {shares buffers : List Bytes} {made : List Transaction}
    (hshares : List.Forall₂ (TransactionWritten env) transactions shares)
    (hframed : List.Forall₂ BlockDeserializer.Framed shares buffers)
    (hmade : BlockDeserializer.makeTransactions env buffers = .ok made)
    (hdata : made.map (·.data) = transactions) :
    (made.map fun t => 2 * 4 + BlockVerifier.halfBytes t.serialized).sum =
      2 * shares.flatten.length := by
  induction hshares generalizing buffers made with
  | nil =>
    rw [List.map_eq_nil_iff.1 hdata]
    rfl
  | @cons transaction share transactions shares hwritten hrest ih =>
    obtain ⟨serialized, hbytes, hlt, rfl⟩ := hwritten
    cases hframed with
    | @cons _ buffer _ buffers hframe hframed =>
      obtain ⟨-, hsame⟩ := hframe
      obtain ⟨-, rfl⟩ := List.append_inj hsame (by rw [length_leBytes, length_leBytes])
      unfold BlockDeserializer.makeTransactions at hmade
      obtain ⟨t, ht, hmade⟩ := TransactionFactory.bind_eq_ok.1 hmade
      obtain ⟨made', hmade', hok⟩ := TransactionFactory.bind_eq_ok.1 hmade
      obtain rfl := Except.ok.inj hok
      rw [List.map_cons, List.cons.injEq] at hdata
      obtain ⟨rfl, hdata⟩ := hdata
      rw [List.map_cons, List.sum_cons, ih hframed hmade' hdata, serialized_of_made hinv ht hbytes,
        List.flatten_cons, List.length_append, List.length_append, length_leBytes]
      unfold BlockVerifier.halfBytes
      rw [length_toHex]
      omega

/-- A header with transactions has the size of its parts. -/
theorem size_of_header (hhash : env.hashSize = 32) (h : HeaderSizes env data) {signature : String}
    (hsignature : data.blockSignature = some signature) (hhex : IsHex signatureSize signature)
    {transactions : List Transaction} {n : Nat}
    (hsum : (transactions.map fun t => 2 * 4 + BlockVerifier.halfBytes t.serialized).sum = 2 * n) :
    BlockVerifier.size ⟨data.toBlockData, transactions⟩ = .ok (2 * (headerSize env + n)) := by
  unfold BlockVerifier.size
  dsimp only
  rw [hsignature]
  dsimp only
  rw [hsum]
  unfold BlockVerifier.halfBytes headerSize
  rw [h.payloadHash.length_text, h.generatorPublicKey.length_text, hhex.length_text, hhash]
  congr 1
  omega

/-- **A block is built that has the size of its header and its transactions.** -/
theorem size_of_built (hinv : env.AddressesReturn) (hhash : env.hashSize = 32)
    (h : BlockCodecInput env data) :
    ∃ bytes block, BlockSerializer.serializeWithTransactions env data = .ok bytes ∧
      BlockDeserializer.deserialize env bytes false = .ok block ∧
      BlockVerifier.size ⟨block.data.toBlockData, block.transactions⟩ =
        .ok (2 * (headerSize env + transactionsLength env (data.transactions.getD []))) := by
  obtain ⟨signature, hsignature, hhex⟩ := h.signature
  have hfits := h.fits
  obtain ⟨shares, buffers, made, hshares, hframed, hcount, hsum, hmade, hmap⟩ :=
    written_of_survives h.transactions (by omega)
  have hheader := headerBytes_length h.sizes hsignature hhex
  rw [List.length_append, hhex.2] at hheader
  have hlength : (BlockSerializer.headerBytes data ++ ofHex signature ++
      shares.flatten).length ≤ BlockSerializer.length := by
    rw [List.length_append, List.length_append, hsum, hhex.2]
    exact hfits
  have hwritten := (BlockSerializer.serializeWithTransactions_eq_ok h.sizes hsignature hhex).2
    ⟨_, transactions_written hshares, hlength, rfl⟩
  obtain ⟨id, hid⟩ : ∃ id, IDFactory.make env data = .ok id := by
    have hroom : headerSize env ≤ BlockSerializer.length := by
      unfold BlockSerializer.length
      omega
    exact ⟨_, Except.map_eq_ok.2 ⟨_, serialize_complete hroom h.sizes hsignature hhex, rfl⟩⟩
  have hweight := weight_of_made hinv hshares hframed hmade hmap
  rw [hsum] at hweight
  rw [List.append_assoc (BlockSerializer.headerBytes data ++ ofHex signature)] at hwritten
  by_cases hempty : shares.flatten ++ Bytes.zeros (BlockSerializer.length -
      (BlockSerializer.headerBytes data ++ ofHex signature ++ shares.flatten).length) = []
  · rw [(List.append_eq_nil_iff.1 hempty).1] at hsum
    refine ⟨_, ⟨data.complete (some id) none, []⟩, hwritten,
      (BlockDeserializer.deserialize_eq_ok h.sizes hsignature hhex).2 ⟨id, hid, ?_⟩, ?_⟩
    · rw [if_pos (Or.inr hempty)]
    · rw [← hsum]
      exact size_of_header hhash h.sizes hsignature hhex rfl
  · refine ⟨_, ⟨data.complete (some id) (some (made.map (·.data))), made⟩, hwritten,
      (BlockDeserializer.deserialize_eq_ok h.sizes hsignature hhex).2 ⟨id, hid, ?_⟩,
      size_of_header hhash h.sizes hsignature hhex hweight⟩
    rw [if_neg fun hc => hc.elim (fun hc => (nomatch hc)) hempty]
    exact ⟨buffers, shares, _, hcount.trans h.count.symm, hframed, rfl, hmade, rfl⟩

/-- A block has the size of its bytes exactly when it fills the buffer. -/
theorem sizeAgrees_iff (hinv : env.AddressesReturn) (hhash : env.hashSize = 32)
    (h : BlockCodecInput env data) : SizeAgrees env data ↔
      headerSize env + transactionsLength env (data.transactions.getD []) =
        BlockSerializer.length := by
  obtain ⟨bytes, block, hwritten, hread, hsize⟩ := size_of_built hinv hhash h
  have hlength := length_of_serialized hwritten
  constructor
  · intro hagrees
    obtain ⟨bytes', block', hwritten', hread', hsize'⟩ := hagrees
    obtain rfl := Except.ok.inj (hwritten.symm.trans hwritten')
    obtain rfl := Except.ok.inj (hread.symm.trans hread')
    have heq := Except.ok.inj (hsize.symm.trans hsize')
    omega
  · intro hfull
    refine ⟨bytes, block, hwritten, hread, ?_⟩
    rw [hsize, hfull, hlength]

/-! ## 6. The three laws -/

/-- **A header is read back exactly where there are no transactions (or only it is asked for), the
    size is the number of bytes exactly where the block fills the buffer, more bytes are noticed
    exactly behind a bare header; so no block keeps all three laws.** -/
theorem headerCodec (env : CodecServices) (hinv : env.AddressesReturn) (hhash : env.hashSize = 32)
    (hroom : headerSize env < BlockSerializer.length) :
    (∀ headerOnly data, HeaderReadBack env headerOnly data ↔
      HeaderComplete env data ∧ (headerOnly = false → data.numberOfTransactions = 0)) ∧
    (∀ data, BlockCodecInput env data → (SizeAgrees env data ↔
      headerSize env + transactionsLength env (data.transactions.getD []) =
        BlockSerializer.length)) ∧
    (∀ bytes block, BlockDeserializer.deserialize env bytes false = .ok block →
      (TrailingRefused env bytes ↔ bytes.length = headerSize env)) ∧
    ∀ data, ¬ HeaderCodecLaw env data := by
  have htrailing : ∀ bytes block, BlockDeserializer.deserialize env bytes false = .ok block →
      (TrailingRefused env bytes ↔ bytes.length = headerSize env) := by
    intro bytes block h
    constructor
    · intro hrefused
      have hextra : ([0] : Bytes) ≠ [] := List.cons_ne_nil _ _
      exact (deserialize_append_iff h hextra).1 (hrefused _ block hextra h)
    · intro hlength extra block' hextra h'
      exact (deserialize_append_iff h' hextra).2 hlength
  refine ⟨fun _ data => headerReadBack_iff hroom, fun data => sizeAgrees_iff hinv hhash, htrailing,
    fun data hlaw => ?_⟩
  obtain ⟨bytes, block, hwritten, hread, -⟩ := hlaw.size
  have hbare := (htrailing bytes block hread).1 (hlaw.trailing bytes hwritten)
  rw [length_of_serialized hwritten] at hbare
  omega

/-- The sample block without its transaction. -/
def bareBlock : FullBlockData :=
  { signedBlock with numberOfTransactions := 0, transactions := none }

theorem headerComplete_bareBlock : HeaderComplete .small bareBlock :=
  ⟨{ headerSizes_signedBlock with
      numberOfTransactions := show 0 < 2 ^ 32 by decide }, _, rfl, isHex_zeros 64⟩

/-- Its header comes back, but not in the size of the block. -/
theorem headerCodec_bareBlock :
    HeaderReadBack .small false bareBlock ∧ ¬ HeaderCodecLaw .small bareBlock := by
  obtain ⟨hheader, -, -, hnever⟩ :=
    headerCodec .small addressesReturn_small rfl (by decide +kernel)
  exact ⟨(hheader false bareBlock).2 ⟨headerComplete_bareBlock, fun _ => rfl⟩, hnever bareBlock⟩

/-- **The header of the sample block, which has one transaction, is complete and is not read
    back.** -/
theorem signedBlock_not :
    HeaderComplete .small signedBlock ∧ ¬ HeaderCodecLaw .small signedBlock := by
  refine ⟨⟨headerSizes_signedBlock, _, rfl, isHex_zeros 64⟩, fun hlaw => ?_⟩
  have hcount := ((headerReadBack_iff (by decide +kernel)).1 hlaw.header).2 rfl
  cases hcount

end CoreEx
