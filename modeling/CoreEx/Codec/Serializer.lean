/-
  File:      CoreEx/Codec/Serializer.lean
  Subject:   `core-serializer/source/serializer.ts`: objects written and read along a table of
             their properties.

  The tables of this repository ask for six of the eight types of properties; `address` and
  `uint64` are left out, and so is `skip`, which no table sets.

  * `PropertyType`, `SerializerValue` -- the types of the tables and the values they stand for;
  * `Serializer.serialize` -- the whole buffer comes back, blanks and all; `Serializer.deserialize`;
  * **`serialize_eq_ok`** -- when there are bytes, and which;
  * `FixedValue` -- the values that have a fixed size; **`takenFrom_of_fixed`** -- a row of them is
    read back from its bytes.
-/
import CoreEx.Codec.TransactionFactory
import Mathlib.Logic.Function.Basic

namespace CoreEx

/-! ## 1. The code -/

/-- `PropertyType`. -/
inductive PropertyType
  | uint32
  | bigint
  | hash
  | publicKey
  | signature
  | transactions
  deriving DecidableEq, Repr

/-- `SerializationSchema`; `required` is only ever compared with `false`. -/
structure SerializationSchema where
  type : PropertyType
  required : Bool
  deriving DecidableEq, Repr

/-- `DeserializationSchema`. -/
structure DeserializationSchema where
  type : PropertyType
  size : Option Nat
  deriving DecidableEq, Repr

/-- What a property can hold. -/
inductive SerializerValue
  | number (n : Int)
  | bigNumber (n : Int)
  | text (s : String)
  | transactions (l : List TransactionData)
  | buffers (l : List Bytes)
  deriving DecidableEq, Repr

namespace Serializer

/-- One pass of the loop over transactions. -/
def writeTransaction (env : CodecServices) (transaction : TransactionData) :
    Prog ByteBuffer Exception Unit := do
  let serialized ← Prog.ofExcept (TransactionUtils.toBytes env transaction)
  ByteBuffer.writeUint32 serialized.length
  ByteBuffer.writeBytes serialized

/-- The body of the loop in `serialize`, for a property that is not skipped. -/
def writeValue (env : CodecServices) :
    PropertyType → Option SerializerValue → Prog ByteBuffer Exception Unit
  | .uint32, some (.number n) => ByteBuffer.writeUint32 n
  | .bigint, some (.bigNumber n) => ByteBuffer.writeUint64 n
  | .hash, some (.text s) => ByteBuffer.writeBytes (ofHex s)
  | .publicKey, some (.text s) => ByteBuffer.writeBytes (ofHex s)
  | .signature, some (.text s) => ByteBuffer.writeBytes (ofHex s)
  | .transactions, some (.transactions l) => Prog.forEach (writeTransaction env) l
  | _, _ => Prog.throw (.typeError "The property is not of its type")

/-- `if (data[property] === undefined && schema.required === false) continue`. -/
def writeProperty (env : CodecServices) (schema : SerializationSchema)
    (value : Option SerializerValue) : Prog ByteBuffer Exception Unit :=
  if value = none ∧ schema.required = false then pure () else writeValue env schema.type value

variable {P : Type}

/-- `serialize(data, { length, schema })`. -/
def serialize (env : CodecServices) (length : Nat) (schema : List (P × SerializationSchema))
    (data : P → Option SerializerValue) : Except Exception Bytes :=
  (ByteBuffer.runOn (ByteBuffer.fromSize length)
    (Prog.forEach (fun s => writeProperty env s.2 (data s.1)) schema)).map ByteBuffer.toBuffer

/-- How often `index < target.numberOfTransactions` holds. -/
def countOf : Option SerializerValue → Nat
  | some (.number n) => n.toNat
  | _ => 0

/-- `source.readBytes(source.readUint32())`. -/
def readTransaction : Prog ByteBuffer Exception Bytes := do
  let length ← ByteBuffer.readUint32
  ByteBuffer.readBytes length

/-- The body of the loop in `deserialize`. -/
def readValue (env : CodecServices) (schema : DeserializationSchema)
    (numberOfTransactions : Option SerializerValue) : Prog ByteBuffer Exception SerializerValue :=
  match schema.type with
  | .uint32 => do
    let n ← ByteBuffer.readUint32
    pure (.number n)
  | .bigint => do
    let n ← ByteBuffer.readUint64
    pure (.bigNumber n)
  | .hash => do
    let bytes ← ByteBuffer.readBytes (schema.size.getD env.hashSize)
    pure (.text (toHex bytes))
  | .publicKey => do
    let bytes ← ByteBuffer.readBytes env.publicKeySize
    pure (.text (toHex bytes))
  | .signature => do
    let bytes ← ByteBuffer.readBytes signatureSize
    pure (.text (toHex bytes))
  | .transactions => do
    let buffers ← Prog.collect readTransaction (countOf numberOfTransactions)
    pure (.buffers buffers)

/-- `deserialize(source, target, { schema })`; `count` is the property `numberOfTransactions`. -/
def deserialize [DecidableEq P] (env : CodecServices) (count : P) :
    List (P × DeserializationSchema) → (P → Option SerializerValue) →
      Prog ByteBuffer Exception (P → Option SerializerValue)
  | [], target => pure target
  | (property, schema) :: rest, target => do
    let value ← readValue env schema (target count)
    deserialize env count rest (Function.update target property (some value))

/-! ## 2. What is written -/

/-- The bytes of a transaction in a list. -/
def TransactionWritten (env : CodecServices) (transaction : TransactionData) (share : Bytes) :
    Prop :=
  ∃ serialized, TransactionUtils.toBytes env transaction = .ok serialized ∧
    serialized.length < 256 ^ 4 ∧ share = leBytes 4 serialized.length ++ serialized

/-- The bytes of a value that is not skipped. -/
def ValueWritten (env : CodecServices) (value : Option SerializerValue) (bs : Bytes) :
    PropertyType → Prop
  | .uint32 => ∃ n, value = some (.number n) ∧ (0 ≤ n ∧ n < 256 ^ 4) ∧ bs = leBytes 4 n.toNat
  | .bigint => ∃ n, value = some (.bigNumber n) ∧ (0 ≤ n ∧ n < 256 ^ 8) ∧ bs = leBytes 8 n.toNat
  | .hash | .publicKey | .signature => ∃ s, value = some (.text s) ∧ bs = ofHex s
  | .transactions => ∃ l shares, value = some (.transactions l) ∧
      List.Forall₂ (TransactionWritten env) l shares ∧ bs = shares.flatten

/-- The bytes of a property. -/
def PropertyWritten (env : CodecServices) (schema : SerializationSchema)
    (value : Option SerializerValue) (bs : Bytes) : Prop :=
  if value = none ∧ schema.required = false then bs = [] else ValueWritten env value bs schema.type

theorem writes_writeTransaction (env : CodecServices) (transaction : TransactionData) :
    Cursor.Writes 0 (writeTransaction env transaction) fun bs _ =>
      TransactionWritten env transaction bs := by
  refine ((Cursor.Writes.ofExcept (TransactionUtils.toBytes env transaction)).bind fun serialized =>
    (TransactionSerializer.puts_nat 4 _).seq (ByteBuffer.writes_writeBytes serialized)).congr
      fun bs _ => ?_
  constructor
  · rintro ⟨_, _, serialized, rfl, ⟨rfl, h⟩, ⟨hlt, -⟩, rfl⟩
    exact ⟨serialized, h, hlt, rfl⟩
  · rintro ⟨serialized, h, hlt, rfl⟩
    exact ⟨[], _, serialized, rfl, ⟨rfl, h⟩, ⟨hlt, trivial⟩, rfl⟩

theorem writes_writeValue (env : CodecServices) (type : PropertyType)
    (value : Option SerializerValue) :
    Cursor.Writes 0 (writeValue env type value) fun bs _ => ValueWritten env value bs type := by
  have hthrow : ∀ {W : Bytes → Prop}, (∀ bs, ¬W bs) → Cursor.Writes (0 : UInt8)
      (Prog.throw (.typeError "The property is not of its type") : Prog ByteBuffer Exception Unit)
      fun bs _ => W bs := by
    intro W hW
    exact (Cursor.Writes.throw _).congr fun bs _ => ⟨False.elim, fun h => hW bs h⟩
  have hnat : ∀ (n : Nat) (v : Int), Cursor.Writes 0 (ByteBuffer.writeLE n v) fun bs _ =>
      (0 ≤ v ∧ v < 256 ^ n) ∧ bs = leBytes n v.toNat := ByteBuffer.writes_writeLE
  have hbytes : ∀ s : String, Cursor.Writes 0 (ByteBuffer.writeBytes (ofHex s)) fun bs _ =>
      True ∧ bs = ofHex s := fun s => ByteBuffer.writes_writeBytes (ofHex s)
  cases type with
  | uint32 =>
    rcases value with _ | n | n | s | l | l
    case some.number =>
      refine (hnat 4 n).congr fun bs _ => ⟨fun h => ⟨n, rfl, h⟩, ?_⟩
      rintro ⟨_, heq, h⟩
      cases heq
      exact h
    all_goals
      refine hthrow fun bs => ?_
      rintro ⟨_, heq, _⟩
      cases heq
  | bigint =>
    rcases value with _ | n | n | s | l | l
    case some.bigNumber =>
      refine (hnat 8 n).congr fun bs _ => ⟨fun h => ⟨n, rfl, h⟩, ?_⟩
      rintro ⟨_, heq, h⟩
      cases heq
      exact h
    all_goals
      refine hthrow fun bs => ?_
      rintro ⟨_, heq, _⟩
      cases heq
  | transactions =>
    rcases value with _ | n | n | s | l | l
    case some.transactions =>
      refine (Cursor.Writes.forEach (writes_writeTransaction env) l).congr fun bs _ => ⟨?_, ?_⟩
      · rintro ⟨shares, rfl, hall⟩
        exact ⟨l, shares, rfl, hall, rfl⟩
      · rintro ⟨_, shares, heq, hall, rfl⟩
        cases heq
        exact ⟨shares, rfl, hall⟩
    all_goals
      refine hthrow fun bs => ?_
      rintro ⟨_, _, heq, _⟩
      cases heq
  | _ =>
    rcases value with _ | n | n | s | l | l
    case some.text =>
      refine (hbytes s).congr fun bs _ => ⟨fun h => ⟨s, rfl, h.2⟩, ?_⟩
      rintro ⟨_, heq, h⟩
      cases heq
      exact ⟨trivial, h⟩
    all_goals
      refine hthrow fun bs => ?_
      rintro ⟨_, heq, _⟩
      cases heq

theorem writes_writeProperty (env : CodecServices) (schema : SerializationSchema)
    (value : Option SerializerValue) :
    Cursor.Writes 0 (writeProperty env schema value) fun bs _ =>
      PropertyWritten env schema value bs := by
  unfold writeProperty PropertyWritten
  split
  · exact (Cursor.Writes.pure ()).congr fun bs _ => ⟨And.left, fun h => ⟨h, rfl⟩⟩
  · exact writes_writeValue env schema.type value

/-- **There are bytes exactly when every property can be written and the whole fits; what comes
    back is the whole buffer.** -/
theorem serialize_eq_ok {env : CodecServices} {length : Nat}
    {schema : List (P × SerializationSchema)} {data : P → Option SerializerValue} {bytes : Bytes} :
    serialize env length schema data = .ok bytes ↔ ∃ parts : List Bytes,
      List.Forall₂ (fun s part => PropertyWritten env s.2 (data s.1) part) schema parts ∧
      parts.flatten.length ≤ length ∧
      bytes = parts.flatten ++ Bytes.zeros (length - parts.flatten.length) := by
  have hwrites := Cursor.Writes.forEach
    (fun s : P × SerializationSchema => writes_writeProperty env s.2 (data s.1)) schema
  unfold serialize
  rw [Except.map_eq_ok]
  constructor
  · rintro ⟨b, hb, rfl⟩
    obtain ⟨bs, ⟨parts, rfl, hparts⟩, hfit, rfl⟩ := (ByteBuffer.runOn_eq_ok hwrites).1 hb
    exact ⟨parts, hparts, hfit, ByteBuffer.toBuffer_filled length _⟩
  · rintro ⟨parts, hparts, hfit, rfl⟩
    exact ⟨_, (ByteBuffer.runOn_eq_ok hwrites).2 ⟨_, ⟨parts, rfl, hparts⟩, hfit, rfl⟩,
      ByteBuffer.toBuffer_filled length _⟩

/-! ## 3. What is read -/

/-- The bytes a value is read from. -/
def ValueTaken (env : CodecServices) (schema : DeserializationSchema)
    (numberOfTransactions : Option SerializerValue) (bs : Bytes) (value : SerializerValue) : Prop :=
  match schema.type with
  | .uint32 => ∃ n : Nat, bs = leBytes 4 n ∧ n < 256 ^ 4 ∧ value = .number n
  | .bigint => ∃ n : Nat, bs = leBytes 8 n ∧ n < 256 ^ 8 ∧ value = .bigNumber n
  | .hash => bs.length = schema.size.getD env.hashSize ∧ value = .text (toHex bs)
  | .publicKey => bs.length = env.publicKeySize ∧ value = .text (toHex bs)
  | .signature => bs.length = signatureSize ∧ value = .text (toHex bs)
  | .transactions => ∃ l shares : List Bytes, l.length = countOf numberOfTransactions ∧
      List.Forall₂ (fun share serialized => serialized.length < 256 ^ 4 ∧
        share = leBytes 4 serialized.length ++ serialized) shares l ∧
      bs = shares.flatten ∧ value = .buffers l

theorem reads_readTransaction : Cursor.Reads readTransaction fun consumed _ serialized =>
    serialized.length < 256 ^ 4 ∧ consumed = leBytes 4 serialized.length ++ serialized := by
  refine ((ByteBuffer.reads_readLE 4).bindEnc fun n => ByteBuffer.reads_readBytes n).congr
    fun consumed rest serialized => ?_
  constructor
  · rintro ⟨n, _, rfl, hlt, rfl, rfl⟩
    exact ⟨hlt, rfl⟩
  · rintro ⟨hlt, rfl⟩
    exact ⟨serialized.length, serialized, rfl, hlt, rfl, rfl⟩

theorem reads_readValue (env : CodecServices) (schema : DeserializationSchema)
    (numberOfTransactions : Option SerializerValue) :
    Cursor.Reads (readValue env schema numberOfTransactions) fun consumed _ value =>
      ValueTaken env schema numberOfTransactions consumed value := by
  have hnat : ∀ (k : Nat) (f : Nat → SerializerValue), Cursor.Reads
      (do let n ← ByteBuffer.readLE k; pure (f n) : Prog ByteBuffer Exception SerializerValue)
      fun consumed _ value => ∃ n, consumed = leBytes k n ∧ n < 256 ^ k ∧ value = f n := by
    intro k f
    refine ((ByteBuffer.reads_readLE k).bindEnc fun n => Cursor.Reads.pure (f n)).congr
      fun consumed rest value => ⟨?_, ?_⟩
    · rintro ⟨n, _, rfl, hlt, rfl, rfl⟩
      exact ⟨n, List.append_nil _, hlt, rfl⟩
    · rintro ⟨n, rfl, hlt, rfl⟩
      exact ⟨n, [], (List.append_nil _).symm, hlt, rfl, rfl⟩
  have hbytes : ∀ k : Nat, Cursor.Reads
      (do let bytes ← ByteBuffer.readBytes k; pure (.text (toHex bytes)) :
        Prog ByteBuffer Exception SerializerValue)
      fun consumed _ value => consumed.length = k ∧ value = .text (toHex consumed) := by
    intro k
    refine ((ByteBuffer.reads_readBytes k).bind fun bytes =>
      Cursor.Reads.pure (SerializerValue.text (toHex bytes))).congr
        fun consumed rest value => ⟨?_, ?_⟩
    · rintro ⟨_, _, bytes, rfl, ⟨rfl, hlen⟩, rfl, rfl⟩
      rw [List.append_nil]
      exact ⟨hlen, rfl⟩
    · rintro ⟨hlen, rfl⟩
      exact ⟨consumed, [], consumed, (List.append_nil _).symm, ⟨rfl, hlen⟩, rfl, rfl⟩
  unfold readValue ValueTaken
  cases schema.type with
  | uint32 => exact hnat 4 _
  | bigint => exact hnat 8 _
  | hash => exact hbytes _
  | publicKey => exact hbytes _
  | signature => exact hbytes _
  | transactions =>
    refine ((reads_readTransaction.collect _).bind fun buffers =>
      Cursor.Reads.pure (SerializerValue.buffers buffers)).congr
        fun consumed rest value => ⟨?_, ?_⟩
    · rintro ⟨_, _, buffers, rfl, ⟨hlen, shares, rfl, hall⟩, rfl, rfl⟩
      exact ⟨buffers, shares, hlen, hall, List.append_nil _, rfl⟩
    · rintro ⟨buffers, shares, hlen, hall, rfl, rfl⟩
      exact ⟨_, [], buffers, (List.append_nil _).symm, ⟨hlen, shares, rfl, hall⟩, rfl, rfl⟩

/-- The target after a row of properties was read from `bs`. -/
def Taken [DecidableEq P] (env : CodecServices) (count : P) :
    List (P × DeserializationSchema) → (P → Option SerializerValue) → Bytes →
      (P → Option SerializerValue) → Prop
  | [], target, bs, target' => bs = [] ∧ target' = target
  | (property, schema) :: rest, target, bs, target' => ∃ part more value,
    bs = part ++ more ∧ ValueTaken env schema (target count) part value ∧
      Taken env count rest (Function.update target property (some value)) more target'

/-- **`deserialize` takes exactly the bytes of such a row.** -/
theorem reads_deserialize [DecidableEq P] (env : CodecServices) (count : P)
    (schema : List (P × DeserializationSchema)) (target : P → Option SerializerValue) :
    Cursor.Reads (deserialize env count schema target) fun consumed _ target' =>
      Taken env count schema target consumed target' := by
  induction schema generalizing target with
  | nil => exact Cursor.Reads.pure target
  | cons s rest ih =>
    obtain ⟨property, s⟩ := s
    refine ((reads_readValue env s (target count)).bind fun value =>
      ih (Function.update target property (some value))).congr fun consumed rest' target' => ?_
    constructor
    · rintro ⟨part, more, value, rfl, hvalue, hrest⟩
      exact ⟨part, more, value, rfl, hvalue, hrest⟩
    · rintro ⟨part, more, value, rfl, hvalue, hrest⟩
      exact ⟨part, more, value, rfl, hvalue, hrest⟩

/-! ## 4. Values of a fixed size -/

/-- The value, of a type whose values all have the same size, and its bytes. -/
def FixedValue (env : CodecServices) (value : SerializerValue) (bs : Bytes) : PropertyType → Prop
  | .uint32 => ∃ n, value = .number n ∧ (0 ≤ n ∧ n < 256 ^ 4) ∧ bs = leBytes 4 n.toNat
  | .bigint => ∃ n, value = .bigNumber n ∧ (0 ≤ n ∧ n < 256 ^ 8) ∧ bs = leBytes 8 n.toNat
  | .hash => ∃ s, value = .text s ∧ IsHex env.hashSize s ∧ bs = ofHex s
  | .publicKey => ∃ s, value = .text s ∧ IsHex env.publicKeySize s ∧ bs = ofHex s
  | .signature => ∃ s, value = .text s ∧ IsHex signatureSize s ∧ bs = ofHex s
  | .transactions => False

theorem propertyWritten_of_fixed {env : CodecServices} {value : SerializerValue} {bs : Bytes}
    {schema : SerializationSchema} (h : FixedValue env value bs schema.type) :
    PropertyWritten env schema (some value) bs := by
  unfold PropertyWritten
  rw [if_neg fun hc => (nomatch hc.1)]
  cases htype : schema.type with
  | uint32 =>
    rw [htype] at h
    obtain ⟨n, rfl, hn, rfl⟩ := h
    exact ⟨n, rfl, hn, rfl⟩
  | bigint =>
    rw [htype] at h
    obtain ⟨n, rfl, hn, rfl⟩ := h
    exact ⟨n, rfl, hn, rfl⟩
  | transactions =>
    rw [htype] at h
    exact h.elim
  | _ =>
    rw [htype] at h
    obtain ⟨s, rfl, -, rfl⟩ := h
    exact ⟨s, rfl, rfl⟩

/-- Its bytes are the only ones. -/
theorem eq_of_written_fixed {env : CodecServices} {value : SerializerValue} {bs bs' : Bytes}
    {schema : SerializationSchema} (h : FixedValue env value bs schema.type)
    (h' : PropertyWritten env schema (some value) bs') : bs' = bs := by
  unfold PropertyWritten at h'
  rw [if_neg fun hc => (nomatch hc.1)] at h'
  cases htype : schema.type with
  | uint32 =>
    rw [htype] at h h'
    obtain ⟨n, rfl, -, rfl⟩ := h
    obtain ⟨_, heq, -, rfl⟩ := h'
    cases heq
    rfl
  | bigint =>
    rw [htype] at h h'
    obtain ⟨n, rfl, -, rfl⟩ := h
    obtain ⟨_, heq, -, rfl⟩ := h'
    cases heq
    rfl
  | transactions =>
    rw [htype] at h
    exact h.elim
  | _ =>
    rw [htype] at h h'
    obtain ⟨s, rfl, -, rfl⟩ := h
    obtain ⟨_, heq, rfl⟩ := h'
    cases heq
    rfl

/-- The bytes along a table that begins with a row of values of fixed sizes. -/
theorem parts_of_fixed {env : CodecServices} {data : P → Option SerializerValue}
    {row : List (P × PropertyType)} {parts : List Bytes}
    (h : List.Forall₂ (fun s part => ∃ value, data s.1 = some value ∧
      FixedValue env value part s.2) row parts) (tail : List (P × SerializationSchema))
    (all : List Bytes) :
    List.Forall₂ (fun s part => PropertyWritten env s.2 (data s.1) part)
        (row.map (fun s => (s.1, ⟨s.2, true⟩)) ++ tail) all ↔
      ∃ more, all = parts ++ more ∧
        List.Forall₂ (fun s part => PropertyWritten env s.2 (data s.1) part) tail more := by
  induction h generalizing all with
  | nil => exact ⟨fun h => ⟨all, rfl, h⟩, fun ⟨_, rfl, h⟩ => h⟩
  | @cons s part row parts hs _ ih =>
    obtain ⟨value, hvalue, hfixed⟩ := hs
    constructor
    · intro hall
      cases hall with
      | cons hpart hrest =>
        obtain ⟨more, rfl, hmore⟩ := (ih _).1 hrest
        dsimp only at hpart
        rw [hvalue] at hpart
        rw [eq_of_written_fixed hfixed hpart]
        exact ⟨more, rfl, hmore⟩
    · rintro ⟨more, rfl, hmore⟩
      refine .cons ?_ ((ih _).2 ⟨more, rfl, hmore⟩)
      dsimp only
      rw [hvalue]
      exact propertyWritten_of_fixed hfixed

/-- **What is serialized along such a table.** -/
theorem serialize_of_fixed {env : CodecServices} {length : Nat} {data : P → Option SerializerValue}
    {row : List (P × PropertyType)} {parts : List Bytes} {tail : List (P × SerializationSchema)}
    {bytes : Bytes} (h : List.Forall₂ (fun s part => ∃ value, data s.1 = some value ∧
      FixedValue env value part s.2) row parts) :
    serialize env length (row.map (fun s => (s.1, ⟨s.2, true⟩)) ++ tail) data = .ok bytes ↔
      ∃ more : List Bytes,
        List.Forall₂ (fun s part => PropertyWritten env s.2 (data s.1) part) tail more ∧
        (parts.flatten ++ more.flatten).length ≤ length ∧
        bytes = parts.flatten ++ more.flatten ++
          Bytes.zeros (length - (parts.flatten ++ more.flatten).length) := by
  rw [serialize_eq_ok]
  constructor
  · rintro ⟨all, hall, hfit, rfl⟩
    obtain ⟨more, rfl, hmore⟩ := (parts_of_fixed h tail all).1 hall
    rw [List.flatten_append] at hfit ⊢
    exact ⟨more, hmore, hfit, rfl⟩
  · rintro ⟨more, hmore, hfit, rfl⟩
    refine ⟨parts ++ more, (parts_of_fixed h tail _).2 ⟨more, rfl, hmore⟩, ?_⟩
    rw [List.flatten_append]
    exact ⟨hfit, rfl⟩

theorem valueTaken_of_fixed {env : CodecServices} {value : SerializerValue} {bs : Bytes}
    {type : PropertyType} (h : FixedValue env value bs type) (count : Option SerializerValue) :
    ValueTaken env ⟨type, none⟩ count bs value := by
  cases type with
  | uint32 =>
    obtain ⟨n, rfl, ⟨hnonneg, hlt⟩, rfl⟩ := h
    refine ⟨n.toNat, rfl, by omega, ?_⟩
    rw [Int.toNat_of_nonneg hnonneg]
  | bigint =>
    obtain ⟨n, rfl, ⟨hnonneg, hlt⟩, rfl⟩ := h
    refine ⟨n.toNat, rfl, by omega, ?_⟩
    rw [Int.toNat_of_nonneg hnonneg]
  | transactions => exact h.elim
  | _ =>
    obtain ⟨s, rfl, ⟨hs, hlen⟩, rfl⟩ := h
    exact ⟨hlen, congrArg SerializerValue.text hs⟩

/-- The target, with the properties of the row taken over from the data. -/
def overlay [DecidableEq P] (data target : P → Option SerializerValue) (row : List P) :
    P → Option SerializerValue :=
  fun property => if property ∈ row then data property else target property

/-- **A row of values of fixed sizes is read back from its bytes.** -/
theorem taken_of_fixed [DecidableEq P] {env : CodecServices} {count : P}
    {data : P → Option SerializerValue}
    {row : List (P × PropertyType)} {parts : List Bytes}
    (h : List.Forall₂ (fun s part => ∃ value, data s.1 = some value ∧
      FixedValue env value part s.2) row parts) (target : P → Option SerializerValue) :
    Taken env count (row.map fun s => (s.1, ⟨s.2, none⟩)) target parts.flatten
      (overlay data target (row.map Prod.fst)) := by
  induction h generalizing target with
  | nil => exact ⟨rfl, rfl⟩
  | @cons s part row parts hs _ ih =>
    obtain ⟨property, type⟩ := s
    obtain ⟨value, hvalue, hfixed⟩ := hs
    refine ⟨part, parts.flatten, value, rfl, valueTaken_of_fixed hfixed _, ?_⟩
    have hoverlay : overlay data (Function.update target property (some value))
        (row.map Prod.fst) = overlay data target (property :: row.map Prod.fst) := by
      funext p
      unfold overlay
      by_cases hp : p = property
      · subst hp
        rw [Function.update_self, if_pos List.mem_cons_self, ← hvalue, ite_self]
      · rw [Function.update_of_ne hp]
        simp only [List.mem_cons, hp, false_or]
    show Taken env count _ _ _ (overlay data target (property :: row.map Prod.fst))
    rw [← hoverlay]
    exact ih _

end Serializer

end CoreEx
