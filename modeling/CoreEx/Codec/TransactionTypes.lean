/-
  File:      CoreEx/Codec/TransactionTypes.lean
  Subject:   The six packages `core-crypto-transaction-*`: what each transaction class adds to the
             bytes of a transaction; and `TransactionTypeFactory`.

  * `TransactionClass` -- the classes the packages register;
  * `TransactionTypeFactory.get`, `TransactionTypeFactory.create`;
  * `TransferTransaction`, `VoteTransaction`, .. -- `serialize` and `deserialize` of each;
  * `TransactionClass.serialize`, `TransactionClass.deserialize`.
-/
import CoreEx.Codec.ByteBuffer
import CoreEx.Codec.Services

namespace CoreEx

/-! ## 1. The classes -/

/-- The registered classes. -/
inductive TransactionClass where
  | transfer
  | validatorRegistration
  | vote
  | multiSignature
  | multiPayment
  | validatorResignation
  deriving DecidableEq, Repr

namespace TransactionClass

/-- `constructor.type`; the group is `Core` for all of them. -/
def type : TransactionClass → Nat
  | transfer => TransactionType.transfer
  | validatorRegistration => TransactionType.validatorRegistration
  | vote => TransactionType.vote
  | multiSignature => TransactionType.multiSignature
  | multiPayment => TransactionType.multiPayment
  | validatorResignation => TransactionType.validatorResignation

/-- In the order of registration. -/
def all : List TransactionClass :=
  [validatorRegistration, validatorResignation, multiPayment, multiSignature, transfer, vote]

/-- `hasVendorField()`; only `TransferTransaction` overrides it. -/
def hasVendorField : TransactionClass → Bool
  | transfer => true
  | _ => false

end TransactionClass

namespace TransactionTypeFactory

/-- `get(type, typeGroup, version)`. Each class has one version, which is also what any other
    version falls back to. -/
def get (type : Nat) (typeGroup : Option Nat) : Except Exception TransactionClass :=
  let internalType := InternalTransactionType.from type typeGroup
  match TransactionClass.all.find? fun c =>
      internalType = ⟨c.type, TransactionTypeGroup.core⟩ with
  | some c => .ok c
  | none => .error (.unkownTransaction internalType)

/-- `version || 1`. -/
def version (data : TransactionData) : Nat :=
  match data.version with
  | none | some 0 => 1
  | some v => v

/-- `create(data)`: the class, and the data with the version filled in. -/
def create (data : TransactionData) : Except Exception (TransactionClass × TransactionData) :=
  match get data.type data.typeGroup with
  | .ok c => .ok (c, { data with version := some (version data) })
  | .error e => .error e

theorem get_eq_ok {type : Nat} {typeGroup : Option Nat} {c : TransactionClass} :
    get type typeGroup = .ok c ↔
      type = c.type ∧ typeGroup.getD TransactionTypeGroup.core = TransactionTypeGroup.core := by
  unfold get
  constructor
  · intro h
    cases hfind : TransactionClass.all.find? fun c =>
        InternalTransactionType.from type typeGroup = ⟨c.type, TransactionTypeGroup.core⟩ with
    | none =>
      simp only [hfind] at h
      cases h
    | some c' =>
      simp only [hfind] at h
      cases h
      have hc : InternalTransactionType.from type typeGroup =
          ⟨c.type, TransactionTypeGroup.core⟩ := by simpa using List.find?_some hfind
      exact ⟨congrArg InternalTransactionType.type hc, congrArg InternalTransactionType.typeGroup hc⟩
  · rintro ⟨rfl, hgroup⟩
    have hfrom : InternalTransactionType.from c.type typeGroup =
        ⟨c.type, TransactionTypeGroup.core⟩ := by
      unfold InternalTransactionType.from
      rw [hgroup]
    rw [hfrom]
    cases c <;> rfl

end TransactionTypeFactory

/-- `PublicKeySerializer.deserialize(buf).toString("hex")`, and how `VoteTransaction` reads a key. -/
def readPublicKey (env : CodecServices) : Prog ByteBuffer Exception PublicKey := do
  let bs ← ByteBuffer.readBytes env.publicKeySize
  Prog.ofExcept (PublicKey.ofBytes bs)

/-- `addressFactory.fromBuffer(addressSerializer.deserialize(buf))`. -/
def readAddress (env : CodecServices) : Prog ByteBuffer Exception Address := do
  let bs ← ByteBuffer.readBytes env.addressSize
  Prog.ofExcept (env.addressFromBuffer bs)

/-- `addressSerializer.serialize(buff, await addressFactory.toBuffer(address))`, which
    `MultiPaymentTransaction` writes out. -/
def writeAddress (env : CodecServices) (address : Address) : Prog ByteBuffer Exception Unit := do
  let bs ← Prog.ofExcept (env.addressToBuffer address)
  ByteBuffer.writeBytes bs

/-! ## 2. What each class writes and reads -/

namespace TransferTransaction

def serialize (env : CodecServices) (data : TransactionData) :
    Except Exception (Option ByteBuffer) :=
  (ByteBuffer.runOn (ByteBuffer.fromSize 64) do
    ByteBuffer.writeUint64 data.amount
    ByteBuffer.writeUint32 (data.expiration.getD 0)
    match data.recipientId with
    | some recipientId => writeAddress env recipientId
    | none => pure ()).map some

def deserialize (env : CodecServices) (data : TransactionData) :
    Prog ByteBuffer Exception TransactionData := do
  let amount ← ByteBuffer.readUint64
  let expiration ← ByteBuffer.readUint32
  let recipientId ← readAddress env
  pure { data with
    amount := amount, expiration := some expiration, recipientId := some recipientId }

end TransferTransaction

namespace VoteTransaction

/-- `Buffer.from(keys.join(""), "hex")`. -/
def joined (keys : List PublicKey) : Bytes := ofHex (String.join (keys.map PublicKey.text))

def serialize (env : CodecServices) (data : TransactionData) :
    Except Exception (Option ByteBuffer) :=
  match data.votes, data.unvotes with
  | some votes, some unvotes =>
    (ByteBuffer.runOn (ByteBuffer.fromSize
        (1 + 1 + env.publicKeySize * votes.length + env.publicKeySize * unvotes.length)) do
      ByteBuffer.writeUint8 votes.length
      ByteBuffer.writeBytes (joined votes)
      ByteBuffer.writeUint8 unvotes.length
      ByteBuffer.writeBytes (joined unvotes)).map some
  | _, _ => .error (.typeError "Cannot read properties of undefined")

def deserialize (env : CodecServices) (data : TransactionData) :
    Prog ByteBuffer Exception TransactionData := do
  let votelength ← ByteBuffer.readUint8
  let votes ← Prog.collect (readPublicKey env) votelength
  let unvotelength ← ByteBuffer.readUint8
  let unvotes ← Prog.collect (readPublicKey env) unvotelength
  pure { data with
    asset := some { TransactionAsset.empty with votes := some votes, unvotes := some unvotes } }

end VoteTransaction

namespace ValidatorRegistrationTransaction

def serialize (data : TransactionData) : Except Exception (Option ByteBuffer) :=
  match data.username with
  | some username =>
    let validatorBytes := encodeUtf8 username.toList
    (ByteBuffer.runOn (ByteBuffer.fromSize (validatorBytes.length + 1)) do
      ByteBuffer.writeUint8 validatorBytes.length
      ByteBuffer.writeBytes validatorBytes).map some
  | none => .ok none

def deserialize (data : TransactionData) : Prog ByteBuffer Exception TransactionData := do
  let usernameLength ← ByteBuffer.readUint8
  let bs ← ByteBuffer.readBytes usernameLength
  pure { data with
    asset := some { TransactionAsset.empty with
      username := some (String.ofList (decodeUtf8 bs)) } }

end ValidatorRegistrationTransaction

namespace MultiSignatureRegistrationTransaction

def serialize (env : CodecServices) (data : TransactionData) :
    Except Exception (Option ByteBuffer) :=
  match data.multiSignature with
  | some asset =>
    (ByteBuffer.runOn (ByteBuffer.fromSize (2 + asset.publicKeys.length * env.publicKeySize)) do
      ByteBuffer.writeUint8 asset.min
      ByteBuffer.writeUint8 asset.publicKeys.length
      Prog.forEach (fun publicKey => ByteBuffer.writeBytes publicKey.bytes)
        asset.publicKeys).map some
  | none => .error (.typeError "Cannot destructure property 'min' of undefined")

def deserialize (env : CodecServices) (data : TransactionData) :
    Prog ByteBuffer Exception TransactionData := do
  let min ← ByteBuffer.readUint8
  let count ← ByteBuffer.readUint8
  let publicKeys ← Prog.collect (readPublicKey env) count
  pure { data with
    asset := some { TransactionAsset.empty with
      multiSignature := some { min := min, publicKeys := publicKeys, legacy := none } } }

end MultiSignatureRegistrationTransaction

namespace MultiPaymentTransaction

def serialize (env : CodecServices) (data : TransactionData) :
    Except Exception (Option ByteBuffer) :=
  match data.payments with
  | some payments =>
    (ByteBuffer.runOn (ByteBuffer.fromSize
        (2 + payments.length * env.addressSize + payments.length * 8)) do
      ByteBuffer.writeUint16 payments.length
      Prog.forEach (fun payment : MultiPaymentItem => do
        ByteBuffer.writeUint64 payment.amount
        writeAddress env payment.recipientId) payments).map some
  | none => .ok none

/-- One pass of the loop. -/
def readPayment (env : CodecServices) : Prog ByteBuffer Exception MultiPaymentItem := do
  let amount ← ByteBuffer.readUint64
  let recipientId ← readAddress env
  pure { amount := amount, recipientId := recipientId }

def deserialize (env : CodecServices) (data : TransactionData) :
    Prog ByteBuffer Exception TransactionData := do
  let total ← ByteBuffer.readUint16
  let payments ← Prog.collect (readPayment env) total
  pure { data with
    amount := 0, asset := some { TransactionAsset.empty with payments := some payments } }

end MultiPaymentTransaction

namespace ValidatorResignationTransaction

def serialize : Except Exception (Option ByteBuffer) := .ok (some (ByteBuffer.fromSize 0))

def deserialize (data : TransactionData) : Prog ByteBuffer Exception TransactionData := pure data

end ValidatorResignationTransaction

namespace TransactionClass

/-- `transaction.serialize()`. -/
def serialize (env : CodecServices) (data : TransactionData) :
    TransactionClass → Except Exception (Option ByteBuffer)
  | transfer => TransferTransaction.serialize env data
  | validatorRegistration => ValidatorRegistrationTransaction.serialize data
  | vote => VoteTransaction.serialize env data
  | multiSignature => MultiSignatureRegistrationTransaction.serialize env data
  | multiPayment => MultiPaymentTransaction.serialize env data
  | validatorResignation => ValidatorResignationTransaction.serialize

/-- `transaction.deserialize(buf)`: the data with what the class reads. -/
def deserialize (env : CodecServices) (data : TransactionData) :
    TransactionClass → Prog ByteBuffer Exception TransactionData
  | transfer => TransferTransaction.deserialize env data
  | validatorRegistration => ValidatorRegistrationTransaction.deserialize data
  | vote => VoteTransaction.deserialize env data
  | multiSignature => MultiSignatureRegistrationTransaction.deserialize env data
  | multiPayment => MultiPaymentTransaction.deserialize env data
  | validatorResignation => ValidatorResignationTransaction.deserialize data

end TransactionClass

end CoreEx
