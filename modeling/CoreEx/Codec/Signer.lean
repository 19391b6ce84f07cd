/-
  File:      CoreEx/Codec/Signer.lean
  Subject:   `core-crypto-transaction/source/signer.ts`: signing a transaction, alone and as one of
             several participants.

  Signing serializes the data, which fills in their version and group; the caller's object is
  changed, so both methods return the data as they are afterwards.

  * `numberToHex`, `Signer.sign`, `Signer.multiSign`;
  * `CodecServices.services` -- the hash and the check the verifier of transactions uses;
  * **`toHash_excludeSignature`**, **`toHash_excludeMultiSignature`**, `toHash_filled` -- what the
    hash does not depend on.
-/
import CoreEx.Codec.TransactionFactory
import CoreEx.Crypto.TransactionVerifier

namespace CoreEx

/-- `number_.toString(16)`. -/
def toString16 (n : Int) : String :=
  match n with
  | .ofNat n => String.ofList (Nat.toDigits 16 n)
  | .negSucc n => "-" ++ String.ofList (Nat.toDigits 16 (n + 1))

/-- `numberToHex(number_)`, with its padding of 2. -/
def numberToHex (n : Int) : Except Exception String :=
  if 2 < (toString16 n).length then .error .rangeError
  else .ok (String.ofList (List.replicate (2 - (toString16 n).length) '0') ++ toString16 n)

/-- `ISerializeOptions` as a caller gives them. -/
structure SignOptions where
  excludeSignature : Option Bool
  excludeMultiSignature : Option Bool
  deriving DecidableEq, Repr

/-- What `create` and `#serializeCommon` put into the data. -/
def TransactionData.filled (data : TransactionData) : TransactionData :=
  { data with
    version := some (TransactionTypeFactory.version data)
    typeGroup := some (data.typeGroup.getD TransactionTypeGroup.core) }

namespace Signer

/-- The options `sign` goes on with; the signature is left out where the caller does not say. -/
def signOptions (options : SignOptions) : SerializeOptions :=
  ⟨options.excludeSignature.getD true, options.excludeMultiSignature.getD false⟩

/-- `signatureFactory.sign(hash, Buffer.from(keys.privateKey, "hex"))`. -/
def signHash (env : CodecServices) (hash : Bytes) (keys : KeyPair) : Except Exception String :=
  (env.scheme.sign hash (ofHex keys.privateKey)).map toHex

/-- `sign(transaction, keys, options)`. -/
def sign (env : CodecServices) (transaction : TransactionData) (keys : KeyPair)
    (options : SignOptions) : Except Exception (String × TransactionData) := do
  let hash ← TransactionUtils.toHash env transaction (signOptions options)
  let signature ← signHash env hash keys
  .ok (signature,
    if transaction.signature.getD "" = "" ∧ ¬(signOptions options).excludeMultiSignature then
      { transaction.filled with signature := some signature }
    else transaction.filled)

/-- `multiSign(transaction, keys, index)`; the index `-1` stands for the next one. -/
def multiSign (env : CodecServices) (transaction : TransactionData) (keys : KeyPair)
    (index : Int) : Except Exception (String × TransactionData) := do
  let signatures := transaction.signatures.getD []
  let index := if index = -1 then (signatures.length : Int) else index
  let hash ← TransactionUtils.toHash env transaction ⟨true, true⟩
  let signature ← signHash env hash keys
  let position ← numberToHex index
  .ok (position ++ signature,
    { transaction.filled with signatures := some (signatures ++ [position ++ signature]) })

end Signer

/-- The services of the state code, with the hash and the check of the transaction package: the
    check is called with the hash, the signature and the key, in this order. -/
def CodecServices.services (env : CodecServices) (base : Services) : Services :=
  { base with
    toHash := fun data options => (TransactionUtils.toHash env data options).map toHex
    verify := fun hash signature publicKey =>
      env.scheme.verify (ofHex hash) (ofHex signature) (ofHex publicKey) }

/-! ## What the hash does not depend on -/

namespace TransactionSerializer

theorem serializeSignatures_excludeSignature {options : SerializeOptions}
    (h : options.excludeSignature) (data : TransactionData) (signature : Option String) :
    serializeSignatures { data with signature := signature } options =
      serializeSignatures data options := by
  have hoff : ∀ signature : String, Prog.when (signature ≠ "" ∧ ¬options.excludeSignature)
      (ByteBuffer.writeBytes (ofHex signature)) = pure () :=
    fun signature => if_neg fun hc => hc.2 h
  unfold serializeSignatures
  rw [hoff, hoff]

theorem serializeSignatures_excludeMultiSignature {options : SerializeOptions}
    (h : options.excludeMultiSignature) (data : TransactionData)
    (signatures : Option (List String)) :
    serializeSignatures { data with signatures := signatures } options =
      serializeSignatures data options := by
  have hoff : ∀ signatures : Option (List String),
      Prog.when (signatures.isSome ∧ ¬options.excludeMultiSignature)
        (ByteBuffer.writeBytes (ofHex (String.join (signatures.getD [])))) = pure () :=
    fun signatures => if_neg fun hc => hc.2 h
  unfold serializeSignatures
  rw [hoff, hoff]

theorem serialize_congr {env : CodecServices} {c : TransactionClass} {data data' : TransactionData}
    {options : SerializeOptions} (hcommon : serializeCommon env data' = serializeCommon env data)
    (hvendor : serializeVendorField c data' = serializeVendorField c data)
    (hpayload : payload env c data' = payload env c data)
    (hsignatures : serializeSignatures data' options = serializeSignatures data options) :
    serialize env c data' options = serialize env c data options := by
  unfold serialize
  rw [hcommon, hvendor, hpayload, hsignatures]

/-- Data that a class serializes alike, with the same common part, vendor field and signatures. -/
theorem getBytes_congr {env : CodecServices} {data data' : TransactionData}
    {options : SerializeOptions}
    (htype : TransactionTypeFactory.get data'.type data'.typeGroup =
      TransactionTypeFactory.get data.type data.typeGroup)
    (h : ∀ c, serialize env c { data' with version := some (TransactionTypeFactory.version data') }
        options =
      serialize env c { data with version := some (TransactionTypeFactory.version data) } options) :
    getBytes env data' options = getBytes env data options := by
  unfold getBytes TransactionTypeFactory.create
  rw [htype]
  cases TransactionTypeFactory.get data.type data.typeGroup with
  | error e => rfl
  | ok c => exact h c

theorem getBytes_excludeSignature {env : CodecServices} {options : SerializeOptions}
    (h : options.excludeSignature) (data : TransactionData) (signature : Option String) :
    getBytes env { data with signature := signature } options = getBytes env data options := by
  refine getBytes_congr rfl fun c => serialize_congr rfl rfl ?_ ?_
  · cases c <;> rfl
  · exact serializeSignatures_excludeSignature h { data with version := _ } signature

theorem getBytes_excludeMultiSignature {env : CodecServices} {options : SerializeOptions}
    (h : options.excludeMultiSignature) (data : TransactionData)
    (signatures : Option (List String)) :
    getBytes env { data with signatures := signatures } options = getBytes env data options := by
  refine getBytes_congr rfl fun c => serialize_congr rfl rfl ?_ ?_
  · cases c <;> rfl
  · exact serializeSignatures_excludeMultiSignature h { data with version := _ } signatures

theorem version_filled (data : TransactionData) :
    TransactionTypeFactory.version data.filled = TransactionTypeFactory.version data := by
  unfold TransactionData.filled TransactionTypeFactory.version
  cases data.version with
  | none => rfl
  | some v =>
    cases v with
    | zero => rfl
    | succ v => rfl

theorem getBytes_filled {env : CodecServices} {options : SerializeOptions}
    (data : TransactionData) : getBytes env data.filled options = getBytes env data options := by
  refine getBytes_congr rfl fun c => ?_
  rw [version_filled]
  refine serialize_congr rfl rfl ?_ rfl
  cases c <;> rfl

end TransactionSerializer

namespace TransactionUtils

variable {env : CodecServices} {options : SerializeOptions}

/-- **A hash that leaves the signature out does not depend on it.** -/
theorem toHash_excludeSignature (h : options.excludeSignature) (data : TransactionData)
    (signature : Option String) :
    toHash env { data with signature := signature } options = toHash env data options := by
  unfold toHash
  rw [TransactionSerializer.getBytes_excludeSignature h]

/-- **A hash that leaves the participants' signatures out does not depend on them.** -/
theorem toHash_excludeMultiSignature (h : options.excludeMultiSignature) (data : TransactionData)
    (signatures : Option (List String)) :
    toHash env { data with signatures := signatures } options = toHash env data options := by
  unfold toHash
  rw [TransactionSerializer.getBytes_excludeMultiSignature h]

/-- The hash is the same after the defaults are filled in. -/
theorem toHash_filled (data : TransactionData) :
    toHash env data.filled options = toHash env data options := by
  unfold toHash
  rw [TransactionSerializer.getBytes_filled]

end TransactionUtils

/-- One byte in hexadecimal is read back by the verifier. -/
theorem numberToHex_index {i : Nat} (h : i < 256) : ∃ position,
    numberToHex i = .ok position ∧ position.length = 2 ∧
      parseInt16 position.toList = some (i : Int) := by
  have hall : ∀ i < 256, (match numberToHex (i : Nat) with
      | .ok position => decide (position.length = 2 ∧ parseInt16 position.toList = some (i : Int))
      | .error _ => false) = true := by decide +kernel
  have hi := hall i h
  cases hn : numberToHex i with
  | error e =>
    rw [hn] at hi
    cases hi
  | ok position =>
    rw [hn] at hi
    exact ⟨position, rfl, of_decide_eq_true hi⟩

end CoreEx
