/-
  File:      CoreEx/Codec/Services.lean
  Subject:   What the serializers have injected: sizes, settings, the address package, the hash
             and the signature algorithm.

  Keys, addresses and signatures come from packages that `app.json` selects. The hash functions and
  the curve arithmetic are libraries, and stay parameters here.

  * `SignatureScheme` -- `Signature` of `core-crypto-signature-schnorr`, whose signatures have 64
    bytes; `SignatureScheme.Lawful`;
  * `CodecServices`, `KeyPair`;
  * `PublicKey.ofBytes`, `PublicKey.bytes`;
  * `CodecServices.small` -- an instance with keys and addresses of two bytes.
-/
import CoreEx.Lib.Bytes
import CoreEx.Contracts.Exceptions

namespace CoreEx

/-- `IKeyPair`; the private key in hexadecimal. -/
structure KeyPair where
  publicKey : PublicKey
  privateKey : String
  deriving DecidableEq, Repr

/-- `readBytes(64)` in `Signature.deserialize`. -/
def signatureSize : Nat := 64

/-- `ISignature`, with the arguments in the order the class declares them. -/
structure SignatureScheme where
  /-- `sign(message, privateKey)`, before it is written in hexadecimal. -/
  sign : Bytes → Bytes → Except Exception Bytes
  /-- `verify(signature, message, publicKey)`. -/
  verify : Bytes → Bytes → Bytes → Except Exception Bool
  /-- The signatures of the curve package have 64 bytes. -/
  sign_length : ∀ message privateKey signature, sign message privateKey = .ok signature →
    signature.length = signatureSize

namespace PublicKey

/-- The key's bytes. -/
def bytes (k : PublicKey) : Bytes := ofHex k.text

/-- `toString("hex")` of a key's bytes. -/
def ofBytes (bs : Bytes) : Except Exception PublicKey :=
  if h : toHex bs = "" then .error (.typeError "The public key is empty")
  else .ok ⟨toHex bs, h⟩

end PublicKey

/-- What a signature made with the private key is good for. -/
def SignatureScheme.Lawful (scheme : SignatureScheme) (keys : KeyPair) : Prop :=
  ∀ message signature, scheme.sign message (ofHex keys.privateKey) = .ok signature →
    scheme.verify signature message keys.publicKey.bytes = .ok true

/-- The injected services and settings. -/
structure CodecServices where
  /-- `configuration.get("network.pubKeyHash")`. -/
  pubKeyHash : Nat
  /-- `getMilestone(getHeight()).block?.maxPayload ?? 8192`. -/
  maxPayload : Nat
  /-- `getMilestone().vendorFieldLength`. -/
  vendorFieldLength : Nat
  /-- `getMilestone().multiPaymentLimit || 256`. -/
  multiPaymentLimit : Nat
  /-- The ids of `configuration.get("genesisBlock.transactions")`, when it is there. -/
  genesisTransactions : Option (List String)
  /-- `Size.PublicKey`, which is also what `PublicKeySerializer.deserialize` reads. -/
  publicKeySize : Nat
  /-- `Size.Address`, which is also what `AddressSerializer.deserialize` reads. -/
  addressSize : Nat
  /-- The longest of the address packages, `bech32m`, has 52 bytes. -/
  addressSize_le : addressSize ≤ 52
  /-- `AddressFactory.toBuffer`. -/
  addressToBuffer : Address → Except Exception Bytes
  /-- `AddressFactory.fromBuffer`. -/
  addressFromBuffer : Bytes → Except Exception Address
  /-- The schema `address` of the package. -/
  addressSchema : Address → Bool
  /-- `Size.HASH256`. -/
  hashSize : Nat
  /-- `hashFactory.sha256`. -/
  sha256 : Bytes → Bytes
  /-- `signatureFactory`. -/
  scheme : SignatureScheme

namespace CodecServices

/-- The address is the text of some bytes of the right number, and these are its bytes. -/
def CarriesAddress (env : CodecServices) (a : Address) (bs : Bytes) : Prop :=
  env.addressToBuffer a = .ok bs ∧ bs.length = env.addressSize ∧ env.addressFromBuffer bs = .ok a

/-- The key is the text of as many bytes as a key has. -/
def CarriesKey (env : CodecServices) (k : PublicKey) : Prop := IsHex env.publicKeySize k.text

end CodecServices

theorem PublicKey.ofBytes_eq_ok {bs : Bytes} {k : PublicKey} :
    PublicKey.ofBytes bs = .ok k ↔ k.text = toHex bs := by
  unfold PublicKey.ofBytes
  split
  · rename_i h
    exact ⟨fun heq => (nomatch heq), fun heq => absurd (heq.trans h) k.nonempty⟩
  · constructor
    · intro h
      cases h
      rfl
    · intro h
      obtain ⟨text, hne⟩ := k
      cases h
      rfl

/-- A key that was read is the text of its bytes. -/
theorem PublicKey.bytes_of_ofBytes {bs : Bytes} {k : PublicKey} (h : PublicKey.ofBytes bs = .ok k) :
    k.bytes = bs := by
  unfold PublicKey.bytes
  rw [PublicKey.ofBytes_eq_ok.1 h, ofHex_toHex]

theorem CodecServices.CarriesKey.ofBytes {env : CodecServices} {k : PublicKey}
    (h : env.CarriesKey k) : PublicKey.ofBytes k.bytes = .ok k :=
  PublicKey.ofBytes_eq_ok.2 h.1

theorem CodecServices.CarriesKey.length {env : CodecServices} {k : PublicKey}
    (h : env.CarriesKey k) : k.bytes.length = env.publicKeySize := h.2

/-! ## A small instance -/

namespace SignatureScheme

/-- The first 64 bytes of the key and the message: each key is its own private key. -/
def smallSignature (key message : Bytes) : Bytes := (key ++ message ++ Bytes.zeros 64).take 64

def small : SignatureScheme :=
  { sign := fun message privateKey => .ok (smallSignature privateKey message)
    verify := fun signature message publicKey => .ok (signature = smallSignature publicKey message)
    sign_length := by
      intro message privateKey signature h
      cases h
      unfold smallSignature signatureSize
      rw [List.length_take, List.length_append, Bytes.length_zeros]
      omega }

theorem lawful_small (k : PublicKey) : small.Lawful ⟨k, k.text⟩ := by
  intro message signature h
  cases h
  exact congrArg Except.ok (decide_eq_true rfl)

end SignatureScheme

/-- A key of two bytes. -/
def PublicKey.small : PublicKey := ⟨"0102", by decide⟩

/-- An address of two bytes. -/
def Address.small : Address := ⟨"0a0b", by decide⟩

/-- Keys and addresses of two bytes, every byte string of this size being one. -/
def CodecServices.small : CodecServices :=
  { pubKeyHash := 30
    maxPayload := 1024
    vendorFieldLength := 255
    multiPaymentLimit := 256
    genesisTransactions := none
    publicKeySize := 2
    addressSize := 2
    addressSize_le := by decide
    addressToBuffer := fun a => .ok (ofHex a.text)
    addressFromBuffer := fun bs =>
      if h : toHex bs = "" then .error (.typeError "The address is empty") else .ok ⟨toHex bs, h⟩
    addressSchema := fun a => a.text.length = 4
    hashSize := 32
    sha256 := fun bs => (bs ++ Bytes.zeros 32).take 32
    scheme := SignatureScheme.small }

end CoreEx
