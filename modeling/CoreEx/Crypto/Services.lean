/-
  File:      CoreEx/Crypto/Services.lean
  Subject:   What the state code has injected: the factories, the signature algorithm, the
             milestone in force and the wallet attributes other plugins register.

  The algorithms themselves are packages of their own (hashes, curves, address encodings), chosen
  in `app.json`. Nothing below depends on which; a result that needs a property of one of them
  states it.

  * `Services` -- the injected functions; `Services.simple` -- some to compute with;
  * `knownAttributes` -- the keys a wallet's attribute map accepts.
-/
import CoreEx.Contracts.Exceptions

namespace CoreEx

/-- `ISerializeOptions`. -/
structure SerializeOptions where
  excludeSignature : Bool
  excludeMultiSignature : Bool
  deriving DecidableEq, Repr

/-- The injected services. Hashes and buffers are hexadecimal text, which `verify` decodes. -/
structure Services where
  /-- `AddressFactory.fromPublicKey`. -/
  addressFromPublicKey : PublicKey → Address
  /-- `PublicKeyFactory.fromMultiSignatureAsset`. -/
  publicKeyFromMultiSignatureAsset : MultiSignatureAsset → Except Exception PublicKey
  /-- `Utils.toHash`. -/
  toHash : TransactionData → SerializeOptions → Except Exception String
  /-- `signatureFactory.verify`, which is declared for a signature, a message and a key; the callers
      pass the message first. -/
  verify : String → String → String → Except Exception Bool
  /-- `configuration.getMilestone(height).activeValidators`. -/
  activeValidatorsAt : Nat → Nat
  /-- `configuration.getHeight()`. -/
  height : Nat
  /-- Attributes that handlers of other plugins register. -/
  otherWalletAttributes : List String

namespace Services

/-- `configuration.getMilestone().activeValidators`. -/
def activeValidators (env : Services) : Nat := env.activeValidatorsAt env.height

/-- The same services at another height. -/
def atHeight (env : Services) (height : Nat) : Services := { env with height := height }

@[simp] theorem addressFromPublicKey_atHeight (env : Services) (h : Nat) :
    (env.atHeight h).addressFromPublicKey = env.addressFromPublicKey := rfl

/-- `walletAttributes()` of the six handlers, in the order `app.json` registers them. -/
def walletAttributes : List String :=
  ["validator.rank", "validator.round", "validator.username", "validator.voteBalance",
    "validator", "validator.resigned", "multiSignature", "vote"]

/-- The `AttributeSet` behind every wallet. -/
def knownAttributes (env : Services) : List String :=
  walletAttributes ++ env.otherWalletAttributes

/-- Services one can compute with: an address is the text of its key, the first participant's key
    stands for the aggregated one, and a signature is the hash with the key behind it. -/
def simple : Services where
  addressFromPublicKey k := ⟨k.text, k.nonempty⟩
  publicKeyFromMultiSignatureAsset asset :=
    match asset.publicKeys with
    | k :: _ => .ok k
    | [] => .error .invalidMultiSignatureAsset
  toHash d _ := .ok (d.id.getD "")
  verify hash signature publicKey := .ok (signature = hash ++ publicKey)
  activeValidatorsAt _ := 1
  height := 1
  otherWalletAttributes := []

theorem simple_injective : Function.Injective simple.addressFromPublicKey := by
  intro k k' h
  obtain ⟨text, hne⟩ := k
  obtain ⟨text', hne'⟩ := k'
  have htext : text = text' := congrArg Address.text h
  subst htext
  rfl

end Services

end CoreEx
