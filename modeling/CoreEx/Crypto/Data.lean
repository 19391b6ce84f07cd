/-
  File:      CoreEx/Crypto/Data.lean
  Subject:   The data of `core-contracts/source/contracts/crypto`: keys, transactions, blocks.

  A field that TypeScript declares optional is an `Option`; `BigNumber` is `Int`. Transactions and
  blocks reach the node through the factories, which rebuild them from bytes and check them
  against the schema of their type; `TransactionData.SchemaValid` is what that establishes and the
  modelled code relies on.

  * `PublicKey`, `Address` -- the two kinds of identifiers, never empty;
  * `TransactionData`, `Transaction`, `TransactionType`, `InternalTransactionType`;
  * `BlockData`, `Block`;
  * `TransactionData.SchemaValid`.
-/
import CoreEx.Lib.Unicode
import Mathlib.Tactic.Common
import Mathlib.Data.Int.Order.Basic

namespace CoreEx

/-! ## 1. Identifiers -/

/-- A public key in hexadecimal. The schema asks for a fixed positive length. -/
structure PublicKey where
  text : String
  nonempty : text ≠ ""
  deriving DecidableEq, Repr

/-- An address; not empty either. -/
structure Address where
  text : String
  nonempty : text ≠ ""
  deriving DecidableEq, Repr

/-! ## 2. Transactions -/

/-- `IMultiSignatureAsset`, with the `legacy` flag wallets may carry beside it. -/
structure MultiSignatureAsset where
  min : Int
  publicKeys : List PublicKey
  legacy : Option Bool
  deriving DecidableEq, Repr

/-- `IMultiPaymentItem`. -/
structure MultiPaymentItem where
  amount : Int
  recipientId : Address
  deriving DecidableEq, Repr

/-- The parts of `ITransactionAsset` the six transaction types use. -/
structure TransactionAsset where
  votes : Option (List PublicKey)
  unvotes : Option (List PublicKey)
  payments : Option (List MultiPaymentItem)
  username : Option String
  multiSignature : Option MultiSignatureAsset
  deriving DecidableEq, Repr

/-- The asset without parts. -/
def TransactionAsset.empty : TransactionAsset := ⟨none, none, none, none, none⟩

/-- `ITransactionData`. An absent `vendorField` may be `undefined` or `null`. -/
@[ext]
structure TransactionData where
  version : Option Nat
  network : Option Nat
  typeGroup : Option Nat
  type : Nat
  nonce : Option Int
  senderPublicKey : Option PublicKey
  fee : Int
  amount : Int
  expiration : Option Nat
  recipientId : Option Address
  vendorField : Option Text
  asset : Option TransactionAsset
  id : Option String
  signature : Option String
  signatures : Option (List String)
  deriving DecidableEq, Repr

namespace TransactionType

/-- The numbers of `Contracts.Crypto.TransactionType`. -/
def transfer : Nat := 0
def validatorRegistration : Nat := 2
def vote : Nat := 3
def multiSignature : Nat := 4
def multiPayment : Nat := 6
def validatorResignation : Nat := 7

end TransactionType

/-- `Contracts.Crypto.TransactionTypeGroup.Core`. -/
def TransactionTypeGroup.core : Nat := 1

/-- `InternalTransactionType`: a type within its group. -/
structure InternalTransactionType where
  type : Nat
  typeGroup : Nat
  deriving DecidableEq, Repr

namespace InternalTransactionType

/-- A missing group means `Core`. -/
def «from» (type : Nat) (typeGroup : Option Nat) : InternalTransactionType :=
  ⟨type, typeGroup.getD TransactionTypeGroup.core⟩

def toString (t : InternalTransactionType) : String :=
  if t.typeGroup = TransactionTypeGroup.core then s!"Core/{t.type}"
  else s!"{t.typeGroup}/{t.type}"

end InternalTransactionType

/-- `ITransaction`; `id`, `type` and `typeGroup` are read off the data. `serialized` holds the
    bytes in hexadecimal. -/
structure Transaction where
  data : TransactionData
  serialized : String
  deriving DecidableEq, Repr

namespace TransactionData

/-- `data.asset?.votes`. -/
def votes (d : TransactionData) : Option (List PublicKey) := d.asset.bind (·.votes)

/-- `data.asset?.unvotes`. -/
def unvotes (d : TransactionData) : Option (List PublicKey) := d.asset.bind (·.unvotes)

/-- `data.asset?.payments`. -/
def payments (d : TransactionData) : Option (List MultiPaymentItem) := d.asset.bind (·.payments)

/-- `data.asset?.validator?.username`. -/
def username (d : TransactionData) : Option String := d.asset.bind (·.username)

/-- `data.asset?.multiSignature`. -/
def multiSignature (d : TransactionData) : Option MultiSignatureAsset :=
  d.asset.bind (·.multiSignature)

/-- The comparison `type === t && typeGroup === Core` the state code makes. -/
def isCore (d : TransactionData) (t : Nat) : Bool :=
  d.type = t && d.typeGroup = some TransactionTypeGroup.core

/-- What the factories establish of every transaction: it was rebuilt from bytes, which sets the
    group, the version and the nonce, and it passed the schema of its type. -/
structure SchemaValid (d : TransactionData) : Prop where
  typeGroup : d.typeGroup = some TransactionTypeGroup.core
  version : d.version = some 1
  nonce : d.nonce.isSome
  senderPublicKey : d.senderPublicKey.isSome
  fee : 0 ≤ d.fee
  amount : 0 ≤ d.amount
  amount_zero : d.type ≠ TransactionType.transfer → d.amount = 0
  recipientId : d.type = TransactionType.transfer → d.recipientId.isSome
  votes : ∀ l, d.votes = some l → l.length ≤ 1
  unvotes : ∀ l, d.unvotes = some l → l.length ≤ 1
  payments : ∀ l, d.payments = some l → ∀ p ∈ l, 0 ≤ p.amount

end TransactionData

/-! ## 3. Blocks -/

/-- `IBlockData`, the header. -/
structure BlockData where
  id : Option String
  timestamp : Int
  version : Nat
  height : Nat
  previousBlock : Option String
  numberOfTransactions : Nat
  totalAmount : Int
  totalFee : Int
  reward : Int
  payloadLength : Nat
  payloadHash : String
  generatorPublicKey : PublicKey
  blockSignature : Option String
  deriving DecidableEq, Repr

/-- `IBlock`. -/
structure Block where
  data : BlockData
  transactions : List Transaction
  deriving DecidableEq, Repr

/-- Every transaction of the block passed its schema. -/
def Block.SchemaValid (b : Block) : Prop := ∀ t ∈ b.transactions, t.data.SchemaValid

end CoreEx
