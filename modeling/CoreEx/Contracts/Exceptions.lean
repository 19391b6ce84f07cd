/-
  File:      CoreEx/Contracts/Exceptions.lean
  Subject:   What the modelled code throws: `core-contracts/source/exceptions/crypto.ts`, the
             assertions of the kernel and of Node, and the language's own errors.

  * `Exception` -- one constructor for each class, with what its text is made of;
  * `Exception.message` -- the texts.
-/
import CoreEx.Crypto.Data

namespace CoreEx

/-- An exception. -/
inductive Exception where
  /-- `AssertionException` of the kernel's `assert`. -/
  | assertion (description : String)
  /-- `strictEqual` in `AttributeMap.#assertKnown`. -/
  | unknownAttribute (key : String)
  /-- Node's own `assert(false)`. -/
  | assertionError
  /-- A property read off `undefined`, a call of what is no function. -/
  | typeError (what : String)
  /-- `new Error(..)`. -/
  | error (message : String)
  | invalidMultiSignatureAsset
  | duplicateParticipantInMultiSignature
  | invalidMilestoneConfiguration (message : String)
  | invalidTransactionType (type : InternalTransactionType)
  | unexpectedNonce (txNonce : Int) (publicKey : Option PublicKey) (nonce : Int) (reversal : Bool)
  | coldWallet
  | insufficientBalance
  | senderWalletMismatch
  | missingMultiSignatureOnSender
  | invalidMultiSignatures
  | unsupportedMultiSignatureRegistrationTransaction
  | walletAlreadyResigned
  | walletNotAValidator
  | walletIsAlreadyValidator
  | walletUsernameAlreadyRegistered (username : String)
  | notSupportedForMultiSignatureWallet
  | alreadyVoted
  | noVote
  | unvoteMismatch
  | votedForNonValidator (vote : PublicKey)
  | votedForResignedValidator (vote : PublicKey)
  | emptyVote
  | maxVotesExceeeded
  | maxUnvotesExceeeded
  | notEnoughValidators
  | multiSignatureAlreadyRegistered
  | invalidMultiSignature
  | legacyMultiSignature
  | multiSignatureMinimumKeys
  | multiSignatureKeyCountMismatch
  /-- Node's `RangeError`: a number that does not fit its bytes, or a buffer that is too short. -/
  | rangeError
  | unkownTransaction (type : InternalTransactionType)
  /-- `TransactionSchemaError`; its text is made by the schema library. -/
  | transactionSchema
  | invalidTransactionBytes (message : String)
  | blockSchema (height : Nat)
  deriving DecidableEq, Repr

namespace Exception

/-- `assert.defined` on something that is not. -/
def notDefined : Exception := assertion "non-null and non-undefined"

/-- What every text of a handler begins with. -/
def failed (reason : String) : String := "Failed to apply transaction, because " ++ reason

/-- The text of an exception. -/
def message : Exception → String
  | assertion description => s!"Expected value which is \"" ++ description ++ "\"."
  | unknownAttribute key => s!"Unknown attribute: {key}"
  | assertionError => "The expression evaluated to a falsy value"
  | typeError what => what
  | error m => m
  | invalidMultiSignatureAsset => "The multi signature asset is invalid."
  | duplicateParticipantInMultiSignature =>
    "Invalid multi signature, because duplicate participant found."
  | invalidMilestoneConfiguration m => m
  | invalidTransactionType t => s!"Transaction type {t.toString} does not exist."
  | unexpectedNonce txNonce publicKey nonce reversal =>
    let action := if reversal then "revert" else "apply"
    let sender := (publicKey.map PublicKey.text).getD "undefined"
    s!"Cannot {action} a transaction with nonce {txNonce}: the sender {sender} has nonce {nonce}."
  | coldWallet => "Insufficient balance in database wallet. " ++
      "Wallet is not allowed to spend before funding is confirmed."
  | insufficientBalance => "Insufficient balance in the wallet."
  | senderWalletMismatch => failed "the public key does not match the wallet."
  | missingMultiSignatureOnSender => failed "sender does not have a multi signature."
  | invalidMultiSignatures => failed "the multi signatures are invalid."
  | unsupportedMultiSignatureRegistrationTransaction =>
    failed "the transaction does not support multi signatures."
  | walletAlreadyResigned => failed "the wallet already resigned as validator."
  | walletNotAValidator => failed "the wallet is not a validator."
  | walletIsAlreadyValidator => failed "the wallet already has a registered username."
  | walletUsernameAlreadyRegistered username =>
    failed s!"the username '{username}' is already registered."
  | notSupportedForMultiSignatureWallet => failed "multi signature is enabled."
  | alreadyVoted => failed "the sender wallet has already voted."
  | noVote => failed "the wallet has not voted."
  | unvoteMismatch => failed "the wallet vote does not match."
  | votedForNonValidator _ => failed "only validators can be voted."
  | votedForResignedValidator _ => failed "it votes for a resigned validator."
  | emptyVote => failed "it doesn't contain any votes or unvotes."
  | maxVotesExceeeded => failed "it exceeds max votes."
  | maxUnvotesExceeeded => failed "it exceeds max unvotes"
  | notEnoughValidators => failed "not enough validators to allow resignation."
  | multiSignatureAlreadyRegistered => failed "multi signature is already enabled."
  | invalidMultiSignature => failed "the multi signature could not be verified."
  | legacyMultiSignature => failed "legacy multi signature is no longer supported."
  | multiSignatureMinimumKeys => failed "too few keys were provided."
  | multiSignatureKeyCountMismatch =>
    failed "the number of provided keys does not match the number of signatures."
  | rangeError => "The value of \"value\" is out of range."
  | unkownTransaction t => s!"Unknown transaction type: {t.toString}"
  | transactionSchema => "data must match the schema of its type"
  | invalidTransactionBytes m => "Failed to deserialize transaction, encountered invalid bytes: " ++ m
  | blockSchema height => s!"Height ({height}): Invalid data"

end Exception

end CoreEx
