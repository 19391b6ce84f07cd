/-
  File:      CoreEx/State/Wallet.lean
  Subject:   `core-state/source/wallets/wallet.ts`, with the attributes the transaction types
             register.

  The attributes of a wallet are a tree under dotted keys. `get` answers a missing key with its
  default, `set` creates the objects on the way: writing `validator.voteBalance` to a wallet that
  is no validator makes `hasAttribute("validator")` true from then on. That is why `username` and
  `voteBalance` are optional here.

  * `ValidatorAttributes`, `Account`, `Wallet` -- a wallet is an account and, once seen, a key;
  * the getters and setters of the class, as functions on accounts;
  * `Account.voteBalance` -- `getAttribute("validator.voteBalance", BigNumber.ZERO)`.
-/
import CoreEx.Contracts.Exceptions
import Mathlib.Tactic.Ring

namespace CoreEx

/-- `WalletValidatorAttributes`: the object under the key `validator`. Of `resigned` only the
    presence matters, no other value than `true` is ever stored. -/
structure ValidatorAttributes where
  username : Option String
  voteBalance : Option Int
  resigned : Bool
  rank : Option Nat
  round : Option Int
  lastBlock : Option BlockData
  deriving DecidableEq, Repr

/-- The object without properties. -/
def ValidatorAttributes.empty : ValidatorAttributes := ⟨none, none, false, none, none, none⟩

/-- What transactions and blocks change of a wallet: balance, nonce and attributes. -/
@[ext]
structure Account where
  balance : Int
  nonce : Int
  vote : Option PublicKey
  multiSignature : Option MultiSignatureAsset
  validator : Option ValidatorAttributes
  deriving DecidableEq, Repr

/-- A wallet; its address is the key it is filed under. -/
structure Wallet extends Account where
  publicKey : Option PublicKey
  deriving DecidableEq, Repr

/-- `new Wallet(..)`. -/
def Account.new : Account := ⟨0, 0, none, none, none⟩

/-- `createWallet(address)`. -/
def Wallet.new : Wallet := ⟨Account.new, none⟩

/-- The same wallet with other contents. -/
def Wallet.withAccount (w : Wallet) (x : Account) : Wallet := ⟨x, w.publicKey⟩

namespace Account

/-! ## 1. Balance and nonce -/

def setBalance (balance : Int) (w : Account) : Account := { w with balance := balance }

def setNonce (nonce : Int) (w : Account) : Account := { w with nonce := nonce }

def increaseBalance (amount : Int) (w : Account) : Account := w.setBalance (w.balance + amount)

def decreaseBalance (amount : Int) (w : Account) : Account := w.setBalance (w.balance - amount)

def increaseNonce (w : Account) : Account := w.setNonce (w.nonce + 1)

def decreaseNonce (w : Account) : Account := w.setNonce (w.nonce - 1)

/-! ## 2. Attributes -/

def isValidator (w : Account) : Bool := w.validator.isSome

def hasVoted (w : Account) : Bool := w.vote.isSome

def hasMultiSignature (w : Account) : Bool := w.multiSignature.isSome

/-- `getAttribute("validator.username")`, before the assertion that there is one. -/
def username (w : Account) : Option String := w.validator.bind (·.username)

/-- `hasAttribute("validator.resigned")`. -/
def isResigned (w : Account) : Bool := (w.validator.map (·.resigned)).getD false

/-- `getAttribute("validator.voteBalance")`, before the assertion that there is one. -/
def voteBalance? (w : Account) : Option Int := w.validator.bind (·.voteBalance)

/-- `getAttribute("validator.voteBalance", BigNumber.ZERO)`. -/
def voteBalance (w : Account) : Int := w.voteBalance?.getD 0

/-- The object under `validator`; `set` creates it when it writes below a key that is missing. -/
def validatorObject (w : Account) : ValidatorAttributes := w.validator.getD .empty

def setVote (vote : Option PublicKey) (w : Account) : Account := { w with vote := vote }

def setMultiSignature (asset : Option MultiSignatureAsset) (w : Account) : Account :=
  { w with multiSignature := asset }

def setValidator (validator : Option ValidatorAttributes) (w : Account) : Account :=
  { w with validator := validator }

/-- `setAttribute("validator.voteBalance", value)`. -/
def setVoteBalance (value : Int) (w : Account) : Account :=
  w.setValidator (some { w.validatorObject with voteBalance := some value })

/-- `setAttribute("validator.resigned", true)`. -/
def setResigned (w : Account) : Account :=
  w.setValidator (some { w.validatorObject with resigned := true })

/-- `forgetAttribute("validator.resigned")`. -/
def forgetResigned (w : Account) : Account :=
  w.setValidator (w.validator.map fun v => { v with resigned := false })

/-- `setAttribute("validator.rank", rank)`, `forgetAttribute("validator.rank")`. -/
def setRank (rank : Option Nat) (w : Account) : Account :=
  w.setValidator (w.validator.map fun v => { v with rank := rank })

/-- `setAttribute("validator.round", round)`. -/
def setRound (round : Option Int) (w : Account) : Account :=
  w.setValidator (w.validator.map fun v => { v with round := round })

/-- `getAttribute("validator").lastBlock = block` on a validator. -/
def setLastBlock (block : Option BlockData) (w : Account) : Account :=
  w.setValidator (w.validator.map fun v => { v with lastBlock := block })

end Account

end CoreEx
