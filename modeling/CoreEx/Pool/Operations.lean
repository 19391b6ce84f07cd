/-
  File:      CoreEx/Pool/Operations.lean
  Subject:   `core-transaction-pool/source/service.ts`: the methods of the service, each of them
             with nothing else in between.

  A method is the pool it finds, what it settles with, and the pool it leaves. What a list of a
  sender does comes from its steps; what the handlers and the fee matcher answer is left open.

  * `SenderMempool.Adds`, `Removes` -- a call of a list, from the lock to the end;
  * `PoolCode`, `andThen` -- code that may throw;
  * `MempoolAdds`, `MempoolRemoves` -- `mempool.ts`;
  * `MakesRoom`, `AddsToMempool`, `ReaddsStored` -- the private methods and the loops;
  * `Operates` -- the methods.
-/
import CoreEx.Pool.Service

namespace CoreEx

/-! ## 1. A call of a list -/

namespace SenderMempool

/-- `addTransaction(transaction)` of a list that nobody else calls. -/
def Adds (c : PoolConfiguration) (t : Transaction) (s : SenderMempool)
    (result : Except PoolError Unit) (s' : SenderMempool) : Prop :=
  ∃ s₁, Relation.ReflTransGen (GoesOn c)
      { s with holder := some (.begun (.addTransaction t)) } s₁ ∧
    s₁.holder = some (.added result) ∧ s' = { s₁ with holder := none }

/-- `removeTransaction(id)` of a list that nobody else calls. -/
def Removes (c : PoolConfiguration) (id : String) (s : SenderMempool) (result : List Transaction)
    (s' : SenderMempool) : Prop :=
  ∃ s₁, Relation.ReflTransGen (GoesOn c)
      { s with holder := some (.begun (.removeTransaction id)) } s₁ ∧
    s₁.holder = some (.removed result) ∧ s' = { s₁ with holder := none }

end SenderMempool

/-! ## 2. Code that may throw -/

/-- Code on the pool: the pool before, what the code settles with, the pool after. -/
abbrev PoolCode := TransactionPool → Except ServiceError Unit → TransactionPool → Prop

/-- One piece of code after the other; the second is not reached when the first one throws. -/
inductive PoolCode.AndThen (x y : PoolCode) : PoolCode
  | thrown {p p' : TransactionPool} {e : ServiceError} (h : x p (.error e) p') :
    AndThen x y p (.error e) p'
  | goesOn {p p₁ p' : TransactionPool} {result : Except ServiceError Unit} (h : x p (.ok ()) p₁)
      (hrest : y p₁ result p') : AndThen x y p result p'

namespace TransactionPool

/-! ## 3. The mempool -/

/-- `mempool.removeTransaction(senderPublicKey, id)`: what it returns, and what it leaves. -/
inductive MempoolRemoves (c : PoolConfiguration) (senderPublicKey : PublicKey) (id : String)
    (p : TransactionPool) : List Transaction → TransactionPool → Prop
  | unknown (h : p.senderMempools.get? senderPublicKey = none) :
    MempoolRemoves c senderPublicKey id p [] p
  | known {k : Nat} {l : SenderMempool} {result : List Transaction}
      (hk : p.senderMempools.get? senderPublicKey = some k)
      (hl : (p.lists k).Removes c id result l) :
    MempoolRemoves c senderPublicKey id p result ((p.setList k l).dispose senderPublicKey k)

/-- `mempool.removeForgedTransaction(senderPublicKey, id)`. -/
def mempoolRemoveForged (senderPublicKey : PublicKey) (id : String) (p : TransactionPool) :
    List Transaction × TransactionPool :=
  match p.senderMempools.get? senderPublicKey with
  | none => ([], p)
  | some k => ((p.lists k).forged id,
      (p.setList k ((p.lists k).afterForged id)).dispose senderPublicKey k)

/-- `mempool.addTransaction(transaction)`; a list that is created has a wallet of some nonce. -/
inductive MempoolAdds (c : PoolConfiguration) (t : Transaction) : PoolCode
  | notDefined {p : TransactionPool} (h : t.data.senderPublicKey = none) :
    MempoolAdds c t p (.error (.other .notDefined)) p
  | known {p : TransactionPool} {senderPublicKey : PublicKey} {k : Nat} {l : SenderMempool}
      {result : Except PoolError Unit} (hsender : t.data.senderPublicKey = some senderPublicKey)
      (hk : p.senderMempools.get? senderPublicKey = some k) (hl : (p.lists k).Adds c t result l) :
    MempoolAdds c t p (result.mapError ServiceError.sender)
      ((p.setList k l).dispose senderPublicKey k)
  | creates {p : TransactionPool} {senderPublicKey : PublicKey} {nonce : Int} {l : SenderMempool}
      {result : Except PoolError Unit} (hsender : t.data.senderPublicKey = some senderPublicKey)
      (hk : p.senderMempools.get? senderPublicKey = none)
      (hl : (SenderMempool.created nonce).Adds c t result l) :
    MempoolAdds c t p (result.mapError ServiceError.sender)
      (((p.create senderPublicKey nonce).setList p.created l).dispose senderPublicKey p.created)

/-- `mempool.flush()`. -/
def flushMempool (p : TransactionPool) : TransactionPool := { p with senderMempools := .empty }

/-- `storage.removeTransaction(id)`. -/
def forgetRow (id : String) (p : TransactionPool) : TransactionPool :=
  { p with storage := p.storage.filter fun row => row.id ≠ id }

/-! ## 4. Making room -/

/-- A removal, and the loop over what was removed. -/
def Drops (c : PoolConfiguration) (senderPublicKey : PublicKey) (id : String)
    (p p' : TransactionPool) : Prop :=
  ∃ result p₁, MempoolRemoves c senderPublicKey id p result p₁ ∧ p' = p₁.forget result

/-- The loop of `#removeOldTransactions()`, over the rows it was given. -/
inductive RemovesOld (c : PoolConfiguration) : List StoredTransaction → PoolCode
  | nil (p : TransactionPool) : RemovesOld c [] p (.ok ()) p
  | cons {row : StoredTransaction} {rest : List StoredTransaction} {p p₁ p' : TransactionPool}
      {result : Except ServiceError Unit} (h : Drops c row.senderPublicKey row.id p p₁)
      (hrest : RemovesOld c rest p₁ result p') : RemovesOld c (row :: rest) p result p'

/-- The loop of `#removeExpiredTransactions()`, over the transactions it was given. -/
inductive RemovesExpired (c : PoolConfiguration) (lastHeight : Nat) : List Transaction → PoolCode
  | nil (p : TransactionPool) : RemovesExpired c lastHeight [] p (.ok ()) p
  | notDefined {t : Transaction} {rest : List Transaction} {p : TransactionPool}
      (h : t.data.id = none ∨ t.data.senderPublicKey = none) :
    RemovesExpired c lastHeight (t :: rest) p (.error (.other .notDefined)) p
  | expired {t : Transaction} {id : String} {senderPublicKey : PublicKey} {rest : List Transaction}
      {p p₁ p' : TransactionPool} {result : Except ServiceError Unit}
      (hid : t.data.id = some id)
      (hsender : t.data.senderPublicKey = some senderPublicKey)
      (hexpired : ExpirationService.isExpired lastHeight t = true)
      (h : Drops c senderPublicKey id p p₁)
      (hrest : RemovesExpired c lastHeight rest p₁ result p') :
    RemovesExpired c lastHeight (t :: rest) p result p'
  | live {t : Transaction} {rest : List Transaction} {p p' : TransactionPool}
      {result : Except ServiceError Unit} (hid : t.data.id ≠ none)
      (hsender : t.data.senderPublicKey ≠ none)
      (hlive : ExpirationService.isExpired lastHeight t = false)
      (hrest : RemovesExpired c lastHeight rest p result p') :
    RemovesExpired c lastHeight (t :: rest) p result p'

/-- `#removeLowestPriorityTransaction()`. -/
inductive RemovesLowest (c : PoolConfiguration) : PoolCode
  | empty {p : TransactionPool} (h : p.getSize = 0) : RemovesLowest c p (.ok ()) p
  | notFound {p : TransactionPool} (h : p.getSize ≠ 0) (hlowest : p.lowest = none) :
    RemovesLowest c p (.error notFound) p
  | notDefined {p : TransactionPool} {t : Transaction} (h : p.getSize ≠ 0)
      (hlowest : p.lowest = some t) (hnone : t.data.id = none ∨ t.data.senderPublicKey = none) :
    RemovesLowest c p (.error (.other .notDefined)) p
  | removed {p p' : TransactionPool} {t : Transaction} {id : String} {senderPublicKey : PublicKey}
      (h : p.getSize ≠ 0) (hlowest : p.lowest = some t) (hid : t.data.id = some id)
      (hsender : t.data.senderPublicKey = some senderPublicKey)
      (hdrops : Drops c senderPublicKey id p p') : RemovesLowest c p (.ok ()) p'

/-- The loop of `#removeLowestPriorityTransactions()`. -/
inductive RemovesLowestAll (c : ServiceConfiguration) : PoolCode
  | done {p : TransactionPool} (h : p.getSize ≤ c.maxTransactionsInPool) :
    RemovesLowestAll c p (.ok ()) p
  | fails {p p' : TransactionPool} {e : ServiceError} (h : c.maxTransactionsInPool < p.getSize)
      (hl : RemovesLowest c.toPoolConfiguration p (.error e) p') :
    RemovesLowestAll c p (.error e) p'
  | again {p p₁ p' : TransactionPool} {result : Except ServiceError Unit}
      (h : c.maxTransactionsInPool < p.getSize)
      (hl : RemovesLowest c.toPoolConfiguration p (.ok ()) p₁)
      (hrest : RemovesLowestAll c p₁ result p') : RemovesLowestAll c p result p'

/-- The three loops of `cleanUp`, which `#addTransactionToMempool` has as well. -/
def MakesRoom (c : ServiceConfiguration) (lastHeight : Nat) : PoolCode :=
  PoolCode.AndThen
    (fun p => RemovesOld c.toPoolConfiguration
      (p.getOldTransactions ((lastHeight : Int) - c.maxTransactionAge)) p)
    (PoolCode.AndThen (fun p => RemovesExpired c.toPoolConfiguration lastHeight p.getAll p)
      (RemovesLowestAll c))

/-! ## 5. Adding -/

/-- The first `if` of `#addTransactionToMempool(transaction)`. -/
inductive CleansFull (c : ServiceConfiguration) (lastHeight : Nat) : PoolCode
  | room {p : TransactionPool} (h : p.getSize < c.maxTransactionsInPool) :
    CleansFull c lastHeight p (.ok ()) p
  | full {p p' : TransactionPool} {result : Except ServiceError Unit}
      (h : c.maxTransactionsInPool ≤ p.getSize) (hroom : MakesRoom c lastHeight p result p') :
    CleansFull c lastHeight p result p'

/-- The second `if`. -/
inductive ReplacesLowest (c : ServiceConfiguration) (t : Transaction) : PoolCode
  | room {p : TransactionPool} (h : p.getSize < c.maxTransactionsInPool) :
    ReplacesLowest c t p (.ok ()) p
  | notFound {p : TransactionPool} (h : c.maxTransactionsInPool ≤ p.getSize)
      (hlowest : p.lowest = none) : ReplacesLowest c t p (.error notFound) p
  | full {p : TransactionPool} {lowest : Transaction} (h : c.maxTransactionsInPool ≤ p.getSize)
      (hlowest : p.lowest = some lowest) (hfee : t.data.fee ≤ lowest.data.fee) :
    ReplacesLowest c t p (.error (.transactionPoolFull lowest.data.fee)) p
  | replaces {p p' : TransactionPool} {lowest : Transaction} {result : Except ServiceError Unit}
      (h : c.maxTransactionsInPool ≤ p.getSize) (hlowest : p.lowest = some lowest)
      (hfee : lowest.data.fee < t.data.fee) (hl : RemovesLowest c.toPoolConfiguration p result p') :
    ReplacesLowest c t p result p'

/-- `#addTransactionToMempool(transaction)`. -/
inductive AddsToMempool (c : ServiceConfiguration) (lastHeight : Nat) (t : Transaction) : PoolCode
  | notDefined {p : TransactionPool} (h : t.data.senderPublicKey = none) :
    AddsToMempool c lastHeight t p (.error (.other .notDefined)) p
  | entered {p p' : TransactionPool} {result : Except ServiceError Unit}
      (h : t.data.senderPublicKey ≠ none)
      (hroom : PoolCode.AndThen (CleansFull c lastHeight)
        (PoolCode.AndThen (ReplacesLowest c t) (MempoolAdds c.toPoolConfiguration t)) p result p') :
    AddsToMempool c lastHeight t p result p'

/-- The second loop of `readdTransactions()`, over the rows it was given. -/
inductive ReaddsStored (c : ServiceConfiguration) (lastHeight : Nat)
    (fromBytes : StoredTransaction → Option Transaction) :
    List StoredTransaction → TransactionPool → TransactionPool → Prop
  | nil (p : TransactionPool) : ReaddsStored c lastHeight fromBytes [] p p
  | old {row : StoredTransaction} {rest : List StoredTransaction} {p p' : TransactionPool}
      (h : (row.height : Int) ≤ (lastHeight : Int) - c.maxTransactionAge)
      (hrest : ReaddsStored c lastHeight fromBytes rest (p.forgetRow row.id) p') :
    ReaddsStored c lastHeight fromBytes (row :: rest) p p'
  | unreadable {row : StoredTransaction} {rest : List StoredTransaction} {p p' : TransactionPool}
      (h : (lastHeight : Int) - c.maxTransactionAge < row.height) (hbytes : fromBytes row = none)
      (hrest : ReaddsStored c lastHeight fromBytes rest (p.forgetRow row.id) p') :
    ReaddsStored c lastHeight fromBytes (row :: rest) p p'
  | refused {row : StoredTransaction} {rest : List StoredTransaction} {t : Transaction}
      {p p₁ p' : TransactionPool} {e : ServiceError}
      (h : (lastHeight : Int) - c.maxTransactionAge < row.height) (hbytes : fromBytes row = some t)
      (hadds : AddsToMempool c lastHeight t p (.error e) p₁)
      (hrest : ReaddsStored c lastHeight fromBytes rest (p₁.forgetRow row.id) p') :
    ReaddsStored c lastHeight fromBytes (row :: rest) p p'
  | added {row : StoredTransaction} {rest : List StoredTransaction} {t : Transaction}
      {p p₁ p' : TransactionPool}
      (h : (lastHeight : Int) - c.maxTransactionAge < row.height) (hbytes : fromBytes row = some t)
      (hadds : AddsToMempool c lastHeight t p (.ok ()) p₁)
      (hrest : ReaddsStored c lastHeight fromBytes rest p₁ p') :
    ReaddsStored c lastHeight fromBytes (row :: rest) p p'

/-- `readdTransactions()`, of no forged transactions, as it is called everywhere. -/
def Readds (c : ServiceConfiguration) (lastHeight : Nat)
    (fromBytes : StoredTransaction → Option Transaction) (p p' : TransactionPool) : Prop :=
  ReaddsStored c lastHeight fromBytes p.storage p.flushMempool p'

/-! ## 6. The methods -/

/-- **A method of the service** that has settled, called with a transaction that may be given. The
    row of a transaction that was to be removed is gone in any case. -/
inductive Operates (c : ServiceConfiguration) (fromBytes : StoredTransaction → Option Transaction)
    (Given : Transaction → Prop) : TransactionPool → TransactionPool → Prop
  | addRefused {p : TransactionPool} {lastHeight : Nat} {t : Transaction} {e : ServiceError}
      (h : p.begin lastHeight t = .error e) : Operates c fromBytes Given p p
  | removeUnknown {p : TransactionPool} {id : String} (h : p.hasTransaction id = false) :
    Operates c fromBytes Given p p
  | addUnmatched {p p₁ : TransactionPool} {lastHeight : Nat} {t : Transaction} {e : ServiceError}
      (hgiven : Given t) (h : p.begin lastHeight t = .ok p₁) :
    Operates c fromBytes Given p (p₁.settle t (.error e))
  | addTransaction {p p₁ p₂ : TransactionPool} {lastHeight : Nat} {t : Transaction}
      {result : Except ServiceError Unit} (hgiven : Given t) (h : p.begin lastHeight t = .ok p₁)
      (hadds : AddsToMempool c lastHeight t p₁ result p₂) :
    Operates c fromBytes Given p (p₂.settle t result)
  | removeTransaction {p p₁ : TransactionPool} {t : Transaction} {id : String}
      {senderPublicKey : PublicKey} {result : List Transaction} (hgiven : Given t)
      (hid : t.data.id = some id) (hsender : t.data.senderPublicKey = some senderPublicKey)
      (hstored : p.hasTransaction id = true)
      (h : MempoolRemoves c.toPoolConfiguration senderPublicKey id p result p₁) :
    Operates c fromBytes Given p ((p₁.forget result).forgetRow id)
  | removeForgedTransaction {p : TransactionPool} {t : Transaction} {id : String}
      {senderPublicKey : PublicKey} (hgiven : Given t) (hid : t.data.id = some id)
      (hsender : t.data.senderPublicKey = some senderPublicKey)
      (hstored : p.hasTransaction id = true) :
    Operates c fromBytes Given p
      (((p.mempoolRemoveForged senderPublicKey id).2.forget
        (p.mempoolRemoveForged senderPublicKey id).1).forgetRow id)
  | cleanUp {p p' : TransactionPool} {lastHeight : Nat} {result : Except ServiceError Unit}
      (h : MakesRoom c lastHeight p result p') : Operates c fromBytes Given p p'
  | flush (p : TransactionPool) :
    Operates c fromBytes Given p { p.flushMempool with storage := [] }
  | readdTransactions {p p' : TransactionPool} {lastHeight : Nat}
      (h : Readds c lastHeight fromBytes p p') : Operates c fromBytes Given p p'

end TransactionPool

end CoreEx
