/-
  File:      CoreEx/Pool/Service.lean
  Subject:   `core-transaction-pool/source/service.ts` and `mempool.ts`: calls of `addTransaction`,
             under any interleaving.

  A call first makes room in a full pool and then waits for the list of its sender. It suspends at
  every `await`; between two suspensions the code is one step here. The lists of the senders take
  steps of their own, driven by the call that holds the lock. A list is an object: the calls that
  have it go on with it when it is no longer the list of the sender.

  * `TransactionPool` -- the lists, the map of the senders, the storage;
  * `AddPhase`, `goOn` -- how far a call has come, and what it does next when it waits for no lock;
  * `CallStep` -- the same with the locks;
  * `PoolService`, `PoolService.Step` -- the pool with its calls in progress.
-/
import CoreEx.Pool.Query
import CoreEx.Pool.SenderMempool
import Mathlib.Logic.Function.Basic

namespace CoreEx

/-! ## 1. The mempool and the storage -/

/-- The settings the service reads, and those of the lists. -/
structure ServiceConfiguration extends PoolConfiguration where
  maxTransactionsInPool : Nat
  maxTransactionAge : Nat

/-- What a call can be rejected with. -/
inductive ServiceError where
  | transactionAlreadyInPool
  | transactionFeeToLow
  | transactionFeeToHigh
  | transactionPoolFull (requiredFee : Int)
  /-- The list of the sender has thrown. -/
  | sender (error : PoolError)
  /-- What was no exception of the pool; `PoolError` with its message is thrown. -/
  | other (error : Exception)

/-- A row of `Storage`. -/
structure StoredTransaction where
  height : Nat
  id : String
  senderPublicKey : PublicKey
  deriving DecidableEq, Repr

/-- What the calls work on. -/
structure TransactionPool where
  /-- The lists that were created, by number. -/
  lists : Nat → SenderMempool
  created : Nat
  /-- `#senderMempools`, with the numbers of the lists. -/
  senderMempools : OrderedMap PublicKey Nat
  /-- The rows, in the order they were inserted. -/
  storage : List StoredTransaction

namespace SenderMempool

/-- A call of a method of the list, up to the lock. -/
def await (call : PoolCall) (s : SenderMempool) : SenderMempool :=
  { s with waiting := call :: s.waiting }

/-- A waiting call takes the lock. -/
def acquire (call : PoolCall) (s : SenderMempool) : SenderMempool :=
  { s with waiting := s.waiting.erase call, holder := some (.begun call) }

/-- The call that holds the lock goes on, and holds it still. -/
structure GoesOn (c : PoolConfiguration) (s s' : SenderMempool) : Prop where
  step : ∃ o, Step c s o s'
  waiting : s'.waiting = s.waiting
  moved : s'.holder ≠ s.holder
  holds : s'.holder ≠ none

end SenderMempool

namespace TransactionPool

/-- `getSize()`. -/
def getSize (p : TransactionPool) : Nat :=
  (p.senderMempools.values.map fun k => (p.lists k).transactions.length).sum

/-- `getAll().all()`. -/
def getAll (p : TransactionPool) : List Transaction :=
  p.senderMempools.values.flatMap fun k => Mempool.getFromLatest (p.lists k).transactions

/-- `getFromLowestPriority().first()`. -/
def lowest (p : TransactionPool) : Option Transaction := (p.getAll.mergeSort Query.cheaper).head?

/-- `storage.getOldTransactions(height)`. -/
def getOldTransactions (p : TransactionPool) (height : Int) : List StoredTransaction :=
  (p.storage.filter fun row => (row.height : Int) ≤ height).reverse

/-- `storage.hasTransaction(id)`. -/
def hasTransaction (p : TransactionPool) (id : String) : Bool := p.storage.any fun row => row.id = id

/-- `storage.removeTransaction` for each of the transactions; every transaction here has an id. -/
def forget (ts : List Transaction) (p : TransactionPool) : TransactionPool :=
  { p with storage := p.storage.filter fun row => !ts.any (SenderMempool.hasId row.id) }

def setList (k : Nat) (l : SenderMempool) (p : TransactionPool) : TransactionPool :=
  { p with lists := Function.update p.lists k l }

@[simp] theorem lists_setList_self (k : Nat) (l : SenderMempool) (p : TransactionPool) :
    (p.setList k l).lists k = l := Function.update_self _ _ _

theorem lists_setList_of_ne {k k' : Nat} (h : k' ≠ k) (l : SenderMempool) (p : TransactionPool) :
    (p.setList k l).lists k' = p.lists k' := Function.update_of_ne h _ _

@[simp] theorem setList_setList (k : Nat) (l l' : SenderMempool) (p : TransactionPool) :
    (p.setList k l).setList k l' = p.setList k l' := by
  unfold setList
  rw [Function.update_idem]

/-- `if (senderMempool.isDisposable())`: the sender's entry is deleted, whichever list it is. -/
def dispose (senderPublicKey : PublicKey) (k : Nat) (p : TransactionPool) : TransactionPool :=
  if (p.lists k).isDisposable then
    { p with senderMempools := p.senderMempools.delete senderPublicKey }
  else p

/-- `createSenderMempool()`, for a wallet with this nonce. -/
def create (senderPublicKey : PublicKey) (nonce : Int) (p : TransactionPool) : TransactionPool :=
  { p with
    lists := Function.update p.lists p.created (SenderMempool.created nonce)
    created := p.created + 1
    senderMempools := p.senderMempools.set senderPublicKey p.created }

end TransactionPool

/-! ## 2. A call -/

/-- What a call does when a removal has ended. -/
inductive AfterRemoval where
  /-- The loop of `#removeOldTransactions`, with the rows still to be looked at. -/
  | removingOld (rest : List StoredTransaction)
  /-- The loop of `#removeExpiredTransactions`. -/
  | removingExpired (rest : List Transaction)
  /-- The condition of the loop of `#removeLowestPriorityTransactions`. -/
  | removingLowest
  /-- `mempool.addTransaction`, in place of the transaction removed. -/
  | entering

/-- How far a call of `addTransaction` has come. -/
inductive AddPhase where
  /-- In `feeMatcher.throwIfCannotEnterPool`. -/
  | matching
  | removal (next : AfterRemoval)
  /-- The three loops have ended. -/
  | full
  /-- `first()` has been asked for the transaction to compare the fee with. -/
  | comparing (lowest : Option Transaction)
  /-- `first()` has been asked for the transaction to remove. -/
  | removingLowest (lowest : Option Transaction) (next : AfterRemoval)
  /-- In `removeTransaction` of a list, before the lock or with it. -/
  | removing (k : Nat) (senderPublicKey : PublicKey) (id : String) (holds : Bool)
    (next : AfterRemoval)
  /-- The list has returned these; `finally` is next. -/
  | removed (k : Nat) (senderPublicKey : PublicKey) (result : List Transaction)
    (next : AfterRemoval)
  /-- `mempool.removeTransaction` has returned these. -/
  | forgetting (result : List Transaction) (next : AfterRemoval)
  /-- A list was created, and its creation is being logged. -/
  | creating (k : Nat)
  /-- In `addTransaction` of a list, before the lock or with it. -/
  | adding (k : Nat) (holds : Bool)
  | added (k : Nat) (result : Except PoolError Unit)
  | settled (result : Except ServiceError Unit)

/-- What a call is told from outside as it goes on. -/
structure Answers where
  /-- `stateStore.getLastHeight()`. -/
  lastHeight : Nat
  /-- Of the fee matcher. -/
  matched : Except ServiceError Unit
  /-- Of the wallet of the sender, for a list that is created. -/
  nonce : Int

namespace TransactionPool

/-- `mempool.removeTransaction(senderPublicKey, id)`, up to the lock of the list. -/
def removeTransaction (senderPublicKey : PublicKey) (id : String) (next : AfterRemoval)
    (p : TransactionPool) : TransactionPool × AddPhase :=
  match p.senderMempools.get? senderPublicKey with
  | none => (p, .forgetting [] next)
  | some k => (p.setList k ((p.lists k).await (.removeTransaction id)),
      .removing k senderPublicKey id false next)

/-- `#removeLowestPriorityTransaction()`, up to `first()`. -/
def removeLowestPriorityTransaction (next : AfterRemoval) (p : TransactionPool) :
    TransactionPool × AddPhase :=
  if p.getSize = 0 then (p, .removal next) else (p, .removingLowest p.lowest next)

/-- `mempool.addTransaction(transaction)`, up to the lock of the list. -/
def addTransaction (nonce : Int) (t : Transaction) (p : TransactionPool) :
    TransactionPool × AddPhase :=
  match t.data.senderPublicKey with
  | none => (p, .settled (.error (.other .notDefined)))
  | some senderPublicKey =>
    match p.senderMempools.get? senderPublicKey with
    | some k => (p.setList k ((p.lists k).await (.addTransaction t)), .adding k false)
    | none => (p.create senderPublicKey nonce, .creating p.created)

/-- `#addTransactionToMempool(transaction)`, up to its first suspension. -/
def addTransactionToMempool (c : ServiceConfiguration) (answers : Answers) (t : Transaction)
    (p : TransactionPool) : TransactionPool × AddPhase :=
  if p.getSize ≥ c.maxTransactionsInPool then
    (p, .removal (.removingOld (p.getOldTransactions
      ((answers.lastHeight : Int) - c.maxTransactionAge))))
  else p.addTransaction answers.nonce t

/-- One pass of a loop, or what follows it. -/
def afterRemoval (c : ServiceConfiguration) (answers : Answers) (t : Transaction)
    (p : TransactionPool) : AfterRemoval → TransactionPool × AddPhase
  | .removingOld [] => (p, .removal (.removingExpired p.getAll))
  | .removingOld (row :: rest) => p.removeTransaction row.senderPublicKey row.id (.removingOld rest)
  | .removingExpired [] => (p, .removal .removingLowest)
  | .removingExpired (candidate :: rest) =>
    match candidate.data.id, candidate.data.senderPublicKey with
    | some id, some senderPublicKey =>
      if ExpirationService.isExpired answers.lastHeight candidate then
        p.removeTransaction senderPublicKey id (.removingExpired rest)
      else (p, .removal (.removingExpired rest))
    | _, _ => (p, .settled (.error (.other .notDefined)))
  | .removingLowest =>
    if p.getSize > c.maxTransactionsInPool then
      p.removeLowestPriorityTransaction .removingLowest
    else (p, .full)
  | .entering => p.addTransaction answers.nonce t

/-- `first()` of a query that found nothing. -/
def notFound : ServiceError := .other (.error "Transaction not found")

/-- The next step of a call that waits for no lock. -/
def goOn (c : ServiceConfiguration) (answers : Answers) (t : Transaction) (p : TransactionPool) :
    AddPhase → Option (TransactionPool × AddPhase)
  | .matching =>
    match answers.matched with
    | .error e => some (p, .settled (.error e))
    | .ok () => some (p.addTransactionToMempool c answers t)
  | .removal next => some (p.afterRemoval c answers t next)
  | .full =>
    if p.getSize ≥ c.maxTransactionsInPool then some (p, .comparing p.lowest)
    else some (p.addTransaction answers.nonce t)
  | .comparing none => some (p, .settled (.error notFound))
  | .comparing (some lowest) =>
    if t.data.fee ≤ lowest.data.fee then
      some (p, .settled (.error (.transactionPoolFull lowest.data.fee)))
    else some (p.removeLowestPriorityTransaction .entering)
  | .removingLowest none _ => some (p, .settled (.error notFound))
  | .removingLowest (some lowest) next =>
    match lowest.data.id, lowest.data.senderPublicKey with
    | some id, some senderPublicKey => some (p.removeTransaction senderPublicKey id next)
    | _, _ => some (p, .settled (.error (.other .notDefined)))
  | .removed k senderPublicKey result next =>
    some (p.dispose senderPublicKey k, .forgetting result next)
  | .forgetting result next => some (p.forget result, .removal next)
  | .creating k => some (p.setList k ((p.lists k).await (.addTransaction t)), .adding k false)
  | .added k result =>
    match t.data.senderPublicKey with
    | none => none
    | some senderPublicKey =>
      some (p.dispose senderPublicKey k, .settled (result.mapError ServiceError.sender))
  | .removing _ _ _ _ _ | .adding _ _ | .settled _ => none

/-- The `catch` block of `addTransaction`. -/
def settle (t : Transaction) (result : Except ServiceError Unit) (p : TransactionPool) :
    TransactionPool :=
  match result with
  | .ok () => p
  | .error _ => p.forget [t]

/-- `addTransaction(transaction)`, up to the fee matcher. -/
def begin (lastHeight : Nat) (t : Transaction) (p : TransactionPool) :
    Except ServiceError TransactionPool :=
  match t.data.id, t.data.senderPublicKey with
  | some id, some senderPublicKey =>
    if p.hasTransaction id then .error .transactionAlreadyInPool
    else .ok { p with storage := p.storage ++ [⟨lastHeight, id, senderPublicKey⟩] }
  | _, _ => .error (.other .notDefined)

/-- A call that begins has stored its transaction. -/
theorem begin_ok {lastHeight : Nat} {t : Transaction} {p p' : TransactionPool}
    (h : p.begin lastHeight t = .ok p') :
    ∃ row, p' = { p with storage := p.storage ++ [row] } := by
  unfold begin at h
  split at h
  · split at h
    · cases h
    · cases h
      exact ⟨_, rfl⟩
  · cases h

end TransactionPool

open TransactionPool

/-- One step of a call; it has ended where no phase follows. -/
inductive CallStep (c : ServiceConfiguration) (t : Transaction) :
    TransactionPool → AddPhase → TransactionPool → Option AddPhase → Prop
  | goOn {p p' : TransactionPool} {φ φ' : AddPhase} (answers : Answers)
      (h : goOn c answers t p φ = some (p', φ')) : CallStep c t p φ p' (some φ')
  | addAcquire (p : TransactionPool) (k : Nat) (hfree : (p.lists k).holder = none)
      (hcall : .addTransaction t ∈ (p.lists k).waiting) :
    CallStep c t p (.adding k false) (p.setList k ((p.lists k).acquire (.addTransaction t)))
      (some (.adding k true))
  | addGoOn {p : TransactionPool} {k : Nat} {l : SenderMempool}
      (h : (p.lists k).GoesOn c.toPoolConfiguration l) :
    CallStep c t p (.adding k true) (p.setList k l) (some (.adding k true))
  | addRelease {p : TransactionPool} {k : Nat} {result : Except PoolError Unit}
      (h : (p.lists k).holder = some (.added result)) :
    CallStep c t p (.adding k true) (p.setList k { p.lists k with holder := none })
      (some (.added k result))
  | removeAcquire (p : TransactionPool) (k : Nat) (senderPublicKey : PublicKey) (id : String)
      (next : AfterRemoval) (hfree : (p.lists k).holder = none)
      (hcall : .removeTransaction id ∈ (p.lists k).waiting) :
    CallStep c t p (.removing k senderPublicKey id false next)
      (p.setList k ((p.lists k).acquire (.removeTransaction id)))
      (some (.removing k senderPublicKey id true next))
  | removeGoOn {p : TransactionPool} {k : Nat} {senderPublicKey : PublicKey} {id : String}
      {next : AfterRemoval} {l : SenderMempool}
      (h : (p.lists k).GoesOn c.toPoolConfiguration l) :
    CallStep c t p (.removing k senderPublicKey id true next) (p.setList k l)
      (some (.removing k senderPublicKey id true next))
  | removeRelease {p : TransactionPool} {k : Nat} {senderPublicKey : PublicKey} {id : String}
      {next : AfterRemoval} {result : List Transaction}
      (h : (p.lists k).holder = some (.removed result)) :
    CallStep c t p (.removing k senderPublicKey id true next)
      (p.setList k { p.lists k with holder := none }) (some (.removed k senderPublicKey result next))
  | settle (p : TransactionPool) (result : Except ServiceError Unit) :
    CallStep c t p (.settled result) (p.settle t result) none

/-! ## 3. Calls in progress -/

/-- Whether a call is in `mempool.addTransaction`, past all it does to make room. -/
def AddPhase.inMempool : AddPhase → Bool
  | creating _ | adding _ _ => true
  | _ => false

/-- A call goes on to `mempool.addTransaction`. -/
def AddPhase.enters (φ : AddPhase) (φ' : Option AddPhase) : Bool :=
  !φ.inMempool && φ'.any AddPhase.inMempool

/-- The pool and the calls of `addTransaction` that have not settled. -/
structure PoolService where
  pool : TransactionPool
  calls : List (Transaction × AddPhase)

namespace PoolService

/-- One step: a call is made, or some call goes on. It is told whether one goes on to
    `mempool.addTransaction`. A call that is rejected at once leaves everything as it is. -/
inductive Step (c : ServiceConfiguration) : PoolService → Bool → PoolService → Prop
  | call (s : PoolService) {t : Transaction} {lastHeight : Nat} {p' : TransactionPool}
      (h : s.pool.begin lastHeight t = .ok p') :
    Step c s false ⟨p', (t, .matching) :: s.calls⟩
  | goOn {s : PoolService} {before after : List (Transaction × AddPhase)} {t : Transaction}
      {φ : AddPhase} {p' : TransactionPool} {φ' : Option AddPhase}
      (hcall : s.calls = before ++ (t, φ) :: after) (hs : CallStep c t s.pool φ p' φ') :
    Step c s (φ.enters φ') ⟨p', before ++ φ'.toList.map (t, ·) ++ after⟩

end PoolService

end CoreEx
