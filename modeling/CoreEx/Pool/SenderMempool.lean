/-
  File:      CoreEx/Pool/SenderMempool.lean
  Subject:   `core-transaction-pool/source/sender-mempool.ts`: the list of one sender, under any
             interleaving of the calls that change it.

  Adding and removing wait for a lock and suspend while they hold it, removing what was forged does
  neither. Between two suspensions the code is one step here. Of the wallet behind the handlers one
  thing counts, the nonce it has in the pool: applying moves it to the nonce of the transaction or
  throws and leaves it, reverting moves it back or throws.

  * `SenderMempool`, `Phase` -- the list, and how far the call has come that holds the lock;
  * `Step`, `Run` -- the code, with the events that can be seen from outside;
  * `Queue` -- consecutive nonces that end at the nonce of the wallet;
  * `Kept` -- what every step preserves;
  * **`kept_of_run`**, **`conserved_of_run`**, **`nothing_accepted`** -- list and nonce, nothing lost
    or duplicated, and the end after a failed revert.
-/
import CoreEx.Pool.SenderState

namespace CoreEx

open Base

/-! ## 1. The list and its calls -/

/-- A call that waits for the lock, or is about to begin with it. -/
inductive PoolCall where
  | addTransaction (t : Transaction)
  | removeTransaction (id : String)
  deriving DecidableEq, Repr

/-- How far the call has come that holds the lock. -/
inductive Phase where
  /-- `runExclusive` has set the lock, its callback begins after one suspension. -/
  | begun (call : PoolCall)
  /-- In `senderState.apply`, before the answer to `verifyTransaction`. -/
  | applying (t : Transaction)
  /-- In `senderState.apply`, past the look at `#corrupt`. -/
  | entering (t : Transaction)
  /-- The handler has applied the transaction. -/
  | applied (t : Transaction)
  /-- In the loop over `removedTransactions`, with those still to be reverted. -/
  | reverting (removedTransactions rest : List Transaction)
  /-- `senderState.revert` has thrown. -/
  | failing (removedTransactions : List Transaction)
  /-- The callback of `addTransaction` has ended, the lock is still set. -/
  | added (result : Except PoolError Unit)
  /-- The callback of `removeTransaction` has returned, the lock is still set. -/
  | removed (result : List Transaction)

/-- The list of a sender, its state, the nonce of its wallet in the pool, and the calls in
    progress. `#concurrency` is their number. -/
structure SenderMempool where
  transactions : List Transaction
  corrupt : Bool
  nonce : Int
  waiting : List PoolCall
  holder : Option Phase

namespace SenderMempool

/-- A list just created, for a wallet with this nonce. -/
def created (nonce : Int) : SenderMempool := ⟨[], false, nonce, [], none⟩

/-- `#concurrency`. -/
def concurrency (s : SenderMempool) : Nat := s.waiting.length + s.holder.toList.length

/-- `isDisposable()`. -/
def isDisposable (s : SenderMempool) : Bool := s.transactions.length = 0 && s.concurrency = 0

/-- `t.id === id`. -/
def hasId (id : String) (t : Transaction) : Bool := t.data.id = some id

/-- The beginning of the callback of `addTransaction`. -/
def beginAdd (c : PoolConfiguration) (s : SenderMempool) (t : Transaction) : Phase :=
  match t.data.senderPublicKey with
  | none => .added (.error (.passed .notDefined))
  | some senderPublicKey =>
    if s.transactions.length ≥ c.maxTransactionsPerSender ∧ senderPublicKey ∉ c.allowedSenders then
      .added (.error (.senderExceededMaximumTransactionCount c.maxTransactionsPerSender))
    else .applying t

/-- What follows the answer to `verifyTransaction`. -/
def checked (c : PoolConfiguration) (lastHeight : Nat) (verified : Except Exception Bool)
    (s : SenderMempool) (t : Transaction) : Phase :=
  match SenderState.check c lastHeight verified s.corrupt t with
  | .error e => .added (.error e)
  | .ok () => .entering t

/-- The beginning of the callback of `removeTransaction`. -/
def take (s : SenderMempool) (id : String) : SenderMempool :=
  match s.transactions.findIdx? (hasId id) with
  | none => { s with holder := some (.removed []) }
  | some index =>
    { s with
      transactions := s.transactions.take index
      holder := some (.reverting (s.transactions.drop index).reverse
        (s.transactions.drop index).reverse) }

/-- What `removeForgedTransaction` returns. -/
def forged (s : SenderMempool) (id : String) : List Transaction :=
  match s.transactions.findIdx? (hasId id) with
  | none => []
  | some index => s.transactions.take (index + 1)

/-- What `removeForgedTransaction` leaves. -/
def afterForged (s : SenderMempool) (id : String) : SenderMempool :=
  match s.transactions.findIdx? (hasId id) with
  | none => s
  | some index => { s with transactions := s.transactions.drop (index + 1) }

end SenderMempool

/-! ## 2. Steps and runs -/

/-- What can be seen of a step from outside. -/
inductive PoolEvent where
  /-- The list has taken the transaction. -/
  | accepted (t : Transaction)
  /-- `removeTransaction` or `removeForgedTransaction` has returned these. -/
  | returned (ts : List Transaction)
  /-- `senderState.revert` has thrown. -/
  | revertFailed

namespace SenderMempool

/-- One step: a call is made, or some call goes on to its next suspension. -/
inductive Step (c : PoolConfiguration) : SenderMempool → Option PoolEvent → SenderMempool → Prop
  | call (s : SenderMempool) (call : PoolCall) :
    Step c s none { s with waiting := call :: s.waiting }
  | removeForgedTransaction (s : SenderMempool) (id : String) :
    Step c s (some (.returned (s.forged id))) (s.afterForged id)
  /-- The loop of `runExclusive` ends where no exclusive promise is set. -/
  | acquire (s : SenderMempool) (call : PoolCall) (hfree : s.holder = none)
      (hcall : call ∈ s.waiting) :
    Step c s none { s with waiting := s.waiting.erase call, holder := some (.begun call) }
  | add (s : SenderMempool) (t : Transaction)
      (h : s.holder = some (.begun (.addTransaction t))) :
    Step c s none { s with holder := some (s.beginAdd c t) }
  | check (s : SenderMempool) (t : Transaction) (lastHeight : Nat)
      (verified : Except Exception Bool) (h : s.holder = some (.applying t)) :
    Step c s none { s with holder := some (s.checked c lastHeight verified t) }
  | applyFailed (s : SenderMempool) (t : Transaction) (e : Exception)
      (h : s.holder = some (.entering t)) :
    Step c s none { s with holder := some (.added (.error (.transactionFailedToApply e))) }
  | apply (s : SenderMempool) (t : Transaction) (h : s.holder = some (.entering t))
      (hnonce : nonceOf t = s.nonce + 1) :
    Step c s none { s with nonce := nonceOf t, holder := some (.applied t) }
  | push (s : SenderMempool) (t : Transaction) (h : s.holder = some (.applied t)) :
    Step c s (some (.accepted t))
      { s with transactions := s.transactions ++ [t], holder := some (.added (.ok ())) }
  | remove (s : SenderMempool) (id : String)
      (h : s.holder = some (.begun (.removeTransaction id))) :
    Step c s none (s.take id)
  | revert (s : SenderMempool) (removedTransactions : List Transaction) (t : Transaction)
      (rest : List Transaction) (h : s.holder = some (.reverting removedTransactions (t :: rest)))
      (hnonce : nonceOf t = s.nonce) :
    Step c s none
      { s with nonce := nonceOf t - 1, holder := some (.reverting removedTransactions rest) }
  /-- Nothing is known of the wallet after a failed revert. -/
  | revertFailed (s : SenderMempool) (removedTransactions : List Transaction) (t : Transaction)
      (rest : List Transaction) (h : s.holder = some (.reverting removedTransactions (t :: rest)))
      (nonce : Int) :
    Step c s (some .revertFailed)
      { s with corrupt := true, nonce := nonce, holder := some (.failing removedTransactions) }
  | reverted (s : SenderMempool) (removedTransactions : List Transaction)
      (h : s.holder = some (.reverting removedTransactions [])) :
    Step c s none { s with holder := some (.removed removedTransactions) }
  | drop (s : SenderMempool) (removedTransactions : List Transaction)
      (h : s.holder = some (.failing removedTransactions)) :
    Step c s none
      { s with
        transactions := []
        holder := some (.removed (removedTransactions ++ s.transactions.reverse)) }
  /-- The promise of the callback has settled; `finally` clears the lock. -/
  | added (s : SenderMempool) (result : Except PoolError Unit)
      (h : s.holder = some (.added result)) : Step c s none { s with holder := none }
  | removed (s : SenderMempool) (result : List Transaction)
      (h : s.holder = some (.removed result)) :
    Step c s (some (.returned result)) { s with holder := none }

/-- The states a list comes to, with the events on the way. -/
inductive Run (c : PoolConfiguration) (s₀ : SenderMempool) :
    List PoolEvent → SenderMempool → Prop
  | start : Run c s₀ [] s₀
  | step {es : List PoolEvent} {s : SenderMempool} {o : Option PoolEvent} {s' : SenderMempool}
      (h : Run c s₀ es s) (hs : Step c s o s') : Run c s₀ (es ++ o.toList) s'

end SenderMempool

/-! ## 3. Queues -/

/-- Consecutive nonces, the last of which is `n`. -/
structure Queue (n : Int) (l : List Transaction) : Prop where
  consecutive : l.IsChain NextNonce
  last : ∀ t ∈ l.getLast?, nonceOf t = n

namespace Queue

variable {n : Int} {l l' : List Transaction} {t : Transaction}

theorem nil (n : Int) : Queue n [] := ⟨List.IsChain.nil, fun _ h => (nomatch h)⟩

/-- Without its first transactions a queue is a queue. -/
theorem suffix (h : Queue n (l ++ l')) : Queue n l' := by
  refine ⟨(List.isChain_append.1 h.consecutive).2.1, fun t ht => h.last t ?_⟩
  rw [List.getLast?_append, Option.mem_def.1 ht]
  rfl

/-- **A transaction with the next nonce goes on with the queue.** -/
theorem concat (h : Queue n l) (ht : nonceOf t = n + 1) : Queue (nonceOf t) (l ++ [t]) := by
  refine ⟨List.isChain_append.2 ⟨h.consecutive, List.isChain_singleton t, ?_⟩, ?_⟩
  · intro u hu v hv
    obtain rfl : t = v := Option.some.inj hv
    unfold NextNonce
    rw [h.last u hu]
    exact ht
  · intro u hu
    rw [List.getLast?_concat] at hu
    obtain rfl : t = u := Option.some.inj hu
    rfl

/-- **Without its last transaction a queue ends one nonce earlier.** -/
theorem of_concat (h : Queue n (l ++ [t])) : Queue (n - 1) l := by
  obtain ⟨hl, -, hnext⟩ := List.isChain_append.1 h.consecutive
  refine ⟨hl, fun u hu => ?_⟩
  have hlast : nonceOf t = n := h.last t (by rw [List.getLast?_concat]; rfl)
  have hstep : nonceOf t = nonceOf u + 1 := hnext u hu t rfl
  omega

end Queue

/-! ## 4. What every step preserves -/

namespace Phase

/-- What the call holds back from the end of the list: applied and not yet pushed, or taken out
    and not yet reverted. -/
def held : Phase → List Transaction
  | applied t => [t]
  | reverting _ rest => rest.reverse
  | _ => []

/-- What the call has taken out and not yet returned. -/
def taken : Phase → List Transaction
  | reverting removedTransactions _ => removedTransactions
  | failing removedTransactions => removedTransactions
  | removed result => result
  | _ => []

/-- What is asked of the list by a phase that is reached in a corrupt state. -/
def EndsOn (transactions : List Transaction) : Phase → Prop
  | failing _ => True
  | entering _ | applied _ | reverting _ _ => False
  | _ => transactions = []

end Phase

namespace SenderMempool

/-- `Phase.held` of the call that holds the lock. -/
def held (s : SenderMempool) : List Transaction := (s.holder.map Phase.held).getD []

/-- `Phase.taken` of the call that holds the lock. -/
def taken (s : SenderMempool) : List Transaction := (s.holder.map Phase.taken).getD []

/-- A corrupt state lets the call come so far, and but for the call that just failed it finds the
    list empty. -/
def Ended (s : SenderMempool) : Prop :=
  match s.holder with
  | none => s.transactions = []
  | some p => p.EndsOn s.transactions

/-- **What every step preserves.** The list and what is held back have consecutive nonces, up to the
    nonce of the wallet; a corrupt state has ended. -/
structure Kept (s : SenderMempool) : Prop where
  consecutive : s.transactions.IsChain NextNonce
  queue : s.corrupt = false → Queue s.nonce (s.transactions ++ s.held)
  ended : s.corrupt = true → s.Ended

variable {c : PoolConfiguration} {s s' : SenderMempool} {o : Option PoolEvent}

theorem kept_created (nonce : Int) : (created nonce).Kept :=
  ⟨List.IsChain.nil, fun _ => Queue.nil nonce, fun h => (nomatch h)⟩

theorem held_of {p : Phase} (h : s.holder = some p) : s.held = p.held := by
  unfold held
  rw [h]
  rfl

theorem taken_of {p : Phase} (h : s.holder = some p) : s.taken = p.taken := by
  unfold taken
  rw [h]
  rfl

theorem held_none (h : s.holder = none) : s.held = [] := by
  unfold held
  rw [h]
  rfl

theorem ended_of {p : Phase} (h : s.holder = some p) :
    s.Ended ↔ p.EndsOn s.transactions := by
  unfold Ended
  rw [h]

theorem ended_none (h : s.holder = none) : s.Ended ↔ s.transactions = [] := by
  unfold Ended
  rw [h]

/-- The call goes on with nothing held back before or after, and the list as it is. -/
theorem Kept.goOn {holder : Option Phase} (h : s.Kept) (hheld : s.held = [])
    (hafter : ({ s with holder := holder } : SenderMempool).held = [])
    (hended : s.Ended → ({ s with holder := holder } : SenderMempool).Ended) :
    ({ s with holder := holder } : SenderMempool).Kept := by
  refine ⟨h.consecutive, fun hc => ?_, fun hc => hended (h.ended hc)⟩
  have hqueue := h.queue hc
  rw [hheld] at hqueue
  rw [hafter]
  exact hqueue

theorem Kept.afterForged (h : s.Kept) (id : String) : (s.afterForged id).Kept := by
  unfold SenderMempool.afterForged
  split
  · exact h
  rename_i index _
  refine ⟨h.consecutive.drop _, fun hc => ?_, fun hc => ?_⟩
  · have hqueue := h.queue hc
    rw [← List.take_append_drop (index + 1) s.transactions, List.append_assoc] at hqueue
    exact hqueue.suffix
  · have hempty : ∀ l : List Transaction, l = [] → l.drop (index + 1) = [] := by
      intro l hl
      rw [hl, List.drop_nil]
    have hended := h.ended hc
    unfold Ended at hended ⊢
    cases hp : s.holder with
    | none =>
      rw [hp] at hended
      exact hempty _ hended
    | some p =>
      rw [hp] at hended
      cases p with
      | failing _ => trivial
      | entering _ | applied _ | reverting _ _ => exact hended
      | _ => exact hempty _ hended

theorem Kept.take {id : String} (h : s.Kept)
    (hp : s.holder = some (.begun (.removeTransaction id))) : (s.take id).Kept := by
  unfold SenderMempool.take
  split
  · exact h.goOn (held_of hp) rfl (ended_of hp).1
  rename_i index hindex
  refine ⟨h.consecutive.take _, fun hc => ?_, fun hc => ?_⟩
  · have hqueue := h.queue hc
    rw [held_of hp] at hqueue
    show Queue s.nonce (_ ++ (s.transactions.drop index).reverse.reverse)
    rw [List.reverse_reverse, List.take_append_drop]
    exact List.append_nil s.transactions ▸ hqueue
  · have hempty : s.transactions = [] := (ended_of hp).1 (h.ended hc)
    rw [hempty] at hindex
    cases hindex

theorem beginAdd_cases (c : PoolConfiguration) (s : SenderMempool) (t : Transaction) :
    s.beginAdd c t = .applying t ∨ ∃ e, s.beginAdd c t = .added (.error e) := by
  unfold beginAdd
  split
  · exact Or.inr ⟨_, rfl⟩
  split
  · exact Or.inr ⟨_, rfl⟩
  · exact Or.inl rfl

/-- **Every step keeps list and nonce together.** -/
theorem Kept.step (h : s.Kept) (hs : Step c s o s') : s'.Kept := by
  cases hs with
  | call call => exact ⟨h.consecutive, h.queue, h.ended⟩
  | removeForgedTransaction id => exact h.afterForged id
  | acquire call hfree hcall =>
    have hnext : ({ s with holder := some (.begun call) } : SenderMempool).Kept :=
      h.goOn (held_none hfree) rfl (ended_none hfree).1
    exact ⟨hnext.consecutive, hnext.queue, hnext.ended⟩
  | add t hp =>
    rcases beginAdd_cases c s t with heq | ⟨e, heq⟩
    · rw [heq]
      exact h.goOn (held_of hp) rfl (ended_of hp).1
    · rw [heq]
      exact h.goOn (held_of hp) rfl (ended_of hp).1
  | check t lastHeight verified hp =>
    unfold checked
    split
    · exact h.goOn (held_of hp) rfl (ended_of hp).1
    · rename_i hok
      refine ⟨h.consecutive, fun hc => ?_, fun hc => ?_⟩
      · have hqueue := h.queue hc
        rwa [held_of hp] at hqueue
      · rw [hc] at hok
        exact absurd hok (SenderState.check_corrupt c lastHeight verified t)
  | applyFailed t e hp => exact h.goOn (held_of hp) rfl fun hended => ((ended_of hp).1 hended).elim
  | apply t hp hnonce =>
    refine ⟨h.consecutive, fun hc => ?_, fun hc => ((ended_of hp).1 (h.ended hc)).elim⟩
    have hqueue := h.queue hc
    rw [held_of hp] at hqueue
    exact (List.append_nil s.transactions ▸ hqueue).concat hnonce
  | push t hp =>
    have hqueue : s.corrupt = false → Queue s.nonce (s.transactions ++ [t]) := by
      intro hc
      have hqueue := h.queue hc
      rwa [held_of hp] at hqueue
    have hsound : s.corrupt = false := by
      rw [← Bool.not_eq_true]
      exact fun hc => (ended_of hp).1 (h.ended hc)
    refine ⟨(hqueue hsound).consecutive, fun hc => ?_, fun hc => ?_⟩
    · exact (List.append_nil (s.transactions ++ [t])).symm ▸ hqueue hc
    · rw [hsound] at hc
      cases hc
  | remove id hp => exact h.take hp
  | revert removedTransactions t rest hp hnonce =>
    refine ⟨h.consecutive, fun hc => ?_, fun hc => ((ended_of hp).1 (h.ended hc)).elim⟩
    have hqueue := h.queue hc
    have hheld : s.held = rest.reverse ++ [t] := (held_of hp).trans List.reverse_cons
    rw [hheld, ← List.append_assoc] at hqueue
    rw [hnonce]
    exact hqueue.of_concat
  | revertFailed removedTransactions t rest hp nonce =>
    exact ⟨h.consecutive, fun hc => (nomatch hc), fun _ => trivial⟩
  | reverted removedTransactions hp =>
    exact h.goOn (held_of hp) rfl fun hended => ((ended_of hp).1 hended).elim
  | drop removedTransactions hp =>
    exact ⟨List.IsChain.nil, fun _ => Queue.nil _, fun _ => rfl⟩
  | added result hp => exact h.goOn (held_of hp) rfl (ended_of hp).1
  | removed result hp => exact h.goOn (held_of hp) rfl (ended_of hp).1

/-- **Every run keeps them together.** -/
theorem kept_of_run {s₀ : SenderMempool} {es : List PoolEvent} (h : s₀.Kept)
    (hr : Run c s₀ es s) : s.Kept := by
  induction hr with
  | start => exact h
  | step _ hs ih => exact ih.step hs

/-! ## 5. Nothing is lost or duplicated -/

end SenderMempool

namespace PoolEvent

/-- The transactions accepted in the course of some events. -/
def acceptedIn : List PoolEvent → List Transaction
  | [] => []
  | accepted t :: es => t :: acceptedIn es
  | _ :: es => acceptedIn es

/-- The transactions returned in the course of some events. -/
def returnedIn : List PoolEvent → List Transaction
  | [] => []
  | returned ts :: es => ts ++ returnedIn es
  | _ :: es => returnedIn es

theorem acceptedIn_append (es fs : List PoolEvent) :
    acceptedIn (es ++ fs) = acceptedIn es ++ acceptedIn fs := by
  induction es with
  | nil => rfl
  | cons e es ih =>
    cases e with
    | accepted t => exact congrArg (t :: ·) ih
    | returned ts => exact ih
    | revertFailed => exact ih

theorem returnedIn_append (es fs : List PoolEvent) :
    returnedIn (es ++ fs) = returnedIn es ++ returnedIn fs := by
  induction es with
  | nil => rfl
  | cons e es ih =>
    cases e with
    | accepted t => exact ih
    | returned ts =>
      show ts ++ returnedIn (es ++ fs) = ts ++ returnedIn es ++ returnedIn fs
      rw [ih, List.append_assoc]
    | revertFailed => exact ih

end PoolEvent

namespace SenderMempool

open PoolEvent

variable {c : PoolConfiguration} {s s' : SenderMempool} {o : Option PoolEvent}

theorem taken_none (h : s.holder = none) : s.taken = [] := by
  unfold taken
  rw [h]
  rfl

theorem forged_append (s : SenderMempool) (id : String) :
    s.forged id ++ (s.afterForged id).transactions = s.transactions := by
  unfold forged afterForged
  cases s.transactions.findIdx? (hasId id) with
  | none => rfl
  | some index => exact List.take_append_drop _ _

theorem afterForged_taken (s : SenderMempool) (id : String) :
    (s.afterForged id).taken = s.taken := by
  unfold afterForged
  split
  · rfl
  · rfl

theorem take_conserves {id : String} (s : SenderMempool) :
    ((s.take id).transactions ++ (s.take id).taken).Perm s.transactions := by
  unfold take
  split
  · exact (List.append_nil s.transactions).symm ▸ List.Perm.refl _
  · rename_i index _
    show (s.transactions.take index ++ (s.transactions.drop index).reverse).Perm _
    refine ((List.reverse_perm _).append_left _).trans ?_
    rw [List.take_append_drop]

/-- A step that goes on with list and taken transactions as they are. -/
theorem conserves_of_eq (htransactions : s'.transactions = s.transactions)
    (htaken : s'.taken = s.taken) :
    (s'.transactions ++ s'.taken ++ []).Perm (s.transactions ++ s.taken ++ []) := by
  rw [htransactions, htaken]

/-- **A step moves transactions, but for those it accepts or returns.** -/
theorem Step.conserves (hs : Step c s o s') :
    (s'.transactions ++ s'.taken ++ returnedIn o.toList).Perm
      (s.transactions ++ s.taken ++ acceptedIn o.toList) := by
  cases hs with
  | call call => exact conserves_of_eq rfl rfl
  | removeForgedTransaction id =>
    show ((s.afterForged id).transactions ++ (s.afterForged id).taken ++ (s.forged id ++ [])).Perm
      (s.transactions ++ s.taken ++ [])
    rw [afterForged_taken, List.append_nil, List.append_nil, ← forged_append s id,
      List.append_assoc (s.forged id)]
    exact List.perm_append_comm
  | acquire call hfree hcall => exact conserves_of_eq rfl (taken_none hfree).symm
  | add t hp =>
    refine conserves_of_eq rfl ((?_ : Phase.taken _ = []).trans (taken_of hp).symm)
    rcases beginAdd_cases c s t with heq | ⟨e, heq⟩
    · rw [heq]
      rfl
    · rw [heq]
      rfl
  | check t lastHeight verified hp =>
    refine conserves_of_eq rfl ((?_ : Phase.taken _ = []).trans (taken_of hp).symm)
    unfold checked
    split
    · rfl
    · rfl
  | applyFailed t e hp => exact conserves_of_eq rfl (taken_of hp).symm
  | apply t hp hnonce => exact conserves_of_eq rfl (taken_of hp).symm
  | push t hp =>
    show (s.transactions ++ [t] ++ [] ++ []).Perm (s.transactions ++ s.taken ++ [t])
    rw [taken_of hp]
    simp [Phase.taken]
  | remove id hp =>
    show ((s.take id).transactions ++ (s.take id).taken ++ []).Perm
      (s.transactions ++ s.taken ++ [])
    rw [taken_of hp, List.append_nil, List.append_nil]
    refine (take_conserves s).trans ?_
    show s.transactions.Perm (s.transactions ++ [])
    rw [List.append_nil]
  | revert removedTransactions t rest hp hnonce => exact conserves_of_eq rfl (taken_of hp).symm
  | revertFailed removedTransactions t rest hp nonce =>
    exact conserves_of_eq rfl (taken_of hp).symm
  | reverted removedTransactions hp => exact conserves_of_eq rfl (taken_of hp).symm
  | drop removedTransactions hp =>
    show ([] ++ (removedTransactions ++ s.transactions.reverse) ++ []).Perm
      (s.transactions ++ s.taken ++ [])
    rw [taken_of hp, List.append_nil, List.append_nil]
    exact ((List.reverse_perm _).append_left _).trans List.perm_append_comm
  | added result hp => exact conserves_of_eq rfl (taken_of hp).symm
  | removed result hp =>
    show (s.transactions ++ [] ++ (result ++ [])).Perm (s.transactions ++ s.taken ++ [])
    rw [taken_of hp]
    simp [Phase.taken]

/-- **What was accepted is in the list, or taken out by the call in progress, or was returned, each
    transaction as often as it was accepted.** -/
theorem conserved_of_run {nonce : Int} {es : List PoolEvent} (hr : Run c (created nonce) es s) :
    (s.transactions ++ s.taken ++ returnedIn es).Perm (acceptedIn es) := by
  induction hr with
  | start => exact List.Perm.refl _
  | @step es s o s' hr hs ih =>
    rw [acceptedIn_append, returnedIn_append]
    have hswap : (s'.transactions ++ s'.taken ++ (returnedIn es ++ returnedIn o.toList)).Perm
        (s'.transactions ++ s'.taken ++ returnedIn o.toList ++ returnedIn es) := by
      rw [List.append_assoc _ (returnedIn o.toList)]
      exact List.perm_append_comm.append_left _
    refine hswap.trans ((hs.conserves.append_right _).trans ?_)
    rw [List.append_assoc]
    refine (List.perm_append_comm.append_left _).trans ?_
    rw [← List.append_assoc]
    exact ih.append_right _

/-! ## 6. The end after a failed revert -/

/-- A corrupt state stays corrupt and accepts nothing. -/
theorem Step.corrupt (hs : Step c s o s') (h : s.Kept) (hc : s.corrupt = true) :
    s'.corrupt = true ∧ acceptedIn o.toList = [] := by
  cases hs with
  | push t hp => exact ((ended_of hp).1 (h.ended hc)).elim
  | removeForgedTransaction id =>
    refine ⟨?_, rfl⟩
    unfold afterForged
    split
    · exact hc
    · exact hc
  | remove id hp =>
    refine ⟨?_, rfl⟩
    unfold take
    split
    · exact hc
    · exact hc
  | revertFailed _ _ _ _ _ => exact ⟨rfl, rfl⟩
  | _ => exact ⟨hc, rfl⟩

/-- A revert that failed leaves its mark. -/
theorem corrupt_of_failed {nonce : Int} {es : List PoolEvent} (hr : Run c (created nonce) es s)
    (h : .revertFailed ∈ es) : s.corrupt = true := by
  induction hr with
  | start => cases h
  | @step es s o s' hr hs ih =>
    rcases List.mem_append.1 h with hbefore | hnow
    · exact (hs.corrupt (kept_of_run (kept_created nonce) hr) (ih hbefore)).1
    · cases hs with
      | revertFailed _ _ _ _ _ => rfl
      | removeForgedTransaction id => simp at hnow
      | push t hp => simp at hnow
      | removed result hp => simp at hnow
      | _ => cases hnow

/-- **After a failed revert nothing is accepted any more.** -/
theorem nothing_accepted {nonce : Int} {es : List PoolEvent} (hr : Run c (created nonce) es s)
    (before after : List PoolEvent) (h : es = before ++ .revertFailed :: after) :
    acceptedIn after = [] := by
  induction hr generalizing after with
  | start => simp at h
  | @step es s o s' hr hs ih =>
    cases o with
    | none => exact ih after (by simpa using h)
    | some e =>
      have hlist : es ++ [e] = before ++ .revertFailed :: after := h
      rcases List.eq_nil_or_concat after with rfl | ⟨init, last, rfl⟩
      · rfl
      · rw [List.concat_eq_append, ← List.cons_append, ← List.append_assoc] at hlist
        obtain ⟨hes, hlast⟩ := List.append_inj' hlist rfl
        obtain rfl : e = last := List.cons.inj hlast |>.1
        have hfailed : s.corrupt = true :=
          corrupt_of_failed hr (hes ▸ List.mem_append_right _ List.mem_cons_self)
        rw [List.concat_eq_append, acceptedIn_append, ih init hes,
          show acceptedIn [e] = [] from
            (hs.corrupt (kept_of_run (kept_created nonce) hr) hfailed).2]
        rfl

end SenderMempool

end CoreEx
