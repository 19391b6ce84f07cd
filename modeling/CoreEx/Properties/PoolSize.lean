/-
  File:      CoreEx/Properties/PoolSize.lean
  Subject:   Whether the pool stays as small as it is configured.

  A call looks at the size of the pool and suspends several times before its transaction is in the
  list of its sender. Calls that look at the size in the meantime do not know of each other. What
  bounds the pool is the number of transactions together with the calls underway to a list: only
  a call that goes on to `mempool.addTransaction` adds to it.

  * `SenderMempool.weight`, `Step.weight_le` -- the same sum for one list;
  * `underway`, `HasRoom` -- the calls that have gone on, and what the next one should look at;
  * `Effect`, `goOn_effect` -- what a call does to the lists as it goes on;
  * `Step.reserved_le` -- what one step does to the sum;
  * **`poolSize_of_run`** -- the size in every run in which calls go on where there is room;
  * **`twoCalls_not`** -- two calls for one place.
-/
import CoreEx.Pool.Service
import CoreEx.Properties.PendingLists
import Mathlib.Algebra.BigOperators.Group.List.Basic
import Mathlib.Algebra.Order.BigOperators.Group.List
import Mathlib.Logic.Relation

namespace CoreEx

/-! ## 1. One list -/

/-- Whether the call adds a transaction. -/
def PoolCall.adds : PoolCall → Bool
  | addTransaction _ => true
  | removeTransaction _ => false

/-- Whether the call that holds the lock may still push a transaction. -/
def Phase.adds : Phase → Bool
  | begun call => call.adds
  | applying _ | entering _ | applied _ => true
  | _ => false

namespace SenderMempool

/-- The calls of `addTransaction` that have neither pushed their transaction nor failed. -/
def adds (s : SenderMempool) : Nat :=
  s.waiting.countP PoolCall.adds + s.holder.toList.countP Phase.adds

/-- The transactions of a list, and those that may come to it. -/
def weight (s : SenderMempool) : Nat := s.transactions.length + s.adds

variable {c : PoolConfiguration} {s s' : SenderMempool} {o : Option PoolEvent}

theorem weight_of {p : Phase} (h : s.holder = some p) : s.weight =
    s.transactions.length + (s.waiting.countP PoolCall.adds + p.adds.toNat) := by
  unfold weight adds
  rw [h]
  cases hp : p.adds with
  | false => simp [hp]
  | true => simp [hp]

theorem weight_none (h : s.holder = none) :
    s.weight = s.transactions.length + s.waiting.countP PoolCall.adds := by
  unfold weight adds
  rw [h]
  rfl

/-- The call that holds the lock goes on, and the list grows by no more than it may push. -/
theorem weight_le_of_moved {p p' : Phase} (hp : s.holder = some p) (hp' : s'.holder = some p')
    (hwaiting : s'.waiting = s.waiting)
    (hle : s'.transactions.length + p'.adds.toNat ≤ s.transactions.length + p.adds.toNat) :
    s'.weight ≤ s.weight := by
  rw [weight_of hp, weight_of hp', hwaiting]
  omega

/-- The call releases the lock. -/
theorem weight_le_of_released {p : Phase} (hp : s.holder = some p) :
    ({ s with holder := none } : SenderMempool).weight ≤ s.weight := by
  rw [weight_of hp, weight_none rfl]
  show s.transactions.length + s.waiting.countP PoolCall.adds ≤ _
  omega

/-- **A step of a list by the call that holds its lock** takes nothing into the list that was not
    underway. -/
theorem Step.weight_le (hs : Step c s o s') (hwaiting : s'.waiting = s.waiting) :
    s'.weight ≤ s.weight := by
  cases hs with
  | call call => exact absurd (congrArg List.length hwaiting) (by simp)
  | removeForgedTransaction id =>
    unfold afterForged
    split
    · exact le_rfl
    · show (s.transactions.drop _).length + s.adds ≤ s.transactions.length + s.adds
      rw [List.length_drop]
      omega
  | acquire call hfree hcall =>
    have hlength : (s.waiting.erase call).length = s.waiting.length := congrArg List.length hwaiting
    rw [List.length_erase_of_mem hcall] at hlength
    have hpos := List.length_pos_of_mem hcall
    omega
  | add t hp =>
    rcases beginAdd_cases c s t with heq | ⟨e, heq⟩
    · exact weight_le_of_moved hp (congrArg some heq) rfl le_rfl
    · exact weight_le_of_moved hp (congrArg some heq) rfl (Nat.le_add_right _ _)
  | check t lastHeight verified hp =>
    refine weight_le_of_moved hp rfl rfl (Nat.add_le_add_left ?_ _)
    exact Bool.toNat_le _
  | applyFailed t e hp => exact weight_le_of_moved hp rfl rfl (Nat.le_add_right _ _)
  | apply t hp hnonce => exact weight_le_of_moved hp rfl rfl le_rfl
  | push t hp =>
    refine weight_le_of_moved hp rfl rfl ?_
    show (s.transactions ++ [t]).length + 0 ≤ s.transactions.length + 1
    rw [List.length_append]
    exact le_rfl
  | remove id hp =>
    unfold take
    split
    · exact weight_le_of_moved hp rfl rfl le_rfl
    · refine weight_le_of_moved hp rfl rfl (Nat.add_le_add_right ?_ 0)
      show (s.transactions.take _).length ≤ _
      rw [List.length_take]
      exact Nat.min_le_right _ _
  | revert removedTransactions t rest hp hnonce => exact weight_le_of_moved hp rfl rfl le_rfl
  | revertFailed removedTransactions t rest hp nonce => exact weight_le_of_moved hp rfl rfl le_rfl
  | reverted removedTransactions hp => exact weight_le_of_moved hp rfl rfl le_rfl
  | drop removedTransactions hp => exact weight_le_of_moved hp rfl rfl (Nat.zero_le _)
  | added result hp => exact weight_le_of_released hp
  | removed result hp => exact weight_le_of_released hp

/-- A call of `removeTransaction` adds nothing. -/
theorem weight_await_remove (s : SenderMempool) (id : String) :
    (s.await (.removeTransaction id)).weight = s.weight := rfl

/-- A call of `addTransaction` may add one. -/
theorem weight_await_add (s : SenderMempool) (t : Transaction) :
    (s.await (.addTransaction t)).weight = s.weight + 1 := by
  unfold weight adds
  show _ + ((PoolCall.addTransaction t :: s.waiting).countP PoolCall.adds + _) = _
  rw [List.countP_cons_of_pos rfl]
  simp only [await]
  omega

/-- Whether a call waits or holds the lock, it may add the same. -/
theorem weight_acquire {call : PoolCall} (hfree : s.holder = none) (hcall : call ∈ s.waiting) :
    (s.acquire call).weight = s.weight := by
  have hcount : (s.waiting.erase call).countP PoolCall.adds + call.adds.toNat =
      s.waiting.countP PoolCall.adds := by
    rw [(List.perm_cons_erase hcall).countP_eq, List.countP_cons]
    cases call.adds with
    | false => rfl
    | true => rfl
  rw [weight_none hfree, weight_of rfl]
  show s.transactions.length + ((s.waiting.erase call).countP PoolCall.adds + call.adds.toNat) = _
  rw [hcount]

end SenderMempool

/-! ## 2. The pool and the calls underway -/

/-- Whether the call has created this list and is still to call it. -/
def AddPhase.isCreating (k : Nat) : AddPhase → Bool
  | creating k' => k' = k
  | _ => false

namespace PoolService

/-- How many calls have created the list and are still to call it. -/
def creatingAt (calls : List (Transaction × AddPhase)) (k : Nat) : Nat :=
  calls.countP fun call => call.2.isCreating k

/-- The calls that have gone on to `mempool.addTransaction`, and have neither pushed their
    transaction nor failed; those to a list that is nobody's any more do not count. -/
def underway (s : PoolService) : Nat :=
  (s.pool.senderMempools.values.map fun k => (s.pool.lists k).adds + creatingAt s.calls k).sum

/-- There is room for one more, when all calls underway succeed. -/
def HasRoom (c : ServiceConfiguration) (s : PoolService) : Prop :=
  s.pool.getSize + s.underway < c.maxTransactionsInPool

/-- What a list has and may have of the places in the pool. -/
def weightAt (p : TransactionPool) (calls : List (Transaction × AddPhase)) (k : Nat) : Nat :=
  (p.lists k).weight + creatingAt calls k

/-- The places that are taken, or may be. -/
def reserved (s : PoolService) : Nat :=
  (s.pool.senderMempools.values.map (weightAt s.pool s.calls)).sum

theorem reserved_eq (s : PoolService) : s.reserved = s.pool.getSize + s.underway := by
  unfold reserved TransactionPool.getSize underway
  rw [← List.sum_map_add]
  refine congrArg List.sum (List.map_congr_left fun k _ => ?_)
  exact Nat.add_assoc _ _ _

/-- No list is filed twice, and numbers are given to one list only. -/
structure Known (s : PoolService) : Prop where
  distinct : s.pool.senderMempools.values.Nodup
  listed : ∀ k ∈ s.pool.senderMempools.values, k < s.pool.created
  creating : ∀ call ∈ s.calls, ∀ k, call.2 = .creating k → k < s.pool.created

/-- Nobody works on the pool. -/
structure AtRest (s : PoolService) : Prop where
  calls : s.calls = []
  idle : ∀ k ∈ s.pool.senderMempools.values,
    (s.pool.lists k).waiting = [] ∧ (s.pool.lists k).holder = none
  distinct : s.pool.senderMempools.values.Nodup
  listed : ∀ k ∈ s.pool.senderMempools.values, k < s.pool.created

theorem AtRest.known {s : PoolService} (h : s.AtRest) : s.Known :=
  ⟨h.distinct, h.listed, fun call hcall => by
    rw [h.calls] at hcall
    cases hcall⟩

theorem AtRest.underway {s : PoolService} (h : s.AtRest) : s.underway = 0 := by
  unfold PoolService.underway
  refine List.sum_eq_zero fun n hn => ?_
  obtain ⟨k, hk, rfl⟩ := List.mem_map.1 hn
  obtain ⟨hwaiting, hholder⟩ := h.idle k hk
  unfold SenderMempool.adds
  rw [hwaiting, hholder, h.calls]
  rfl

end PoolService

/-! ## 3. What a call does as it goes on -/

namespace TransactionPool

/-- No list is new, and none has more or may have more than before. -/
structure Quiet (p p' : TransactionPool) : Prop where
  values : p'.senderMempools.values.Sublist p.senderMempools.values
  created : p'.created = p.created
  weight : ∀ k, (p'.lists k).weight ≤ (p.lists k).weight

/-- A call goes on to the list of its sender, or creates it. -/
inductive Entered (p : TransactionPool) : TransactionPool → AddPhase → Prop
  | existing {k : Nat} (t : Transaction) (hk : k ∈ p.senderMempools.values) :
    Entered p (p.setList k ((p.lists k).await (.addTransaction t))) (.adding k false)
  | new {senderPublicKey : PublicKey} (nonce : Int)
      (h : p.senderMempools.get? senderPublicKey = none) :
    Entered p (p.create senderPublicKey nonce) (.creating p.created)

/-- What a call does that was not in `mempool.addTransaction`. -/
def Effect (p p' : TransactionPool) (φ' : AddPhase) : Prop :=
  (Quiet p p' ∧ φ'.inMempool = false) ∨ Entered p p' φ'

variable {c : ServiceConfiguration} {answers : Answers} {t : Transaction} {p p' : TransactionPool}
  {φ φ' : AddPhase}

theorem Quiet.refl (p : TransactionPool) : Quiet p p :=
  ⟨List.Sublist.refl _, rfl, fun _ => le_rfl⟩

theorem Quiet.setList {k : Nat} {l : SenderMempool} (h : l.weight ≤ (p.lists k).weight) :
    Quiet p (p.setList k l) := by
  refine ⟨List.Sublist.refl _, rfl, fun k' => ?_⟩
  by_cases hk : k' = k
  · subst hk
    rw [lists_setList_self]
    exact h
  · rw [lists_setList_of_ne hk]

theorem Quiet.dispose (senderPublicKey : PublicKey) (k : Nat) (p : TransactionPool) :
    Quiet p (p.dispose senderPublicKey k) := by
  unfold TransactionPool.dispose
  split
  · exact ⟨OrderedMap.values_delete_sublist _ _, rfl, fun _ => le_rfl⟩
  · exact Quiet.refl p

theorem removeTransaction_effect (senderPublicKey : PublicKey) (id : String) (next : AfterRemoval)
    (p : TransactionPool) : Effect p (p.removeTransaction senderPublicKey id next).1
      (p.removeTransaction senderPublicKey id next).2 := by
  unfold removeTransaction
  split
  · exact Or.inl ⟨Quiet.refl p, rfl⟩
  · exact Or.inl ⟨Quiet.setList (SenderMempool.weight_await_remove _ id).le, rfl⟩

theorem removeLowestPriorityTransaction_effect (next : AfterRemoval) (p : TransactionPool) :
    Effect p (p.removeLowestPriorityTransaction next).1
      (p.removeLowestPriorityTransaction next).2 := by
  unfold removeLowestPriorityTransaction
  split
  · exact Or.inl ⟨Quiet.refl p, rfl⟩
  · exact Or.inl ⟨Quiet.refl p, rfl⟩

theorem addTransaction_effect (nonce : Int) (t : Transaction) (p : TransactionPool) :
    Effect p (p.addTransaction nonce t).1 (p.addTransaction nonce t).2 := by
  unfold addTransaction
  split
  · exact Or.inl ⟨Quiet.refl p, rfl⟩
  · split
    · rename_i h
      exact Or.inr (.existing t (OrderedMap.mem_values_of_get? h))
    · rename_i h
      exact Or.inr (.new nonce h)

theorem afterRemoval_effect (next : AfterRemoval) :
    Effect p (p.afterRemoval c answers t next).1 (p.afterRemoval c answers t next).2 := by
  cases next with
  | removingOld rest =>
    cases rest with
    | nil => exact Or.inl ⟨Quiet.refl p, rfl⟩
    | cons row rest => exact removeTransaction_effect _ _ _ p
  | removingExpired rest =>
    cases rest with
    | nil => exact Or.inl ⟨Quiet.refl p, rfl⟩
    | cons candidate rest =>
      simp only [afterRemoval]
      split
      · split
        · exact removeTransaction_effect _ _ _ p
        · exact Or.inl ⟨Quiet.refl p, rfl⟩
      · exact Or.inl ⟨Quiet.refl p, rfl⟩
  | removingLowest =>
    simp only [afterRemoval]
    split
    · exact removeLowestPriorityTransaction_effect _ p
    · exact Or.inl ⟨Quiet.refl p, rfl⟩
  | entering => exact addTransaction_effect _ _ p

/-- **A call that is not in `mempool.addTransaction`** leaves the lists no heavier, or goes on to
    one. -/
theorem goOn_effect (h : goOn c answers t p φ = some (p', φ')) (hφ : φ.inMempool = false) :
    Effect p p' φ' := by
  have hresult : ∀ r : TransactionPool × AddPhase, Effect p r.1 r.2 → some r = some (p', φ') →
      Effect p p' φ' := by
    intro r hr heq
    obtain rfl := Option.some.inj heq
    exact hr
  cases φ with
  | matching =>
    simp only [goOn] at h
    split at h
    · exact hresult _ (Or.inl ⟨Quiet.refl p, rfl⟩) h
    · refine hresult _ ?_ h
      unfold addTransactionToMempool
      split
      · exact Or.inl ⟨Quiet.refl p, rfl⟩
      · exact addTransaction_effect _ _ p
  | removal next => exact hresult _ (afterRemoval_effect next) h
  | full =>
    simp only [goOn] at h
    split at h
    · exact hresult _ (Or.inl ⟨Quiet.refl p, rfl⟩) h
    · exact hresult _ (addTransaction_effect _ _ p) h
  | comparing lowest =>
    cases lowest with
    | none => exact hresult _ (Or.inl ⟨Quiet.refl p, rfl⟩) h
    | some lowest =>
      simp only [goOn] at h
      split at h
      · exact hresult _ (Or.inl ⟨Quiet.refl p, rfl⟩) h
      · exact hresult _ (removeLowestPriorityTransaction_effect _ p) h
  | removingLowest lowest next =>
    cases lowest with
    | none => exact hresult _ (Or.inl ⟨Quiet.refl p, rfl⟩) h
    | some lowest =>
      simp only [goOn] at h
      split at h
      · exact hresult _ (removeTransaction_effect _ _ _ p) h
      · exact hresult _ (Or.inl ⟨Quiet.refl p, rfl⟩) h
  | removing k senderPublicKey id holds next => cases h
  | removed k senderPublicKey result next =>
    exact hresult _ (Or.inl ⟨Quiet.dispose _ _ p, rfl⟩) h
  | forgetting result next =>
    exact hresult _ (Or.inl ⟨⟨List.Sublist.refl _, rfl, fun _ => le_rfl⟩, rfl⟩) h
  | creating k => cases hφ
  | adding k holds => cases h
  | added k result =>
    simp only [goOn] at h
    split at h
    · cases h
    · exact hresult _ (Or.inl ⟨Quiet.dispose _ _ p, rfl⟩) h
  | settled result => cases h

end TransactionPool

/-- A step of a call with which it does not go on to a list: none has more or may have more than
    before, the call itself counted where it has created one. -/
structure NoEntry (p : TransactionPool) (φ : AddPhase) (p' : TransactionPool)
    (φ' : Option AddPhase) : Prop where
  enters : φ.enters φ' = false
  creating : ∀ k, φ' ≠ some (.creating k)
  values : p'.senderMempools.values.Sublist p.senderMempools.values
  created : p'.created = p.created
  weight : ∀ k, (p'.lists k).weight ≤ (p.lists k).weight + (φ.isCreating k).toNat

theorem TransactionPool.Quiet.noEntry {p p' : TransactionPool} {φ : AddPhase}
    {φ' : Option AddPhase} (h : p.Quiet p') (henters : φ.enters φ' = false)
    (hcreating : ∀ k, φ' ≠ some (.creating k)) : NoEntry p φ p' φ' :=
  ⟨henters, hcreating, h.values, h.created, fun k => (h.weight k).trans (Nat.le_add_right _ _)⟩

/-- **A step of a call**: it does not go on to a list, or it does. -/
theorem CallStep.cases {c : ServiceConfiguration} {t : Transaction} {p p' : TransactionPool}
    {φ : AddPhase} {φ' : Option AddPhase} (h : CallStep c t p φ p' φ') :
    NoEntry p φ p' φ' ∨ φ.inMempool = false ∧ ∃ ψ, φ' = some ψ ∧ p.Entered p' ψ := by
  have hremoving : ∀ {k : Nat} {senderPublicKey : PublicKey} {id : String} {holds : Bool}
      {next : AfterRemoval} {q : TransactionPool} {ψ : AddPhase}, p.Quiet q →
      ψ.inMempool = false → NoEntry p (.removing k senderPublicKey id holds next) q (some ψ) := by
    intro k senderPublicKey id holds next q ψ hq hψ
    refine hq.noEntry hψ fun k' hk' => ?_
    obtain rfl := Option.some.inj hk'
    cases hψ
  cases h with
  | @goOn _ _ φ' answers h =>
    cases hφ : φ.inMempool with
    | false =>
      rcases TransactionPool.goOn_effect h hφ with ⟨hquiet, hφ'⟩ | hentered
      · refine Or.inl (hquiet.noEntry ?_ fun k hk => ?_)
        · show (!φ.inMempool && φ'.inMempool) = false
          rw [hφ', Bool.and_false]
        · obtain rfl := Option.some.inj hk
          cases hφ'
      · exact Or.inr ⟨rfl, φ', rfl, hentered⟩
    | true =>
      cases φ with
      | creating k =>
        cases h
        refine Or.inl ⟨rfl, fun k' hk' => (nomatch hk'), List.Sublist.refl _, rfl, fun k' => ?_⟩
        by_cases hk : k' = k
        · subst hk
          rw [TransactionPool.lists_setList_self, SenderMempool.weight_await_add]
          simp [AddPhase.isCreating]
        · rw [TransactionPool.lists_setList_of_ne hk]
          exact Nat.le_add_right _ _
      | adding k holds => cases h
      | _ => cases hφ
  | addAcquire k hfree hcall =>
    exact Or.inl ((TransactionPool.Quiet.setList
      (SenderMempool.weight_acquire hfree hcall).le).noEntry rfl fun k' hk' => nomatch hk')
  | addGoOn h =>
    obtain ⟨o, hstep⟩ := h.step
    exact Or.inl ((TransactionPool.Quiet.setList (hstep.weight_le h.waiting)).noEntry rfl
      fun k' hk' => nomatch hk')
  | addRelease h =>
    exact Or.inl ((TransactionPool.Quiet.setList
      (SenderMempool.weight_le_of_released h)).noEntry rfl fun k' hk' => nomatch hk')
  | removeAcquire k senderPublicKey id next hfree hcall =>
    exact Or.inl (hremoving (TransactionPool.Quiet.setList
      (SenderMempool.weight_acquire hfree hcall).le) rfl)
  | removeGoOn h =>
    obtain ⟨o, hstep⟩ := h.step
    exact Or.inl (hremoving (TransactionPool.Quiet.setList (hstep.weight_le h.waiting)) rfl)
  | removeRelease h =>
    exact Or.inl (hremoving (TransactionPool.Quiet.setList
      (SenderMempool.weight_le_of_released h)) rfl)
  | settle result =>
    cases result with
    | ok _ => exact Or.inl ((TransactionPool.Quiet.refl p).noEntry rfl fun k hk => nomatch hk)
    | error e =>
      exact Or.inl ⟨rfl, fun k hk => (nomatch hk), List.Sublist.refl _, rfl,
        fun k => Nat.le_add_right _ _⟩

/-! ## 4. What a step does to the places -/

/-- A sum that grows by one in one place. -/
theorem sum_map_le_succ {l : List Nat} (hl : l.Nodup) {f g : Nat → Nat} {k : Nat}
    (hk : f k ≤ g k + 1) (hne : ∀ k', k' ≠ k → f k' ≤ g k') :
    (l.map f).sum ≤ (l.map g).sum + 1 := by
  induction l with
  | nil => exact Nat.zero_le _
  | cons k' l ih =>
    obtain ⟨hnotMem, hl⟩ := List.nodup_cons.1 hl
    rw [List.map_cons, List.map_cons, List.sum_cons, List.sum_cons]
    by_cases heq : k' = k
    · subst heq
      have hrest : (l.map f).sum ≤ (l.map g).sum :=
        List.sum_le_sum fun i hi => hne i fun hik => hnotMem (hik ▸ hi)
      omega
    · have hhead := hne k' heq
      have hrest := ih hl
      omega

namespace PoolService

variable {c : ServiceConfiguration} {s s' : PoolService} {entered : Bool}
  {before after : List (Transaction × AddPhase)} {t : Transaction} {φ : AddPhase}
  {p' : TransactionPool} {φ' : Option AddPhase}

theorem creatingAt_split (before after : List (Transaction × AddPhase)) (t : Transaction)
    (φ : AddPhase) (k : Nat) : creatingAt (before ++ (t, φ) :: after) k =
      creatingAt before k + creatingAt after k + (φ.isCreating k).toNat := by
  unfold creatingAt
  rw [List.countP_append, List.countP_cons]
  cases φ.isCreating k with
  | false => rfl
  | true => rfl

theorem creatingAt_settled (before after : List (Transaction × AddPhase)) (t : Transaction)
    (h : ∀ k, φ' ≠ some (.creating k)) (k : Nat) :
    creatingAt (before ++ φ'.toList.map (t, ·) ++ after) k =
      creatingAt before k + creatingAt after k := by
  unfold creatingAt
  rw [List.countP_append, List.countP_append]
  cases φ' with
  | none => rfl
  | some ψ =>
    have hψ : ψ.isCreating k = false := by
      cases ψ with
      | creating k' =>
        refine decide_eq_false fun heq => h k ?_
        rw [heq]
      | _ => rfl
    simp [hψ]

/-- A step with which no call goes on to a list takes no place. -/
theorem reserved_le_of_noEntry (hcall : s.calls = before ++ (t, φ) :: after)
    (h : NoEntry s.pool φ p' φ') :
    (⟨p', before ++ φ'.toList.map (t, ·) ++ after⟩ : PoolService).reserved ≤ s.reserved := by
  have hweight : ∀ k, weightAt p' (before ++ φ'.toList.map (t, ·) ++ after) k ≤
      weightAt s.pool s.calls k := by
    intro k
    have hk := h.weight k
    unfold weightAt
    rw [creatingAt_settled before after t h.creating, hcall, creatingAt_split]
    omega
  unfold reserved
  refine (List.sum_le_sum fun k _ => hweight k).trans ?_
  exact (h.values.map _).sum_le_sum fun _ _ => Nat.zero_le _

/-- **A call that goes on to a list takes one place.** -/
theorem reserved_le_of_entered (hknown : s.Known) (hcall : s.calls = before ++ (t, φ) :: after)
    {ψ : AddPhase} (h : s.pool.Entered p' ψ) :
    (⟨p', before ++ [(t, ψ)] ++ after⟩ : PoolService).reserved ≤ s.reserved + 1 := by
  have hcalls : ∀ k, creatingAt (before ++ [(t, ψ)] ++ after) k =
      creatingAt before k + creatingAt after k + (ψ.isCreating k).toNat := by
    intro k
    rw [List.append_assoc]
    exact creatingAt_split before after t ψ k
  have hold : ∀ k, creatingAt before k + creatingAt after k ≤ creatingAt s.calls k := by
    intro k
    rw [hcall, creatingAt_split]
    exact Nat.le_add_right _ _
  cases h with
  | @existing k t' hk =>
    refine sum_map_le_succ hknown.distinct (k := k) ?_ fun k' hk' => ?_
    · have hk := hold k
      unfold weightAt
      rw [hcalls, TransactionPool.lists_setList_self, SenderMempool.weight_await_add]
      simp only [AddPhase.isCreating, Bool.toNat_false]
      omega
    · have hk := hold k'
      unfold weightAt
      rw [hcalls, TransactionPool.lists_setList_of_ne hk']
      simp only [AddPhase.isCreating, Bool.toNat_false]
      omega
  | @new senderPublicKey nonce h =>
    have hfresh : creatingAt s.calls s.pool.created = 0 := by
      refine List.countP_eq_zero.2 fun call hmem hcreating => ?_
      cases hphase : call.2 with
      | creating k =>
        rw [hphase] at hcreating
        have hlt := hknown.creating call hmem k hphase
        exact absurd (of_decide_eq_true hcreating) hlt.ne
      | _ =>
        rw [hphase] at hcreating
        cases hcreating
    have hnew : weightAt (s.pool.create senderPublicKey nonce)
        (before ++ [(t, .creating s.pool.created)] ++ after) s.pool.created = 1 := by
      have hsame := hold s.pool.created
      unfold weightAt TransactionPool.create
      dsimp only
      rw [hcalls, Function.update_self]
      show 0 + (_ + (decide (s.pool.created = s.pool.created)).toNat) = 1
      rw [decide_eq_true rfl]
      show 0 + (_ + 1) = 1
      omega
    have hothers : ∀ k ∈ s.pool.senderMempools.values,
        weightAt (s.pool.create senderPublicKey nonce)
          (before ++ [(t, .creating s.pool.created)] ++ after) k ≤ weightAt s.pool s.calls k := by
      intro k hk
      have hne : s.pool.created ≠ k := (hknown.listed k hk).ne'
      have hsame := hold k
      unfold weightAt TransactionPool.create
      dsimp only
      rw [hcalls, Function.update_of_ne hne.symm]
      simp only [AddPhase.isCreating, decide_eq_false hne, Bool.toNat_false]
      omega
    have hvalues : (s.pool.create senderPublicKey nonce).senderMempools.values =
        s.pool.senderMempools.values ++ [s.pool.created] :=
      OrderedMap.values_set_of_none _ h _
    unfold reserved
    dsimp only
    rw [hvalues, List.map_append, List.sum_append, List.map_singleton, List.sum_singleton, hnew]
    exact Nat.add_le_add_right (List.sum_le_sum hothers) 1

/-- **One step** takes at most the place a call goes on to. -/
theorem Step.reserved_le (hknown : s.Known) (hs : Step c s entered s') :
    s'.reserved ≤ s.reserved + entered.toNat := by
  cases hs with
  | @call t lastHeight p' h =>
    obtain ⟨row, rfl⟩ := TransactionPool.begin_ok h
    exact Nat.le_add_right _ _
  | @goOn before after t φ p' φ' hcall hs =>
    rcases hs.cases with hquiet | ⟨hφ, ψ, rfl, hentered⟩
    · rw [hquiet.enters]
      exact reserved_le_of_noEntry hcall hquiet
    · have hle := reserved_le_of_entered hknown hcall hentered
      have henters : φ.enters (some ψ) = true := by
        unfold AddPhase.enters
        rw [hφ]
        cases hentered with
        | existing _ _ => rfl
        | new _ _ => rfl
      rw [henters]
      exact hle

/-- Numbers stay with their lists. -/
theorem Step.known (hknown : s.Known) (hs : Step c s entered s') : s'.Known := by
  cases hs with
  | @call t lastHeight p' h =>
    obtain ⟨row, rfl⟩ := TransactionPool.begin_ok h
    refine ⟨hknown.distinct, hknown.listed, fun call hmem k hk => ?_⟩
    rcases List.mem_cons.1 hmem with rfl | hmem
    · cases hk
    · exact hknown.creating call hmem k hk
  | @goOn before after t φ p' φ' hcall hs =>
    have hothers : ∀ call, call ∈ before ∨ call ∈ after → ∀ k, call.2 = .creating k →
        k < s.pool.created := by
      intro call hmem
      refine hknown.creating call ?_
      rw [hcall]
      rcases hmem with h | h
      · exact List.mem_append_left _ h
      · exact List.mem_append_right _ (List.mem_cons_of_mem _ h)
    have hmem : ∀ call, call ∈ before ++ φ'.toList.map (t, ·) ++ after →
        (call ∈ before ∨ call ∈ after) ∨ φ' = some call.2 := by
      intro call hmem
      rcases List.mem_append.1 hmem with hmem | hafter
      · rcases List.mem_append.1 hmem with hbefore | hmoved
        · exact Or.inl (Or.inl hbefore)
        · obtain ⟨ψ, hψ, rfl⟩ := List.mem_map.1 hmoved
          exact Or.inr (Option.mem_toList.1 hψ)
      · exact Or.inl (Or.inr hafter)
    rcases hs.cases with hquiet | ⟨hφ, ψ, rfl, hentered⟩
    · refine ⟨hknown.distinct.sublist hquiet.values, fun k hk => ?_, fun call hmem' k hk => ?_⟩
      · rw [hquiet.created]
        exact hknown.listed k (hquiet.values.subset hk)
      · rw [hquiet.created]
        rcases hmem call hmem' with h | h
        · exact hothers call h k hk
        · exact absurd (hk ▸ h) (hquiet.creating k)
    · cases hentered with
      | existing t' hk =>
        refine ⟨hknown.distinct, hknown.listed, fun call hmem' k hk => ?_⟩
        rcases hmem call hmem' with h | h
        · exact hothers call h k hk
        · rw [hk] at h
          cases h
      | @new senderPublicKey nonce hnone =>
        have hvalues : (s.pool.create senderPublicKey nonce).senderMempools.values =
            s.pool.senderMempools.values ++ [s.pool.created] :=
          OrderedMap.values_set_of_none _ hnone _
        refine ⟨?_, fun k hk => ?_, fun call hmem' k hk => ?_⟩
        · rw [hvalues]
          refine List.nodup_append.2 ⟨hknown.distinct, List.nodup_singleton _, fun a ha b hb => ?_⟩
          obtain rfl := List.mem_singleton.1 hb
          exact (hknown.listed a ha).ne
        · rw [hvalues] at hk
          show k < s.pool.created + 1
          rcases List.mem_append.1 hk with hk | hk
          · exact (hknown.listed k hk).trans (Nat.lt_succ_self _)
          · rw [List.mem_singleton.1 hk]
            exact Nat.lt_succ_self _
        · show k < s.pool.created + 1
          rcases hmem call hmem' with h | h
          · exact (hothers call h k hk).trans (Nat.lt_succ_self _)
          · rw [hk] at h
            cases h
            exact Nat.lt_succ_self _

end PoolService

/-! ## 5. Runs -/

namespace PoolService

/-- Some steps, in which a call goes on to `mempool.addTransaction` only where there is room. -/
def RoomyRun (c : ServiceConfiguration) : PoolService → PoolService → Prop :=
  Relation.ReflTransGen fun s s' => ∃ entered, Step c s entered s' ∧ (entered = true → HasRoom c s)

/-- **Whatever the calls do, in whatever order**: as long as a call goes on to
    `mempool.addTransaction` only where there is room for it and for all that are underway, the pool
    never holds more than `maxTransactionsInPool`. -/
theorem poolSize_of_run (c : ServiceConfiguration) (start s : PoolService) (hrest : start.AtRest)
    (hsize : start.pool.getSize ≤ c.maxTransactionsInPool) (hr : RoomyRun c start s) :
    s.pool.getSize ≤ c.maxTransactionsInPool := by
  have hinvariant : s.Known ∧ s.reserved ≤ c.maxTransactionsInPool := by
    induction hr with
    | refl =>
      refine ⟨hrest.known, ?_⟩
      rw [reserved_eq, hrest.underway]
      exact hsize
    | @tail s s' _ hstep ih =>
      obtain ⟨hknown, hle⟩ := ih
      obtain ⟨entered, hs, hroom⟩ := hstep
      refine ⟨hs.known hknown, (hs.reserved_le hknown).trans ?_⟩
      cases entered with
      | false => exact hle
      | true =>
        have hlt := hroom rfl
        unfold HasRoom at hlt
        rw [← reserved_eq] at hlt
        exact hlt
  have hle := hinvariant.2
  rw [reserved_eq] at hle
  omega

/-! ## 6. Two calls for one place -/

/-- Some steps. -/
def Run (c : ServiceConfiguration) : PoolService → PoolService → Prop :=
  Relation.ReflTransGen fun s s' => ∃ entered, Step c s entered s'

theorem RoomyRun.run (h : RoomyRun c s s') : Run c s s' := by
  induction h with
  | refl => exact Relation.ReflTransGen.refl
  | tail _ hstep ih =>
    obtain ⟨entered, hs, -⟩ := hstep
    exact ih.tail ⟨entered, hs⟩

section Push

variable {k : Nat} {l l' : SenderMempool}

/-- A step of a call that changes its list only. -/
theorem run_list {φ φ' : AddPhase} {p : TransactionPool} (hφ : φ.inMempool = true)
    (h : CallStep c t (p.setList k l) φ (p.setList k l') (some φ')) :
    RoomyRun c ⟨p.setList k l, before ++ (t, φ) :: after⟩
      ⟨p.setList k l', before ++ (t, φ') :: after⟩ := by
  have hs : Step c ⟨p.setList k l, before ++ (t, φ) :: after⟩ (φ.enters (some φ'))
      ⟨p.setList k l', before ++ (some φ').toList.map (t, ·) ++ after⟩ := Step.goOn rfl h
  rw [List.append_assoc] at hs
  have hquiet : φ.enters (some φ') = false := by
    unfold AddPhase.enters
    rw [hφ]
    rfl
  exact Relation.ReflTransGen.single ⟨_, hs, fun henters => by
    rw [hquiet] at henters
    cases henters⟩

theorem run_acquire {p : TransactionPool} (hfree : l.holder = none)
    (hcall : .addTransaction t ∈ l.waiting) :
    RoomyRun c ⟨p.setList k l, before ++ (t, .adding k false) :: after⟩
      ⟨p.setList k (l.acquire (.addTransaction t)), before ++ (t, .adding k true) :: after⟩ := by
  refine run_list rfl ?_
  have h := CallStep.addAcquire (c := c) (t := t) (p.setList k l) k
  rw [TransactionPool.lists_setList_self, TransactionPool.setList_setList] at h
  exact h hfree hcall

theorem run_goOn {p : TransactionPool} (h : l.GoesOn c.toPoolConfiguration l') :
    RoomyRun c ⟨p.setList k l, before ++ (t, .adding k true) :: after⟩
      ⟨p.setList k l', before ++ (t, .adding k true) :: after⟩ := by
  refine run_list rfl ?_
  have hs := CallStep.addGoOn (c := c) (t := t) (p := p.setList k l) (k := k) (l := l')
  rw [TransactionPool.lists_setList_self, TransactionPool.setList_setList] at hs
  exact hs h

/-- An empty list, with a call that has come so far. -/
def busy (nonce : Int) (φ : Phase) : SenderMempool := ⟨[], false, nonce, [], some φ⟩

/-- The call that holds the lock of an empty list comes to push its transaction, when the handlers
    accept it. -/
theorem goesOn_push {c : PoolConfiguration} {nonce : Int} {lastHeight : Nat}
    (hbegin : (SenderMempool.created nonce).beginAdd c t = .applying t)
    (hcheck : SenderState.check c lastHeight (.ok true) false t = .ok ())
    (hnonce : Base.nonceOf t = nonce + 1) :
    Relation.ReflTransGen (SenderMempool.GoesOn c) (busy nonce (.begun (.addTransaction t)))
      ⟨[t], false, Base.nonceOf t, [], some (.added (.ok ()))⟩ := by
  have happlying : (busy nonce (.begun (.addTransaction t))).GoesOn c
      (busy nonce (.applying t)) := by
    refine ⟨⟨none, ?_⟩, rfl, nofun, nofun⟩
    rw [← hbegin]
    exact SenderMempool.Step.add _ t rfl
  have hentering : (busy nonce (.applying t)).GoesOn c (busy nonce (.entering t)) := by
    refine ⟨⟨none, ?_⟩, rfl, nofun, nofun⟩
    have hs := SenderMempool.Step.check (c := c) (busy nonce (.applying t)) t lastHeight (.ok true)
      rfl
    unfold SenderMempool.checked at hs
    rw [show (busy nonce (.applying t)).corrupt = false from rfl, hcheck] at hs
    exact hs
  have happlied : (busy nonce (.entering t)).GoesOn c (busy (Base.nonceOf t) (.applied t)) :=
    ⟨⟨none, .apply _ t rfl hnonce⟩, rfl, nofun, nofun⟩
  have hpushed : (busy (Base.nonceOf t) (.applied t)).GoesOn c
      ⟨[t], false, Base.nonceOf t, [], some (.added (.ok ()))⟩ :=
    ⟨⟨some (.accepted t), .push _ t rfl⟩, rfl, nofun, nofun⟩
  exact (((Relation.ReflTransGen.single happlying).tail hentering).tail happlied).tail hpushed

/-- A call that has created the list of its sender comes to push its transaction. -/
theorem run_push {nonce : Int} {lastHeight : Nat}
    (hcall : s.calls = before ++ (t, .creating k) :: after)
    (hlist : s.pool.lists k = SenderMempool.created nonce)
    (hbegin : (SenderMempool.created nonce).beginAdd c.toPoolConfiguration t = .applying t)
    (hcheck : SenderState.check c.toPoolConfiguration lastHeight (.ok true) false t = .ok ())
    (hnonce : Base.nonceOf t = nonce + 1) :
    RoomyRun c s ⟨s.pool.setList k ⟨[t], false, Base.nonceOf t, [], some (.added (.ok ()))⟩,
      before ++ (t, .adding k true) :: after⟩ := by
  have hcalled : RoomyRun c s ⟨s.pool.setList k
      ((SenderMempool.created nonce).await (.addTransaction t)),
      before ++ (t, .adding k false) :: after⟩ := by
    have hs : Step c s (AddPhase.enters (.creating k) (some (.adding k false)))
        ⟨s.pool.setList k ((s.pool.lists k).await (.addTransaction t)),
          before ++ (some (.adding k false)).toList.map (t, ·) ++ after⟩ :=
      Step.goOn hcall (.goOn ⟨0, .ok (), 0⟩ rfl)
    rw [hlist, List.append_assoc] at hs
    exact Relation.ReflTransGen.single ⟨_, hs, fun henters => (nomatch henters)⟩
  have hacquired : ((SenderMempool.created nonce).await (.addTransaction t)).acquire
      (.addTransaction t) = busy nonce (.begun (.addTransaction t)) := by
    show (⟨[], false, nonce, [PoolCall.addTransaction t].erase _, _⟩ : SenderMempool) = _
    rw [List.erase_cons_head]
    rfl
  have hbegun : RoomyRun c _ ⟨s.pool.setList k (((SenderMempool.created nonce).await
      (.addTransaction t)).acquire (.addTransaction t)), before ++ (t, .adding k true) :: after⟩ :=
    hcalled.trans (run_acquire rfl List.mem_cons_self)
  rw [hacquired] at hbegun
  have hpushed : RoomyRun c _ ⟨s.pool.setList k _, before ++ (t, .adding k true) :: after⟩ :=
    Relation.ReflTransGen.lift'
      (fun l => (⟨s.pool.setList k l, before ++ (t, .adding k true) :: after⟩ : PoolService))
      (fun l l' hgoesOn => show RoomyRun c _ _ from run_goOn hgoesOn)
      _ _ (goesOn_push hbegin hcheck hnonce)
  exact hbegun.trans hpushed

end Push

namespace Sample

/-- Room for one transaction. -/
def onePlace : ServiceConfiguration :=
  { CoreEx.Sample.poolConfiguration with maxTransactionsInPool := 1, maxTransactionAge := 100 }

/-- Nothing in the pool, and nothing in progress. -/
def emptyService : PoolService := ⟨⟨fun _ => .created 0, 0, .empty, []⟩, []⟩

/-- A transaction of another sender than that of `queued`. -/
def another : Transaction where
  data :=
    { (CoreEx.Sample.queued 1 1).data with
      senderPublicKey := some CoreEx.Sample.alice
      id := some "another" }
  serialized := "00"

/-- Both calls are in the fee matcher. -/
def bothMatching : PoolService where
  pool :=
    { emptyService.pool with
      storage := [⟨0, "id", .small⟩, ⟨0, "another", CoreEx.Sample.alice⟩] }
  calls := [(another, .matching), (CoreEx.Sample.queued 1 1, .matching)]

/-- One of them has looked at the empty pool. -/
def oneCreating : PoolService where
  pool := bothMatching.pool.create CoreEx.Sample.alice 0
  calls := [(another, .creating 0), (CoreEx.Sample.queued 1 1, .matching)]

/-- So has the other: nothing has come to the pool yet. -/
def bothCreating : PoolService where
  pool := oneCreating.pool.create .small 0
  calls := [(another, .creating 0), (CoreEx.Sample.queued 1 1, .creating 1)]

/-- One of them has pushed its transaction. -/
def onePushed : PoolService where
  pool := bothCreating.pool.setList 0 ⟨[another], false, 1, [], some (.added (.ok ()))⟩
  calls := [(another, .adding 0 true), (CoreEx.Sample.queued 1 1, .creating 1)]

/-- And so has the other. -/
def bothPushed : PoolService where
  pool := onePushed.pool.setList 1
    ⟨[CoreEx.Sample.queued 1 1], false, 1, [], some (.added (.ok ()))⟩
  calls := [(another, .adding 0 true), (CoreEx.Sample.queued 1 1, .adding 1 true)]

theorem oneCreating_run : RoomyRun onePlace emptyService oneCreating := by
  have hone : emptyService.pool.begin 0 (CoreEx.Sample.queued 1 1) =
      .ok { emptyService.pool with storage := [⟨0, "id", .small⟩] } := rfl
  have hcalled : Step onePlace emptyService false _ := .call _ hone
  have hboth : Step onePlace _ false bothMatching :=
    .call ⟨{ emptyService.pool with storage := [⟨0, "id", .small⟩] }, _⟩
      (show TransactionPool.begin 0 another _ = .ok bothMatching.pool from rfl)
  have hfirst : Step onePlace bothMatching true oneCreating := .goOn
    (show bothMatching.calls = [] ++ _ :: [_] from rfl) (.goOn ⟨0, .ok (), 0⟩ rfl)
  have hroom : HasRoom onePlace bothMatching := by
    unfold HasRoom
    decide
  exact ((Relation.ReflTransGen.refl.tail ⟨_, hcalled, nofun⟩).tail ⟨_, hboth, nofun⟩).tail
    ⟨_, hfirst, fun _ => hroom⟩

theorem bothCreating_run : Run onePlace emptyService bothCreating := by
  have hsecond : Step onePlace oneCreating true bothCreating := .goOn
    (show oneCreating.calls = [_] ++ _ :: [] from rfl) (.goOn ⟨0, .ok (), 0⟩ rfl)
  exact oneCreating_run.run.tail ⟨_, hsecond⟩

theorem another_checked :
    SenderState.check onePlace.toPoolConfiguration 0 (.ok true) false another = .ok () := by decide

theorem queued_checked : SenderState.check onePlace.toPoolConfiguration 0 (.ok true) false
    (CoreEx.Sample.queued 1 1) = .ok () := by decide

/-- The first call pushes its transaction while the second waits for the fee matcher. -/
theorem another_run : RoomyRun onePlace emptyService
    ⟨oneCreating.pool.setList 0 ⟨[another], false, 1, [], some (.added (.ok ()))⟩,
      [] ++ (another, .adding 0 true) :: [(CoreEx.Sample.queued 1 1, .matching)]⟩ :=
  oneCreating_run.trans
    (run_push (show oneCreating.calls = [] ++ _ :: [_] from rfl) rfl rfl another_checked rfl)

theorem bothPushed_run : Run onePlace emptyService bothPushed := by
  have hfirst : RoomyRun onePlace bothCreating onePushed :=
    run_push (show bothCreating.calls = [] ++ _ :: [_] from rfl) rfl rfl another_checked rfl
  have hsecond : RoomyRun onePlace onePushed bothPushed :=
    run_push (show onePushed.calls = [_] ++ _ :: [] from rfl) rfl rfl queued_checked rfl
  exact (bothCreating_run.trans hfirst.run).trans hsecond.run

end Sample

theorem poolSize_of_run_sample : (Sample.oneCreating.pool.setList 0
    ⟨[Sample.another], false, 1, [], some (.added (.ok ()))⟩).getSize ≤ 1 :=
  poolSize_of_run Sample.onePlace Sample.emptyService _ ⟨rfl, by decide, by decide, by decide⟩
    (by decide) Sample.another_run

/-- **Two calls for one place**: the second looks at the size before the first has pushed its
    transaction. -/
theorem twoCalls_not : ¬∀ s, Run Sample.onePlace Sample.emptyService s →
    s.pool.getSize ≤ Sample.onePlace.maxTransactionsInPool := by
  intro h
  exact absurd (h _ Sample.bothPushed_run) (by decide)

end PoolService

end CoreEx
