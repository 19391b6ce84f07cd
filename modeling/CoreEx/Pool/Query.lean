/-
  File:      CoreEx/Pool/Query.lean
  Subject:   `core-transaction-pool/source/query.ts`: the orders in which the pool lists its
             transactions.

  The pool keeps for each sender the transactions it has in a list, with consecutive nonces. The
  two lists by priority put all of them together and sort by fee alone; the sort is stable, and
  nothing else is left of the order a sender's list had.

  * `Mempool` -- the lists of the senders;
  * `getFromHighestPriority`, `getFromLowestPriority` -- the code;
  * `ofSender_flatMap` -- what all lists together have of one sender;
  * **`highest_ascending_iff`**, **`lowest_descending_iff`** -- when the nonces of a sender stay in
    order.
-/
import CoreEx.Lib.OrderedMap
import CoreEx.Lib.StableSort
import CoreEx.Transactions.TransactionHandler

namespace CoreEx

open Base

/-! ## 1. What the pool holds -/

/-- `t` comes right before `u` by its nonce. -/
def NextNonce (t u : Transaction) : Prop := nonceOf u = nonceOf t + 1

/-- `#senderMempools` with the `#transactions` of each: lists with consecutive nonces under the
    sender's key. -/
structure Mempool where
  senderMempools : OrderedMap PublicKey (List Transaction)
  owned : ∀ e ∈ senderMempools.entries, ∀ t ∈ e.2, t.data.senderPublicKey = some e.1
  consecutive : ∀ e ∈ senderMempools.entries, e.2.IsChain NextNonce

namespace Mempool

/-- `SenderMempool.getFromEarliest`. -/
def getFromEarliest (transactions : List Transaction) : List Transaction := transactions

/-- `SenderMempool.getFromLatest`. -/
def getFromLatest (transactions : List Transaction) : List Transaction := transactions.reverse

/-- `[...getSenderMempools()].flatMap(..)`. -/
def flatMap (m : Mempool) (f : List Transaction → List Transaction) : List Transaction :=
  m.senderMempools.values.flatMap f

end Mempool

/-! ## 2. The queries -/

namespace Query

/-- `getAll().all()`. -/
def getAll (m : Mempool) : List Transaction := m.flatMap Mempool.getFromLatest

/-- `getAllBySender(senderPublicKey).all()`. -/
def getAllBySender (m : Mempool) (senderPublicKey : PublicKey) : List Transaction :=
  match m.senderMempools.get? senderPublicKey with
  | none => []
  | some transactions => Mempool.getFromEarliest transactions

/-- `a.data.fee.comparedTo(b.data.fee) <= 0`. -/
def cheaper (a b : Transaction) : Bool := a.data.fee ≤ b.data.fee

/-- `b.data.fee.comparedTo(a.data.fee) <= 0`. -/
def dearer (a b : Transaction) : Bool := b.data.fee ≤ a.data.fee

/-- `getFromLowestPriority().all()`. -/
def getFromLowestPriority (m : Mempool) : List Transaction :=
  (m.flatMap Mempool.getFromLatest).mergeSort cheaper

/-- `getFromHighestPriority().all()`. -/
def getFromHighestPriority (m : Mempool) : List Transaction :=
  (m.flatMap Mempool.getFromEarliest).mergeSort dearer

theorem cheaper_trans (a b c : Transaction) : cheaper a b → cheaper b c → cheaper a c := by
  simp only [cheaper, decide_eq_true_eq]
  exact le_trans

theorem cheaper_total (a b : Transaction) : cheaper a b || cheaper b a := by
  simp only [cheaper, Bool.or_eq_true, decide_eq_true_eq]
  exact le_total _ _

theorem dearer_trans (a b c : Transaction) (hab : dearer a b) (hbc : dearer b c) : dearer a c :=
  cheaper_trans c b a hbc hab

theorem dearer_total (a b : Transaction) : dearer a b || dearer b a := cheaper_total b a

end Query

/-! ## 3. The transactions of one sender -/

namespace Mempool

/-- Whether the key is the sender's. -/
def ofSender (k : PublicKey) (t : Transaction) : Bool := t.data.senderPublicKey = some k

theorem filter_flatMap {f : List Transaction → List Transaction}
    (hf : ∀ l t, t ∈ f l → t ∈ l) {k : PublicKey} {own : List Transaction}
    {es : List (PublicKey × List Transaction)} (hmem : (k, own) ∈ es)
    (hnodup : (es.map Prod.fst).Nodup)
    (howned : ∀ e ∈ es, ∀ t ∈ e.2, t.data.senderPublicKey = some e.1) :
    ((es.map Prod.snd).flatMap f).filter (ofSender k) = f own := by
  have hnone : ∀ e ∈ es, e.1 ≠ k → (f e.2).filter (ofSender k) = [] := by
    intro e he hne
    refine List.filter_eq_nil_iff.2 fun t ht hk => hne ?_
    have hkey := howned e he t (hf _ _ ht)
    rw [of_decide_eq_true hk] at hkey
    exact (Option.some.inj hkey).symm
  have hall : ∀ e ∈ es, e.1 = k → (f e.2).filter (ofSender k) = f e.2 := by
    intro e he heq
    refine List.filter_eq_self.2 fun t ht => decide_eq_true ?_
    rw [howned e he t (hf _ _ ht), heq]
  have hrest : ∀ es' ⊆ es, (∀ e ∈ es', e.1 ≠ k) →
      ((es'.map Prod.snd).flatMap f).filter (ofSender k) = [] := by
    intro es' hsub hne
    induction es' with
    | nil => rfl
    | cons e es' ih =>
      rw [List.map_cons, List.flatMap_cons, List.filter_append,
        hnone e (hsub List.mem_cons_self) (hne e List.mem_cons_self),
        ih (fun x hx => hsub (List.mem_cons_of_mem _ hx)) fun x hx =>
          hne x (List.mem_cons_of_mem _ hx)]
      rfl
  obtain ⟨before, after, rfl⟩ := List.append_of_mem hmem
  rw [List.map_append, List.map_cons] at hnodup
  have hbefore : ∀ e ∈ before, e.1 ≠ k := by
    intro e he heq
    exact (List.nodup_append.1 hnodup).2.2 _ (List.mem_map_of_mem he) k List.mem_cons_self heq
  have hafter : ∀ e ∈ after, e.1 ≠ k := by
    intro e he heq
    have hout := (List.nodup_cons.1 (List.nodup_append.1 hnodup).2.1).1
    exact hout (List.mem_map.2 ⟨e, he, heq⟩)
  rw [List.map_append, List.map_cons, List.flatMap_append, List.flatMap_cons, List.filter_append,
    List.filter_append, hrest before (fun x hx => List.mem_append_left _ hx) hbefore,
    hall (k, own) (by simp) rfl,
    hrest after (fun x hx => List.mem_append_right _ (List.mem_cons_of_mem _ hx)) hafter,
    List.nil_append, List.append_nil]

/-- **All lists together have of a sender what its own list has, in the same order.** -/
theorem ofSender_flatMap (m : Mempool) {f : List Transaction → List Transaction}
    (hf : ∀ l t, t ∈ f l → t ∈ l) {e : PublicKey × List Transaction}
    (he : e ∈ m.senderMempools.entries) : (m.flatMap f).filter (ofSender e.1) = f e.2 :=
  filter_flatMap hf he m.senderMempools.nodup m.owned

/-- Keys that have no list have no transactions. -/
theorem ofSender_flatMap_none (m : Mempool) {f : List Transaction → List Transaction}
    (hf : ∀ l t, t ∈ f l → t ∈ l) {k : PublicKey} (hk : k ∉ m.senderMempools.keys) :
    (m.flatMap f).filter (ofSender k) = [] := by
  refine List.filter_eq_nil_iff.2 fun t ht hown => hk ?_
  obtain ⟨l, hl, htl⟩ := List.mem_flatMap.1 ht
  obtain ⟨e, he, rfl⟩ := List.mem_map.1 hl
  have hkey := m.owned e he t (hf _ _ htl)
  rw [of_decide_eq_true hown] at hkey
  exact Option.some.inj hkey ▸ List.mem_map_of_mem he

end Mempool

/-! ## 4. The order of the nonces -/

/-- The nonces of each sender, in the order of the list, satisfy `r`. -/
def NoncesInOrder (r : Int → Int → Prop) (l : List Transaction) : Prop :=
  ∀ k, (l.filter (Mempool.ofSender k)).Pairwise fun t u => r (nonceOf t) (nonceOf u)

/-- No transaction pays more than one its sender has queued before it. -/
def Mempool.FeesFall (m : Mempool) : Prop :=
  ∀ e ∈ m.senderMempools.entries, e.2.Pairwise fun t u => u.data.fee ≤ t.data.fee

/-- Consecutive nonces ascend. -/
theorem nonces_ascend {l : List Transaction} (h : l.IsChain NextNonce) :
    l.Pairwise fun t u => nonceOf t < nonceOf u := by
  have htrans : IsTrans Transaction fun t u => nonceOf t < nonceOf u :=
    ⟨fun _ _ _ hab hbc => lt_trans hab hbc⟩
  refine List.isChain_iff_pairwise.1 (h.imp fun t u hnext => ?_)
  rw [hnext]
  exact lt_add_one _

namespace Query

/-- What sorting all lists together does to the nonces of the senders, when they were in order in
    each list. -/
theorem noncesInOrder_sorted_iff (m : Mempool) {f : List Transaction → List Transaction}
    (hf : ∀ l t, t ∈ f l → t ∈ l) {le : Transaction → Transaction → Bool}
    (htrans : ∀ a b c, le a b → le b c → le a c) (htotal : ∀ a b, le a b || le b a)
    {r : Int → Int → Prop} (hasymm : ∀ a b, r a b → ¬ r b a)
    (hown : ∀ e ∈ m.senderMempools.entries,
      (f e.2).Pairwise fun t u => r (nonceOf t) (nonceOf u)) :
    NoncesInOrder r ((m.flatMap f).mergeSort le) ↔
      ∀ e ∈ m.senderMempools.entries, (f e.2).Pairwise (le · ·) := by
  have hiff : ∀ e ∈ m.senderMempools.entries,
      ((((m.flatMap f).mergeSort le).filter (Mempool.ofSender e.1)).Pairwise
        fun t u => r (nonceOf t) (nonceOf u)) ↔ (f e.2).Pairwise (le · ·) := by
    intro e he
    have hlist := m.ofSender_flatMap hf he
    rw [StableSort.pairwise_filter_mergeSort_iff htrans htotal
      (fun a b => hasymm (nonceOf a) (nonceOf b)) (hlist ▸ hown e he), hlist]
  constructor
  · intro h e he
    exact (hiff e he).1 (h e.1)
  · intro h k
    by_cases hk : k ∈ m.senderMempools.keys
    · obtain ⟨e, he, rfl⟩ := List.mem_map.1 hk
      exact (hiff e he).2 (h e he)
    · have hnil := StableSort.filter_mergeSort_perm le (Mempool.ofSender k) (m.flatMap f)
      rw [m.ofSender_flatMap_none hf hk] at hnil
      rw [hnil.eq_nil]
      exact List.Pairwise.nil

/-- Where the fees of no sender rise, its transactions come by priority as its list has them. -/
theorem highest_ofSender {m : Mempool} (h : m.FeesFall) {e : PublicKey × List Transaction}
    (he : e ∈ m.senderMempools.entries) :
    (getFromHighestPriority m).filter (Mempool.ofSender e.1) = e.2 := by
  have hlist : (m.flatMap Mempool.getFromEarliest).filter (Mempool.ofSender e.1) = e.2 :=
    m.ofSender_flatMap (fun _ _ ht => ht) he
  have hsorted : e.2.Pairwise (dearer · ·) := by
    simpa only [dearer, decide_eq_true_eq] using h e he
  unfold getFromHighestPriority
  rw [(StableSort.filter_mergeSort_eq_iff dearer_trans dearer_total).2 (hlist ▸ hsorted), hlist]

/-- What is listed by priority is in a sender's list. -/
theorem mem_highest {m : Mempool} {t : Transaction} (ht : t ∈ getFromHighestPriority m) :
    ∃ e ∈ m.senderMempools.entries, t ∈ e.2 := by
  obtain ⟨l, hl, htl⟩ := List.mem_flatMap.1 (List.mem_mergeSort.1 ht)
  obtain ⟨e, he, rfl⟩ := List.mem_map.1 hl
  exact ⟨e, he, htl⟩

/-- **From the highest priority on, nonces ascend exactly when the fees of no sender rise.** -/
theorem highest_ascending_iff (m : Mempool) :
    NoncesInOrder (· < ·) (getFromHighestPriority m) ↔ m.FeesFall := by
  unfold getFromHighestPriority Mempool.FeesFall
  have hiff := noncesInOrder_sorted_iff m (f := Mempool.getFromEarliest) (r := (· < ·))
    (fun _ _ h => h) dearer_trans dearer_total (fun _ _ hab => lt_asymm hab)
    fun e he => nonces_ascend (m.consecutive e he)
  simpa only [Mempool.getFromEarliest, dearer, decide_eq_true_eq] using hiff

/-- **From the lowest priority on, nonces descend exactly when the fees of no sender rise.** -/
theorem lowest_descending_iff (m : Mempool) :
    NoncesInOrder (· > ·) (getFromLowestPriority m) ↔ m.FeesFall := by
  unfold getFromLowestPriority Mempool.FeesFall
  have hiff := noncesInOrder_sorted_iff m (f := Mempool.getFromLatest) (r := (· > ·))
    (fun _ _ h => List.mem_reverse.1 h) cheaper_trans cheaper_total
    (fun _ _ hab => lt_asymm hab) fun e he =>
      List.pairwise_reverse.2 (nonces_ascend (m.consecutive e he))
  simpa only [Mempool.getFromLatest, cheaper, decide_eq_true_eq, List.pairwise_reverse] using hiff

end Query

end CoreEx
