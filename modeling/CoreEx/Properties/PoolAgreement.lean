/-
  File:      CoreEx/Properties/PoolAgreement.lean
  Subject:   The storage of the pool holds the transactions of its lists, and no others.

  Rows come before the lists and go after them, so during a method there are rows of which the lists
  know nothing yet. What is removed from a list is removed with all that comes behind it, and after
  a failed revert with all of it; each time the method forgets exactly these.

  * `adds_spec`, `removes_spec` -- what a call of a list comes to;
  * `Sound`, `Holds` -- lists under the keys of their senders, at rest;
  * `Replaces`, `Splits` -- one list replaced, and what a removal takes away;
  * `Agrees` -- rows and lists agree, up to the rows in hand;
  * `Agrees.drops`, `agrees_addsToMempool`, `agrees_readds` -- one method at a time;
  * **`rows_agree`** -- every run of methods, from any storage a restart finds.
-/
import CoreEx.Pool.Operations
import CoreEx.Properties.PoolSize

namespace CoreEx

/-! ## 1. A call of a list -/

namespace Phase

/-- The phases of `addTransaction(t)`, and the list in each of them, of a list that began as `l`. -/
def AddsTo (l : List Transaction) (t : Transaction) : Phase → List Transaction → Prop
  | begun call, l' => call = .addTransaction t ∧ l' = l
  | applying u, l' | entering u, l' | applied u, l' => u = t ∧ l' = l
  | added (.ok ()), l' => l' = l ++ [t]
  | added (.error _), l' => l' = l
  | _, _ => False

/-- The phases of `removeTransaction(id)`. -/
def RemovesFrom (l : List Transaction) (id : String) : Phase → List Transaction → Prop
  | begun call, l' => call = .removeTransaction id ∧ l' = l
  | reverting removedTransactions _, l' | failing removedTransactions, l' =>
    ∃ index, l.findIdx? (SenderMempool.hasId id) = some index ∧ l' = l.take index ∧
      removedTransactions = (l.drop index).reverse
  | removed result, l' => (l' ++ result).Perm l ∧ ∀ u ∈ l', SenderMempool.hasId id u = false
  | _, _ => False

end Phase

namespace SenderMempool

variable {c : PoolConfiguration} {s s' : SenderMempool}

/-- One step of a call that adds. -/
theorem addsTo_goesOn {l : List Transaction} {t : Transaction} {φ : Phase} (h : GoesOn c s s')
    (hφ : s.holder = some φ) (hl : φ.AddsTo l t s.transactions) :
    ∃ φ', s'.holder = some φ' ∧ φ'.AddsTo l t s'.transactions := by
  obtain ⟨⟨o, hstep⟩, hwaiting, hmoved, hholds⟩ := h
  cases hstep with
  | call => exact absurd rfl hmoved
  | removeForgedTransaction id =>
    unfold afterForged at hmoved
    split at hmoved <;> exact absurd rfl hmoved
  | acquire call hfree => rw [hfree] at hφ; cases hφ
  | add u h =>
    obtain rfl := Option.some.inj (hφ.symm.trans h)
    obtain ⟨hcall, hsame⟩ := hl
    cases hcall
    refine ⟨_, rfl, ?_⟩
    unfold beginAdd
    split
    · exact hsame
    · split
      · exact hsame
      · exact ⟨rfl, hsame⟩
  | check u lastHeight verified h =>
    obtain rfl := Option.some.inj (hφ.symm.trans h)
    obtain ⟨rfl, hsame⟩ := hl
    refine ⟨_, rfl, ?_⟩
    unfold checked
    split
    · exact hsame
    · exact ⟨rfl, hsame⟩
  | applyFailed u e h =>
    obtain rfl := Option.some.inj (hφ.symm.trans h)
    exact ⟨_, rfl, hl.2⟩
  | apply u h =>
    obtain rfl := Option.some.inj (hφ.symm.trans h)
    exact ⟨_, rfl, hl⟩
  | push u h =>
    obtain rfl := Option.some.inj (hφ.symm.trans h)
    obtain ⟨rfl, hsame⟩ := hl
    refine ⟨_, rfl, ?_⟩
    show s.transactions ++ [u] = l ++ [u]
    rw [hsame]
  | remove id h =>
    obtain rfl := Option.some.inj (hφ.symm.trans h)
    exact nomatch hl.1
  | revert _ _ _ h =>
    obtain rfl := Option.some.inj (hφ.symm.trans h)
    exact hl.elim
  | revertFailed _ _ _ h =>
    obtain rfl := Option.some.inj (hφ.symm.trans h)
    exact hl.elim
  | reverted _ h =>
    obtain rfl := Option.some.inj (hφ.symm.trans h)
    exact hl.elim
  | drop _ h =>
    obtain rfl := Option.some.inj (hφ.symm.trans h)
    exact hl.elim
  | added => exact absurd rfl hholds
  | removed => exact absurd rfl hholds

/-- A call leaves the calls that wait alone. -/
theorem goesOn_waiting {s₁ s₂ : SenderMempool} (h : Relation.ReflTransGen (GoesOn c) s₁ s₂) :
    s₂.waiting = s₁.waiting := by
  induction h with
  | refl => rfl
  | tail _ hgoes ih => exact hgoes.waiting.trans ih

/-- **A call that adds**: the transaction is the last one, or nothing has changed. -/
theorem adds_spec {t : Transaction} {result : Except PoolError Unit}
    (h : Adds c t s result s') : s'.waiting = s.waiting ∧ s'.holder = none ∧
      (result = .ok () → s'.transactions = s.transactions ++ [t]) ∧
      (∀ e, result = .error e → s'.transactions = s.transactions) := by
  obtain ⟨s₁, hruns, hend, rfl⟩ := h
  have hphase : ∃ φ, s₁.holder = some φ ∧ φ.AddsTo s.transactions t s₁.transactions := by
    clear hend
    induction hruns with
    | refl => exact ⟨_, rfl, rfl, rfl⟩
    | tail _ hgoes ih =>
      obtain ⟨φ, hφ, hl⟩ := ih
      exact addsTo_goesOn hgoes hφ hl
  obtain ⟨φ, hφ, hl⟩ := hphase
  obtain rfl := Option.some.inj (hφ.symm.trans hend)
  have hwaiting := goesOn_waiting hruns
  refine ⟨hwaiting, rfl, ?_, ?_⟩
  · intro hok
    subst hok
    exact hl
  · intro e herror
    subst herror
    exact hl

/-- One step of a call that removes. -/
theorem removesFrom_goesOn {l : List Transaction} {id : String} {φ : Phase} (h : GoesOn c s s')
    (hφ : s.holder = some φ) (hl : φ.RemovesFrom l id s.transactions) :
    ∃ φ', s'.holder = some φ' ∧ φ'.RemovesFrom l id s'.transactions := by
  obtain ⟨⟨o, hstep⟩, hwaiting, hmoved, hholds⟩ := h
  cases hstep with
  | call => exact absurd rfl hmoved
  | removeForgedTransaction id =>
    unfold afterForged at hmoved
    split at hmoved <;> exact absurd rfl hmoved
  | acquire call hfree => rw [hfree] at hφ; cases hφ
  | add u h =>
    obtain rfl := Option.some.inj (hφ.symm.trans h)
    exact nomatch hl.1
  | check u _ _ h =>
    obtain rfl := Option.some.inj (hφ.symm.trans h)
    exact hl.elim
  | applyFailed u e h =>
    obtain rfl := Option.some.inj (hφ.symm.trans h)
    exact hl.elim
  | apply u h =>
    obtain rfl := Option.some.inj (hφ.symm.trans h)
    exact hl.elim
  | push u h =>
    obtain rfl := Option.some.inj (hφ.symm.trans h)
    exact hl.elim
  | remove id' h =>
    obtain rfl := Option.some.inj (hφ.symm.trans h)
    obtain ⟨hcall, rfl⟩ := hl
    cases hcall
    cases hindex : s.transactions.findIdx? (hasId id) with
    | none =>
      have htake : s.take id = { s with holder := some (.removed []) } := by
        unfold take
        rw [hindex]
      rw [htake]
      refine ⟨_, rfl, ?_, ?_⟩
      · show (s.transactions ++ []).Perm s.transactions
        rw [List.append_nil]
      · intro u hu
        have hall := List.findIdx?_eq_none_iff.1 hindex u hu
        simpa using hall
    | some index =>
      have htake : s.take id =
          { s with
            transactions := s.transactions.take index
            holder := some (.reverting (s.transactions.drop index).reverse
              (s.transactions.drop index).reverse) } := by
        unfold take
        rw [hindex]
      rw [htake]
      exact ⟨_, rfl, index, hindex, rfl, rfl⟩
  | revert _ _ _ h =>
    obtain rfl := Option.some.inj (hφ.symm.trans h)
    exact ⟨_, rfl, hl⟩
  | revertFailed _ _ _ h =>
    obtain rfl := Option.some.inj (hφ.symm.trans h)
    exact ⟨_, rfl, hl⟩
  | reverted removedTransactions h =>
    obtain rfl := Option.some.inj (hφ.symm.trans h)
    obtain ⟨index, hindex, htake, hdrop⟩ := hl
    refine ⟨_, rfl, ?_, ?_⟩
    · show (s.transactions ++ removedTransactions).Perm l
      rw [htake, hdrop]
      exact ((List.reverse_perm _).append_left _).trans (by rw [List.take_append_drop])
    · intro u hu
      rw [htake] at hu
      obtain ⟨i, hi, rfl⟩ := List.mem_take_iff_getElem.1 hu
      have hfirst := (List.findIdx?_eq_some_iff_getElem.1 hindex).2.2 i (by omega)
      simpa using hfirst
  | drop removedTransactions h =>
    obtain rfl := Option.some.inj (hφ.symm.trans h)
    obtain ⟨index, hindex, htake, hdrop⟩ := hl
    refine ⟨_, rfl, ?_, fun u hu => nomatch hu⟩
    show ([] ++ (removedTransactions ++ s.transactions.reverse)).Perm l
    rw [List.nil_append, htake, hdrop, ← List.reverse_append, List.take_append_drop]
    exact List.reverse_perm l
  | added => exact absurd rfl hholds
  | removed => exact absurd rfl hholds

/-- **A call that removes**: what is left and what was removed are what there was, and nothing with
    the id is left. -/
theorem removes_spec {id : String} {result : List Transaction} (h : Removes c id s result s') :
    s'.waiting = s.waiting ∧ s'.holder = none ∧
      (s'.transactions ++ result).Perm s.transactions ∧
      ∀ u ∈ s'.transactions, hasId id u = false := by
  obtain ⟨s₁, hruns, hend, rfl⟩ := h
  have hphase : ∃ φ, s₁.holder = some φ ∧ φ.RemovesFrom s.transactions id s₁.transactions := by
    clear hend
    induction hruns with
    | refl => exact ⟨_, rfl, rfl, rfl⟩
    | tail _ hgoes ih =>
      obtain ⟨φ, hφ, hl⟩ := ih
      exact removesFrom_goesOn hgoes hφ hl
  obtain ⟨φ, hφ, hl⟩ := hphase
  obtain rfl := Option.some.inj (hφ.symm.trans hend)
  have hwaiting := goesOn_waiting hruns
  exact ⟨hwaiting, rfl, hl⟩

/-- The same of what was forged, where no transaction of the list has the id of another one. -/
theorem forged_spec (s : SenderMempool) (id : String)
    (hdistinct : (s.transactions.map fun u => u.data.id).Nodup) :
    (s.afterForged id).waiting = s.waiting ∧ (s.afterForged id).holder = s.holder ∧
      ((s.afterForged id).transactions ++ s.forged id).Perm s.transactions ∧
      ∀ u ∈ (s.afterForged id).transactions, hasId id u = false := by
  unfold afterForged forged
  cases hindex : s.transactions.findIdx? (hasId id) with
  | none =>
    refine ⟨rfl, rfl, by simp, fun u hu => ?_⟩
    have hall := List.findIdx?_eq_none_iff.1 hindex u hu
    simpa using hall
  | some index =>
    refine ⟨rfl, rfl, ?_, fun u hu => ?_⟩
    · refine List.perm_append_comm.trans ?_
      rw [List.take_append_drop]
    · obtain ⟨hlt, hhas, _⟩ := List.findIdx?_eq_some_iff_getElem.1 hindex
      obtain ⟨i, hi, rfl⟩ := List.mem_drop_iff_getElem.1 hu
      by_contra hother
      unfold hasId at hhas hother
      simp only [decide_eq_true_eq, Bool.not_eq_false] at hhas hother
      have hsame := @List.Nodup.getElem_inj_iff _ _ hdistinct index (by simpa using hlt)
        (index + 1 + i) (by rw [List.length_map]; omega)
      rw [List.getElem_map, List.getElem_map] at hsame
      have heq := hsame.1 (hhas.trans hother.symm)
      omega

end SenderMempool

/-! ## 2. The lists of the pool -/

namespace TransactionPool

/-- The id is that of a transaction in one of the lists. -/
def Holds (p : TransactionPool) (id : String) : Prop :=
  ∃ senderPublicKey k, p.senderMempools.get? senderPublicKey = some k ∧
    ∃ t ∈ (p.lists k).transactions, t.data.id = some id

variable {senderOf : String → PublicKey}

/-- **The lists at rest**, each under the key of its sender and with every transaction once. An id
    is made of bytes that name the sender: `senderOf`. -/
structure Sound (senderOf : String → PublicKey) (p : TransactionPool) : Prop where
  rest : ∀ a k, p.senderMempools.get? a = some k →
    (p.lists k).waiting = [] ∧ (p.lists k).holder = none
  bounded : ∀ a k, p.senderMempools.get? a = some k → k < p.created
  apart : ∀ a b k, p.senderMempools.get? a = some k → p.senderMempools.get? b = some k → a = b
  ids : ∀ a k, p.senderMempools.get? a = some k → ∀ t ∈ (p.lists k).transactions,
    ∃ id, t.data.id = some id ∧ senderOf id = a
  distinct : ∀ a k, p.senderMempools.get? a = some k →
    ((p.lists k).transactions.map fun t => t.data.id).Nodup

namespace Sound

variable {p : TransactionPool}

/-- A transaction is in the list of the sender its id names. -/
theorem sender (hp : Sound senderOf p) {b : PublicKey} {j : Nat}
    (hj : p.senderMempools.get? b = some j) {t : Transaction}
    (ht : t ∈ (p.lists j).transactions) {id : String} (hid : t.data.id = some id) :
    senderOf id = b := by
  obtain ⟨id', hid', hsender⟩ := hp.ids b j hj t ht
  exact Option.some.inj (hid'.symm.trans hid) ▸ hsender

/-- What is held is in the list of a sender, or has another sender. -/
theorem holds_iff (hp : Sound senderOf p) {a : PublicKey} {k : Nat}
    (hk : p.senderMempools.get? a = some k) (id : String) :
    p.Holds id ↔
      (∃ t ∈ (p.lists k).transactions, t.data.id = some id) ∨ senderOf id ≠ a ∧ p.Holds id := by
  refine ⟨fun hholds => ?_, fun hholds => ?_⟩
  · by_cases hid : senderOf id = a
    · obtain ⟨b, j, hj, t, ht, htid⟩ := hholds
      obtain rfl : b = a := (hp.sender hj ht htid).symm.trans hid
      obtain rfl := Option.some.inj (hj.symm.trans hk)
      exact Or.inl ⟨t, ht, htid⟩
    · exact Or.inr ⟨hid, hholds⟩
  · rcases hholds with ⟨t, ht, htid⟩ | ⟨_, hholds⟩
    · exact ⟨a, k, hk, t, ht, htid⟩
    · exact hholds

/-- Nothing is held of a sender without a list. -/
theorem not_holds (hp : Sound senderOf p) {id : String}
    (hnone : p.senderMempools.get? (senderOf id) = none) : ¬p.Holds id := by
  intro hholds
  obtain ⟨b, j, hj, t, ht, htid⟩ := hholds
  obtain rfl : senderOf id = b := hp.sender hj ht htid
  exact nomatch hj.symm.trans hnone

/-- The rows are of no account. -/
theorem withStorage (hp : Sound senderOf p) (rows : List StoredTransaction) :
    Sound senderOf { p with storage := rows } :=
  ⟨hp.rest, hp.bounded, hp.apart, hp.ids, hp.distinct⟩

end Sound

/-- One list has been replaced, and its sender may have been forgotten if it is empty. -/
structure Replaces (a : PublicKey) (k : Nat) (l : SenderMempool) (p q : TransactionPool) :
    Prop where
  lists : q.lists = Function.update p.lists k l
  created : q.created = p.created
  storage : q.storage = p.storage
  others : ∀ b, b ≠ a → q.senderMempools.get? b = p.senderMempools.get? b
  own : q.senderMempools.get? a = some k ∨ q.senderMempools.get? a = none ∧ l.transactions = []

theorem replaces_dispose {a : PublicKey} {k : Nat} (l : SenderMempool) {p : TransactionPool}
    (hk : p.senderMempools.get? a = some k) :
    Replaces a k l p ((p.setList k l).dispose a k) := by
  unfold dispose
  rw [lists_setList_self]
  split
  · rename_i hdisposable
    refine ⟨rfl, rfl, rfl, fun b hb => ?_, Or.inr ⟨?_, ?_⟩⟩
    · show (p.senderMempools.delete a).get? b = p.senderMempools.get? b
      rw [OrderedMap.get?_delete, if_neg hb]
    · show (p.senderMempools.delete a).get? a = none
      rw [OrderedMap.get?_delete, if_pos rfl]
    · unfold SenderMempool.isDisposable at hdisposable
      simp only [Bool.and_eq_true, decide_eq_true_eq] at hdisposable
      exact List.length_eq_zero_iff.1 hdisposable.1
  · exact ⟨rfl, rfl, rfl, fun _ _ => rfl, Or.inl hk⟩

namespace Replaces

variable {a : PublicKey} {k : Nat} {l : SenderMempool} {p q : TransactionPool}

theorem list_self (h : Replaces a k l p q) : q.lists k = l := by
  rw [h.lists]
  exact Function.update_self _ _ _

/-- The list of another sender is as it was. -/
theorem list_other (h : Replaces a k l p q) (hp : Sound senderOf p)
    (hk : p.senderMempools.get? a = some k) {b : PublicKey} {j : Nat} (hb : b ≠ a)
    (hj : q.senderMempools.get? b = some j) :
    p.senderMempools.get? b = some j ∧ q.lists j = p.lists j := by
  have hj' : p.senderMempools.get? b = some j := (h.others b hb).symm.trans hj
  refine ⟨hj', ?_⟩
  rw [h.lists]
  refine Function.update_of_ne (fun hjk => hb ?_) _ _
  exact hp.apart b a k (hjk ▸ hj') hk

/-- Under its own key there is the new list, if any. -/
theorem number (h : Replaces a k l p q) {j : Nat} (hj : q.senderMempools.get? a = some j) :
    j = k := by
  rcases h.own with hown | ⟨hown, _⟩
  · exact Option.some.inj (hj.symm.trans hown)
  · exact nomatch hj.symm.trans hown

/-- **A list that is replaced by a good one.** -/
theorem sound (h : Replaces a k l p q) (hp : Sound senderOf p)
    (hk : p.senderMempools.get? a = some k) (hrest : l.waiting = [] ∧ l.holder = none)
    (hids : ∀ t ∈ l.transactions, ∃ id, t.data.id = some id ∧ senderOf id = a)
    (hdistinct : (l.transactions.map fun t => t.data.id).Nodup) : Sound senderOf q := by
  refine ⟨fun b j hj => ?_, fun b j hj => ?_, fun b b' j hj hj' => ?_, fun b j hj => ?_,
    fun b j hj => ?_⟩
  · by_cases hb : b = a
    · subst hb
      obtain rfl := h.number hj
      rw [h.list_self]
      exact hrest
    · obtain ⟨hold, hlist⟩ := h.list_other hp hk hb hj
      rw [hlist]
      exact hp.rest b j hold
  · rw [h.created]
    by_cases hb : b = a
    · subst hb
      obtain rfl := h.number hj
      exact hp.bounded b j hk
    · exact hp.bounded b j (h.list_other hp hk hb hj).1
  · have hold : ∀ b, q.senderMempools.get? b = some j → p.senderMempools.get? b = some j := by
      intro b hj
      by_cases hb : b = a
      · subst hb
        obtain rfl := h.number hj
        exact hk
      · exact (h.list_other hp hk hb hj).1
    exact hp.apart b b' j (hold b hj) (hold b' hj')
  · by_cases hb : b = a
    · subst hb
      obtain rfl := h.number hj
      rw [h.list_self]
      exact hids
    · obtain ⟨hold, hlist⟩ := h.list_other hp hk hb hj
      rw [hlist]
      exact hp.ids b j hold
  · by_cases hb : b = a
    · subst hb
      obtain rfl := h.number hj
      rw [h.list_self]
      exact hdistinct
    · obtain ⟨hold, hlist⟩ := h.list_other hp hk hb hj
      rw [hlist]
      exact hp.distinct b j hold

/-- What is held then. -/
theorem holds_iff (h : Replaces a k l p q) (hp : Sound senderOf p)
    (hk : p.senderMempools.get? a = some k)
    (hids : ∀ t ∈ l.transactions, ∃ id, t.data.id = some id ∧ senderOf id = a) (id : String) :
    q.Holds id ↔ (∃ t ∈ l.transactions, t.data.id = some id) ∨ senderOf id ≠ a ∧ p.Holds id := by
  refine ⟨fun hholds => ?_, fun hholds => ?_⟩
  · obtain ⟨b, j, hj, t, ht, hid⟩ := hholds
    by_cases hb : b = a
    · subst hb
      obtain rfl := h.number hj
      rw [h.list_self] at ht
      exact Or.inl ⟨t, ht, hid⟩
    · obtain ⟨hold, hlist⟩ := h.list_other hp hk hb hj
      rw [hlist] at ht
      have hsender := hp.sender hold ht hid
      exact Or.inr ⟨fun heq => hb (hsender.symm.trans heq), b, j, hold, t, ht, hid⟩
  · rcases hholds with ⟨t, ht, hid⟩ | ⟨hne, b, j, hj, t, ht, hid⟩
    · rcases h.own with hown | ⟨_, hempty⟩
      · exact ⟨a, k, hown, t, by rw [h.list_self]; exact ht, hid⟩
      · rw [hempty] at ht
        cases ht
    · have hb : b ≠ a := fun hb => hne ((hp.sender hj ht hid).trans hb)
      have hj' : q.senderMempools.get? b = some j := (h.others b hb).trans hj
      refine ⟨b, j, hj', t, ?_, hid⟩
      rw [(h.list_other hp hk hb hj').2]
      exact ht

end Replaces

/-! ## 3. Removals -/

/-- What has been removed is what is held no longer. -/
structure Splits (senderOf : String → PublicKey) (p : TransactionPool) (result : List Transaction)
    (q : TransactionPool) : Prop where
  sound : Sound senderOf q
  storage : q.storage = p.storage
  held : ∀ id, p.Holds id ↔ q.Holds id ∨ ∃ t ∈ result, t.data.id = some id
  removed : ∀ id, q.Holds id → ∀ t ∈ result, t.data.id ≠ some id

/-- A list is replaced by one of which some transactions have been removed. -/
theorem Replaces.splits {a : PublicKey} {k : Nat} {l : SenderMempool} {p q : TransactionPool}
    {result : List Transaction} (h : Replaces a k l p q) (hp : Sound senderOf p)
    (hk : p.senderMempools.get? a = some k) (hrest : l.waiting = [] ∧ l.holder = none)
    (hperm : (l.transactions ++ result).Perm (p.lists k).transactions) :
    Splits senderOf p result q := by
  have hmem : ∀ t, t ∈ (p.lists k).transactions ↔ t ∈ l.transactions ∨ t ∈ result := fun t =>
    hperm.mem_iff.symm.trans List.mem_append
  have hids : ∀ t ∈ l.transactions, ∃ id, t.data.id = some id ∧ senderOf id = a := fun t ht =>
    hp.ids a k hk t ((hmem t).2 (Or.inl ht))
  have hdistinct := (hperm.map fun t => t.data.id).nodup_iff.2 (hp.distinct a k hk)
  rw [List.map_append] at hdistinct
  obtain ⟨hleft, _, hapart⟩ := List.nodup_append.1 hdistinct
  have hholds := h.holds_iff hp hk hids
  refine ⟨h.sound hp hk hrest hids hleft, h.storage, fun id => ?_, fun id hid t ht hsame => ?_⟩
  · rw [hholds]
    refine ⟨fun hheld => ?_, fun hheld => ?_⟩
    · rcases (hp.holds_iff hk id).1 hheld with ⟨t, ht, htid⟩ | hother
      · rcases (hmem t).1 ht with hl | hr
        · exact Or.inl (Or.inl ⟨t, hl, htid⟩)
        · exact Or.inr ⟨t, hr, htid⟩
      · exact Or.inl (Or.inr hother)
    · rcases hheld with (⟨t, ht, htid⟩ | ⟨_, hheld⟩) | ⟨t, ht, htid⟩
      · exact ⟨a, k, hk, t, (hmem t).2 (Or.inl ht), htid⟩
      · exact hheld
      · exact ⟨a, k, hk, t, (hmem t).2 (Or.inr ht), htid⟩
  · rcases (hholds id).1 hid with ⟨u, hu, huid⟩ | ⟨hne, _⟩
    · exact hapart _ (List.mem_map_of_mem hu) _ (List.mem_map_of_mem ht) (huid.trans hsame.symm)
    · exact hne (hp.sender hk ((hmem t).2 (Or.inr ht)) hsame)

/-- Nothing is removed. -/
theorem Splits.nothing {p : TransactionPool} (hp : Sound senderOf p) : Splits senderOf p [] p :=
  ⟨hp, rfl, fun _ => ⟨Or.inl, fun h => h.resolve_right fun ⟨_, ht, _⟩ => nomatch ht⟩,
    fun _ _ _ ht => nomatch ht⟩

/-- A list without a transaction of the id, under the key of its sender. -/
theorem Replaces.not_holds {a : PublicKey} {k : Nat} {l : SenderMempool} {p q : TransactionPool}
    (h : Replaces a k l p q) (hp : Sound senderOf p) (hk : p.senderMempools.get? a = some k)
    (hids : ∀ t ∈ l.transactions, ∃ id, t.data.id = some id ∧ senderOf id = a) {id : String}
    (hnone : ∀ t ∈ l.transactions, SenderMempool.hasId id t = false) (hsender : senderOf id = a) :
    ¬q.Holds id := by
  intro hholds
  rcases (h.holds_iff hp hk hids id).1 hholds with ⟨t, ht, hid⟩ | ⟨hne, _⟩
  · have hfalse := hnone t ht
    unfold SenderMempool.hasId at hfalse
    exact of_decide_eq_false hfalse hid
  · exact hne hsender

/-- **`mempool.removeTransaction`.** -/
theorem mempoolRemoves_splits {c : PoolConfiguration} {a : PublicKey} {id : String}
    {p q : TransactionPool} {result : List Transaction} (hp : Sound senderOf p)
    (h : MempoolRemoves c a id p result q) :
    Splits senderOf p result q ∧ (senderOf id = a → ¬q.Holds id) := by
  cases h with
  | unknown hnone =>
    refine ⟨Splits.nothing hp, fun hsender => ?_⟩
    subst hsender
    exact hp.not_holds hnone
  | @known k l _ hk hl =>
    obtain ⟨hwaiting, hholder, hperm, hnone⟩ := SenderMempool.removes_spec hl
    have hrest := (hp.rest a k hk).1
    have hreplaces := replaces_dispose l hk
    refine ⟨hreplaces.splits hp hk ⟨hwaiting.trans hrest, hholder⟩ hperm, fun hsender => ?_⟩
    refine hreplaces.not_holds hp hk (fun t ht => ?_) hnone hsender
    exact hp.ids a _ hk t (hperm.mem_iff.1 (List.mem_append_left _ ht))

/-- **`mempool.removeForgedTransaction`.** -/
theorem mempoolRemoveForged_splits {a : PublicKey} (id : String) {p : TransactionPool}
    (hp : Sound senderOf p) :
    Splits senderOf p (p.mempoolRemoveForged a id).1 (p.mempoolRemoveForged a id).2 ∧
      (senderOf id = a → ¬(p.mempoolRemoveForged a id).2.Holds id) := by
  unfold mempoolRemoveForged
  cases hk : p.senderMempools.get? a with
  | none =>
    refine ⟨Splits.nothing hp, fun hsender => ?_⟩
    subst hsender
    exact hp.not_holds hk
  | some k =>
    obtain ⟨hwaiting, hholder, hperm, hnone⟩ :=
      SenderMempool.forged_spec (p.lists k) id (hp.distinct a k hk)
    obtain ⟨hrest, hfree⟩ := hp.rest a k hk
    have hreplaces := replaces_dispose ((p.lists k).afterForged id) hk
    refine ⟨hreplaces.splits hp hk ⟨hwaiting.trans hrest, hholder.trans hfree⟩ hperm,
      fun hsender => ?_⟩
    refine hreplaces.not_holds hp hk (fun t ht => ?_) hnone hsender
    exact hp.ids a k hk t (hperm.mem_iff.1 (List.mem_append_left _ ht))

/-! ## 4. Rows and lists -/

/-- **Rows and lists agree**, but for the rows of some ids that no list holds. -/
structure Agrees (senderOf : String → PublicKey) (extra : String → Prop) (p : TransactionPool) :
    Prop where
  sound : Sound senderOf p
  rows : ∀ id, p.hasTransaction id = true ↔ p.Holds id ∨ extra id
  apart : ∀ id, extra id → ¬p.Holds id
  /-- The index of the ids in the table is unique. -/
  unique : (p.storage.map fun row => row.id).Nodup

theorem hasTransaction_iff {p : TransactionPool} {id : String} :
    p.hasTransaction id = true ↔ ∃ row ∈ p.storage, row.id = id := by
  unfold hasTransaction
  simp

theorem hasTransaction_forget {p : TransactionPool} {ts : List Transaction} {id : String} :
    (p.forget ts).hasTransaction id = true ↔
      p.hasTransaction id = true ∧ ∀ t ∈ ts, t.data.id ≠ some id := by
  rw [hasTransaction_iff, hasTransaction_iff]
  unfold forget SenderMempool.hasId
  dsimp only
  refine ⟨fun h => ?_, fun h => ?_⟩
  · obtain ⟨row, hrow, rfl⟩ := h
    obtain ⟨hmem, hnone⟩ := List.mem_filter.1 hrow
    simp only [Bool.not_eq_true', List.any_eq_false, decide_eq_true_eq] at hnone
    exact ⟨⟨row, hmem, rfl⟩, hnone⟩
  · obtain ⟨⟨row, hmem, rfl⟩, hnone⟩ := h
    refine ⟨row, List.mem_filter.2 ⟨hmem, ?_⟩, rfl⟩
    simp only [Bool.not_eq_true', List.any_eq_false, decide_eq_true_eq]
    exact hnone

theorem hasTransaction_forgetRow {p : TransactionPool} {id id' : String} :
    (p.forgetRow id).hasTransaction id' = true ↔ p.hasTransaction id' = true ∧ id' ≠ id := by
  rw [hasTransaction_iff, hasTransaction_iff]
  unfold forgetRow
  dsimp only
  refine ⟨fun h => ?_, fun h => ?_⟩
  · obtain ⟨row, hrow, rfl⟩ := h
    obtain ⟨hmem, hne⟩ := List.mem_filter.1 hrow
    exact ⟨⟨row, hmem, rfl⟩, of_decide_eq_true hne⟩
  · obtain ⟨⟨row, hmem, rfl⟩, hne⟩ := h
    exact ⟨row, List.mem_filter.2 ⟨hmem, decide_eq_true hne⟩, rfl⟩

namespace Agrees

variable {extra : String → Prop} {p q : TransactionPool}

/-- **Forgetting what has been removed.** -/
theorem forget (h : Agrees senderOf extra p) {result : List Transaction}
    (hsplits : Splits senderOf p result q) : Agrees senderOf extra (q.forget result) := by
  refine ⟨hsplits.sound.withStorage _, fun id => ?_, fun id hextra hholds => ?_, ?_⟩
  · have hsame : q.hasTransaction id = p.hasTransaction id := by
      unfold hasTransaction
      rw [hsplits.storage]
    rw [hasTransaction_forget, hsame, h.rows id]
    show _ ↔ q.Holds id ∨ extra id
    refine ⟨fun hkept => ?_, fun hkept => ?_⟩
    · obtain ⟨hheld | hextra, hnot⟩ := hkept
      · rcases (hsplits.held id).1 hheld with hq | ⟨t, ht, htid⟩
        · exact Or.inl hq
        · exact absurd htid (hnot t ht)
      · exact Or.inr hextra
    · rcases hkept with hq | hextra
      · exact ⟨Or.inl ((hsplits.held id).2 (Or.inl hq)), hsplits.removed id hq⟩
      · refine ⟨Or.inr hextra, fun t ht htid => ?_⟩
        exact h.apart id hextra ((hsplits.held id).2 (Or.inr ⟨t, ht, htid⟩))
  · exact h.apart id hextra ((hsplits.held id).2 (Or.inl hholds))
  · unfold TransactionPool.forget
    dsimp only
    rw [hsplits.storage]
    exact h.unique.sublist (List.filter_sublist.map _)

/-- Forgetting a row that no list knows. -/
theorem forgetRow (h : Agrees senderOf extra p) {id : String} (hid : ¬p.Holds id) :
    Agrees senderOf (fun id' => extra id' ∧ id' ≠ id) (p.forgetRow id) := by
  refine ⟨h.sound.withStorage _, fun id' => ?_, fun id' hextra => h.apart id' hextra.1, ?_⟩
  · rw [hasTransaction_forgetRow, h.rows id']
    show _ ↔ p.Holds id' ∨ _
    refine ⟨fun hkept => ?_, fun hkept => ?_⟩
    · obtain ⟨hheld | hextra, hne⟩ := hkept
      · exact Or.inl hheld
      · exact Or.inr ⟨hextra, hne⟩
    · rcases hkept with hheld | ⟨hextra, hne⟩
      · exact ⟨Or.inl hheld, fun heq => hid (heq ▸ hheld)⟩
      · exact ⟨Or.inr hextra, hne⟩
  · exact h.unique.sublist (List.filter_sublist.map _)

/-- **A removal in one of the loops.** -/
theorem drops (h : Agrees senderOf extra p) {c : PoolConfiguration} {a : PublicKey} {id : String}
    (hdrops : Drops c a id p q) : Agrees senderOf extra q := by
  obtain ⟨result, p₁, hremoves, rfl⟩ := hdrops
  exact h.forget (mempoolRemoves_splits h.sound hremoves).1

/-- The same rows but for those of other ids. -/
theorem congr {extra' : String → Prop} (h : Agrees senderOf extra p)
    (hextra : ∀ id, extra id ↔ extra' id) : Agrees senderOf extra' p :=
  ⟨h.sound, fun id => (h.rows id).trans (or_congr_right (hextra id)),
    fun id hid => h.apart id ((hextra id).2 hid), h.unique⟩

end Agrees

/-! ## 5. The loops -/

/-- Code that keeps an invariant, whatever it settles with. -/
def Keeps (I : TransactionPool → Prop) (x : PoolCode) : Prop :=
  ∀ p result q, I p → x p result q → I q

theorem Keeps.andThen {I : TransactionPool → Prop} {x y : PoolCode} (hx : Keeps I x)
    (hy : Keeps I y) : Keeps I (PoolCode.AndThen x y) := by
  intro p result q hp h
  cases h with
  | thrown h => exact hx _ _ _ hp h
  | goesOn h hrest => exact hy _ _ _ (hx _ _ _ hp h) hrest

variable {extra : String → Prop} {c : ServiceConfiguration} {lastHeight : Nat}

theorem keeps_removesOld (c : PoolConfiguration) (rows : List StoredTransaction) :
    Keeps (Agrees senderOf extra) (RemovesOld c rows) := by
  intro p result q hp h
  induction h with
  | nil => exact hp
  | cons hdrops _ ih => exact ih (hp.drops hdrops)

theorem keeps_removesExpired (c : PoolConfiguration) (ts : List Transaction) :
    Keeps (Agrees senderOf extra) (RemovesExpired c lastHeight ts) := by
  intro p result q hp h
  induction h with
  | nil => exact hp
  | notDefined => exact hp
  | expired _ _ _ hdrops _ ih => exact ih (hp.drops hdrops)
  | live _ _ _ _ ih => exact ih hp

theorem keeps_removesLowest (c : PoolConfiguration) :
    Keeps (Agrees senderOf extra) (RemovesLowest c) := by
  intro p result q hp h
  cases h with
  | removed _ _ _ _ hdrops => exact hp.drops hdrops
  | _ => exact hp

theorem keeps_removesLowestAll : Keeps (Agrees senderOf extra) (RemovesLowestAll c) := by
  intro p result q hp h
  induction h with
  | done => exact hp
  | fails _ hl => exact keeps_removesLowest _ _ _ _ hp hl
  | again _ hl _ ih => exact ih (keeps_removesLowest _ _ _ _ hp hl)

/-- **Making room** keeps rows and lists in agreement. -/
theorem keeps_makesRoom : Keeps (Agrees senderOf extra) (MakesRoom c lastHeight) := by
  unfold MakesRoom
  refine Keeps.andThen ?_ (Keeps.andThen ?_ keeps_removesLowestAll)
  · exact fun p result q => keeps_removesOld _ _ p result q
  · exact fun p result q => keeps_removesExpired _ _ p result q

theorem keeps_cleansFull : Keeps (Agrees senderOf extra) (CleansFull c lastHeight) := by
  intro p result q hp h
  cases h with
  | room => exact hp
  | full _ hroom => exact keeps_makesRoom _ _ _ hp hroom

theorem keeps_replacesLowest (t : Transaction) :
    Keeps (Agrees senderOf extra) (ReplacesLowest c t) := by
  intro p result q hp h
  cases h with
  | replaces _ _ _ hl => exact keeps_removesLowest _ _ _ _ hp hl
  | _ => exact hp

/-! ## 6. Adding -/

/-- A list that is created is empty. -/
theorem Sound.create {p : TransactionPool} (h : Sound senderOf p) {a : PublicKey}
    (ha : p.senderMempools.get? a = none) (nonce : Int) :
    Sound senderOf (p.create a nonce) ∧ ∀ id, (p.create a nonce).Holds id ↔ p.Holds id := by
  have hself : (p.create a nonce).lists p.created = SenderMempool.created nonce :=
    Function.update_self _ _ _
  have hother : ∀ k, k < p.created → (p.create a nonce).lists k = p.lists k := fun k hk =>
    Function.update_of_ne (Nat.ne_of_lt hk) _ _
  have hget : ∀ b k, (p.create a nonce).senderMempools.get? b = some k →
      b = a ∧ k = p.created ∨ b ≠ a ∧ p.senderMempools.get? b = some k := by
    intro b k hk
    by_cases hb : b = a
    · subst hb
      exact Or.inl ⟨rfl, (Option.some.inj ((OrderedMap.get?_set_self _ _ _).symm.trans hk)).symm⟩
    · exact Or.inr ⟨hb, (OrderedMap.get?_set_of_ne _ _ hb).symm.trans hk⟩
  refine ⟨⟨fun b k hk => ?_, fun b k hk => ?_, fun b b' k hk hk' => ?_, fun b k hk => ?_,
    fun b k hk => ?_⟩, fun id => ⟨fun hholds => ?_, fun hholds => ?_⟩⟩
  · rcases hget b k hk with ⟨rfl, rfl⟩ | ⟨_, hold⟩
    · rw [hself]
      exact ⟨rfl, rfl⟩
    · rw [hother k (h.bounded b k hold)]
      exact h.rest b k hold
  · show k < p.created + 1
    rcases hget b k hk with ⟨_, rfl⟩ | ⟨_, hold⟩
    · omega
    · have := h.bounded b k hold
      omega
  · rcases hget b k hk with ⟨rfl, rfl⟩ | ⟨_, hold⟩
    · rcases hget b' _ hk' with ⟨rfl, _⟩ | ⟨_, hold'⟩
      · rfl
      · exact absurd (h.bounded b' _ hold') (Nat.lt_irrefl _)
    · rcases hget b' k hk' with ⟨_, rfl⟩ | ⟨_, hold'⟩
      · exact absurd (h.bounded b _ hold) (Nat.lt_irrefl _)
      · exact h.apart b b' k hold hold'
  · rcases hget b k hk with ⟨_, rfl⟩ | ⟨_, hold⟩
    · rw [hself]
      exact fun t ht => nomatch ht
    · rw [hother k (h.bounded b k hold)]
      exact h.ids b k hold
  · rcases hget b k hk with ⟨_, rfl⟩ | ⟨_, hold⟩
    · rw [hself]
      exact List.nodup_nil
    · rw [hother k (h.bounded b k hold)]
      exact h.distinct b k hold
  · obtain ⟨b, k, hk, t, ht, hid⟩ := hholds
    rcases hget b k hk with ⟨_, rfl⟩ | ⟨_, hold⟩
    · rw [hself] at ht
      cases ht
    · rw [hother k (h.bounded b k hold)] at ht
      exact ⟨b, k, hold, t, ht, hid⟩
  · obtain ⟨b, k, hk, t, ht, hid⟩ := hholds
    have hb : b ≠ a := by
      intro hb
      rw [hb, ha] at hk
      cases hk
    refine ⟨b, k, (OrderedMap.get?_set_of_ne _ _ hb).trans hk, t, ?_, hid⟩
    rw [hother k (h.bounded b k hk)]
    exact ht

/-- A transaction has its id from bytes that name its sender. -/
def Genuine (senderOf : String → PublicKey) (t : Transaction) : Prop :=
  ∀ id, t.data.id = some id → t.data.senderPublicKey = some (senderOf id)

/-- The list of the sender after a call that adds: what is held then. -/
theorem Replaces.adds {a : PublicKey} {k : Nat} {l : SenderMempool} {p q : TransactionPool}
    {c : PoolConfiguration} {t : Transaction} {tid : String} {result : Except PoolError Unit}
    (h : Replaces a k l p q) (hp : Sound senderOf p) (hk : p.senderMempools.get? a = some k)
    (hl : (p.lists k).Adds c t result l) (htid : t.data.id = some tid) (hsender : senderOf tid = a)
    (hnew : ¬p.Holds tid) :
    Sound senderOf q ∧ ∀ id, q.Holds id ↔ p.Holds id ∨ result = .ok () ∧ id = tid := by
  obtain ⟨hwaiting, hholder, hok, herror⟩ := SenderMempool.adds_spec hl
  have hrest : l.waiting = [] ∧ l.holder = none := ⟨hwaiting.trans (hp.rest a k hk).1, hholder⟩
  have hold := hp.holds_iff hk
  cases result with
  | error e =>
    have hsame := herror e rfl
    have hids : ∀ u ∈ l.transactions, ∃ id, u.data.id = some id ∧ senderOf id = a :=
      hsame ▸ hp.ids a k hk
    refine ⟨h.sound hp hk hrest hids (hsame ▸ hp.distinct a k hk), fun id => ?_⟩
    refine (h.holds_iff hp hk hids id).trans ?_
    rw [hsame]
    exact (hold id).symm.trans ⟨Or.inl, fun h => h.resolve_right fun h => nomatch h.1⟩
  | ok =>
    have hsame := hok rfl
    have hids : ∀ u ∈ l.transactions, ∃ id, u.data.id = some id ∧ senderOf id = a := by
      intro u hu
      rw [hsame] at hu
      rcases List.mem_append.1 hu with hu | hu
      · exact hp.ids a k hk u hu
      · rw [List.mem_singleton.1 hu]
        exact ⟨tid, htid, hsender⟩
    refine ⟨h.sound hp hk hrest hids ?_, fun id => ?_⟩
    · rw [hsame, List.map_append]
      refine List.nodup_append.2 ⟨hp.distinct a k hk, List.nodup_singleton _, ?_⟩
      intro x hx y hy hxy
      obtain ⟨u, hu, rfl⟩ := List.mem_map.1 hx
      rw [List.map_singleton, List.mem_singleton] at hy
      exact hnew ⟨a, k, hk, u, hu, (hxy.trans hy).trans htid⟩
    · refine (h.holds_iff hp hk hids id).trans ?_
      rw [hsame]
      refine ⟨fun hheld => ?_, fun hheld => ?_⟩
      · rcases hheld with ⟨u, hu, huid⟩ | ⟨_, hheld⟩
        · rcases List.mem_append.1 hu with hu | hu
          · exact Or.inl ((hold id).2 (Or.inl ⟨u, hu, huid⟩))
          · rw [List.mem_singleton.1 hu] at huid
            exact Or.inr ⟨rfl, Option.some.inj (huid.symm.trans htid)⟩
        · exact Or.inl hheld
      · rcases hheld with hheld | ⟨_, rfl⟩
        · rcases (hold id).1 hheld with ⟨u, hu, huid⟩ | hheld
          · exact Or.inl ⟨u, List.mem_append_left _ hu, huid⟩
          · exact Or.inr hheld
        · exact Or.inl ⟨t, List.mem_append_right _ (List.mem_singleton_self _), htid⟩

/-- **`mempool.addTransaction`** of a transaction that is not held: it is held afterwards, or
    nothing has changed. -/
theorem mempoolAdds_holds {c : PoolConfiguration} {t : Transaction} {tid : String}
    {p q : TransactionPool} {result : Except ServiceError Unit} (hp : Sound senderOf p)
    (hgenuine : Genuine senderOf t) (htid : t.data.id = some tid) (hnew : ¬p.Holds tid)
    (h : MempoolAdds c t p result q) : Sound senderOf q ∧ q.storage = p.storage ∧
      ∀ id, q.Holds id ↔ p.Holds id ∨ result = .ok () ∧ id = tid := by
  have hok : ∀ r : Except PoolError Unit, r.mapError ServiceError.sender = .ok () ↔ r = .ok () := by
    intro r
    cases r with
    | error e => simp [Except.mapError]
    | ok => exact ⟨fun _ => rfl, fun _ => rfl⟩
  cases h with
  | notDefined =>
    refine ⟨hp, rfl, fun id => ⟨Or.inl, fun h => h.resolve_right ?_⟩⟩
    intro hadded
    exact nomatch hadded.1
  | @known _ a k l r hsender hk hl =>
    have hof : senderOf tid = a := Option.some.inj ((hgenuine tid htid).symm.trans hsender)
    have hreplaces := replaces_dispose l hk
    obtain ⟨hsound, hholds⟩ := hreplaces.adds hp hk hl htid hof hnew
    refine ⟨hsound, hreplaces.storage, fun id => ?_⟩
    rw [hholds id, hok r]
  | @creates _ a nonce l r hsender hk hl =>
    have hof : senderOf tid = a := Option.some.inj ((hgenuine tid htid).symm.trans hsender)
    obtain ⟨hcreated, hsame⟩ := hp.create hk nonce
    have hget : (p.create a nonce).senderMempools.get? a = some p.created :=
      OrderedMap.get?_set_self _ _ _
    have hlist : (p.create a nonce).lists p.created = SenderMempool.created nonce :=
      Function.update_self _ _ _
    have hreplaces := replaces_dispose l hget
    obtain ⟨hsound, hholds⟩ := hreplaces.adds hcreated hget (hlist.symm ▸ hl) htid hof
      (fun h => hnew ((hsame tid).1 h))
    refine ⟨hsound, hreplaces.storage, fun id => ?_⟩
    rw [hholds id, hok r, hsame id]

/-- **`#addTransactionToMempool`** of a transaction whose row is in hand. -/
theorem agrees_addsToMempool {t : Transaction} {tid : String} {p q : TransactionPool}
    {result : Except ServiceError Unit} (h : Agrees senderOf extra p)
    (hgenuine : Genuine senderOf t) (htid : t.data.id = some tid) (hextra : extra tid)
    (hadds : AddsToMempool c lastHeight t p result q) :
    Agrees senderOf (fun id => extra id ∧ ¬(result = .ok () ∧ id = tid)) q := by
  have hfailed : ∀ {q : TransactionPool} {e : ServiceError}, Agrees senderOf extra q →
      Agrees senderOf
        (fun id => extra id ∧ ¬((.error e : Except ServiceError Unit) = .ok () ∧ id = tid)) q :=
    fun h => h.congr fun id => ⟨fun hid => ⟨hid, fun h => nomatch h.1⟩, And.left⟩
  cases hadds with
  | notDefined => exact hfailed h
  | entered _ hentered =>
    cases hentered with
    | thrown hcleans => exact hfailed (keeps_cleansFull _ _ _ h hcleans)
    | goesOn hcleans hrest =>
      have hcleaned := keeps_cleansFull _ _ _ h hcleans
      cases hrest with
      | thrown hreplaces => exact hfailed (keeps_replacesLowest t _ _ _ hcleaned hreplaces)
      | goesOn hreplaces hmempool =>
        have hroom := keeps_replacesLowest t _ _ _ hcleaned hreplaces
        obtain ⟨hsound, hstorage, hholds⟩ := mempoolAdds_holds hroom.sound hgenuine htid
          (hroom.apart tid hextra) hmempool
        refine ⟨hsound, fun id => ?_, fun id hid hheld => ?_, hstorage ▸ hroom.unique⟩
        · have hsame := hroom.rows id
          unfold hasTransaction at hsame ⊢
          rw [hstorage, hsame, hholds id]
          refine ⟨fun hkept => ?_, fun hkept => ?_⟩
          · rcases hkept with hheld | hid
            · exact Or.inl (Or.inl hheld)
            · by_cases hadded : result = .ok () ∧ id = tid
              · exact Or.inl (Or.inr hadded)
              · exact Or.inr ⟨hid, hadded⟩
          · rcases hkept with (hheld | ⟨_, rfl⟩) | ⟨hid, _⟩
            · exact Or.inl hheld
            · exact Or.inr hextra
            · exact Or.inr hid
        · rcases (hholds id).1 hheld with hheld | hadded
          · exact hroom.apart id hid.1 hheld
          · exact hid.2 hadded

/-! ## 7. The methods -/

/-- Rows and lists agree. -/
abbrev InAgreement (senderOf : String → PublicKey) : TransactionPool → Prop :=
  Agrees senderOf fun _ => False

/-- The `catch` block forgets the row of the transaction. -/
theorem forget_singleton {t : Transaction} {tid : String} (htid : t.data.id = some tid)
    (p : TransactionPool) : p.forget [t] = p.forgetRow tid := by
  unfold forget forgetRow
  congr 1
  refine List.filter_congr fun row _ => ?_
  unfold SenderMempool.hasId
  simp only [List.any_cons, List.any_nil, Bool.or_false, htid, Option.some.injEq]
  simp [eq_comm]

/-- `addTransaction` has stored a row of which no list knows. -/
theorem agrees_begin {p p₁ : TransactionPool} {t : Transaction} (h : InAgreement senderOf p)
    (hbegin : p.begin lastHeight t = .ok p₁) :
    ∃ tid, t.data.id = some tid ∧ Agrees senderOf (fun id => id = tid) p₁ := by
  unfold begin at hbegin
  split at hbegin
  · rename_i tid a htid hsender
    split at hbegin
    · cases hbegin
    · rename_i hnew
      cases hbegin
      refine ⟨tid, htid, h.sound.withStorage _, fun id => ?_, fun id hid hheld => ?_, ?_⟩
      · have hrow : ({ p with storage := p.storage ++ [⟨lastHeight, tid, a⟩] } :
            TransactionPool).hasTransaction id = true ↔ p.hasTransaction id = true ∨ id = tid := by
          rw [hasTransaction_iff, hasTransaction_iff]
          simp [or_and_right, exists_or, eq_comm]
        rw [hrow, h.rows id, or_false]
        exact Iff.rfl
      · subst hid
        exact hnew ((h.rows id).2 (Or.inl hheld))
      · rw [List.map_append]
        refine List.nodup_append.2 ⟨h.unique, List.nodup_singleton _, ?_⟩
        intro x hx y hy hxy
        obtain ⟨row, hrow, rfl⟩ := List.mem_map.1 hx
        rw [List.map_singleton, List.mem_singleton] at hy
        exact hnew (hasTransaction_iff.2 ⟨row, hrow, hxy.trans hy⟩)
  · cases hbegin

/-- **The end of `addTransaction`.** -/
theorem agrees_settle {p : TransactionPool} {t : Transaction} {tid : String}
    {result : Except ServiceError Unit} (htid : t.data.id = some tid)
    (h : Agrees senderOf (fun id => id = tid ∧ ¬(result = .ok () ∧ id = tid)) p) :
    InAgreement senderOf (p.settle t result) := by
  cases result with
  | ok => exact h.congr fun id => ⟨fun hid => hid.2 ⟨rfl, hid.1⟩, False.elim⟩
  | error e =>
    have hnot : ¬p.Holds tid := h.apart tid ⟨rfl, fun h => nomatch h.1⟩
    show InAgreement senderOf (p.forget [t])
    rw [forget_singleton htid]
    exact (h.forgetRow hnot).congr fun id => ⟨fun hid => hid.2 hid.1.1, False.elim⟩

/-- A removal and the row of the transaction that was to be removed. -/
theorem agrees_removed {p q : TransactionPool} {id : String} {result : List Transaction}
    (h : InAgreement senderOf p) (hsplits : Splits senderOf p result q) (hnot : ¬q.Holds id) :
    InAgreement senderOf ((q.forget result).forgetRow id) :=
  ((h.forget hsplits).forgetRow hnot).congr fun _ => ⟨And.left, False.elim⟩

/-- The lists without any sender. -/
theorem sound_flush (senderOf : String → PublicKey) (p : TransactionPool) :
    Sound senderOf p.flushMempool ∧ ∀ id, ¬p.flushMempool.Holds id := by
  have hnone : ∀ (a : PublicKey) (k : Nat), p.flushMempool.senderMempools.get? a ≠ some k :=
    fun a k h => nomatch h
  refine ⟨⟨fun a k hk => ?_, fun a k hk => ?_, fun a b k hk => ?_, fun a k hk => ?_,
    fun a k hk => ?_⟩, fun id hholds => ?_⟩
  · exact absurd hk (hnone a k)
  · exact absurd hk (hnone a k)
  · exact absurd hk (hnone a k)
  · exact absurd hk (hnone a k)
  · exact absurd hk (hnone a k)
  · obtain ⟨a, k, hk, _⟩ := hholds
    exact hnone a k hk

/-- The ids of the rows behind the first one. -/
theorem ids_tail {row : StoredTransaction} {rest : List StoredTransaction}
    (hrows : ((row :: rest).map fun row => row.id).Nodup) (id : String) :
    (∃ row' ∈ row :: rest, row'.id = id) ∧ id ≠ row.id ↔ ∃ row' ∈ rest, row'.id = id := by
  refine ⟨fun hid => ?_, fun hid => ?_⟩
  · obtain ⟨⟨row', hrow', rfl⟩, hne⟩ := hid
    rcases List.mem_cons.1 hrow' with rfl | hrow'
    · exact absurd rfl hne
    · exact ⟨row', hrow', rfl⟩
  · obtain ⟨row', hrow', rfl⟩ := hid
    refine ⟨⟨row', List.mem_cons_of_mem _ hrow', rfl⟩, fun heq => ?_⟩
    exact (List.nodup_cons.1 hrows).1 (List.mem_map.2 ⟨row', hrow', heq⟩)

/-- The first of the rows is given up. -/
theorem Agrees.forgetFirst {row : StoredTransaction} {rest : List StoredTransaction}
    {p : TransactionPool} (h : Agrees senderOf (fun id => ∃ row' ∈ row :: rest, row'.id = id) p)
    (hrows : ((row :: rest).map fun row => row.id).Nodup) :
    Agrees senderOf (fun id => ∃ row' ∈ rest, row'.id = id) (p.forgetRow row.id) :=
  (h.forgetRow (h.apart row.id ⟨row, List.mem_cons_self, rfl⟩)).congr (ids_tail hrows)

/-- The rows a loop has still to look at are the ones of which no list knows. -/
theorem agrees_readdsStored {fromBytes : StoredTransaction → Option Transaction}
    (hbytes : ∀ row t, fromBytes row = some t → t.data.id = some row.id ∧ Genuine senderOf t)
    {rows : List StoredTransaction} {p q : TransactionPool}
    (hrows : (rows.map fun row => row.id).Nodup)
    (h : Agrees senderOf (fun id => ∃ row ∈ rows, row.id = id) p)
    (hreadds : ReaddsStored c lastHeight fromBytes rows p q) : InAgreement senderOf q := by
  induction hreadds with
  | nil =>
    refine h.congr fun id => ⟨fun hid => ?_, False.elim⟩
    obtain ⟨row, hrow, _⟩ := hid
    exact nomatch hrow
  | old _ _ ih => exact ih (List.nodup_cons.1 hrows).2 (h.forgetFirst hrows)
  | unreadable _ _ _ ih => exact ih (List.nodup_cons.1 hrows).2 (h.forgetFirst hrows)
  | @refused row rest t p p₁ q e _ hfrom hadds _ ih =>
    obtain ⟨htid, hgenuine⟩ := hbytes row t hfrom
    have hafter := agrees_addsToMempool h hgenuine htid ⟨row, List.mem_cons_self, rfl⟩ hadds
    have hextra := hafter.congr fun id => ⟨And.left, fun hid => ⟨hid, fun h => nomatch h.1⟩⟩
    exact ih (List.nodup_cons.1 hrows).2 (hextra.forgetFirst hrows)
  | @added row rest t p p₁ q _ hfrom hadds _ ih =>
    obtain ⟨htid, hgenuine⟩ := hbytes row t hfrom
    have hafter := agrees_addsToMempool h hgenuine htid ⟨row, List.mem_cons_self, rfl⟩ hadds
    refine ih (List.nodup_cons.1 hrows).2 (hafter.congr fun id => ?_)
    refine Iff.trans ?_ (ids_tail hrows id)
    exact and_congr_right fun _ => not_congr (and_iff_right rfl)

/-- **`readdTransactions`** makes rows and lists agree, whatever the storage holds. -/
theorem agrees_readds {fromBytes : StoredTransaction → Option Transaction}
    (hbytes : ∀ row t, fromBytes row = some t → t.data.id = some row.id ∧ Genuine senderOf t)
    {p q : TransactionPool} (hrows : (p.storage.map fun row => row.id).Nodup)
    (hreadds : Readds c lastHeight fromBytes p q) : InAgreement senderOf q := by
  obtain ⟨hsound, hnone⟩ := sound_flush senderOf p
  refine agrees_readdsStored hbytes hrows
    ⟨hsound, fun id => ?_, fun id _ => hnone id, hrows⟩ hreadds
  refine hasTransaction_iff.trans ⟨Or.inr, fun h => h.resolve_left (hnone id)⟩

/-- **A method** keeps rows and lists in agreement. -/
theorem agrees_operates {fromBytes : StoredTransaction → Option Transaction}
    (hbytes : ∀ row t, fromBytes row = some t → t.data.id = some row.id ∧ Genuine senderOf t)
    {p q : TransactionPool} (h : InAgreement senderOf p)
    (hoperates : Operates c fromBytes (Genuine senderOf) p q) : InAgreement senderOf q := by
  cases hoperates with
  | addRefused => exact h
  | removeUnknown => exact h
  | @addUnmatched p₁ height t e hgiven hbegin =>
    obtain ⟨tid, htid, hbegun⟩ := agrees_begin h hbegin
    exact agrees_settle htid (hbegun.congr fun id =>
      ⟨fun hid => ⟨hid, fun h => nomatch h.1⟩, And.left⟩)
  | addTransaction hgiven hbegin hadds =>
    obtain ⟨tid, htid, hbegun⟩ := agrees_begin h hbegin
    exact agrees_settle htid (agrees_addsToMempool hbegun hgiven htid rfl hadds)
  | removeTransaction hgiven hid hsender _ hremoves =>
    have hof := Option.some.inj ((hgiven _ hid).symm.trans hsender)
    obtain ⟨hsplits, hnot⟩ := mempoolRemoves_splits h.sound hremoves
    exact agrees_removed h hsplits (hnot hof)
  | @removeForgedTransaction t id a hgiven hid hsender _ =>
    have hof := Option.some.inj ((hgiven _ hid).symm.trans hsender)
    obtain ⟨hsplits, hnot⟩ := mempoolRemoveForged_splits (a := a) id h.sound
    exact agrees_removed h hsplits (hnot hof)
  | cleanUp hroom => exact keeps_makesRoom _ _ _ h hroom
  | flush =>
    obtain ⟨hsound, hnone⟩ := sound_flush senderOf p
    refine ⟨hsound.withStorage _, fun id => ?_, fun id hid => hid.elim, List.nodup_nil⟩
    refine ⟨fun hrow => ?_, fun hheld => ?_⟩
    · exact nomatch hrow
    · rcases hheld with hheld | hheld
      · exact absurd hheld (hnone id)
      · exact hheld.elim
  | readdTransactions hreadds => exact agrees_readds hbytes h.unique hreadds

/-- What the pool lists is what it holds. -/
theorem holds_iff_getAll {p : TransactionPool} {id : String} :
    p.Holds id ↔ ∃ t ∈ p.getAll, t.data.id = some id := by
  unfold getAll Mempool.getFromLatest
  refine ⟨fun hholds => ?_, fun hlisted => ?_⟩
  · obtain ⟨a, k, hk, t, ht, hid⟩ := hholds
    exact ⟨t, List.mem_flatMap.2 ⟨k, OrderedMap.mem_values_of_get? hk, List.mem_reverse.2 ht⟩, hid⟩
  · obtain ⟨t, ht, hid⟩ := hlisted
    obtain ⟨k, hk, ht⟩ := List.mem_flatMap.1 ht
    obtain ⟨e, he, rfl⟩ := List.mem_map.1 hk
    exact ⟨e.1, e.2, OrderedMap.mem_entries.1 he, t, List.mem_reverse.1 ht, hid⟩

/-- **Rows and lists agree** after every method of every run that begins as a node begins, with a
    storage of any rows that is read again. -/
theorem rows_agree (senderOf : String → PublicKey) (c : ServiceConfiguration)
    (fromBytes : StoredTransaction → Option Transaction)
    (hbytes : ∀ row t, fromBytes row = some t → t.data.id = some row.id ∧ Genuine senderOf t)
    {stored started p : TransactionPool} {lastHeight : Nat}
    (hrows : (stored.storage.map fun row => row.id).Nodup)
    (hstarted : Readds c lastHeight fromBytes stored started)
    (hrun : Relation.ReflTransGen (Operates c fromBytes (Genuine senderOf)) started p) :
    (∀ id, p.hasTransaction id = true ↔ ∃ t ∈ p.getAll, t.data.id = some id) ∧
      (p.storage.map fun row => row.id).Nodup := by
  have hagrees : InAgreement senderOf p := by
    induction hrun with
    | refl => exact agrees_readds hbytes hrows hstarted
    | tail _ hoperates ih => exact agrees_operates hbytes ih hoperates
  refine ⟨fun id => ?_, hagrees.unique⟩
  rw [← holds_iff_getAll, hagrees.rows id, or_false]

namespace Sample

open PoolService.Sample (onePlace)

/-- Bytes of one transaction can be read. -/
def fromBytes (row : StoredTransaction) : Option Transaction :=
  if row.id = "id" then some (CoreEx.Sample.queued 1 1) else none

/-- A row that cannot be read. -/
def stale : TransactionPool := ⟨fun _ => .created 0, 0, .empty, [⟨0, "stale", .small⟩]⟩

/-- Nothing is left of it. -/
def restarted : TransactionPool := stale.flushMempool.forgetRow "stale"

/-- A transaction that comes in afterwards. -/
def accepting : TransactionPool :=
  { restarted with storage := [⟨0, "id", .small⟩] }

def accepted : TransactionPool :=
  ((accepting.create .small 0).setList 0 ⟨[CoreEx.Sample.queued 1 1], false, 1, [], none⟩).dispose
    .small 0

theorem queued_genuine : Genuine (fun _ => .small) (CoreEx.Sample.queued 1 1) := fun _ _ => rfl

theorem fromBytes_genuine (row : StoredTransaction) (t : Transaction) (h : fromBytes row = some t) :
    t.data.id = some row.id ∧ Genuine (fun _ => .small) t := by
  unfold fromBytes at h
  split at h
  · rename_i hid
    cases h
    exact ⟨hid ▸ rfl, queued_genuine⟩
  · cases h

theorem stale_readds : Readds onePlace 0 fromBytes stale restarted :=
  .unreadable (by decide) rfl (.nil _)

theorem queued_adds : (SenderMempool.created 0).Adds onePlace.toPoolConfiguration
    (CoreEx.Sample.queued 1 1) (.ok ()) ⟨[CoreEx.Sample.queued 1 1], false, 1, [], none⟩ :=
  ⟨_, PoolService.goesOn_push rfl PoolService.Sample.queued_checked rfl, rfl, rfl⟩

theorem queued_operates : Operates onePlace fromBytes (Genuine fun _ => .small)
    restarted accepted := by
  have hbegin : restarted.begin 0 (CoreEx.Sample.queued 1 1) = .ok accepting := rfl
  have hmempool : MempoolAdds onePlace.toPoolConfiguration (CoreEx.Sample.queued 1 1) accepting
      (.ok ()) accepted := .creates rfl rfl queued_adds
  exact .addTransaction queued_genuine hbegin
    (.entered nofun (.goesOn (.room (by decide)) (.goesOn (.room (by decide)) hmempool)))

end Sample

theorem rows_agree_accepted : Sample.accepted.hasTransaction "id" = true ∧
    (∀ id, Sample.accepted.hasTransaction id = true ↔
      ∃ t ∈ Sample.accepted.getAll, t.data.id = some id) ∧
    (Sample.accepted.storage.map fun row => row.id).Nodup :=
  ⟨by decide, rows_agree (fun _ => .small) PoolService.Sample.onePlace Sample.fromBytes
    Sample.fromBytes_genuine (by decide) Sample.stale_readds (.single Sample.queued_operates)⟩

end TransactionPool

end CoreEx
