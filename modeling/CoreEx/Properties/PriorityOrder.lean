/-
  File:      CoreEx/Properties/PriorityOrder.lean
  Subject:   Whether the lists by priority keep the order of a sender's nonces, and what the
             collator makes of it.

  The lists are sorted by fee alone, so a transaction overtakes the earlier ones of its own sender
  when it pays more. The collator then meets a nonce that is ahead of the chain's.

  * `Pending` -- every list follows the nonce its sender has on the chain;
  * `Collating` -- what every pass of the collator preserves;
  * `collated_nonces` -- no transaction meets a wrong nonce when the fees of no sender rise;
  * **`priority_respects_nonces_iff`** -- and otherwise the lists are out of order;
  * **`priority_overtakes_sample`** -- a sender with two transactions, the second paying more.
-/
import CoreEx.Pool.Collator
import CoreEx.Properties.BlockVerification
import CoreEx.State.TransactionValidator

namespace CoreEx

open WalletRepository Base

/-! ## 1. Lists that follow the chain -/

/-- The nonces go on from `n`, one by one. -/
def Follows (n : Int) : List Transaction → Prop
  | [] => True
  | t :: ts => nonceOf t = n + 1 ∧ Follows (nonceOf t) ts

/-- Every sender has queued, from its nonce on the chain on, transactions of valid data; two
    senders have two addresses. -/
structure Pending (env : Services) (L : Ledger) (m : Mempool) : Prop where
  valid : ∀ e ∈ m.senderMempools.entries, ∀ t ∈ e.2, t.data.SchemaValid
  apart : ∀ k ∈ m.senderMempools.keys, ∀ k' ∈ m.senderMempools.keys,
    env.addressFromPublicKey k = env.addressFromPublicKey k' → k = k'
  follows : ∀ e ∈ m.senderMempools.entries, Follows (L (env.addressFromPublicKey e.1)).nonce e.2

/-- `#verifyTransactionNonceApply` has no objection to the transaction. -/
def NoncePasses (env : Services) (r : WalletRepository) (t : Transaction) : Prop :=
  ∀ k, t.data.senderPublicKey = some k →
    ((verifyTransactionNonceApply (env.addressFromPublicKey k) t).run r).isDone = true

/-! ## 2. What a pass of the collator preserves -/

section Collating

variable {env : CodecServices} {base : Services} {m : Mempool}

/-- A transaction of the sender has failed. -/
def Collation.keyFailed {σ : Type} (c : Collation σ) (k : PublicKey) : Bool :=
  c.failedTransactions.any fun f => f.1.data.senderPublicKey = some k

theorem Collation.keyFailed_fail {σ : Type} {c : Collation σ} {t : Transaction} {e : CollateError}
    {k k' : PublicKey} (hk : t.data.senderPublicKey = some k)
    (h : (c.fail t e).keyFailed k' = false) : c.keyFailed k' = false ∧ k ≠ k' := by
  unfold keyFailed fail at h
  rw [List.any_append, Bool.or_eq_false_iff] at h
  refine ⟨h.1, fun heq => ?_⟩
  rw [← heq] at h
  have hlast := h.2
  simp [hk] at hlast

/-- The validator's repository stands for books in which every sender without a failure has the
    nonce its remaining transactions follow. -/
structure Collating (env : Services) (m : Mempool) (c : Collation WalletRepository)
    (ts : List Transaction) (b : Books) : Prop where
  stands : Stands env b c.state
  consistent : b.1.Consistent env
  known : ∀ t ∈ ts, t.data.SchemaValid ∧
    ∃ k ∈ m.senderMempools.keys, t.data.senderPublicKey = some k
  follows : ∀ k ∈ m.senderMempools.keys, c.keyFailed k = false →
    Follows (b.1 (env.addressFromPublicKey k)).nonce (ts.filter (Mempool.ofSender k))

theorem ofSender_self {t : Transaction} {k : PublicKey} (hk : t.data.senderPublicKey = some k) :
    Mempool.ofSender k t = true := decide_eq_true hk

theorem ofSender_ne {t : Transaction} {k k' : PublicKey} (hk : t.data.senderPublicKey = some k)
    (h : k ≠ k') : Mempool.ofSender k' t = false := by
  refine decide_eq_false fun h' => h ?_
  exact Option.some.inj (hk.symm.trans h')

/-- **A pass of the collator keeps the nonces in step.** -/
theorem Collating.step {configuration : Configuration} {lastHeight : Nat}
    {c c' : Collation WalletRepository} {t : Transaction} {ts : List Transaction} {b : Books}
    (hapart : ∀ k ∈ m.senderMempools.keys, ∀ k' ∈ m.senderMempools.keys,
      (env.services base).addressFromPublicKey k = (env.services base).addressFromPublicKey k' →
        k = k')
    (h : Collating (env.services base) m c (t :: ts) b)
    (hs : (Collator.mk configuration lastHeight (TransactionValidator.validate env base)).step c t =
      some c') : ∃ b', Collating (env.services base) m c' ts b' := by
  obtain ⟨hd, k, hkeys, hk⟩ := h.known t List.mem_cons_self
  have hknown : ∀ u ∈ ts, u.data.SchemaValid ∧
      ∃ k ∈ m.senderMempools.keys, u.data.senderPublicKey = some k :=
    fun u hu => h.known u (List.mem_cons_of_mem t hu)
  have hsame : c.senderFailed t = c.keyFailed k := by
    unfold Collation.senderFailed Collation.keyFailed
    rw [hk]
  -- the remaining transactions of the others are the same
  have hothers : ∀ k' ∈ m.senderMempools.keys, c.keyFailed k' = false → k ≠ k' →
      Follows (b.1 ((env.services base).addressFromPublicKey k')).nonce
        (ts.filter (Mempool.ofSender k')) := by
    intro k' hk' hfree hne
    have hall := h.follows k' hk' hfree
    rwa [List.filter_cons_of_neg (by rw [ofSender_ne hk hne]; exact Bool.false_ne_true)] at hall
  have hvalidate := TransactionValidator.validate_atomic (N := b.2) hd h.consistent hk
  rcases Collator.step_cases hs with ⟨hfailed, rfl⟩ | ⟨-, e, rfl⟩ | ⟨-, e, s, hrun, rfl⟩ |
    ⟨hfree, s, hrun, -, -, rfl⟩
  · refine ⟨b, h.stands, h.consistent, hknown, fun k' hk' hfree => ?_⟩
    refine hothers k' hk' hfree fun heq => ?_
    rw [hsame, heq, hfree] at hfailed
    cases hfailed
  · refine ⟨b, h.stands, h.consistent, hknown, fun k' hk' hfree => ?_⟩
    obtain ⟨hbefore, hne⟩ := Collation.keyFailed_fail hk hfree
    exact hothers k' hk' hbefore hne
  · refine ⟨b, hvalidate.of_thrown h.stands hrun, h.consistent, hknown, fun k' hk' hfree => ?_⟩
    obtain ⟨hbefore, hne⟩ := Collation.keyFailed_fail hk hfree
    exact hothers k' hk' hbefore hne
  · obtain ⟨hstands, hadmitted⟩ := hvalidate.of_done h.stands hrun
    refine ⟨_, hstands, handled_consistent hd h.consistent hadmitted, hknown,
      fun k' hk' hfree' => ?_⟩
    have hfree'' : c.keyFailed k' = false := hfree'
    rw [handled_nonce]
    by_cases hne : k = k'
    · subst hne
      have hown := h.follows k hkeys hfree''
      rw [List.filter_cons_of_pos (ofSender_self hk)] at hown
      rw [if_pos rfl]
      exact hown.2
    · rw [if_neg fun heq => hne (hapart k' hk' k hkeys heq).symm]
      exact hothers k' hk' hfree'' hne

/-- The transaction whose turn it is has the next nonce, unless its sender is passed over. -/
theorem Collating.noncePasses {c : Collation WalletRepository} {t : Transaction}
    {ts : List Transaction} {b : Books} (h : Collating (env.services base) m c (t :: ts) b)
    (hfree : c.senderFailed t = false) : NoncePasses (env.services base) c.state t := by
  intro k hk
  obtain ⟨-, k', hkeys, hk'⟩ := h.known t List.mem_cons_self
  obtain rfl : k' = k := Option.some.inj (hk'.symm.trans hk)
  have hown := h.follows k' hkeys (by
    unfold Collation.senderFailed at hfree
    rwa [hk] at hfree)
  rw [List.filter_cons_of_pos (ofSender_self hk)] at hown
  obtain ⟨u, r, hrun, -, -⟩ := (verifyTransactionNonceApply_always (N := b.2)
    hown.1.symm).run h.stands
  rw [hrun]
  rfl

end Collating

/-! ## 3. Nonces that never fail -/

/-- The collator, on any chain the pool's lists follow: whatever transaction it looks at, unless
    an earlier one of the sender has failed, passes the check of its nonce. -/
def NoNonceFails (m : Mempool) : Prop :=
  ∀ (env : CodecServices) (base : Services) (configuration : Configuration) (lastHeight : Nat)
    (b : Books) (r : WalletRepository), b.1.Consistent (env.services base) →
    Stands (env.services base) b r → Pending (env.services base) b.1 m →
    ∀ p ∈ (Collator.mk configuration lastHeight (TransactionValidator.validate env base)).turns
      (Query.getFromHighestPriority m)
      ((Collator.mk configuration lastHeight (TransactionValidator.validate env base)).start r),
      p.1.senderFailed p.2 = false → NoncePasses (env.services base) p.1.state p.2

/-- **Where the fees of no sender rise, the collator meets no wrong nonce.** -/
theorem collated_nonces {m : Mempool} (h : m.FeesFall) : NoNonceFails m := by
  intro env base configuration lastHeight b r hconsistent hstands hpending p hp hfree
  have hstart : ∃ b', Collating (env.services base) m
      ((Collator.mk configuration lastHeight (TransactionValidator.validate env base)).start r)
      (Query.getFromHighestPriority m) b' := by
    refine ⟨b, hstands, hconsistent, fun t ht => ?_, fun k hk _ => ?_⟩
    · obtain ⟨e, he, hte⟩ := Query.mem_highest ht
      exact ⟨hpending.valid e he t hte, e.1, List.mem_map_of_mem he, m.owned e he t hte⟩
    · obtain ⟨e, he, rfl⟩ := List.mem_map.1 hk
      rw [Query.highest_ofSender h he]
      exact hpending.follows e he
  obtain ⟨rest, b', hturn⟩ := Collator.turns_induction
    (I := fun c ts => ∃ b', Collating (env.services base) m c ts b')
    (fun c t ts c' hI hs => hI.elim fun b' h' => h'.step hpending.apart hs) hstart hp
  exact hturn.noncePasses hfree

/-- **The lists by priority keep every sender's nonces in order, and the collator meets no wrong
    nonce, exactly when no transaction pays more than one its sender has queued before it.** -/
theorem priority_respects_nonces_iff (m : Mempool) :
    (NoncesInOrder (· < ·) (Query.getFromHighestPriority m) ∧
      NoncesInOrder (· > ·) (Query.getFromLowestPriority m) ∧ NoNonceFails m) ↔ m.FeesFall := by
  constructor
  · intro h
    exact (Query.highest_ascending_iff m).1 h.1
  · intro h
    exact ⟨(Query.highest_ascending_iff m).2 h, (Query.lowest_descending_iff m).2 h,
      collated_nonces h⟩

/-! ## 4. A sender who raises the fee -/

theorem mergeSort_pair {α : Type} {le : α → α → Bool} {a b : α} (h : le a b = false) :
    [a, b].mergeSort le = [b, a] := by
  simp [List.mergeSort, List.MergeSort.Internal.splitInTwo, h]

namespace Sample

/-- A transfer of 1. -/
def queued (nonce fee : Int) : Transaction where
  data :=
    { version := some 1, network := some 30, typeGroup := some 1, type := TransactionType.transfer,
      nonce := some nonce, senderPublicKey := some .small, fee := fee, amount := 1,
      expiration := none, recipientId := some .small, vendorField := none, asset := none,
      id := some "id", signature := some "signature", signatures := none }
  serialized := "00"

theorem queued_valid (nonce : Int) {fee : Int} (h : 0 ≤ fee) : (queued nonce fee).data.SchemaValid :=
  ⟨rfl, rfl, rfl, rfl, h, by show (0 : Int) ≤ 1; decide, fun h => absurd rfl h, fun _ => rfl,
    fun _ h => (nomatch h), fun _ h => (nomatch h), fun _ h => (nomatch h)⟩

/-- The pool with two transactions of a sender, the second of which pays more. -/
def overtaking : Mempool where
  senderMempools := ⟨[(.small, [queued 1 1, queued 2 2])], List.nodup_singleton _⟩
  owned := fun e he t ht => by
    obtain rfl := List.mem_singleton.1 he
    rcases List.mem_pair.1 ht with rfl | rfl
    · rfl
    · rfl
  consecutive := fun e he => by
    obtain rfl := List.mem_singleton.1 he
    exact List.isChain_pair.2 rfl

theorem pending_overtaking (env : Services) :
    Pending env (ConsistentRepository.empty env).accounts overtaking where
  valid := fun e he t ht => by
    obtain rfl := List.mem_singleton.1 he
    rcases List.mem_pair.1 ht with rfl | rfl
    · exact queued_valid 1 (by decide)
    · exact queued_valid 2 (by decide)
  apart := fun k hk k' hk' _ => (List.mem_singleton.1 hk).trans (List.mem_singleton.1 hk').symm
  follows := fun e he => by
    obtain rfl := List.mem_singleton.1 he
    exact ⟨rfl, rfl, trivial⟩

end Sample

theorem highest_overtaking : Query.getFromHighestPriority Sample.overtaking =
    [Sample.queued 2 2, Sample.queued 1 1] := mergeSort_pair rfl

/-- **The second transaction comes before the first, from the highest priority on as well as back
    from the lowest, and the collator meets it before the nonce is due.** -/
theorem priority_overtakes_sample :
    ¬NoncesInOrder (· < ·) (Query.getFromHighestPriority Sample.overtaking) ∧
    ¬NoncesInOrder (· > ·) (Query.getFromLowestPriority Sample.overtaking) ∧
    ¬NoNonceFails Sample.overtaking := by
  have hrise : ¬Sample.overtaking.FeesFall := by
    intro hfall
    have hpair := List.pairwise_cons.1 (hfall _ List.mem_cons_self)
    exact absurd (hpair.1 _ List.mem_cons_self) (by decide)
  refine ⟨mt (Query.highest_ascending_iff Sample.overtaking).1 hrise,
    mt (Query.lowest_descending_iff Sample.overtaking).1 hrise, fun h => ?_⟩
  have hpasses := h .small .simple Sample.configuration 1 _ _
    (ConsistentRepository.empty _).good.consistent (ConsistentRepository.empty _).stands
    (Sample.pending_overtaking _)
  rw [highest_overtaking] at hpasses
  exact absurd (hpasses _ List.mem_cons_self rfl .small rfl) (by decide)

end CoreEx
