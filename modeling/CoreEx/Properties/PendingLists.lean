/-
  File:      CoreEx/Properties/PendingLists.lean
  Subject:   The list of a sender over all its calls.

  * **`pendingList_of_run`** -- nonces, wallet and what goes in and out, in every run;
  * `pendingList_of_run_sample` -- a transaction that comes in, and out by a revert that fails.
-/
import CoreEx.Pool.SenderMempool
import CoreEx.Properties.PriorityOrder

namespace CoreEx

open Base SenderMempool PoolEvent

/-- **Whenever nobody holds the lock, the list has consecutive nonces, its last is the one of the
    wallet, and it has what was accepted and not returned. At any time nothing is lost or there
    twice. Nothing is accepted after a failed revert.** -/
theorem pendingList_of_run (c : PoolConfiguration) (nonce : Int) (es : List PoolEvent)
    (s : SenderMempool) (hr : SenderMempool.Run c (created nonce) es s) :
    (s.holder = none →
      s.transactions.IsChain NextNonce ∧
      (∀ t ∈ s.transactions.getLast?, nonceOf t = s.nonce) ∧
      (s.transactions ++ returnedIn es).Perm (acceptedIn es)) ∧
    (s.transactions ++ s.taken ++ returnedIn es).Perm (acceptedIn es) ∧
    ∀ before after, es = before ++ .revertFailed :: after → acceptedIn after = [] := by
  have hkept : s.Kept := kept_of_run (kept_created nonce) hr
  have hall := conserved_of_run hr
  refine ⟨fun hfree => ⟨hkept.consecutive, fun t ht => ?_, ?_⟩, hall, nothing_accepted hr⟩
  · cases hc : s.corrupt with
    | false =>
      have hqueue := hkept.queue hc
      rw [held_none hfree, List.append_nil] at hqueue
      exact hqueue.last t ht
    | true =>
      rw [(ended_none hfree).1 (hkept.ended hc)] at ht
      cases ht
  · rwa [taken_none hfree, List.append_nil] at hall

namespace Sample

/-- Ten transactions of each sender. -/
def poolConfiguration : PoolConfiguration := ⟨10, [], 1000, 30⟩

/-- A transaction comes in, is removed again, and cannot be reverted. -/
theorem failing_run : SenderMempool.Run poolConfiguration (created 0)
    [.accepted (queued 1 1), .revertFailed, .returned [queued 1 1]] ⟨[], true, 0, [], none⟩ := by
  have hstart : SenderMempool.Run poolConfiguration (created 0) [] (created 0) := .start
  have hadded := ((((((hstart.step
    (.call _ (.addTransaction (queued 1 1)))).step
    (.acquire _ (.addTransaction (queued 1 1)) rfl List.mem_cons_self)).step
    (.add _ (queued 1 1) rfl)).step
    (.check _ (queued 1 1) 0 (.ok true) rfl)).step
    (.apply _ (queued 1 1) rfl rfl)).step
    (.push _ (queued 1 1) rfl)).step
    (.added _ (.ok ()) rfl)
  exact ((((((hadded.step
    (.call _ (.removeTransaction "id"))).step
    (.acquire _ (.removeTransaction "id") rfl List.mem_cons_self)).step
    (.remove _ "id" rfl)).step
    (.revertFailed _ [queued 1 1] (queued 1 1) [] rfl 0)).step
    (.drop _ [queued 1 1] rfl)).step
    (.removed _ [queued 1 1] rfl))

end Sample

theorem pendingList_of_run_sample :
    (([] : List Transaction) ++ returnedIn [.accepted (Sample.queued 1 1), .revertFailed,
      .returned [Sample.queued 1 1]]).Perm [Sample.queued 1 1] :=
  ((pendingList_of_run Sample.poolConfiguration 0 _ _ Sample.failing_run).1 rfl).2.2

end CoreEx
