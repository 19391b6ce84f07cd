/-
  File:      CoreEx/State/CachedTransactions.lean
  Subject:   `core-state/source/stores/state.ts`: the ids of the last transactions.

  `cacheTransactions` makes three passes. The first sorts the transactions out by what the cache
  holds, the second puts the ids of the new ones into it, the third drops the oldest ids.

  * `CachedTransactions`, `cacheTransactions` -- the code;
  * **`cacheTransactions_done`**, `cacheTransactions_thrown` -- all a call does.
-/
import CoreEx.Crypto.Data
import CoreEx.Lib.OrderedMap
import CoreEx.Lib.Recent
import CoreEx.State.WalletRepository

namespace CoreEx

/-! ## 1. The code -/

/-- What `cacheTransactions` reads and writes. -/
structure CachedTransactions where
  /-- An ordered set is a map without values. -/
  cachedTransactionIds : OrderedMap String Unit
  /-- `storage.maxLastTransactionIds`. -/
  maxLastTransactionIds : Nat

/-- Code that works on the cache and may throw. -/
abbrev CacheProg : Type → Type := Prog CachedTransactions Exception

namespace CachedTransactions

/-- `#cachedTransactionIds.has(id)`. -/
def has (s : CachedTransactions) (id : String) : Bool := s.cachedTransactionIds.has id

/-- `getCachedTransactionIds()`. -/
def getCachedTransactionIds (s : CachedTransactions) : List String := s.cachedTransactionIds.keys

/-- The first pass: the transactions that are new, and the others. -/
def sortOut : List TransactionData → CacheProg (List TransactionData × List TransactionData)
  | [] => pure ([], [])
  | tx :: transactions => do
    let id ← assertDefined tx.id
    let known ← Prog.gets (·.has id)
    let rest ← sortOut transactions
    pure (if known then (rest.1, tx :: rest.2) else (tx :: rest.1, rest.2))

/-- `cache.add(id)`; an id that is there stays where it is. -/
def add (cache : OrderedMap String Unit) (id : String) : OrderedMap String Unit := cache.set id ()

/-- The second pass, over the copy that `withMutations` makes. -/
def addAll (cache : OrderedMap String Unit) :
    List TransactionData → Except Exception (OrderedMap String Unit)
  | [] => .ok cache
  | tx :: added =>
    match tx.id with
    | some id => addAll (add cache id) added
    | none => .error .notDefined

/-- The third pass. -/
def dropOldest (s : CachedTransactions) : CachedTransactions :=
  if s.cachedTransactionIds.size > s.maxLastTransactionIds then
    { s with cachedTransactionIds := s.cachedTransactionIds.takeLast s.maxLastTransactionIds }
  else s

/-- `cacheTransactions(transactions)`: what was added, and what was not. -/
def cacheTransactions (transactions : List TransactionData) :
    CacheProg (List TransactionData × List TransactionData) := do
  let sorted ← sortOut transactions
  let cache ← Prog.gets (·.cachedTransactionIds)
  let cache ← Prog.ofExcept (addAll cache sorted.1)
  Prog.modify fun s => { s with cachedTransactionIds := cache }
  Prog.modify dropOldest
  pure sorted

/-! ## 2. All a call does -/

/-- Every transaction has an id. -/
def Identified (transactions : List TransactionData) : Prop :=
  ∀ tx ∈ transactions, tx.id.isSome = true

/-- The ids of transactions, in their order. -/
def ids (transactions : List TransactionData) : List String := transactions.filterMap (·.id)

/-- Whether the cache holds the id of a transaction. -/
def knows (s : CachedTransactions) (tx : TransactionData) : Bool := tx.id.any s.has

variable {s : CachedTransactions} {transactions : List TransactionData}

theorem sortOut_done (h : Identified transactions) :
    (sortOut transactions).run s =
      .done (transactions.filter (! s.knows ·), transactions.filter s.knows) s := by
  induction transactions with
  | nil => rfl
  | cons tx transactions ih =>
    obtain ⟨id, hid⟩ := Option.isSome_iff_exists.1 (h tx List.mem_cons_self)
    have hrest := ih fun t ht => h t (List.mem_cons_of_mem _ ht)
    have hknown : s.knows tx = s.has id := by
      unfold knows
      rw [hid]
      rfl
    have hdefined : (assertDefined tx.id : CacheProg String).run s = .done id s := by
      rw [hid]
      rfl
    have hget : (Prog.gets (·.has id) : CacheProg Bool).run s = .done (s.has id) s := rfl
    unfold sortOut
    rw [Prog.run_bind_of_done hdefined, Prog.run_bind_of_done hget, Prog.run_bind_of_done hrest,
      Prog.run_pure, List.filter_cons, List.filter_cons, hknown]
    cases s.has id <;> rfl

theorem sortOut_thrown (h : ¬ Identified transactions) :
    (sortOut transactions).run s = .thrown .notDefined s := by
  induction transactions with
  | nil => exact absurd (fun _ ht => (nomatch ht)) h
  | cons tx transactions ih =>
    cases hid : tx.id with
    | none =>
      have hundefined : (assertDefined tx.id : CacheProg String).run s = .thrown .notDefined s := by
        rw [hid]
        rfl
      unfold sortOut
      rw [Prog.run_bind_of_thrown hundefined]
    | some id =>
      have hrest : ¬ Identified transactions := by
        intro hall
        refine h fun t ht => ?_
        rcases List.mem_cons.1 ht with rfl | ht
        · rw [hid]
          rfl
        · exact hall t ht
      have hdefined : (assertDefined tx.id : CacheProg String).run s = .done id s := by
        rw [hid]
        rfl
      have hget : (Prog.gets (·.has id) : CacheProg Bool).run s = .done (s.has id) s := rfl
      unfold sortOut
      rw [Prog.run_bind_of_done hdefined, Prog.run_bind_of_done hget,
        Prog.run_bind_of_thrown (ih hrest)]

/-- Ids that are new come last, in their order. -/
theorem keys_foldl_add {ids : List String} {cache : OrderedMap String Unit} (hnodup : ids.Nodup)
    (hout : ∀ id ∈ ids, id ∉ cache.keys) : (ids.foldl add cache).keys = cache.keys ++ ids := by
  induction ids generalizing cache with
  | nil => exact (List.append_nil _).symm
  | cons id ids ih =>
    obtain ⟨hid, hnodup⟩ := List.nodup_cons.1 hnodup
    have hkeys : (add cache id).keys = cache.keys ++ [id] := by
      unfold add
      rw [OrderedMap.keys_set, if_neg (hout id List.mem_cons_self)]
    rw [List.foldl_cons, ih hnodup, hkeys, List.append_assoc]
    · rfl
    · intro id' hid' hin
      rw [hkeys, List.mem_append, List.mem_singleton] at hin
      rcases hin with hin | rfl
      · exact hout id' (List.mem_cons_of_mem _ hid') hin
      · exact hid hid'

theorem addAll_ok {added : List TransactionData} (h : Identified added)
    (cache : OrderedMap String Unit) : addAll cache added = .ok ((ids added).foldl add cache) := by
  induction added generalizing cache with
  | nil => rfl
  | cons tx added ih =>
    obtain ⟨id, hid⟩ := Option.isSome_iff_exists.1 (h tx List.mem_cons_self)
    have hids : ids (tx :: added) = id :: ids added := List.filterMap_cons_some hid
    unfold addAll
    rw [hid, hids, List.foldl_cons]
    exact ih (fun t ht => h t (List.mem_cons_of_mem _ ht)) _

/-- The transactions the cache does not hold. -/
def unknown (s : CachedTransactions) (transactions : List TransactionData) :
    List TransactionData := transactions.filter (! s.knows ·)

/-- The state after a call that returns. -/
def after (s : CachedTransactions) (transactions : List TransactionData) : CachedTransactions :=
  dropOldest
    { s with cachedTransactionIds :=
        (ids (s.unknown transactions)).foldl add s.cachedTransactionIds }

/-- **A call sorts the transactions out** by what the cache held when it began. -/
theorem cacheTransactions_done (h : Identified transactions) :
    (cacheTransactions transactions).run s =
      .done (s.unknown transactions, transactions.filter s.knows) (s.after transactions) := by
  have hadded : addAll s.cachedTransactionIds (transactions.filter (! s.knows ·)) = _ :=
    addAll_ok (fun t ht => h t (List.mem_of_mem_filter ht)) s.cachedTransactionIds
  have hget : (Prog.gets (·.cachedTransactionIds) : CacheProg _).run s =
      .done s.cachedTransactionIds s := rfl
  unfold cacheTransactions
  rw [Prog.run_bind_of_done (sortOut_done h), Prog.run_bind_of_done hget, hadded]
  rfl

/-- A call with a transaction that has no id changes nothing. -/
theorem cacheTransactions_thrown (h : ¬ Identified transactions) :
    (cacheTransactions transactions).run s = .thrown .notDefined s := by
  unfold cacheTransactions
  rw [Prog.run_bind_of_thrown (sortOut_thrown h)]

/-- The ids of the new transactions. -/
theorem ids_unknown (transactions : List TransactionData) :
    ids (s.unknown transactions) = (ids transactions).filter (! s.has ·) := by
  induction transactions with
  | nil => rfl
  | cons tx transactions ih =>
    unfold unknown ids at ih ⊢
    cases hid : tx.id with
    | none =>
      have hknown : s.knows tx = false := by
        unfold knows
        rw [hid]
        rfl
      rw [List.filter_cons_of_pos (by rw [hknown]; rfl), List.filterMap_cons_none hid,
        List.filterMap_cons_none hid, ih]
    | some id =>
      have hknown : s.knows tx = s.has id := by
        unfold knows
        rw [hid]
        rfl
      rw [List.filterMap_cons_some hid, List.filter_cons, List.filter_cons, hknown, ← ih]
      cases s.has id with
      | false => exact List.filterMap_cons_some hid
      | true => rfl

end CachedTransactions

end CoreEx
