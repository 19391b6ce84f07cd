/-
  File:      CoreEx/Properties/RecentTransactions.lean
  Subject:   Which transactions are reported as added to the cache of ids.

  A call looks every transaction up in the cache as it was when the call began. A second transaction
  with an id that is new is therefore reported as added too.

  * `Interleaved`, `Claimed`, `AllClaimed` -- what is promised of a call, and of a sequence of calls;
  * `NoRepeats`, `AllDistinct` -- no list repeats an id that is new;
  * **`CachedTransactions.allClaimed_iff`** -- the promise is kept by exactly these sequences;
  * **`CachedTransactions.allClaimed_not`** -- a list with the same transaction twice.
-/
import CoreEx.State.CachedTransactions

namespace CoreEx

/-- The first two lists make up the third, each in its order. -/
inductive Interleaved {α : Type} : List α → List α → List α → Prop where
  | nil : Interleaved [] [] []
  | left (a : α) {as bs cs : List α} (rest : Interleaved as bs cs) :
      Interleaved (a :: as) bs (a :: cs)
  | right (b : α) {as bs cs : List α} (rest : Interleaved as bs cs) :
      Interleaved as (b :: bs) (b :: cs)

theorem interleaved_filter {α : Type} (p : α → Bool) (l : List α) :
    Interleaved (l.filter (! p ·)) (l.filter p) l := by
  induction l with
  | nil => exact .nil
  | cons a l ih =>
    rw [List.filter_cons, List.filter_cons]
    cases p a with
    | false => exact .left a ih
    | true => exact .right a ih

namespace CachedTransactions

/-! ## 1. What is promised -/

/-- What is promised of a call: the two lists partition the transactions in order, an id is reported
    as added when the cache does not hold it and once in a list, and the cache then holds the
    different ids that were added last. `history` is all that was reported before. -/
structure Claimed (history : List String) (s : CachedTransactions)
    (transactions added notAdded : List TransactionData) (s' : CachedTransactions) : Prop where
  partition : Interleaved added notAdded transactions
  fresh : ∀ id ∈ ids added, id ∉ s.getCachedTransactionIds
  once : (ids added).Nodup
  recent : s'.getCachedTransactionIds =
    (history ++ ids added).dedup.rtake s.maxLastTransactionIds
  bounded : s'.getCachedTransactionIds.length ≤ s.maxLastTransactionIds

/-- Every call of a sequence keeps the promise; one that throws reports nothing. -/
def AllClaimed (history : List String) (s : CachedTransactions) :
    List (List TransactionData) → Prop
  | [] => True
  | transactions :: calls =>
    match (cacheTransactions transactions).run s with
    | .done sorted s' =>
      Claimed history s transactions sorted.1 sorted.2 s' ∧
        AllClaimed (history ++ ids sorted.1) s' calls
    | .thrown _ s' => AllClaimed history s' calls

/-- No id that the cache does not hold occurs twice in the list. -/
def NoRepeats (s : CachedTransactions) (transactions : List TransactionData) : Prop :=
  ((ids transactions).filter (! s.has ·)).Nodup

/-- That is so for every list of a sequence, in the state its call begins in; where a transaction
    has no id there is nothing to ask for. -/
def AllDistinct (s : CachedTransactions) : List (List TransactionData) → Prop
  | [] => True
  | transactions :: calls =>
    (Identified transactions → s.NoRepeats transactions) ∧
      AllDistinct ((cacheTransactions transactions).run s).state calls

/-- The cache at the start. -/
def empty (maxLastTransactionIds : Nat) : CachedTransactions :=
  ⟨OrderedMap.empty, maxLastTransactionIds⟩

/-! ## 2. One call -/

/-- The cache holds the different ids that were added last. -/
def HoldsRecent (history : List String) (s : CachedTransactions) : Prop :=
  s.getCachedTransactionIds = history.dedup.rtake s.maxLastTransactionIds

variable {history : List String} {s : CachedTransactions} {transactions : List TransactionData}

theorem has_eq_false {id : String} : s.has id = false ↔ id ∉ s.getCachedTransactionIds := by
  unfold has getCachedTransactionIds
  rw [OrderedMap.mem_keys, Bool.not_eq_true]

/-- The third pass, whether it drops ids or not. -/
theorem keys_dropOldest (s : CachedTransactions) :
    (dropOldest s).getCachedTransactionIds =
      s.getCachedTransactionIds.rtake s.maxLastTransactionIds := by
  unfold dropOldest
  split
  · exact OrderedMap.keys_takeLast _ _
  · rename_i hfits
    have hlength : s.getCachedTransactionIds.length ≤ s.maxLastTransactionIds := by
      unfold getCachedTransactionIds OrderedMap.keys
      rw [List.length_map]
      exact Nat.le_of_not_lt hfits
    exact (Recent.rtake_of_length_le hlength).symm

theorem maxLastTransactionIds_after :
    (s.after transactions).maxLastTransactionIds = s.maxLastTransactionIds := by
  unfold after dropOldest
  split <;> rfl

/-- New ids that differ from each other go behind the others. -/
theorem recent_after (hrecent : HoldsRecent history s) (hdistinct : s.NoRepeats transactions) :
    (s.after transactions).getCachedTransactionIds =
      (history ++ ids (s.unknown transactions)).dedup.rtake s.maxLastTransactionIds := by
  have hids := s.ids_unknown transactions
  have hnodup : (ids (s.unknown transactions)).Nodup := hids ▸ hdistinct
  have hout : ∀ id ∈ ids (s.unknown transactions), id ∉ s.getCachedTransactionIds := by
    intro id hid
    rw [hids] at hid
    exact has_eq_false.1 (by simpa using (List.mem_filter.1 hid).2)
  have hkeys : ((ids (s.unknown transactions)).foldl add s.cachedTransactionIds).keys =
      s.getCachedTransactionIds ++ ids (s.unknown transactions) := keys_foldl_add hnodup hout
  unfold after
  rw [keys_dropOldest]
  show (((ids (s.unknown transactions)).foldl add s.cachedTransactionIds).keys).rtake _ = _
  rw [hrecent] at hout
  rw [hkeys, hrecent, Recent.rtake_dedup_append _ _ hnodup hout]

/-- A call keeps the promise where no new id is repeated, and only there. -/
theorem claimed_iff (hrecent : HoldsRecent history s) :
    Claimed history s transactions (s.unknown transactions) (transactions.filter s.knows)
        (s.after transactions) ↔ s.NoRepeats transactions := by
  have hids := s.ids_unknown transactions
  refine ⟨fun h => ?_, fun hdistinct => ?_⟩
  · unfold NoRepeats
    rw [← hids]
    exact h.once
  · have hafter := recent_after hrecent hdistinct
    refine ⟨interleaved_filter _ _, fun id hid => ?_, hids ▸ hdistinct, hafter, ?_⟩
    · rw [hids] at hid
      exact has_eq_false.1 (by simpa using (List.mem_filter.1 hid).2)
    · rw [hafter, Recent.length_rtake]
      exact Nat.min_le_left _ _

/-! ## 3. Sequences of calls -/

theorem allClaimed_iff_of_recent (calls : List (List TransactionData))
    (hrecent : HoldsRecent history s) : AllClaimed history s calls ↔ AllDistinct s calls := by
  induction calls generalizing history s with
  | nil => exact Iff.rfl
  | cons transactions calls ih =>
    unfold AllClaimed AllDistinct
    by_cases hall : Identified transactions
    · rw [cacheTransactions_done hall]
      have hnext : s.NoRepeats transactions →
          HoldsRecent (history ++ ids (s.unknown transactions)) (s.after transactions) := by
        intro hdistinct
        unfold HoldsRecent
        rw [recent_after hrecent hdistinct, maxLastTransactionIds_after]
      refine ⟨fun h => ?_, fun h => ?_⟩
      · have hdistinct := (claimed_iff hrecent).1 h.1
        exact ⟨fun _ => hdistinct, (ih (hnext hdistinct)).1 h.2⟩
      · have hdistinct := h.1 hall
        exact ⟨(claimed_iff hrecent).2 hdistinct, (ih (hnext hdistinct)).2 h.2⟩
    · rw [cacheTransactions_thrown hall]
      exact (ih hrecent).trans ⟨fun h => ⟨fun h' => absurd h' hall, h⟩, And.right⟩

/-- **The promise is kept by exactly the sequences of calls** in which no list repeats an id that
    the cache does not hold, for every size of the cache. -/
theorem allClaimed_iff (maxLastTransactionIds : Nat) (calls : List (List TransactionData)) :
    AllClaimed [] (empty maxLastTransactionIds) calls ↔
      AllDistinct (empty maxLastTransactionIds) calls := by
  have hrecent : HoldsRecent [] (empty maxLastTransactionIds) := by
    show [] = List.rtake [] maxLastTransactionIds
    rw [List.rtake_nil]
  exact allClaimed_iff_of_recent calls hrecent

/-- A transaction with nothing but an id. -/
def withId (id : String) : TransactionData :=
  { version := none, network := none, typeGroup := none, type := 0, nonce := none,
    senderPublicKey := none, fee := 0, amount := 0, expiration := none, recipientId := none,
    vendorField := none, asset := none, id := some id, signature := none, signatures := none }

/-- **A transaction that stands twice in a list** is reported as added twice. -/
theorem allClaimed_not : ¬ ∀ (maxLastTransactionIds : Nat) (calls : List (List TransactionData)),
    AllClaimed [] (empty maxLastTransactionIds) calls := by
  intro h
  have hall : Identified [withId "a", withId "a"] := by
    unfold Identified
    decide
  have hcall := h 10 [[withId "a", withId "a"]]
  unfold AllClaimed at hcall
  rw [cacheTransactions_done hall] at hcall
  have honce : ["a", "a"].Nodup := hcall.1.once
  exact absurd honce (by decide)

end CachedTransactions

end CoreEx
