/-
  File:      CoreEx/Lib/EventLoop.lean
  Subject:   Promises, what waits for them, and the queue of jobs.

  `await p` on a promise that is pending registers the rest of the function as a reaction; on one
  that is settled it queues it. A promise that is settled queues its reactions in the order in which
  they were registered. A continuation is in the queue or waits for a promise, and neither of these
  operations loses or doubles one. Nothing here names the system under verification.

  * `EventLoop` -- the queue, the reactions of all promises, and what the promises settled to;
  * `enqueue`, `await`, `awaitAll`, `settle`, `next` -- the operations;
  * `continuations_await`, `continuations_settle` -- what they do to the continuations;
  * `Tidy` -- nothing waits for a promise that is settled; `Placed` -- what waits for which promise,
    and that it is settled when the job is queued;
  * **`exists_drained`** -- a queue that a measure goes down on is empty some time.
-/
import Mathlib.Data.List.Count
import Mathlib.Logic.Function.Iterate
import Mathlib.Order.WellFounded

namespace CoreEx

/-- The queue of jobs, and promises with their reactions. -/
structure EventLoop (P J R : Type) where
  jobs : List J
  /-- The reactions of all pending promises, in the order in which they were registered. -/
  reactions : List (P × J)
  settled : P → Option R

namespace EventLoop

variable {P J R : Type}

/-! ## 1. The operations -/

/-- Nothing has happened. -/
def empty : EventLoop P J R := ⟨[], [], fun _ => none⟩

/-- Queue a job. -/
def enqueue (job : J) (l : EventLoop P J R) : EventLoop P J R := { l with jobs := l.jobs ++ [job] }

/-- `await p`, with the rest of the function as the job. -/
def await (p : P) (job : J) (l : EventLoop P J R) : EventLoop P J R :=
  match l.settled p with
  | some _ => l.enqueue job
  | none => { l with reactions := l.reactions ++ [(p, job)] }

/-- The same job for each of some promises. -/
def awaitAll (ps : List P) (job : J) (l : EventLoop P J R) : EventLoop P J R :=
  ps.foldl (fun l p => l.await p job) l

/-- Resolve or reject a promise; what is settled stays as it is. -/
def settle [DecidableEq P] (p : P) (r : R) (l : EventLoop P J R) : EventLoop P J R :=
  match l.settled p with
  | some _ => l
  | none =>
    { jobs := l.jobs ++ (l.reactions.filter (·.1 = p)).map Prod.snd
      reactions := l.reactions.filter (·.1 ≠ p)
      settled := fun q => if q = p then some r else l.settled q }

/-- The job at the front, and the loop without it. -/
def next (l : EventLoop P J R) : Option (J × EventLoop P J R) :=
  match l.jobs with
  | [] => none
  | job :: jobs => some (job, { l with jobs := jobs })

/-- All that is to be continued some time. -/
def continuations (l : EventLoop P J R) : List J := l.jobs ++ l.reactions.map Prod.snd

/-- Nothing waits for a promise that is settled. -/
def Tidy (l : EventLoop P J R) : Prop := ∀ p job, (p, job) ∈ l.reactions → l.settled p = none

variable {l l' : EventLoop P J R} {p q : P} {job k : J} {r : R}

/-! ## 2. One more job -/

theorem jobs_enqueue (job : J) (l : EventLoop P J R) : (l.enqueue job).jobs = l.jobs ++ [job] := rfl

theorem continuations_enqueue (job : J) (l : EventLoop P J R) :
    (l.enqueue job).continuations.Perm (job :: l.continuations) := by
  unfold enqueue continuations
  dsimp only
  rw [List.append_assoc]
  exact List.perm_middle

theorem await_of_settled (h : l.settled p = some r) (job : J) : l.await p job = l.enqueue job := by
  unfold await
  rw [h]

theorem await_of_pending (h : l.settled p = none) (job : J) :
    l.await p job = { l with reactions := l.reactions ++ [(p, job)] } := by
  unfold await
  rw [h]

/-- **Awaiting adds the one continuation.** -/
theorem continuations_await (p : P) (job : J) (l : EventLoop P J R) :
    (l.await p job).continuations.Perm (job :: l.continuations) := by
  cases h : l.settled p with
  | some r =>
    rw [await_of_settled h]
    exact continuations_enqueue job l
  | none =>
    rw [await_of_pending h]
    unfold continuations
    dsimp only
    rw [List.map_append, ← List.append_assoc]
    exact List.perm_append_comm

theorem jobs_await_of_pending (h : l.settled p = none) (job : J) :
    (l.await p job).jobs = l.jobs := by
  rw [await_of_pending h]

@[simp] theorem settled_await (p : P) (job : J) (l : EventLoop P J R) :
    (l.await p job).settled = l.settled := by
  unfold await
  split <;> rfl

theorem mem_reactions_await : (q, k) ∈ (l.await p job).reactions ↔
    (q, k) ∈ l.reactions ∨ l.settled p = none ∧ q = p ∧ k = job := by
  cases h : l.settled p with
  | some r =>
    rw [await_of_settled h]
    exact ⟨.inl, fun h' => h'.resolve_right fun hp => (nomatch hp.1)⟩
  | none =>
    rw [await_of_pending h]
    dsimp only
    rw [List.mem_append, List.mem_singleton, Prod.mk.injEq]
    exact or_congr Iff.rfl ⟨fun hp => ⟨rfl, hp⟩, And.right⟩

theorem mem_jobs_await : k ∈ (l.await p job).jobs ↔
    k ∈ l.jobs ∨ l.settled p ≠ none ∧ k = job := by
  cases h : l.settled p with
  | some r =>
    rw [await_of_settled h, jobs_enqueue, List.mem_append, List.mem_singleton]
    exact or_congr Iff.rfl ⟨fun hk => ⟨Option.some_ne_none r, hk⟩, And.right⟩
  | none =>
    rw [await_of_pending h]
    exact ⟨.inl, fun h' => h'.resolve_right fun hp => hp.1 rfl⟩

theorem Tidy.await (h : l.Tidy) (p : P) (job : J) : (l.await p job).Tidy := by
  intro q k hmem
  rw [settled_await]
  rcases mem_reactions_await.1 hmem with hmem | ⟨hp, rfl, _⟩
  · exact h q k hmem
  · exact hp

/-! ## 3. Many promises -/

theorem awaitAll_cons (p : P) (ps : List P) (job : J) (l : EventLoop P J R) :
    l.awaitAll (p :: ps) job = (l.await p job).awaitAll ps job := rfl

theorem continuations_awaitAll (ps : List P) (job : J) (l : EventLoop P J R) :
    (l.awaitAll ps job).continuations.Perm (List.replicate ps.length job ++ l.continuations) := by
  induction ps generalizing l with
  | nil => exact List.Perm.refl _
  | cons p ps ih =>
    rw [awaitAll_cons]
    have hone := (continuations_await p job l).append_left (List.replicate ps.length job)
    refine ((ih (l.await p job)).trans hone).trans ?_
    rw [List.length_cons, List.replicate_succ, List.cons_append]
    exact List.perm_middle

@[simp] theorem settled_awaitAll (ps : List P) (job : J) (l : EventLoop P J R) :
    (l.awaitAll ps job).settled = l.settled := by
  induction ps generalizing l with
  | nil => rfl
  | cons p ps ih => rw [awaitAll_cons, ih, settled_await]

theorem mem_reactions_awaitAll {ps : List P} : (q, k) ∈ (l.awaitAll ps job).reactions ↔
    (q, k) ∈ l.reactions ∨ l.settled q = none ∧ q ∈ ps ∧ k = job := by
  induction ps generalizing l with
  | nil => exact ⟨.inl, fun h => h.resolve_right fun hq => (nomatch hq.2.1)⟩
  | cons p ps ih =>
    rw [awaitAll_cons, ih, mem_reactions_await, settled_await, List.mem_cons, or_assoc]
    refine or_congr Iff.rfl ⟨fun h => ?_, fun h => ?_⟩
    · rcases h with ⟨hp, rfl, hk⟩ | ⟨hq, hmem, hk⟩
      · exact ⟨hp, .inl rfl, hk⟩
      · exact ⟨hq, .inr hmem, hk⟩
    · obtain ⟨hq, rfl | hmem, hk⟩ := h
      · exact .inl ⟨hq, rfl, hk⟩
      · exact .inr ⟨hq, hmem, hk⟩

/-- The job is queued once for each promise that is settled. -/
theorem jobs_awaitAll (ps : List P) (job : J) (l : EventLoop P J R) :
    ∃ n, (l.awaitAll ps job).jobs = l.jobs ++ List.replicate n job := by
  induction ps generalizing l with
  | nil => exact ⟨0, (List.append_nil _).symm⟩
  | cons p ps ih =>
    rw [awaitAll_cons]
    obtain ⟨n, hn⟩ := ih (l.await p job)
    cases h : l.settled p with
    | none =>
      rw [await_of_pending h] at hn ⊢
      exact ⟨n, hn⟩
    | some r =>
      rw [await_of_settled h] at hn ⊢
      refine ⟨n + 1, ?_⟩
      rw [hn, jobs_enqueue, List.append_assoc, List.replicate_succ, List.singleton_append]

theorem mem_jobs_awaitAll {ps : List P} (h : k ∈ (l.awaitAll ps job).jobs) :
    k ∈ l.jobs ∨ k = job := by
  obtain ⟨n, hn⟩ := jobs_awaitAll ps job l
  rw [hn, List.mem_append] at h
  exact h.imp_right List.eq_of_mem_replicate

theorem Tidy.awaitAll (h : l.Tidy) (ps : List P) (job : J) : (l.awaitAll ps job).Tidy := by
  intro q k hmem
  rw [settled_awaitAll]
  rcases mem_reactions_awaitAll.1 hmem with hmem | hq
  · exact h q k hmem
  · exact hq.1

/-! ## 4. Settling -/

section Settle

variable [DecidableEq P]

theorem settle_of_pending (h : l.settled p = none) (r : R) : l.settle p r =
    { jobs := l.jobs ++ (l.reactions.filter (·.1 = p)).map Prod.snd
      reactions := l.reactions.filter (·.1 ≠ p)
      settled := fun q => if q = p then some r else l.settled q } := by
  unfold settle
  rw [h]

/-- **Settling moves continuations**, and that is all. -/
theorem continuations_settle (p : P) (r : R) (l : EventLoop P J R) :
    (l.settle p r).continuations.Perm l.continuations := by
  cases h : l.settled p with
  | some r' =>
    unfold settle
    rw [h]
  | none =>
    rw [settle_of_pending h]
    unfold continuations
    dsimp only
    rw [List.append_assoc, ← List.map_append]
    refine List.Perm.append_left _ (List.Perm.map _ ?_)
    have hsplit := List.filter_append_perm (fun e : P × J => decide (e.1 = p)) l.reactions
    have hnot : (l.reactions.filter fun e => decide (e.1 ≠ p)) =
        l.reactions.filter fun e => !decide (e.1 = p) :=
      List.filter_congr fun e _ => decide_not
    rw [hnot]
    exact hsplit

theorem settled_settle (h : l.settled p = none) (r : R) (q : P) :
    (l.settle p r).settled q = if q = p then some r else l.settled q := by
  rw [settle_of_pending h]

theorem mem_reactions_settle (h : l.settled p = none) (r : R) :
    (q, k) ∈ (l.settle p r).reactions ↔ (q, k) ∈ l.reactions ∧ q ≠ p := by
  rw [settle_of_pending h]
  dsimp only
  rw [List.mem_filter, decide_eq_true_iff]

theorem mem_jobs_settle (h : l.settled p = none) (r : R) :
    k ∈ (l.settle p r).jobs ↔ k ∈ l.jobs ∨ (p, k) ∈ l.reactions := by
  rw [settle_of_pending h]
  dsimp only
  rw [List.mem_append, List.mem_map]
  refine or_congr Iff.rfl ⟨fun hmem => ?_, fun hmem => ⟨(p, k), ?_, rfl⟩⟩
  · obtain ⟨⟨q, k'⟩, hmem, rfl⟩ := hmem
    obtain ⟨hreaction, hq⟩ := List.mem_filter.1 hmem
    obtain rfl : q = p := of_decide_eq_true hq
    exact hreaction
  · exact List.mem_filter.2 ⟨hmem, decide_eq_true rfl⟩

theorem Tidy.settle (h : l.Tidy) (hp : l.settled p = none) (r : R) : (l.settle p r).Tidy := by
  intro q k hmem
  obtain ⟨hmem, hne⟩ := (mem_reactions_settle hp r).1 hmem
  rw [settled_settle hp, if_neg hne]
  exact h q k hmem

/-- What is settled stays as it is. -/
theorem settled_settle_of_settled (h : l.settled q ≠ none) (p : P) (r : R) :
    (l.settle p r).settled q = l.settled q := by
  cases hp : l.settled p with
  | some r' =>
    unfold settle
    rw [hp]
  | none =>
    rw [settled_settle hp, if_neg]
    intro hqp
    exact h (hqp ▸ hp)

theorem settled_settle_of_ne (h : q ≠ p) (r : R) : (l.settle p r).settled q = l.settled q := by
  cases hp : l.settled p with
  | some r' =>
    unfold settle
    rw [hp]
  | none => rw [settled_settle hp, if_neg h]

theorem settled_settle_self (p : P) (r : R) (l : EventLoop P J R) :
    (l.settle p r).settled p ≠ none := by
  cases hp : l.settled p with
  | some r' =>
    rw [settled_settle_of_settled (hp ▸ Option.some_ne_none r') p r, hp]
    exact Option.some_ne_none r'
  | none =>
    rw [settled_settle hp, if_pos rfl]
    exact Option.some_ne_none r

/-- Settle some promises, one after the other. -/
def settleAll (ps : List P) (r : R) (l : EventLoop P J R) : EventLoop P J R :=
  ps.foldl (fun l p => l.settle p r) l

end Settle

/-! ## 5. What waits for what -/

/-- Each reaction is registered with the promise that it waits for, and is queued when that promise
    is settled. -/
structure Placed (awaits : J → Option P) (l : EventLoop P J R) : Prop where
  waits : ∀ p k, (p, k) ∈ l.reactions → awaits k = some p
  due : ∀ k ∈ l.jobs, ∀ p, awaits k = some p → l.settled p ≠ none

section Placed

variable {awaits : J → Option P}

theorem Placed.enqueue (h : l.Placed awaits) (hk : ∀ p, awaits k = some p → l.settled p ≠ none) :
    (l.enqueue k).Placed awaits := by
  refine ⟨h.waits, fun k' hk' => ?_⟩
  rcases List.mem_append.1 hk' with hk' | hk'
  · exact h.due k' hk'
  · obtain rfl := List.mem_singleton.1 hk'
    exact hk

theorem Placed.await (h : l.Placed awaits) (hk : awaits k = some p) :
    (l.await p k).Placed awaits := by
  refine ⟨fun q k' hmem => ?_, fun k' hmem q hq => ?_⟩
  · rcases mem_reactions_await.1 hmem with hmem | ⟨_, rfl, rfl⟩
    · exact h.waits q k' hmem
    · exact hk
  · rw [settled_await]
    rcases mem_jobs_await.1 hmem with hmem | ⟨hp, rfl⟩
    · exact h.due k' hmem q hq
    · obtain rfl : p = q := Option.some.inj (hk.symm.trans hq)
      exact hp

theorem Placed.settle [DecidableEq P] (h : l.Placed awaits) (p : P) (r : R) :
    (l.settle p r).Placed awaits := by
  cases hp : l.settled p with
  | some r' =>
    unfold EventLoop.settle
    rw [hp]
    exact h
  | none =>
    refine ⟨fun q k' hmem => h.waits q k' ((mem_reactions_settle hp r).1 hmem).1,
      fun k' hmem q hq => ?_⟩
    rcases (mem_jobs_settle hp r).1 hmem with hmem | hmem
    · have hsettled := h.due k' hmem q hq
      rw [settled_settle_of_settled hsettled]
      exact hsettled
    · obtain rfl : q = p := Option.some.inj (hq.symm.trans (h.waits p k' hmem))
      exact settled_settle_self q r l

end Placed

/-! ## 6. The next job -/

theorem next_eq_none (h : l.next = none) : l.jobs = [] := by
  unfold next at h
  split at h
  · assumption
  · cases h

theorem next_eq_some (h : l.next = some (job, l')) :
    l.jobs = job :: l'.jobs ∧ l'.reactions = l.reactions ∧ l'.settled = l.settled := by
  unfold next at h
  split at h
  · cases h
  · rename_i hjobs
    cases h
    exact ⟨hjobs, rfl, rfl⟩

theorem continuations_next (h : l.next = some (job, l')) :
    l.continuations = job :: l'.continuations := by
  obtain ⟨hjobs, hreactions, _⟩ := next_eq_some h
  unfold continuations
  rw [hjobs, hreactions, List.cons_append]

theorem Tidy.next (htidy : l.Tidy) (h : l.next = some (job, l')) : l'.Tidy := by
  obtain ⟨_, hreactions, hsettled⟩ := next_eq_some h
  intro q k hmem
  rw [hreactions] at hmem
  rw [hsettled]
  exact htidy q k hmem

/-- The job that is next has what it waited for. -/
theorem Placed.next {awaits : J → Option P} (hplaced : l.Placed awaits)
    (h : l.next = some (job, l')) :
    l'.Placed awaits ∧ ∀ p, awaits job = some p → l'.settled p ≠ none := by
  obtain ⟨hjobs, hreactions, hsettled⟩ := next_eq_some h
  refine ⟨⟨fun p k hmem => ?_, fun k hmem p hp => ?_⟩, fun p hp => ?_⟩
  · rw [hreactions] at hmem
    exact hplaced.waits p k hmem
  · rw [hsettled]
    exact hplaced.due k (by rw [hjobs]; exact List.mem_cons_of_mem _ hmem) p hp
  · rw [hsettled]
    exact hplaced.due job (by rw [hjobs]; exact List.mem_cons_self) p hp

/-! ## 7. Running to the end -/

/-- **What goes down comes to an end**: where each step takes a measure down until all is done, some
    number of steps gets there. -/
theorem exists_drained {σ β : Type} {lt : β → β → Prop} (hwf : WellFounded lt) (measure : σ → β)
    {I finished : σ → Prop} {step : σ → σ} (hkeep : ∀ s, I s → I (step s))
    (hless : ∀ s, I s → ¬finished s → lt (measure (step s)) (measure s)) (s : σ) (h : I s) :
    ∃ n, finished (step^[n] s) := by
  induction hm : measure s using hwf.induction generalizing s with
  | h m ih =>
    by_cases hfinished : finished s
    · exact ⟨0, hfinished⟩
    · have hlt := hless s h hfinished
      rw [hm] at hlt
      obtain ⟨n, hn⟩ := ih _ hlt (step s) (hkeep s h) rfl
      exact ⟨n + 1, hn⟩

end EventLoop

end CoreEx
