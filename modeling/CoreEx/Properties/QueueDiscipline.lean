/-
  File:      CoreEx/Properties/QueueDiscipline.lean
  Subject:   The order in which queued jobs are handled, and what `pause` and `stop` wait for.

  * `Sound` -- the invariant: one activation while the queue is running and none otherwise, numbers
    in order, callbacks only while it is running; `Sound.perform`, **`sound_afterEvents`**;
  * `Clears`, `dropped_perform` -- what leaves the queue unhandled;
  * `waiting_perform` -- when the promise that `pause` or `stop` waits for is settled;
  * `SameQueue`, **`sameQueue_afterEvents`** -- how a job ends makes no difference;
  * **`queue_disciplined`** -- all together; **`queue_returned_not`** -- the promise that `pause`
    returns.
-/
import CoreEx.Kernel.MemoryQueue
import Mathlib.Data.List.Range

namespace CoreEx

namespace MemoryQueue

variable {s s' : MemoryQueue} {n c : Nat} {r : JobResult} {k : QueueContinuation}

/-- A call of `clear` or of `stop`. -/
def QueueEvent.clears : QueueEvent → Bool
  | .call .stop => true
  | .call .clear => true
  | _ => false

/-! ## 1. The invariant -/

/-- The numbers of the jobs in the queue. -/
def waiting (s : MemoryQueue) : List Nat := s.jobs.map QueuedJob.number

/-- **The invariant.** -/
structure Sound (s : MemoryQueue) : Prop where
  activations : s.activations.length = if s.running then 1 else 0
  callbacks : s.onProcessedCallbacks ≠ [] → s.running = true
  placed : s.loop.Placed QueueContinuation.awaits
  returned : ∀ c, s.loop.settled (.returned c) ≠ none → s.loop.settled (.waiting c) ≠ none
  order : (s.taken ++ s.waiting).Pairwise (· < ·)
  accounted : (s.taken ++ s.waiting ++ s.dropped).Perm (List.range s.queued)

theorem sound_new : new.Sound :=
  ⟨rfl, fun h => absurd rfl h, ⟨fun _ _ h => (nomatch h), fun _ h => (nomatch h)⟩,
    fun _ h => absurd rfl h, List.Pairwise.nil, List.Perm.refl _⟩

/-- What the invariant says of the event loop, for a loop with other continuations. -/
structure SoundLoop (l : EventLoop QueuePromise QueueContinuation JobResult) (running : Bool) :
    Prop where
  activations :
    (l.continuations.filter QueueContinuation.isActivation).length = if running then 1 else 0
  placed : l.Placed QueueContinuation.awaits
  returned : ∀ c, l.settled (.returned c) ≠ none → l.settled (.waiting c) ≠ none

variable {l l' : EventLoop QueuePromise QueueContinuation JobResult} {running : Bool}
  {p : QueuePromise}

theorem Sound.loop (h : s.Sound) : SoundLoop s.loop s.running :=
  ⟨h.activations, h.placed, h.returned⟩

/-- Another loop, with the queue as it was. -/
theorem Sound.with_loop (h : s.Sound) (hl : SoundLoop l s.running) :
    ({ s with loop := l } : MemoryQueue).Sound :=
  ⟨hl.activations, h.callbacks, hl.placed, hl.returned, h.order, h.accounted⟩

theorem length_filter_perm {ks ks' : List QueueContinuation} (h : ks.Perm ks') :
    (ks.filter QueueContinuation.isActivation).length =
      (ks'.filter QueueContinuation.isActivation).length := (h.filter _).length_eq

/-- A continuation that is no activation. -/
theorem SoundLoop.await (h : SoundLoop l running) (hk : k.awaits = some p)
    (hno : k.isActivation = false) : SoundLoop (l.await p k) running := by
  refine ⟨?_, h.placed.await hk, ?_⟩
  · rw [length_filter_perm (EventLoop.continuations_await p k l),
      List.filter_cons_of_neg (by rw [hno]; exact Bool.false_ne_true)]
    exact h.activations
  · rw [EventLoop.settled_await]
    exact h.returned

theorem SoundLoop.enqueue (h : SoundLoop l running) (hk : k.awaits = none)
    (hno : k.isActivation = false) : SoundLoop (l.enqueue k) running := by
  refine ⟨?_, h.placed.enqueue fun p hp => ?_, h.returned⟩
  · rw [length_filter_perm (EventLoop.continuations_enqueue k l),
      List.filter_cons_of_neg (by rw [hno]; exact Bool.false_ne_true)]
    exact h.activations
  · rw [hk] at hp
    cases hp

/-- An activation that begins to wait. -/
theorem SoundLoop.activate (h : SoundLoop l false) (hk : k.awaits = some p)
    (hyes : k.isActivation = true) : SoundLoop (l.await p k) true := by
  refine ⟨?_, h.placed.await hk, ?_⟩
  · rw [length_filter_perm (EventLoop.continuations_await p k l), List.filter_cons_of_pos hyes,
      List.length_cons, h.activations]
    rfl
  · rw [EventLoop.settled_await]
    exact h.returned

/-- A promise settles; one that a method returns, only behind the one that the method waits for. -/
theorem SoundLoop.settle (h : SoundLoop l running) (r : JobResult)
    (hp : ∀ c, p = .returned c → l.settled (.waiting c) ≠ none) :
    SoundLoop (l.settle p r) running := by
  refine ⟨?_, h.placed.settle p r, fun c hc => ?_⟩
  · rw [length_filter_perm (EventLoop.continuations_settle p r l)]
    exact h.activations
  · have hwaiting : l.settled (.waiting c) ≠ none := by
      by_cases hpc : p = .returned c
      · exact hp c hpc
      · rw [EventLoop.settled_settle_of_ne (Ne.symm hpc)] at hc
        exact h.returned c hc
    rw [EventLoop.settled_settle_of_settled hwaiting]
    exact hwaiting

theorem SoundLoop.settleWaiting (h : SoundLoop l running) (r : JobResult) (cs : List Nat) :
    SoundLoop (l.settleAll (cs.map .waiting) r) running := by
  induction cs generalizing l with
  | nil => exact h
  | cons c cs ih => exact ih (h.settle r fun c' hc' => (nomatch hc'))

theorem SoundLoop.returned_next (h : SoundLoop l running) (hnext : l.next = some (k, l')) :
    ∀ c, l'.settled (.returned c) ≠ none → l'.settled (.waiting c) ≠ none := by
  obtain ⟨_, _, hsettled⟩ := EventLoop.next_eq_some hnext
  rw [hsettled]
  exact h.returned

/-- The next continuation is no activation. -/
theorem SoundLoop.next (h : SoundLoop l running) (hnext : l.next = some (k, l'))
    (hno : k.isActivation = false) : SoundLoop l' running := by
  have hcount := h.activations
  rw [EventLoop.continuations_next hnext,
    List.filter_cons_of_neg (by rw [hno]; exact Bool.false_ne_true)] at hcount
  exact ⟨hcount, (h.placed.next hnext).1, h.returned_next hnext⟩

/-- It is one: then the queue was running, and there is no other. -/
theorem SoundLoop.next_activation (h : SoundLoop l running) (hnext : l.next = some (k, l'))
    (hyes : k.isActivation = true) : SoundLoop l' false ∧ running = true := by
  have hcount := h.activations
  rw [EventLoop.continuations_next hnext, List.filter_cons_of_pos hyes, List.length_cons] at hcount
  cases running with
  | false => exact absurd hcount (Nat.succ_ne_zero _)
  | true =>
    exact ⟨⟨Nat.succ.inj hcount, (h.placed.next hnext).1, h.returned_next hnext⟩, rfl⟩

/-! ## 2. The loop over the jobs -/

/-- What holds where no activation is left, or where one is between two awaits: the invariant, but
    for the activation and the callbacks. -/
structure Between (s : MemoryQueue) : Prop where
  loop : SoundLoop s.loop false
  order : (s.taken ++ s.waiting).Pairwise (· < ·)
  accounted : (s.taken ++ s.waiting ++ s.dropped).Perm (List.range s.queued)

theorem Sound.between (h : s.Sound) (hrunning : s.running = false) : s.Between := by
  have hloop := h.loop
  rw [hrunning] at hloop
  exact ⟨hloop, h.order, h.accounted⟩

theorem Between.endLoop (h : s.Between) : (endLoop s).Sound := by
  have hloop := h.loop.settleWaiting .succeeded s.onProcessedCallbacks
  exact ⟨hloop.activations, fun hne => absurd rfl hne, hloop.placed, hloop.returned, h.order,
    h.accounted⟩

theorem Between.handle {job : QueuedJob} {rest : List QueuedJob} (h : s.Between)
    (hjobs : s.jobs = job :: rest) : (handle job rest s).Sound := by
  have hsplit : s.taken ++ s.waiting = (s.taken ++ [job.number]) ++ rest.map QueuedJob.number := by
    unfold waiting
    rw [hjobs, List.map_cons, List.append_assoc]
    rfl
  have horder := h.order
  have haccounted := h.accounted
  rw [hsplit] at horder haccounted
  unfold MemoryQueue.handle dispatch
  dsimp only
  split
  · have hloop := h.loop.activate (k := .dispatched job.number) rfl rfl
    exact ⟨hloop.activations, fun _ => rfl, hloop.placed, hloop.returned, horder, haccounted⟩
  · have hloop := h.loop.activate (k := .handled job.number) rfl rfl
    exact ⟨hloop.activations, fun _ => rfl, hloop.placed, hloop.returned, horder, haccounted⟩

/-- **The loop from its head on.** -/
theorem Between.takeNext (h : s.Between) : (takeNext s).Sound := by
  unfold MemoryQueue.takeNext
  split
  · exact h.endLoop
  · rename_i job rest hjobs
    split
    · exact h.handle hjobs
    · exact h.endLoop

/-- **`#processJobs`.** -/
theorem Sound.processJobs (h : s.Sound) : (processJobs s).Sound := by
  unfold MemoryQueue.processJobs
  split
  · exact h
  · rename_i hrunning
    exact (h.between (Bool.eq_false_of_not_eq_true hrunning)).takeNext

/-! ## 3. The methods -/

theorem Sound.enqueue (h : s.Sound) (throwsAtOnce : Bool) : (s.enqueue throwsAtOnce).Sound := by
  have hwaiting : (s.enqueue throwsAtOnce).waiting = s.waiting ++ [s.queued] := List.map_append
  have hlt : ∀ m ∈ s.taken ++ s.waiting, m < s.queued := by
    intro m hm
    exact List.mem_range.1 (h.accounted.mem_iff.1 (List.mem_append_left _ hm))
  refine ⟨h.activations, h.callbacks, h.placed, h.returned, ?_, ?_⟩
  · show (s.taken ++ (s.enqueue throwsAtOnce).waiting).Pairwise (· < ·)
    rw [hwaiting, ← List.append_assoc]
    refine List.pairwise_append.2 ⟨h.order, List.pairwise_singleton _ _, fun m hm m' hm' => ?_⟩
    obtain rfl := List.mem_singleton.1 hm'
    exact hlt m hm
  · show (s.taken ++ (s.enqueue throwsAtOnce).waiting ++ s.dropped).Perm
      (List.range (s.queued + 1))
    rw [hwaiting, List.range_succ, ← List.append_assoc, List.append_assoc _ [s.queued]]
    refine (List.perm_append_comm.append_left _).trans ?_
    rw [← List.append_assoc]
    exact h.accounted.append_right [s.queued]

theorem Sound.bulk (h : s.Sound) (jobs : List Bool) : (bulk jobs s).Sound := by
  induction jobs generalizing s with
  | nil => exact h
  | cons job jobs ih => exact ih (h.enqueue job)

theorem Sound.start (h : s.Sound) : (start s).Sound := by
  have hs : ({ s with started := true } : MemoryQueue).Sound :=
    ⟨h.activations, h.callbacks, h.placed, h.returned, h.order, h.accounted⟩
  exact hs.processJobs

theorem Sound.clear (h : s.Sound) : (clear s).Sound := by
  refine ⟨h.activations, h.callbacks, h.placed, h.returned, ?_, ?_⟩
  · show (s.taken ++ []).Pairwise (· < ·)
    rw [List.append_nil]
    exact (List.pairwise_append.1 h.order).1
  · show (s.taken ++ [] ++ (s.dropped ++ s.waiting)).Perm (List.range s.queued)
    rw [List.append_nil]
    refine (List.perm_append_comm.append_left _).trans ?_
    rw [← List.append_assoc]
    exact h.accounted

theorem Sound.suspend (h : s.Sound) : s.suspend.Sound := by
  unfold MemoryQueue.suspend waitUntilProcessed
  split
  · rename_i hrunning
    exact ⟨h.activations, fun _ => hrunning, h.placed, h.returned, h.order, h.accounted⟩
  · have hloop := h.loop.settle (p := .waiting s.calls) .succeeded fun c hc => (nomatch hc)
    exact ⟨hloop.activations, h.callbacks, hloop.placed, hloop.returned, h.order, h.accounted⟩

theorem Sound.pause (h : s.Sound) : (pause s).Sound :=
  h.suspend.with_loop (h.suspend.loop.await (k := .paused s.calls) rfl rfl)

theorem Sound.stop (h : s.Sound) : (stop s).Sound :=
  h.suspend.clear.with_loop (h.suspend.clear.loop.enqueue (k := .cleared s.calls) rfl rfl)

/-- **A call of a method.** -/
theorem Sound.call (h : s.Sound) (c : QueueCall) : (call c s).Sound := by
  cases c with
  | push throwsAtOnce => exact (h.enqueue throwsAtOnce).processJobs
  | bulk jobs => exact h.bulk jobs
  | start => exact h.start
  | resume => exact h.start
  | pause => exact h.pause
  | stop => exact h.stop
  | clear => exact h.clear

/-! ## 4. Turns -/

theorem Sound.settleAwaited (h : s.Sound) (r : JobResult)
    (hp : ∀ c, p = .returned c → s.loop.settled (.waiting c) ≠ none) :
    (settleAwaited p r s).Sound := by
  unfold MemoryQueue.settleAwaited
  split
  · exact h.with_loop (h.loop.settle r hp)
  · exact h

/-- **The next turn**, one case for each continuation. -/
theorem Sound.turn (h : s.Sound) : (turn s).Sound := by
  unfold MemoryQueue.turn
  split
  · rename_i k l hnext
    obtain ⟨_, hdue⟩ := h.placed.next hnext
    cases k with
    | handled n =>
      obtain ⟨hloop, hrunning⟩ := h.loop.next_activation hnext rfl
      have hawait : SoundLoop (l.await (.dispatch n) (.dispatched n)) s.running := by
        rw [hrunning]
        exact hloop.activate rfl rfl
      unfold proceed
      dsimp only
      split
      · exact ⟨hawait.activations, h.callbacks, hawait.placed, hawait.returned, h.order,
          h.accounted⟩
      · rename_i hnone
        exact absurd hnone (hdue _ rfl)
    | dispatched n =>
      obtain ⟨hloop, _⟩ := h.loop.next_activation hnext rfl
      have hbetween : ({ s with loop := l } : MemoryQueue).Between :=
        ⟨hloop, h.order, h.accounted⟩
      exact hbetween.takeNext
    | paused c =>
      refine h.with_loop ((h.loop.next hnext rfl).settle .succeeded fun c' hc' => ?_)
      obtain rfl : c = c' := QueuePromise.returned.inj hc'
      exact hdue _ rfl
    | cleared c => exact h.with_loop ((h.loop.next hnext rfl).enqueue rfl rfl)
    | adopt c => exact h.with_loop ((h.loop.next hnext rfl).await rfl rfl)
    | adopted c =>
      refine h.with_loop ((h.loop.next hnext rfl).settle .succeeded fun c' hc' => ?_)
      obtain rfl : c = c' := QueuePromise.returned.inj hc'
      exact hdue _ rfl
  · exact h

/-- **Any event.** -/
theorem Sound.perform (h : s.Sound) (e : QueueEvent) : (s.perform e).Sound := by
  cases e with
  | call c => exact h.call c
  | settle n r => exact h.settleAwaited r fun c hc => (nomatch hc)
  | dispatched n => exact h.settleAwaited .succeeded fun c hc => (nomatch hc)
  | turn => exact h.turn

/-- **All events.** -/
theorem sound_afterEvents (events : List QueueEvent) : (afterEvents events).Sound := by
  have hrun : ∀ s : MemoryQueue, s.Sound → (events.foldl MemoryQueue.perform s).Sound := by
    induction events with
    | nil => exact fun s hs => hs
    | cons e events ih => exact fun s hs => ih _ (hs.perform e)
  exact hrun new sound_new

/-! ## 5. What leaves the queue unhandled -/

theorem dropped_takeNext (s : MemoryQueue) : (takeNext s).dropped = s.dropped := by
  unfold takeNext
  split
  · rfl
  · split
    · unfold handle
      dsimp only
      split <;> rfl
    · rfl

theorem dropped_processJobs (s : MemoryQueue) : (processJobs s).dropped = s.dropped := by
  unfold processJobs
  split
  · rfl
  · exact dropped_takeNext s

theorem dropped_bulk (jobs : List Bool) (s : MemoryQueue) : (bulk jobs s).dropped = s.dropped := by
  induction jobs generalizing s with
  | nil => rfl
  | cons job jobs ih => exact ih (s.enqueue job)

theorem dropped_suspend (s : MemoryQueue) : s.suspend.dropped = s.dropped := by
  unfold suspend waitUntilProcessed
  split <;> rfl

theorem dropped_settleAwaited (p : QueuePromise) (r : JobResult) (s : MemoryQueue) :
    (settleAwaited p r s).dropped = s.dropped := by
  unfold settleAwaited
  split <;> rfl

theorem dropped_turn (s : MemoryQueue) : (turn s).dropped = s.dropped := by
  unfold turn
  split
  · rename_i k l hnext
    cases k with
    | handled n =>
      unfold proceed
      dsimp only
      split <;> rfl
    | dispatched n => exact dropped_takeNext _
    | paused c => rfl
    | cleared c => rfl
    | adopt c => rfl
    | adopted c => rfl
  · rfl

/-- **Jobs leave the queue** by being handled, unless it is cleared. -/
theorem dropped_perform {e : QueueEvent} (he : e.clears = false) (s : MemoryQueue) :
    (s.perform e).dropped = s.dropped := by
  cases e with
  | call c =>
    cases c with
    | push throwsAtOnce => exact dropped_processJobs (s.enqueue throwsAtOnce)
    | bulk jobs => exact dropped_bulk jobs s
    | start => exact dropped_processJobs { s with started := true }
    | resume => exact dropped_processJobs { s with started := true }
    | pause => exact dropped_suspend s
    | stop => cases he
    | clear => cases he
  | settle n r => exact dropped_settleAwaited _ r s
  | dispatched n => exact dropped_settleAwaited _ _ s
  | turn => exact dropped_turn s

/-! ## 6. What `pause` and `stop` wait for -/

/-- No promise that `pause` or `stop` waits for has been settled, or the queue is not running. -/
def Quiet (s s' : MemoryQueue) : Prop :=
  (∀ c, s'.loop.settled (.waiting c) = s.loop.settled (.waiting c)) ∨ s'.running = false

theorem quiet_takeNext (s : MemoryQueue) : Quiet s (takeNext s) := by
  unfold takeNext
  split
  · exact .inr rfl
  · split
    · refine .inl fun c => ?_
      unfold handle dispatch
      dsimp only
      split
      · exact congrFun (EventLoop.settled_await _ _ _) _
      · exact congrFun (EventLoop.settled_await _ _ _) _
    · exact .inr rfl

theorem quiet_processJobs (s : MemoryQueue) : Quiet s (processJobs s) := by
  unfold processJobs
  split
  · exact .inl fun _ => rfl
  · exact quiet_takeNext s

theorem loop_bulk (jobs : List Bool) (s : MemoryQueue) : (bulk jobs s).loop = s.loop := by
  induction jobs generalizing s with
  | nil => rfl
  | cons job jobs ih => exact ih (s.enqueue job)

theorem quiet_suspend (s : MemoryQueue) : Quiet s s.suspend := by
  unfold suspend waitUntilProcessed
  split
  · exact .inl fun _ => rfl
  · rename_i hrunning
    exact .inr (Bool.eq_false_of_not_eq_true hrunning)

theorem quiet_settleAwaited (hp : ∀ c, p ≠ .waiting c) (r : JobResult) (s : MemoryQueue) :
    Quiet s (settleAwaited p r s) := by
  unfold settleAwaited
  split
  · exact .inl fun c => EventLoop.settled_settle_of_ne (Ne.symm (hp c)) r
  · exact .inl fun _ => rfl

theorem quiet_turn (s : MemoryQueue) : Quiet s (turn s) := by
  unfold turn
  split
  · rename_i k l hnext
    obtain ⟨_, _, hsettled⟩ := EventLoop.next_eq_some hnext
    cases k with
    | handled n =>
      refine .inl fun c => ?_
      unfold proceed dispatch
      dsimp only
      split
      · dsimp only
        rw [EventLoop.settled_await, hsettled]
      · rw [hsettled]
    | dispatched n =>
      rcases quiet_takeNext { s with loop := l } with hsame | hidle
      · refine .inl fun c => (hsame c).trans ?_
        show l.settled _ = _
        rw [hsettled]
      · exact .inr hidle
    | paused c' =>
      refine .inl fun c => ?_
      have hne : QueuePromise.waiting c ≠ .returned c' := fun h => nomatch h
      show (l.settle (.returned c') .succeeded).settled (.waiting c) = _
      rw [EventLoop.settled_settle_of_ne hne, hsettled]
    | cleared c' =>
      refine .inl fun c => ?_
      show l.settled (.waiting c) = _
      rw [hsettled]
    | adopt c' =>
      refine .inl fun c => ?_
      show (l.await (.waiting c') (.adopted c')).settled (.waiting c) = _
      rw [EventLoop.settled_await, hsettled]
    | adopted c' =>
      refine .inl fun c => ?_
      have hne : QueuePromise.waiting c ≠ .returned c' := fun h => nomatch h
      show (l.settle (.returned c') .succeeded).settled (.waiting c) = _
      rw [EventLoop.settled_settle_of_ne hne, hsettled]
  · exact .inl fun _ => rfl

theorem quiet_perform (s : MemoryQueue) (e : QueueEvent) : Quiet s (s.perform e) := by
  cases e with
  | call c =>
    cases c with
    | push throwsAtOnce => exact quiet_processJobs (s.enqueue throwsAtOnce)
    | bulk jobs =>
      refine .inl fun c => ?_
      show (bulk jobs s).loop.settled (.waiting c) = _
      rw [loop_bulk]
    | start => exact quiet_processJobs { s with started := true }
    | resume => exact quiet_processJobs { s with started := true }
    | pause =>
      rcases quiet_suspend s with hsame | hidle
      · refine .inl fun c => ?_
        show (s.suspend.loop.await _ _).settled (.waiting c) = _
        rw [EventLoop.settled_await]
        exact hsame c
      · exact .inr hidle
    | stop => exact quiet_suspend s
    | clear => exact .inl fun _ => rfl
  | settle n r => exact quiet_settleAwaited (p := .handle n) (fun c h => (nomatch h)) r s
  | dispatched n => exact quiet_settleAwaited (p := .dispatch n) (fun c h => (nomatch h)) _ s
  | turn => exact quiet_turn s

/-- **A promise that `pause` or `stop` waits for** is settled when no job is being handled. -/
theorem waiting_perform (h : s.Sound) {e : QueueEvent} (hc : s.loop.settled (.waiting c) = none)
    (hc' : (s.perform e).loop.settled (.waiting c) ≠ none) : (s.perform e).activations = [] := by
  rcases quiet_perform s e with hsame | hidle
  · exact absurd ((hsame c).trans hc) hc'
  · refine List.eq_nil_of_length_eq_zero ?_
    rw [(h.perform e).activations, hidle]
    rfl

/-! ## 7. How a job ends -/

/-- The same promises are settled, to whatever. -/
structure SameLoop (l l' : EventLoop QueuePromise QueueContinuation JobResult) : Prop where
  jobs : l'.jobs = l.jobs
  reactions : l'.reactions = l.reactions
  settled : ∀ p, l'.settled p = none ↔ l.settled p = none

/-- The same queue, but for the results of jobs. -/
structure SameQueue (s s' : MemoryQueue) : Prop where
  fields : s' = { s with loop := s'.loop, reported := s'.reported }
  loop : SameLoop s.loop s'.loop
  reported : s'.reported.map Prod.fst = s.reported.map Prod.fst

theorem SameLoop.refl (l : EventLoop QueuePromise QueueContinuation JobResult) : SameLoop l l :=
  ⟨rfl, rfl, fun _ => Iff.rfl⟩

theorem SameLoop.enqueue (h : SameLoop l l') (k : QueueContinuation) :
    SameLoop (l.enqueue k) (l'.enqueue k) := by
  refine ⟨?_, h.reactions, h.settled⟩
  rw [EventLoop.jobs_enqueue, EventLoop.jobs_enqueue, h.jobs]

theorem SameLoop.await (h : SameLoop l l') (p : QueuePromise) (k : QueueContinuation) :
    SameLoop (l.await p k) (l'.await p k) := by
  cases hp : l.settled p with
  | none =>
    rw [EventLoop.await_of_pending hp, EventLoop.await_of_pending ((h.settled p).2 hp)]
    exact ⟨h.jobs, congrArg (· ++ [(p, k)]) h.reactions, h.settled⟩
  | some r =>
    cases hp' : l'.settled p with
    | none =>
      rw [(h.settled p).1 hp'] at hp
      cases hp
    | some r' =>
      rw [EventLoop.await_of_settled hp, EventLoop.await_of_settled hp']
      exact h.enqueue k

theorem SameLoop.settle (h : SameLoop l l') (p : QueuePromise) (r r' : JobResult) :
    SameLoop (l.settle p r) (l'.settle p r') := by
  cases hp : l.settled p with
  | none =>
    rw [EventLoop.settle_of_pending hp, EventLoop.settle_of_pending ((h.settled p).2 hp)]
    refine ⟨?_, ?_, fun q => ?_⟩
    · dsimp only
      rw [h.jobs, h.reactions]
    · dsimp only
      rw [h.reactions]
    · dsimp only
      split
      · exact iff_of_false (Option.some_ne_none r') (Option.some_ne_none r)
      · exact h.settled q
  | some x =>
    cases hp' : l'.settled p with
    | none =>
      rw [(h.settled p).1 hp'] at hp
      cases hp
    | some x' =>
      unfold EventLoop.settle
      rw [hp, hp']
      exact h

theorem SameLoop.settleAll (h : SameLoop l l') (ps : List QueuePromise) (r : JobResult) :
    SameLoop (l.settleAll ps r) (l'.settleAll ps r) := by
  induction ps generalizing l l' with
  | nil => exact h
  | cons p ps ih => exact ih (h.settle p r r)

theorem SameQueue.refl (s : MemoryQueue) : SameQueue s s := ⟨rfl, .refl _, rfl⟩

theorem SameQueue.dispatch (h : SameQueue s s') (n : Nat) (r r' : JobResult) :
    SameQueue (dispatch n r s) (dispatch n r' s') := by
  obtain ⟨hfields, hl, hr⟩ := h
  rw [hfields]
  refine ⟨rfl, hl.await _ _, ?_⟩
  unfold MemoryQueue.dispatch
  dsimp only
  rw [List.map_append, List.map_append, hr]
  rfl

theorem SameQueue.handle (h : SameQueue s s') (job : QueuedJob) (rest : List QueuedJob) :
    SameQueue (handle job rest s) (handle job rest s') := by
  obtain ⟨hfields, hl, hr⟩ := h
  rw [hfields]
  have htaken : SameQueue
      { s with running := true, jobs := rest, taken := s.taken ++ [job.number] }
      { s with
        running := true, jobs := rest, taken := s.taken ++ [job.number]
        loop := s'.loop, reported := s'.reported } := ⟨rfl, hl, hr⟩
  unfold MemoryQueue.handle
  dsimp only
  split
  · exact htaken.dispatch _ _ _
  · exact ⟨rfl, hl.await _ _, hr⟩

theorem SameQueue.endLoop (h : SameQueue s s') : SameQueue (endLoop s) (endLoop s') := by
  obtain ⟨hfields, hl, hr⟩ := h
  rw [hfields]
  exact ⟨rfl, hl.settleAll _ _, hr⟩

theorem SameQueue.takeNext (h : SameQueue s s') : SameQueue (takeNext s) (takeNext s') := by
  have hjobs : s'.jobs = s.jobs := by rw [h.fields]
  have hstarted : s'.started = s.started := by rw [h.fields]
  unfold MemoryQueue.takeNext
  rw [hjobs, hstarted]
  split
  · exact h.endLoop
  · split
    · exact h.handle _ _
    · exact h.endLoop

theorem SameQueue.processJobs (h : SameQueue s s') :
    SameQueue (processJobs s) (processJobs s') := by
  have hrunning : s'.running = s.running := by rw [h.fields]
  unfold MemoryQueue.processJobs
  rw [hrunning]
  split
  · exact h
  · exact h.takeNext

theorem SameQueue.enqueue (h : SameQueue s s') (throwsAtOnce : Bool) :
    SameQueue (s.enqueue throwsAtOnce) (s'.enqueue throwsAtOnce) := by
  obtain ⟨hfields, hl, hr⟩ := h
  rw [hfields]
  exact ⟨rfl, hl, hr⟩

theorem SameQueue.bulk (h : SameQueue s s') (jobs : List Bool) :
    SameQueue (bulk jobs s) (bulk jobs s') := by
  induction jobs generalizing s s' with
  | nil => exact h
  | cons job jobs ih => exact ih (h.enqueue job)

theorem SameQueue.start (h : SameQueue s s') : SameQueue (start s) (start s') := by
  obtain ⟨hfields, hl, hr⟩ := h
  have hs : SameQueue { s with started := true } { s' with started := true } := by
    rw [hfields]
    exact ⟨rfl, hl, hr⟩
  exact hs.processJobs

theorem SameQueue.suspend (h : SameQueue s s') : SameQueue s.suspend s'.suspend := by
  obtain ⟨hfields, hl, hr⟩ := h
  rw [hfields]
  unfold MemoryQueue.suspend waitUntilProcessed
  dsimp only
  split
  · exact ⟨rfl, hl, hr⟩
  · exact ⟨rfl, hl.settle _ _ _, hr⟩

theorem SameQueue.call (h : SameQueue s s') (c : QueueCall) :
    SameQueue (call c s) (call c s') := by
  have hcalls : s'.calls = s.calls := by rw [h.fields]
  cases c with
  | push throwsAtOnce => exact (h.enqueue throwsAtOnce).processJobs
  | bulk jobs => exact h.bulk jobs
  | start => exact h.start
  | resume => exact h.start
  | pause =>
    obtain ⟨hfields, hl, hr⟩ := h.suspend
    unfold MemoryQueue.call MemoryQueue.pause
    dsimp only
    rw [hcalls, hfields]
    exact ⟨rfl, hl.await _ _, hr⟩
  | stop =>
    obtain ⟨hfields, hl, hr⟩ := h.suspend
    unfold MemoryQueue.call MemoryQueue.stop
    dsimp only
    rw [hcalls, hfields]
    exact ⟨rfl, hl.enqueue _, hr⟩
  | clear =>
    obtain ⟨hfields, hl, hr⟩ := h
    rw [hfields]
    exact ⟨rfl, hl, hr⟩

theorem SameQueue.settleAwaited (h : SameQueue s s') (p : QueuePromise) (r r' : JobResult) :
    SameQueue (settleAwaited p r s) (settleAwaited p r' s') := by
  unfold MemoryQueue.settleAwaited
  rw [h.loop.reactions]
  split
  · obtain ⟨hfields, hl, hr⟩ := h
    rw [hfields]
    exact ⟨rfl, hl.settle p r r', hr⟩
  · exact h

theorem SameQueue.proceed (h : SameQueue s s') (k : QueueContinuation) :
    SameQueue (proceed k s) (proceed k s') := by
  have hfields := h.fields
  have hl := h.loop
  have hr := h.reported
  cases k with
  | handled n =>
    have hsettled := h.loop.settled (.handle n)
    unfold MemoryQueue.proceed
    dsimp only
    cases hs : s.loop.settled (.handle n) with
    | none =>
      rw [hsettled.2 hs]
      exact h
    | some r =>
      cases hs' : s'.loop.settled (.handle n) with
      | none =>
        rw [hsettled.1 hs'] at hs
        cases hs
      | some r' => exact h.dispatch n r r'
  | dispatched n => exact h.takeNext
  | paused c =>
    rw [hfields]
    exact ⟨rfl, hl.settle _ _ _, hr⟩
  | cleared c =>
    rw [hfields]
    exact ⟨rfl, hl.enqueue _, hr⟩
  | adopt c =>
    rw [hfields]
    exact ⟨rfl, hl.await _ _, hr⟩
  | adopted c =>
    rw [hfields]
    exact ⟨rfl, hl.settle _ _ _, hr⟩

theorem SameQueue.turn (h : SameQueue s s') : SameQueue (turn s) (turn s') := by
  have hjobs := h.loop.jobs
  unfold MemoryQueue.turn EventLoop.next
  rw [hjobs]
  cases s.loop.jobs with
  | nil => exact h
  | cons k ks =>
    dsimp only
    refine SameQueue.proceed ?_ k
    obtain ⟨hfields, hl, hr⟩ := h
    rw [hfields]
    exact ⟨rfl, ⟨rfl, hl.reactions, hl.settled⟩, hr⟩

/-- The same events, but for the results of jobs. -/
inductive SameEvent : QueueEvent → QueueEvent → Prop
  | same (e : QueueEvent) : SameEvent e e
  | result (n : Nat) (r r' : JobResult) : SameEvent (.settle n r) (.settle n r')

theorem SameQueue.perform {e e' : QueueEvent} (h : SameQueue s s') (he : SameEvent e e') :
    SameQueue (s.perform e) (s'.perform e') := by
  cases he with
  | result n r r' => exact h.settleAwaited (.handle n) r r'
  | same =>
    cases e with
    | call c => exact h.call c
    | settle n r => exact h.settleAwaited (.handle n) r r
    | dispatched n => exact h.settleAwaited (.dispatch n) _ _
    | turn => exact h.turn

/-- **How jobs end** makes no difference to the queue. -/
theorem sameQueue_afterEvents {events events' : List QueueEvent}
    (h : List.Forall₂ SameEvent events events') :
    SameQueue (afterEvents events) (afterEvents events') := by
  have hrun : ∀ s s' : MemoryQueue, SameQueue s s' →
      SameQueue (events.foldl MemoryQueue.perform s) (events'.foldl MemoryQueue.perform s') := by
    induction h with
    | nil => exact fun s s' hs => hs
    | cons he _ ih => exact fun s s' hs => ih _ _ (hs.perform he)
  exact hrun new new (.refl new)

/-! ## 8. The result -/

/-- What is promised of a queue after some events. -/
structure Disciplined (events : List QueueEvent) : Prop where
  /-- From the call of `handle` until the event behind it has been dispatched, a job is alone. -/
  oneAtATime : (afterEvents events).activations.length ≤ 1
  alone : ∀ n m, (afterEvents events).Handling n → (afterEvents events).Handling m → n = m
  /-- Jobs are taken in the order in which they were queued, and none twice. -/
  inOrder : ((afterEvents events).taken ++ (afterEvents events).waiting).Pairwise (· < ·)
  /-- A job that has been queued has been taken, is in the queue, or has been dropped. -/
  accounted : ((afterEvents events).taken ++ (afterEvents events).waiting ++
    (afterEvents events).dropped).Perm (List.range (afterEvents events).queued)
  /-- Jobs are dropped by `clear` and `stop` only. -/
  kept : ∀ e : QueueEvent, e.clears = false →
    ((afterEvents events).perform e).dropped = (afterEvents events).dropped
  /-- When a job is done the next one is taken. -/
  next : ∀ n l job rest, (afterEvents events).loop.next = some (.dispatched n, l) →
    (afterEvents events).started = true → (afterEvents events).jobs = job :: rest →
    ((afterEvents events).perform .turn).taken = (afterEvents events).taken ++ [job.number]
  /-- All that has been said does not depend on how jobs end. -/
  results : ∀ events', List.Forall₂ SameEvent events events' →
    SameQueue (afterEvents events) (afterEvents events')
  /-- What `pause` and `stop` wait for is settled while no job is being handled. -/
  waits : ∀ (e : QueueEvent) c, (afterEvents events).loop.settled (.waiting c) = none →
    ((afterEvents events).perform e).loop.settled (.waiting c) ≠ none →
    ((afterEvents events).perform e).activations = []
  /-- They return after that. -/
  returns : ∀ c, (afterEvents events).loop.settled (.returned c) ≠ none →
    (afterEvents events).loop.settled (.waiting c) ≠ none

theorem taken_handle (job : QueuedJob) (rest : List QueuedJob) (s : MemoryQueue) :
    (handle job rest s).taken = s.taken ++ [job.number] := by
  unfold handle
  dsimp only
  split <;> rfl

/-- The turn behind the event of a job. -/
theorem taken_turn {job : QueuedJob} {rest : List QueuedJob}
    (hnext : s.loop.next = some (.dispatched n, l)) (hstarted : s.started = true)
    (hjobs : s.jobs = job :: rest) : (turn s).taken = s.taken ++ [job.number] := by
  have hturn : turn s = takeNext { s with loop := l } := by
    unfold turn
    rw [hnext]
    rfl
  rw [hturn]
  unfold takeNext
  dsimp only
  rw [hjobs]
  dsimp only
  rw [if_pos hstarted, taken_handle]

theorem Sound.length_activations (h : s.Sound) : s.activations.length ≤ 1 := by
  rw [h.activations]
  split
  · exact Nat.le_refl 1
  · exact Nat.zero_le 1

theorem Handling.mem_activations (h : s.Handling n) : .handled n ∈ s.activations := by
  refine List.mem_filter.2 ⟨?_, rfl⟩
  exact List.mem_append_right _ (List.mem_map.2 ⟨_, h, rfl⟩)

/-- One job at a time. -/
theorem Sound.alone (h : s.Sound) {m : Nat} (hn : s.Handling n) (hm : s.Handling m) : n = m := by
  have hmem := hn.mem_activations
  have hmem' := hm.mem_activations
  have hlength := h.length_activations
  rcases hs : s.activations with _ | ⟨k, _ | ⟨k', ks⟩⟩
  · rw [hs] at hmem
    cases hmem
  · rw [hs] at hmem hmem'
    exact QueueContinuation.handled.inj
      ((List.mem_singleton.1 hmem).trans (List.mem_singleton.1 hmem').symm)
  · rw [hs, List.length_cons, List.length_cons] at hlength
    omega

/-- **The queue keeps its discipline**, whatever happens. -/
theorem queue_disciplined (events : List QueueEvent) : Disciplined events := by
  have h := sound_afterEvents events
  exact ⟨h.length_activations, fun n m => h.alone, h.order, h.accounted,
    fun e he => dropped_perform he _, fun n l job rest => taken_turn, fun events' hevents => sameQueue_afterEvents hevents,
    fun e c => waiting_perform h, h.returned⟩

/-- **A queue that is resumed** at once: `pause` returns when the next job is being handled. -/
theorem queue_returned_not :
    ¬∀ (events : List QueueEvent) (e : QueueEvent) (c : Nat),
      (afterEvents events).loop.settled (.returned c) = none →
      ((afterEvents events).perform e).loop.settled (.returned c) ≠ none →
      ∀ n, ¬((afterEvents events).perform e).Handling n := by
  intro h
  exact h [.call (.bulk [false]), .call .pause, .call .resume] .turn 0 (by decide) (by decide) 0
    (by decide)

end MemoryQueue

end CoreEx
