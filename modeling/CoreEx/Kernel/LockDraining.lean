/-
  File:      CoreEx/Kernel/LockDraining.lean
  Subject:   The jobs of a lock come to an end, and what is left then.

  A job queues at most one job of a lower rank, with two exceptions. The end of an exclusive promise
  queues all that wait for it, but only a callback that settles brings such a job about. A call that
  finds the lock taken by one that is at its end waits again, but behind the job that gives it back.

  * `rank` -- the measure, in four components;
  * `rank_runNext` -- every job takes it down;
  * **`exists_runNext_drained`** -- after some number of jobs there is none;
  * `exclusive_of_drained`, `nonExclusive_of_drained` -- with no callback running, the lock is free;
  * **`Resting.done_of_drained`** -- and all calls have their results.
-/
import CoreEx.Kernel.LockPhases
import Mathlib.Algebra.GroupWithZero.Nat
import Mathlib.Data.Prod.Lex

namespace CoreEx

namespace Lock

variable {R : Type}

/-! ## 1. The measure -/

/-- The job settles an exclusive promise. -/
def settles : LockJob → Bool
  | .returned _ => true
  | _ => false

/-- The job is a call at the condition of its loop. -/
def retries : LockJob → Bool
  | .retry _ => true
  | _ => false

/-- How many jobs follow from one of the others, itself included. -/
def weight : LockJob → Nat
  | .observed _ => 3
  | .counted _ => 2
  | .begin _ => 1
  | .finish _ => 1
  | .retry _ => 0
  | .returned _ => 0

/-- How many jobs there are before the one that gives the lock back, if its time has come. -/
def distance (s : Lock R) : Nat :=
  match s.exclusivePromise with
  | none => 0
  | some e =>
    match s.loop.settled (.exclusive e) with
    | none => 0
    | some _ => s.loop.jobs.idxOf (.finish e)

/-- The measure. -/
def rank (s : Lock R) : Nat × Nat × Nat × Nat :=
  (s.loop.jobs.countP settles, s.loop.jobs.countP retries, (s.loop.jobs.map weight).sum, s.distance)

/-- Its order. -/
def RankLess : Nat × Nat × Nat × Nat → Nat × Nat × Nat × Nat → Prop :=
  Prod.Lex (· < ·) (Prod.Lex (· < ·) (Prod.Lex (· < ·) (· < ·)))

theorem rankLess_wf : WellFounded RankLess :=
  WellFounded.prod_lex Nat.lt_wfRel.wf
    (WellFounded.prod_lex Nat.lt_wfRel.wf (WellFounded.prod_lex Nat.lt_wfRel.wf Nat.lt_wfRel.wf))

variable {s t : Lock R} {phase : Nat → Phase R} {i : Nat} {job : LockJob} {rest added : List LockJob}

theorem distance_eq {e : Nat} {r : R} (he : s.exclusivePromise = some e)
    (hsettled : s.loop.settled (.exclusive e) = some r) :
    s.distance = s.loop.jobs.idxOf (.finish e) := by
  unfold distance
  rw [he]
  dsimp only
  rw [hsettled]

/-- A job that settles a promise is one less. -/
theorem rankLess_of_settles (hs : s.loop.jobs = job :: rest) (ht : t.loop.jobs = rest ++ added)
    (hjob : settles job = true) (hadded : ∀ k ∈ added, settles k = false) :
    RankLess t.rank s.rank := by
  have hnone : added.countP settles = 0 :=
    List.countP_eq_zero.2 fun k hk => Bool.not_eq_true _ ▸ hadded k hk
  refine Prod.Lex.left _ _ ?_
  rw [hs, ht, List.countP_append, hnone, List.countP_cons_of_pos hjob]
  exact Nat.lt_succ_self _

/-- A call that enters is one less. -/
theorem rankLess_of_retries (hs : s.loop.jobs = job :: rest) (ht : t.loop.jobs = rest ++ added)
    (hjob : retries job = true) (hadded : ∀ k ∈ added, settles k = false ∧ retries k = false) :
    RankLess t.rank s.rank := by
  have hsettles : added.countP settles = 0 :=
    List.countP_eq_zero.2 fun k hk => Bool.not_eq_true _ ▸ (hadded k hk).1
  have hretries : added.countP retries = 0 :=
    List.countP_eq_zero.2 fun k hk => Bool.not_eq_true _ ▸ (hadded k hk).2
  have hnot : ¬settles job = true := by
    cases job <;> first | exact Bool.false_ne_true | cases hjob
  unfold rank
  rw [hs, ht, List.countP_append, hsettles, List.countP_cons_of_neg hnot, List.countP_append,
    hretries, List.countP_cons_of_pos hjob]
  exact Prod.Lex.right _ (Prod.Lex.left _ _ (Nat.lt_succ_self _))

/-- Any other job queues less than itself. -/
theorem rankLess_of_weight (hs : s.loop.jobs = job :: rest) (ht : t.loop.jobs = rest ++ added)
    (hjob : settles job = false ∧ retries job = false)
    (hadded : ∀ k ∈ added, settles k = false ∧ retries k = false)
    (hweight : (added.map weight).sum < weight job) : RankLess t.rank s.rank := by
  have hsettles : added.countP settles = 0 :=
    List.countP_eq_zero.2 fun k hk => Bool.not_eq_true _ ▸ (hadded k hk).1
  have hretries : added.countP retries = 0 :=
    List.countP_eq_zero.2 fun k hk => Bool.not_eq_true _ ▸ (hadded k hk).2
  unfold rank
  rw [hs, ht, List.countP_append, hsettles,
    List.countP_cons_of_neg (Bool.not_eq_true _ ▸ hjob.1), List.countP_append, hretries,
    List.countP_cons_of_neg (Bool.not_eq_true _ ▸ hjob.2)]
  refine Prod.Lex.right _ (Prod.Lex.right _ (Prod.Lex.left _ _ ?_))
  rw [List.map_append, List.sum_append, List.map_cons, List.sum_cons]
  omega

/-! ## 2. Every job -/

/-- **The call that is at its end** is in the queue. -/
theorem Sound.finish_mem {e : Nat} (h : s.Sound phase) (he : s.exclusivePromise = some e)
    (hsettled : s.loop.settled (.exclusive e) ≠ none) : .finish e ∈ s.loop.jobs := by
  have howner : (s.view e).owner = true := decide_eq_true he
  have hexclusive : (s.view e).exclusive ≠ none := hsettled
  have hview := h.views e
  rw [hview] at howner hexclusive
  have hfinishes : (s.view e).finishes = 1 ∧ (s.view e).kind = some .exclusive := by
    rw [hview]
    cases hphase : phase e with
    | running kind => cases kind <;> rw [hphase] at hexclusive <;> exact absurd rfl hexclusive
    | ending kind r =>
      cases kind with
      | exclusive => exact ⟨rfl, rfl⟩
      | nonExclusive => rw [hphase] at hexclusive; exact absurd rfl hexclusive
    | done kind r => cases kind <;> rw [hphase] at howner <;> cases howner
    | _ => rw [hphase] at hexclusive; exact absurd rfl hexclusive
  have hmem : .finish e ∈ s.loop.continuations :=
    List.count_pos_iff.1 (Nat.lt_of_lt_of_eq Nat.one_pos hfinishes.1.symm)
  rcases List.mem_append.1 hmem with hmem | hmem
  · exact hmem
  · obtain ⟨⟨p, k⟩, hmem, rfl⟩ := List.mem_map.1 hmem
    have hp : p = s.ownPromise e := h.placed p _ hmem
    unfold ownPromise at hp
    rw [if_pos (show s.kinds[e]? = some .exclusive from hfinishes.2)] at hp
    rw [hp] at hmem
    exact absurd (h.tidy _ _ hmem) hsettled

/-- A call that finds the lock taken. -/
theorem rank_wait {e : Nat} {l : EventLoop LockPromise LockJob R} (h : s.Sound phase)
    (hnext : s.loop.next = some (.retry i, l)) (he : s.exclusivePromise = some e) :
    RankLess ({ s with loop := l.await (.exclusive e) (.retry i) } : Lock R).rank s.rank := by
  obtain ⟨hjobs, _, hloop⟩ := EventLoop.next_eq_some hnext
  cases hsettled : l.settled (.exclusive e) with
  | none =>
    have hsame := EventLoop.jobs_await_of_pending hsettled (LockJob.retry i)
    rw [← List.append_nil l.jobs] at hsame
    exact rankLess_of_retries hjobs hsame rfl fun k hk => (nomatch hk)
  | some r =>
    have hdone : s.loop.settled (.exclusive e) = some r := hloop ▸ hsettled
    have hmem := h.finish_mem he (by rw [hdone]; exact Option.some_ne_none r)
    rw [hjobs] at hmem
    have hrest : .finish e ∈ l.jobs :=
      (List.mem_cons.1 hmem).resolve_left fun heq => (nomatch heq)
    let t : Lock R := { s with loop := l.enqueue (.retry i) }
    have hafter : t.distance = l.jobs.idxOf (.finish e) :=
      (distance_eq (s := t) he hsettled).trans (List.idxOf_append_of_mem hrest)
    have hbefore : s.distance = l.jobs.idxOf (.finish e) + 1 := by
      rw [distance_eq he hdone, hjobs]
      exact List.idxOf_cons_ne _ fun heq => (nomatch heq)
    have htjobs : t.loop.jobs = l.jobs ++ [LockJob.retry i] := rfl
    rw [EventLoop.await_of_settled hsettled]
    show RankLess t.rank s.rank
    -- the queue is the same but for the order
    have hperm := List.perm_append_singleton (LockJob.retry i) l.jobs
    unfold rank
    rw [hafter, hbefore, hjobs, htjobs, hperm.countP_eq settles, hperm.countP_eq retries,
      (hperm.map weight).sum_nat]
    exact Prod.Lex.right _ (Prod.Lex.right _ (Prod.Lex.right _ (Nat.lt_succ_self _)))

/-- A call that finds it free. -/
theorem rank_enter {l : EventLoop LockPromise LockJob R} (h : s.Sound phase)
    (hnext : s.loop.next = some (.retry i, l)) (he : s.exclusivePromise = none) :
    RankLess (Lock.enter i { s with loop := l }).rank s.rank := by
  obtain ⟨hjobs, _, _⟩ := EventLoop.next_eq_some hnext
  let t : Lock R := { s with loop := l }
  obtain ⟨kind, _, hblank⟩ := phase_of_retry (h.pop hnext).self
  have hview : t.view i = blank (some kind) := hblank
  have hkind : t.kinds[i]? = some kind := congrArg View.kind hview
  have hcallback : l.settled (.callback i) = none := congrArg View.callback hview
  have hexclusive : l.settled (.exclusive i) = none := congrArg View.exclusive hview
  cases kind with
  | nonExclusive =>
    rw [enter_nonExclusive (s := t) he hkind]
    have hsame := EventLoop.jobs_await_of_pending hcallback (LockJob.finish i)
    rw [← List.append_nil l.jobs] at hsame
    exact rankLess_of_retries hjobs hsame rfl fun k hk => (nomatch hk)
  | exclusive =>
    rw [enter_exclusive (s := t) he hkind]
    have hadded : ∃ added, (t.awaitNonExclusive i).jobs = l.jobs ++ added ∧
        (t.awaitNonExclusive i).settled = l.settled ∧
        ∀ k ∈ added, settles k = false ∧ retries k = false := by
      unfold awaitNonExclusive
      split
      · exact ⟨[.begin i], rfl, rfl, fun k hk => List.mem_singleton.1 hk ▸ ⟨rfl, rfl⟩⟩
      · obtain ⟨n, hn⟩ := EventLoop.jobs_awaitAll
          (t.nonExclusivePromises.map LockPromise.callback) (.observed i) l
        exact ⟨_, hn, EventLoop.settled_awaitAll _ _ _,
          fun k hk => List.eq_of_mem_replicate hk ▸ ⟨rfl, rfl⟩⟩
    obtain ⟨added, hawait, hsettled, hadded⟩ := hadded
    rw [← hsettled] at hexclusive
    have hsame := EventLoop.jobs_await_of_pending hexclusive (LockJob.finish i)
    exact rankLess_of_retries hjobs (hsame.trans hawait) rfl hadded

/-- **Every job** takes the measure down. -/
theorem rank_runNext (h : s.Resting phase) (hne : s.loop.jobs ≠ []) :
    RankLess s.runNext.rank s.rank := by
  unfold runNext
  split
  · rename_i job l hnext
    obtain ⟨hjobs, _, hloop⟩ := EventLoop.next_eq_some hnext
    have hpopped := h.toSound.pop hnext
    have hnil : l.jobs = l.jobs ++ [] := (List.append_nil _).symm
    cases job with
    | retry i =>
      rcases Option.eq_none_or_eq_some s.exclusivePromise with he | ⟨e, he⟩
      · exact rank_enter h.toSound hnext he
      · rw [runJob, enter_taken (s := { s with loop := l }) he i]
        exact rank_wait h.toSound hnext he
    | observed i =>
      have hsame : (l.enqueue (.counted i)).jobs = l.jobs ++ [.counted i] := rfl
      refine rankLess_of_weight hjobs hsame ⟨rfl, rfl⟩ ?_ (Nat.lt_succ_self 2)
      exact fun k hk => List.mem_singleton.1 hk ▸ ⟨rfl, rfl⟩
    | counted i =>
      unfold runJob count
      dsimp only
      split
      · have hsame : (l.enqueue (.begin i)).jobs = l.jobs ++ [.begin i] := rfl
        refine rankLess_of_weight hjobs hsame ⟨rfl, rfl⟩ ?_ (Nat.lt_succ_self 1)
        exact fun k hk => List.mem_singleton.1 hk ▸ ⟨rfl, rfl⟩
      · exact rankLess_of_weight hjobs hnil ⟨rfl, rfl⟩ (fun k hk => (nomatch hk)) Nat.two_pos
    | begin i =>
      obtain ⟨_, hready⟩ := phase_of_begin hpopped.self
      have hcallback : l.settled (.callback i) = none := congrArg View.callback hready
      have hsame := EventLoop.jobs_await_of_pending hcallback (LockJob.returned i)
      exact rankLess_of_weight hjobs (hsame.trans hnil) ⟨rfl, rfl⟩ (fun k hk => (nomatch hk))
        Nat.one_pos
    | returned i =>
      obtain ⟨r, _, hreturning⟩ := phase_of_returned hpopped.self hpopped.dueJob
      have hcallback : l.settled (.callback i) = some r := congrArg View.callback hreturning
      have hexclusive : l.settled (.exclusive i) = none := congrArg View.exclusive hreturning
      have hsame : (l.settle (.exclusive i) r).jobs =
          l.jobs ++ (l.reactions.filter (·.1 = .exclusive i)).map Prod.snd := by
        rw [EventLoop.settle_of_pending hexclusive]
      unfold runJob returned
      dsimp only
      rw [hcallback]
      refine rankLess_of_settles hjobs hsame rfl fun k hk => ?_
      -- only its own callback settling makes an exclusive call return
      obtain ⟨⟨p, k'⟩, hmem, rfl⟩ := List.mem_map.1 hk
      obtain ⟨hreaction, hp⟩ := List.mem_filter.1 hmem
      have hplaced := hpopped.placed p k' hreaction
      have hexcl : p = .exclusive i := of_decide_eq_true hp
      cases k' with
      | returned j =>
        have hcall : p = .callback j := hplaced
        rw [hexcl] at hcall
        cases hcall
      | _ => rfl
    | finish i =>
      exact rankLess_of_weight hjobs hnil ⟨rfl, rfl⟩ (fun k hk => (nomatch hk)) Nat.one_pos
  · rename_i hnext
    exact absurd (EventLoop.next_eq_none hnext) hne

/-- **After some number of jobs there is none.** -/
theorem exists_runNext_drained (s : Lock R) (h : ∃ phase, s.Resting phase) :
    ∃ n, (runNext^[n] s).loop.jobs = [] := by
  have hkeep : ∀ t : Lock R, (∃ phase, t.Resting phase) → ∃ phase, t.runNext.Resting phase := by
    intro t ht
    obtain ⟨phase, ht⟩ := ht
    exact ht.runNext
  have hless : ∀ t : Lock R, (∃ phase, t.Resting phase) → ¬t.loop.jobs = [] →
      RankLess t.runNext.rank t.rank := by
    intro t ht hne
    obtain ⟨phase, ht⟩ := ht
    exact rank_runNext ht hne
  have hdrained := EventLoop.exists_drained rankLess_wf rank hkeep hless s h
  exact hdrained

/-! ## 3. What is left -/

/-- With no job, a continuation waits for a promise that is pending. -/
theorem Sound.reaction (h : s.Sound phase) (hjobs : s.loop.jobs = []) {k : LockJob}
    (hpos : 0 < s.copies k) : ∃ p, s.Placed p k ∧ s.loop.settled p = none := by
  have hmem : k ∈ s.loop.jobs ++ s.loop.reactions.map Prod.snd := List.count_pos_iff.1 hpos
  rw [hjobs, List.nil_append] at hmem
  obtain ⟨⟨p, k'⟩, hreaction, rfl⟩ := List.mem_map.1 hmem
  exact ⟨p, h.placed p k' hreaction, h.tidy p k' hreaction⟩

/-- A callback runs in its phase. -/
theorem Sound.running_of_phase {kind : LockKind} (h : s.Sound phase)
    (hphase : phase i = .running kind) : s.Running i := by
  have hview := h.views i
  rw [hphase] at hview
  have hstarts : s.started.count i = 1 := by
    refine (congrArg View.starts hview).trans ?_
    cases kind <;> rfl
  have hcallback : s.loop.settled (.callback i) = none := by
    refine (congrArg View.callback hview).trans ?_
    cases kind <;> rfl
  exact ⟨List.count_pos_iff.1 (by omega), hcallback⟩

/-- A promise in the set is that of a callback that runs, or that has just settled. -/
theorem Sound.phase_of_member (h : s.Sound phase) (hi : i ∈ s.nonExclusivePromises) :
    phase i = .running .nonExclusive ∨ ∃ r, phase i = .ending .nonExclusive r := by
  have hpos : 0 < (s.view i).member := List.count_pos_iff.2 hi
  rw [h.views] at hpos
  cases hphase : phase i with
  | running kind =>
    cases kind with
    | exclusive => rw [hphase] at hpos; exact absurd hpos (Nat.lt_irrefl 0)
    | nonExclusive => exact .inl rfl
  | ending kind r =>
    cases kind with
    | exclusive => rw [hphase] at hpos; exact absurd hpos (Nat.lt_irrefl 0)
    | nonExclusive => exact .inr ⟨r, rfl⟩
  | done kind r => cases kind <;> rw [hphase] at hpos <;> exact absurd hpos (Nat.lt_irrefl 0)
  | _ => rw [hphase] at hpos; exact absurd hpos (Nat.lt_irrefl 0)

section Drained

variable (h : s.Sound phase) (hjobs : s.loop.jobs = []) (hrunning : ∀ i, ¬s.Running i)
include h hjobs

/-- A callback of the other kind that has settled has been taken out of the set. -/
theorem not_ending_of_drained {r : R} : phase i ≠ .ending .nonExclusive r := by
  intro hphase
  have hview := h.views i
  rw [hphase] at hview
  have hkind : s.kinds[i]? = some .nonExclusive := congrArg View.kind hview
  have hcallback : s.loop.settled (.callback i) = some r := congrArg View.callback hview
  have hfinishes : s.copies (.finish i) = 1 := congrArg View.finishes hview
  obtain ⟨p, hp, hnone⟩ := h.reaction hjobs (k := .finish i) (by omega)
  have hown : p = s.ownPromise i := hp
  unfold ownPromise at hown
  rw [if_neg (by rw [hkind]; intro heq; cases heq)] at hown
  rw [hown, hcallback] at hnone
  cases hnone

include hrunning

theorem nonExclusive_of_drained : s.nonExclusivePromises = [] := by
  refine List.eq_nil_iff_forall_not_mem.2 fun i hi => ?_
  rcases h.phase_of_member hi with hphase | ⟨r, hphase⟩
  · exact hrunning i (h.running_of_phase hphase)
  · exact not_ending_of_drained h hjobs hphase

theorem exclusive_of_drained : s.exclusivePromise = none := by
  refine Option.eq_none_iff_forall_ne_some.2 fun e he => ?_
  have howner : (s.view e).owner = true := decide_eq_true he
  have hview := h.views e
  rw [hview] at howner
  cases hphase : phase e with
  | gathering n =>
    rw [hphase] at hview
    have hgathering : s.copies (.observed e) + s.copies (.counted e) = n + 1 :=
      congrArg View.gathering hview
    by_cases hobserved : 0 < s.copies (.observed e)
    · obtain ⟨p, ⟨w, hw, _⟩, _⟩ := h.reaction hjobs hobserved
      rw [nonExclusive_of_drained h hjobs hrunning] at hw
      cases hw
    · obtain ⟨p, hp, _⟩ := h.reaction hjobs (k := .counted e) (by omega)
      exact hp
  | ready =>
    rw [hphase] at hview
    have hbegins : s.copies (.begin e) = 1 := congrArg View.begins hview
    obtain ⟨p, hp, _⟩ := h.reaction hjobs (k := .begin e) (by omega)
    exact hp
  | running kind => exact hrunning e (h.running_of_phase hphase)
  | returning r =>
    rw [hphase] at hview
    have hreturns : s.copies (.returned e) = 1 := congrArg View.returns hview
    have hcallback : s.loop.settled (.callback e) = some r := congrArg View.callback hview
    obtain ⟨p, hp, hnone⟩ := h.reaction hjobs (k := .returned e) (by omega)
    have hcall : p = .callback e := hp
    rw [hcall, hcallback] at hnone
    cases hnone
  | ending kind r =>
    cases kind with
    | exclusive =>
      rw [hphase] at hview
      have hexclusive : s.loop.settled (.exclusive e) = some r := congrArg View.exclusive hview
      have hmem := h.finish_mem he (by rw [hexclusive]; exact Option.some_ne_none r)
      rw [hjobs] at hmem
      cases hmem
    | nonExclusive => rw [hphase] at howner; cases howner
  | done kind r => cases kind <;> rw [hphase] at howner <;> cases howner
  | _ => rw [hphase] at howner; cases howner

end Drained

/-- **With no job and no callback running** every call has its result. -/
theorem Resting.done_of_drained (h : s.Resting phase) (hjobs : s.loop.jobs = [])
    (hrunning : ∀ i, ¬s.Running i) (hi : i < s.kinds.length) :
    ∃ kind r, phase i = .done kind r := by
  have hexclusive := exclusive_of_drained h.toSound hjobs hrunning
  have hview := h.views i
  have hnot : (expected (phase i)).owner = true → False := by
    intro howner
    rw [← hview] at howner
    have hsome : s.exclusivePromise = some i := of_decide_eq_true howner
    rw [hexclusive] at hsome
    cases hsome
  have hkind : (s.view i).kind = some s.kinds[i] := List.getElem?_eq_getElem hi
  rw [hview] at hkind
  cases hphase : phase i with
  | done kind r => exact ⟨kind, r, rfl⟩
  | fresh => rw [hphase] at hkind; cases hkind
  | entering kind => exact absurd hphase (h.left i kind)
  | waiting kind =>
    rw [hphase] at hview
    have hretries : s.copies (.retry i) = 1 := congrArg View.retries hview
    obtain ⟨p, ⟨e, he, _⟩, _⟩ := h.toSound.reaction hjobs (k := .retry i) (by omega)
    rw [hexclusive] at he
    cases he
  | running kind => exact absurd (h.toSound.running_of_phase hphase) (hrunning i)
  | ending kind r =>
    cases kind with
    | exclusive => rw [hphase] at hnot; exact (hnot rfl).elim
    | nonExclusive => exact absurd hphase (not_ending_of_drained h.toSound hjobs)
  | _ => rw [hphase] at hnot; exact (hnot rfl).elim

end Lock

end CoreEx
