/-
  File:      CoreEx/Properties/LockExclusion.lean
  Subject:   A lock under any interleaving of calls, jobs and callbacks that settle.

  * `Disciplined` -- what the lock owes its callers;
  * `Resting.exclusion`, `Resting.once`, `Resting.delivery` -- its parts, from the phases;
  * **`lock_disciplined`** -- after all events.
-/
import CoreEx.Kernel.LockDraining

namespace CoreEx

namespace Lock

variable {R : Type} {s : Lock R} {phase : Nat → Phase R} {i j : Nat}

/-- **What the lock owes its callers.** An exclusive callback runs alone. No callback is called
    twice, and what a caller gets is what its callback settled to. No entry outlives its call. The
    jobs come to an end, and when there is none and no callback runs, the lock is free and every call
    has been served. -/
structure Disciplined (s : Lock R) : Prop where
  exclusion : ∀ i j, s.kinds[i]? = some .exclusive → s.Running i → s.Running j → i = j
  once : s.started.Nodup
  delivery : ∀ i r, s.delivered i = some r →
    i ∈ s.started ∧ s.loop.settled (.callback i) = some r
  entries : ∀ i, s.exclusivePromise = some i ∨ i ∈ s.nonExclusivePromises → s.delivered i = none
  drains : ∃ n, (runNext^[n] s).loop.jobs = []
  admits : s.loop.jobs = [] → (∀ i, ¬s.Running i) →
    s.exclusivePromise = none ∧ s.nonExclusivePromises = [] ∧
      ∀ i, i < s.kinds.length → i ∈ s.started ∧
        ∃ r, s.loop.settled (.callback i) = some r ∧ s.delivered i = some r

/-! ## 1. From the phases -/

/-- **Mutual exclusion.** The call that runs alone has the lock, and it has started only because
    every callback in the set has settled. -/
theorem Resting.exclusion (h : s.Resting phase) (hkind : s.kinds[i]? = some .exclusive)
    (hi : s.Running i) (hj : s.Running j) : i = j := by
  obtain ⟨kind, hphase⟩ := h.toSound.phase_running hi
  have hview := h.views i
  rw [hphase] at hview
  obtain rfl : kind = .exclusive := by
    have hsome : some kind = some LockKind.exclusive := by
      rw [← hkind]
      refine Eq.trans ?_ (congrArg View.kind hview).symm
      cases kind <;> rfl
    exact Option.some.inj hsome
  have hi' : s.exclusivePromise = some i := of_decide_eq_true (congrArg View.owner hview)
  have hstarts : s.started.count i = 1 := congrArg View.starts hview
  obtain ⟨kind', hphase'⟩ := h.toSound.phase_running hj
  have hview' := h.views j
  rw [hphase'] at hview'
  cases kind' with
  | exclusive =>
    have hj' : s.exclusivePromise = some j := of_decide_eq_true (congrArg View.owner hview')
    exact Option.some.inj (hi'.symm.trans hj')
  | nonExclusive =>
    have hmember : s.nonExclusivePromises.count j = 1 := congrArg View.member hview'
    have hmem : j ∈ s.nonExclusivePromises := List.count_pos_iff.1 (by omega)
    obtain ⟨hnone, _⟩ := h.observes i j hi' hmem hj.2
    omega

theorem Resting.once (h : s.Resting phase) : s.started.Nodup := by
  refine List.nodup_iff_count_le_one.2 fun i => ?_
  have hstarts : s.started.count i = (expected (phase i)).starts :=
    congrArg View.starts (h.views i)
  rw [hstarts]
  cases phase i with
  | running kind => cases kind <;> exact Nat.le_refl 1
  | ending kind r => cases kind <;> exact Nat.le_refl 1
  | done kind r => cases kind <;> exact Nat.le_refl 1
  | returning r => exact Nat.le_refl 1
  | _ => exact Nat.zero_le 1

/-- What is known of a call that has been served. -/
theorem Resting.served {kind : LockKind} {r : R} (h : s.Resting phase)
    (hphase : phase i = .done kind r) :
    i ∈ s.started ∧ s.loop.settled (.callback i) = some r ∧ s.delivered i = some r ∧
      s.exclusivePromise ≠ some i ∧ i ∉ s.nonExclusivePromises := by
  have hview := h.views i
  rw [hphase] at hview
  have hall : s.started.count i = 1 ∧ s.loop.settled (.callback i) = some r ∧
      s.delivered i = some r ∧ decide (s.exclusivePromise = some i) = false ∧
      s.nonExclusivePromises.count i = 0 := by
    cases kind with
    | exclusive =>
      exact ⟨congrArg View.starts hview, congrArg View.callback hview,
        congrArg View.delivered hview, congrArg View.owner hview, congrArg View.member hview⟩
    | nonExclusive =>
      exact ⟨congrArg View.starts hview, congrArg View.callback hview,
        congrArg View.delivered hview, congrArg View.owner hview, congrArg View.member hview⟩
  obtain ⟨hstarts, hcallback, hdelivered, howner, hmember⟩ := hall
  exact ⟨List.count_pos_iff.1 (by omega), hcallback, hdelivered, of_decide_eq_false howner,
    List.count_eq_zero.1 hmember⟩

/-- Only a call that has been served has a result. -/
theorem Resting.done_of_delivered {r : R} (h : s.Resting phase) (hi : s.delivered i = some r) :
    ∃ kind, phase i = .done kind r := by
  have hdelivered : (expected (phase i)).delivered = some r := by
    rw [← h.views]
    exact hi
  cases hphase : phase i with
  | done kind r' =>
    rw [hphase] at hdelivered
    refine ⟨kind, ?_⟩
    cases kind <;> rw [Option.some.inj hdelivered]
  | running kind => cases kind <;> rw [hphase] at hdelivered <;> cases hdelivered
  | ending kind r' => cases kind <;> rw [hphase] at hdelivered <;> cases hdelivered
  | _ => rw [hphase] at hdelivered; cases hdelivered

theorem Resting.disciplined (h : s.Resting phase) : s.Disciplined where
  exclusion _ _ hkind hi hj := h.exclusion hkind hi hj
  once := h.once
  delivery i r hi := by
    obtain ⟨kind, hphase⟩ := h.done_of_delivered hi
    obtain ⟨hstarted, hcallback, _⟩ := h.served hphase
    exact ⟨hstarted, hcallback⟩
  entries i hentry := by
    refine Option.eq_none_iff_forall_ne_some.2 fun r hi => ?_
    obtain ⟨kind, hphase⟩ := h.done_of_delivered hi
    obtain ⟨_, _, _, howner, hmember⟩ := h.served hphase
    exact hentry.elim howner hmember
  drains := exists_runNext_drained s ⟨phase, h⟩
  admits hjobs hrunning := by
    refine ⟨exclusive_of_drained h.toSound hjobs hrunning,
      nonExclusive_of_drained h.toSound hjobs hrunning, fun i hi => ?_⟩
    obtain ⟨kind, r, hphase⟩ := h.done_of_drained hjobs hrunning hi
    obtain ⟨hstarted, hcallback, hdelivered, _⟩ := h.served hphase
    exact ⟨hstarted, r, hcallback, hdelivered⟩

/-! ## 2. All interleavings -/

/-- **A lock keeps its discipline** after any number of calls, jobs and callbacks that settle, in
    any order. -/
theorem lock_disciplined (events : List (LockEvent R)) : (afterEvents events).Disciplined := by
  obtain ⟨phase, h⟩ := resting_afterEvents events
  exact h.disciplined

/-- An exclusive call that is made while a callback runs waits for it, and is served. -/
example : (afterEvents [.call .nonExclusive, .call .exclusive, .settle 0 "a", .job, .job, .job, .job,
    .settle 1 "b", .job, .job]).delivered 1 = some "b" := by decide

end Lock

end CoreEx
