/-
  File:      CoreEx/Kernel/LockPhases.lean
  Subject:   The phases of a call of the lock, and what each of them looks like.

  All that the lock and the event loop know of one call is a view, and the view is that of one phase:
  how many continuations of each kind there are, whether the callback has been called, what has
  settled. An event moves one call from one phase to the next and leaves the views of all the others.

  * `View`, `view` -- what there is of a call;
  * `Phase`, `expected` -- the phases and their views;
  * `Placed`, `Due` -- what a continuation waits for, and what has happened when it is queued;
  * `Sound` -- the invariant, with `Sound.enter` and `Popped.runJob`;
  * `Resting`, **`resting_afterEvents`** -- it holds after all events.
-/
import CoreEx.Kernel.Lock
import Mathlib.Data.List.Nodup

namespace CoreEx

namespace Lock

variable {R : Type}

/-! ## 1. Views and phases -/

/-- What there is of a call: continuations, entries, and what has settled. -/
@[ext] structure View (R : Type) where
  kind : Option LockKind
  retries : Nat
  gathering : Nat
  remaining : Nat
  begins : Nat
  returns : Nat
  finishes : Nat
  starts : Nat
  callback : Option R
  exclusive : Option R
  delivered : Option R
  owner : Bool
  member : Nat

/-- How often a continuation is there. -/
def copies (s : Lock R) (job : LockJob) : Nat := s.loop.continuations.count job

/-- What there is of the call `i`. -/
def view (s : Lock R) (i : Nat) : View R where
  kind := s.kinds[i]?
  retries := s.copies (.retry i)
  gathering := s.copies (.observed i) + s.copies (.counted i)
  remaining := s.remaining i
  begins := s.copies (.begin i)
  returns := s.copies (.returned i)
  finishes := s.copies (.finish i)
  starts := s.started.count i
  callback := s.loop.settled (.callback i)
  exclusive := s.loop.settled (.exclusive i)
  delivered := s.delivered i
  owner := decide (s.exclusivePromise = some i)
  member := s.nonExclusivePromises.count i

/-- Where a call is. -/
inductive Phase (R : Type)
  /-- It has not been made. -/
  | fresh
  /-- It is at the condition of its loop. -/
  | entering (kind : LockKind)
  /-- It waits for another one's exclusive promise. -/
  | waiting (kind : LockKind)
  /-- `Promise.all` has still `n + 1` promises to wait for. -/
  | gathering (n : Nat)
  /-- `Promise.all` has none. -/
  | ready
  /-- The callback runs. -/
  | running (kind : LockKind)
  /-- The callback of an exclusive call has settled. -/
  | returning (r : R)
  /-- The promise the call waits for has settled. -/
  | ending (kind : LockKind) (r : R)
  /-- The caller has the result. -/
  | done (kind : LockKind) (r : R)

/-- A call of which there is nothing. -/
def blank (kind : Option LockKind) : View R :=
  ⟨kind, 0, 0, 0, 0, 0, 0, 0, none, none, none, false, 0⟩

/-- The view of a phase. -/
def expected : Phase R → View R
  | .fresh => blank none
  | .entering kind => blank (some kind)
  | .waiting kind => { blank (some kind) with retries := 1 }
  | .gathering n =>
    { blank (some .exclusive) with
      gathering := n + 1, remaining := n + 1, finishes := 1, owner := true }
  | .ready => { blank (some .exclusive) with begins := 1, finishes := 1, owner := true }
  | .running .exclusive =>
    { blank (some .exclusive) with returns := 1, finishes := 1, starts := 1, owner := true }
  | .running .nonExclusive =>
    { blank (some .nonExclusive) with finishes := 1, starts := 1, member := 1 }
  | .returning r =>
    { blank (some .exclusive) with
      returns := 1, finishes := 1, starts := 1, callback := some r, owner := true }
  | .ending .exclusive r =>
    { blank (some .exclusive) with
      finishes := 1, starts := 1, callback := some r, exclusive := some r, owner := true }
  | .ending .nonExclusive r =>
    { blank (some .nonExclusive) with
      finishes := 1, starts := 1, callback := some r, member := 1 }
  | .done .exclusive r =>
    { (blank (some .exclusive) : View R) with
      starts := 1, callback := some r, exclusive := some r, delivered := some r }
  | .done .nonExclusive r =>
    { blank (some .nonExclusive) with starts := 1, callback := some r, delivered := some r }

/-- What a continuation that is not queued waits for. -/
def Placed (s : Lock R) (p : LockPromise) : LockJob → Prop
  | .retry _ => ∃ e, s.exclusivePromise = some e ∧ p = .exclusive e
  | .observed _ => ∃ w ∈ s.nonExclusivePromises, p = .callback w
  | .counted _ => False
  | .begin _ => False
  | .returned i => p = .callback i
  | .finish i => p = s.ownPromise i

/-- What has happened when a continuation is queued. -/
def Due (s : Lock R) : LockJob → Prop
  | .returned i => s.loop.settled (.callback i) ≠ none
  | .finish i => s.loop.settled (s.ownPromise i) ≠ none
  | _ => True

/-- Every continuation is where it belongs, and the call that has the lock has started only if all
    callbacks that it found running have settled; it observes each of them before. -/
structure InPlace (s : Lock R) : Prop where
  tidy : s.loop.Tidy
  placed : ∀ p job, (p, job) ∈ s.loop.reactions → s.Placed p job
  due : ∀ job ∈ s.loop.jobs, s.Due job
  observes : ∀ e w, s.exclusivePromise = some e → w ∈ s.nonExclusivePromises →
    s.loop.settled (.callback w) = none →
    s.started.count e = 0 ∧ (.callback w, .observed e) ∈ s.loop.reactions

/-- **The invariant.** Besides, every call looks as its phase does. -/
structure Sound (s : Lock R) (phase : Nat → Phase R) : Prop extends s.InPlace where
  views : ∀ i, s.view i = expected (phase i)

variable {s s' : Lock R} {phase : Nat → Phase R} {i : Nat} {ph : Phase R}

theorem views_update (hviews : ∀ j, s.view j = expected (phase j)) (hi : s'.view i = expected ph)
    (hne : ∀ j, j ≠ i → s'.view j = s.view j) (j : Nat) :
    s'.view j = expected (Function.update phase i ph j) := by
  by_cases hj : j = i
  · rw [hj, hi, Function.update_self]
  · rw [hne j hj, hviews, Function.update_of_ne hj]

/-! ## 2. One continuation more or less -/

/-- The view with `n` more continuations of a kind. -/
def View.addMany (v : View R) (n : Nat) : LockJob → View R
  | .retry _ => { v with retries := v.retries + n }
  | .observed _ => { v with gathering := v.gathering + n }
  | .counted _ => { v with gathering := v.gathering + n }
  | .begin _ => { v with begins := v.begins + n }
  | .returned _ => { v with returns := v.returns + n }
  | .finish _ => { v with finishes := v.finishes + n }

/-- The view with one more. -/
def View.add (v : View R) (job : LockJob) : View R := v.addMany 1 job

theorem View.add_injective {v w : View R} {job : LockJob} (h : v.add job = w.add job) : v = w := by
  obtain ⟨h1, h2, h3, h4, h5, h6, h7, h8, h9, h10, h11, h12, h13⟩ := View.ext_iff.1 h
  cases job with
  | retry i => exact View.ext h1 (Nat.succ.inj h2) h3 h4 h5 h6 h7 h8 h9 h10 h11 h12 h13
  | observed i => exact View.ext h1 h2 (Nat.succ.inj h3) h4 h5 h6 h7 h8 h9 h10 h11 h12 h13
  | counted i => exact View.ext h1 h2 (Nat.succ.inj h3) h4 h5 h6 h7 h8 h9 h10 h11 h12 h13
  | begin i => exact View.ext h1 h2 h3 h4 (Nat.succ.inj h5) h6 h7 h8 h9 h10 h11 h12 h13
  | returned i => exact View.ext h1 h2 h3 h4 h5 (Nat.succ.inj h6) h7 h8 h9 h10 h11 h12 h13
  | finish i => exact View.ext h1 h2 h3 h4 h5 h6 (Nat.succ.inj h7) h8 h9 h10 h11 h12 h13

/-- **More continuations** show in the view of their call, and in no other. -/
theorem view_append {l : EventLoop LockPromise LockJob R} {job : LockJob} {n : Nat}
    (hperm : l.continuations.Perm (List.replicate n job ++ s.loop.continuations))
    (hsettled : l.settled = s.loop.settled) (j : Nat) :
    ({ s with loop := l } : Lock R).view j =
      if job.call = j then (s.view j).addMany n job else s.view j := by
  have hcopies : ∀ k, ({ s with loop := l } : Lock R).copies k =
      s.copies k + if job = k then n else 0 := by
    intro k
    unfold copies
    rw [hperm.count_eq, List.count_append, List.count_replicate, Nat.add_comm]
    simp only [beq_iff_eq]
  unfold view
  rw [hsettled]
  simp only [hcopies]
  cases job with
  | retry i =>
    by_cases hij : i = j <;> simp [LockJob.call, View.addMany, hij]
  | observed i =>
    by_cases hij : i = j <;> simp [LockJob.call, View.addMany, hij, Nat.add_right_comm]
  | counted i =>
    by_cases hij : i = j <;> simp [LockJob.call, View.addMany, hij, Nat.add_assoc]
  | begin i =>
    by_cases hij : i = j <;> simp [LockJob.call, View.addMany, hij]
  | returned i =>
    by_cases hij : i = j <;> simp [LockJob.call, View.addMany, hij]
  | finish i =>
    by_cases hij : i = j <;> simp [LockJob.call, View.addMany, hij]

theorem view_cons {l : EventLoop LockPromise LockJob R} {job : LockJob}
    (hperm : l.continuations.Perm (job :: s.loop.continuations))
    (hsettled : l.settled = s.loop.settled) (j : Nat) :
    ({ s with loop := l } : Lock R).view j =
      if job.call = j then (s.view j).add job else s.view j :=
  view_append (n := 1) hperm hsettled j

theorem view_self {l : EventLoop LockPromise LockJob R} {job : LockJob}
    (hperm : l.continuations.Perm (job :: s.loop.continuations))
    (hsettled : l.settled = s.loop.settled) :
    ({ s with loop := l } : Lock R).view job.call = (s.view job.call).add job := by
  rw [view_cons hperm hsettled, if_pos rfl]

theorem view_other {l : EventLoop LockPromise LockJob R} {job : LockJob} {j : Nat}
    (hperm : l.continuations.Perm (job :: s.loop.continuations))
    (hsettled : l.settled = s.loop.settled) (hj : j ≠ job.call) :
    ({ s with loop := l } : Lock R).view j = s.view j := by
  rw [view_cons hperm hsettled, if_neg hj.symm]

/-! ## 3. Continuations in their places -/

theorem Due.mono {l : EventLoop LockPromise LockJob R} {k : LockJob}
    (hmono : ∀ q, s.loop.settled q ≠ none → l.settled q ≠ none) (h : s.Due k) :
    ({ s with loop := l } : Lock R).Due k := by
  cases k with
  | returned i => exact hmono _ h
  | finish i => exact hmono _ h
  | _ => trivial

theorem InPlace.next {job : LockJob} {l : EventLoop LockPromise LockJob R} (h : s.InPlace)
    (hnext : s.loop.next = some (job, l)) : ({ s with loop := l } : Lock R).InPlace := by
  obtain ⟨hjobs, hreactions, hsettled⟩ := EventLoop.next_eq_some hnext
  refine ⟨h.tidy.next hnext, fun p k hmem => ?_, fun k hmem => ?_, fun e w he hw hnone => ?_⟩
  · rw [hreactions] at hmem
    exact h.placed p k hmem
  · have hdue := h.due k (hjobs ▸ List.mem_cons_of_mem job hmem)
    exact hdue.mono fun q hq => by rwa [hsettled]
  · rw [hsettled] at hnone
    rw [hreactions]
    exact h.observes e w he hw hnone

theorem InPlace.await {p : LockPromise} {job : LockJob} (h : s.InPlace) (hplaced : s.Placed p job)
    (hdue : s.loop.settled p ≠ none → s.Due job) :
    ({ s with loop := s.loop.await p job } : Lock R).InPlace := by
  refine ⟨h.tidy.await p job, fun q k hmem => ?_, fun k hmem => ?_, fun e w he hw hnone => ?_⟩
  · rcases EventLoop.mem_reactions_await.1 hmem with hmem | ⟨_, rfl, rfl⟩
    · exact h.placed q k hmem
    · exact hplaced
  · have hk : s.Due k := by
      rcases EventLoop.mem_jobs_await.1 hmem with hmem | ⟨hp, rfl⟩
      · exact h.due k hmem
      · exact hdue hp
    exact hk.mono fun q hq => by rwa [EventLoop.settled_await]
  · rw [EventLoop.settled_await] at hnone
    obtain ⟨hstarts, hmem⟩ := h.observes e w he hw hnone
    exact ⟨hstarts, EventLoop.mem_reactions_await.2 (.inl hmem)⟩

theorem InPlace.enqueue {job : LockJob} (h : s.InPlace) (hdue : s.Due job) :
    ({ s with loop := s.loop.enqueue job } : Lock R).InPlace := by
  refine ⟨h.tidy, h.placed, fun k hmem => ?_, h.observes⟩
  have hmem' : k ∈ s.loop.jobs ++ [job] := hmem
  rcases List.mem_append.1 hmem' with hmem | hmem
  · exact h.due k hmem
  · rw [List.mem_singleton.1 hmem]
    exact hdue

/-- A promise that settles makes its reactions due. -/
theorem InPlace.settle {p : LockPromise} (h : s.InPlace) (hp : s.loop.settled p = none) (r : R) :
    ({ s with loop := s.loop.settle p r } : Lock R).InPlace := by
  have hmono : ∀ q, s.loop.settled q ≠ none → (s.loop.settle p r).settled q ≠ none := by
    intro q hq
    rw [EventLoop.settled_settle hp]
    split
    · exact Option.some_ne_none r
    · exact hq
  have hself : (s.loop.settle p r).settled p ≠ none := by
    rw [EventLoop.settled_settle hp, if_pos rfl]
    exact Option.some_ne_none r
  refine ⟨h.tidy.settle hp r, fun q k hmem => ?_, fun k hmem => ?_, fun e w he hw hnone => ?_⟩
  · exact h.placed q k ((EventLoop.mem_reactions_settle hp r).1 hmem).1
  · rcases (EventLoop.mem_jobs_settle hp r).1 hmem with hmem | hmem
    · exact (h.due k hmem).mono hmono
    · have hplaced := h.placed p k hmem
      cases k with
      | returned i =>
        have hpi : p = .callback i := hplaced
        exact hpi ▸ hself
      | finish i =>
        have hpi : p = s.ownPromise i := hplaced
        exact hpi ▸ hself
      | _ => trivial
  · have hne : LockPromise.callback w ≠ p := by
      intro hwp
      rw [hwp] at hnone
      exact hself hnone
    rw [EventLoop.settled_settle hp, if_neg hne] at hnone
    obtain ⟨hstarts, hmem⟩ := h.observes e w he hw hnone
    exact ⟨hstarts, (EventLoop.mem_reactions_settle hp r).2 ⟨hmem, hne⟩⟩

/-! ## 4. Entering -/

/-- The lock is taken. -/
theorem Sound.wait {e : Nat} {kind : LockKind} (h : s.Sound phase)
    (hi : phase i = .entering kind) (he : s.exclusivePromise = some e) :
    ({ s with loop := s.loop.await (.exclusive e) (.retry i) } : Lock R).Sound
      (Function.update phase i (.waiting kind)) := by
  have hperm := EventLoop.continuations_await (.exclusive e) (.retry i) s.loop
  have hsettled := EventLoop.settled_await (.exclusive e) (.retry i) s.loop
  refine ⟨h.toInPlace.await ⟨e, he, rfl⟩ fun _ => trivial,
    views_update h.views ?_ fun j hj => view_other hperm hsettled hj⟩
  have hself := view_self hperm hsettled
  rw [h.views, LockJob.call, hi] at hself
  exact hself

/-- Nothing is known of a call that is about to enter, but that it has been made. -/
theorem Sound.blank_entering {kind : LockKind} (h : s.Sound phase) (hi : phase i = .entering kind) :
    s.view i = blank (some kind) := by
  rw [h.views, hi]
  rfl

theorem Sound.runNonExclusive (h : s.Sound phase) (hi : phase i = .entering .nonExclusive)
    (he : s.exclusivePromise = none) :
    (runNonExclusive i s).Sound (Function.update phase i (.running .nonExclusive)) := by
  have hblank := h.blank_entering hi
  have hkind : s.kinds[i]? = some .nonExclusive := congrArg View.kind hblank
  have hstarts : s.started.count i = 0 := congrArg View.starts hblank
  have hmember : s.nonExclusivePromises.count i = 0 := congrArg View.member hblank
  have hcallback : s.loop.settled (.callback i) = none := congrArg View.callback hblank
  have hown : s.ownPromise i = .callback i := by
    unfold ownPromise
    rw [hkind]
    rfl
  -- the entries first, then the continuation
  let t : Lock R := { s with
    started := s.started ++ [i]
    nonExclusivePromises := s.nonExclusivePromises ++ [i] }
  have ht : t.InPlace := by
    refine ⟨h.tidy, fun p k hmem => ?_, h.due, fun e w he' => ?_⟩
    · have hplaced := h.placed p k hmem
      cases k with
      | observed e =>
        obtain ⟨w, hw, hp⟩ := hplaced
        exact ⟨w, List.mem_append_left _ hw, hp⟩
      | _ => exact hplaced
    · have hsome : s.exclusivePromise = some e := he'
      rw [he] at hsome
      cases hsome
  have htview : ∀ j, t.view j = { s.view j with
      starts := (s.started ++ [i]).count j
      member := (s.nonExclusivePromises ++ [i]).count j } := fun _ => rfl
  have hperm := EventLoop.continuations_await (.callback i) (.finish i) t.loop
  have hsettled := EventLoop.settled_await (.callback i) (.finish i) t.loop
  refine ⟨ht.await hown.symm fun hne => absurd hcallback hne,
    views_update h.views ?_ fun j hj => ?_⟩
  · refine (view_self hperm hsettled).trans ?_
    rw [LockJob.call, htview, hblank, List.count_append, List.count_append, hstarts, hmember,
      List.count_singleton_self]
    rfl
  · refine (view_other hperm hsettled hj).trans ?_
    have hnone : [i].count j = 0 :=
      List.count_eq_zero_of_not_mem fun hmem => hj (List.mem_singleton.1 hmem)
    rw [htview, List.count_append, List.count_append, hnone]
    rfl

theorem InPlace.awaitNonExclusive (h : s.InPlace) (he : s.exclusivePromise = none) (i : Nat) :
    ({ s with loop := s.awaitNonExclusive i } : Lock R).InPlace := by
  have hnot : ∀ e, s.exclusivePromise ≠ some e := fun e he' => by
    rw [he] at he'
    cases he'
  unfold Lock.awaitNonExclusive
  split
  · exact h.enqueue trivial
  · refine ⟨h.tidy.awaitAll _ _, fun q k hmem => ?_, fun k hmem => ?_,
      fun e _ he' => absurd he' (hnot e)⟩
    · rcases EventLoop.mem_reactions_awaitAll.1 hmem with hmem | ⟨_, hq, rfl⟩
      · exact h.placed q k hmem
      · obtain ⟨w, hw, rfl⟩ := List.mem_map.1 hq
        exact ⟨w, hw, rfl⟩
    · have hk : s.Due k := by
        rcases EventLoop.mem_jobs_awaitAll hmem with hmem | rfl
        · exact h.due k hmem
        · trivial
      exact hk.mono fun q hq => by rwa [EventLoop.settled_awaitAll]

/-- Where an exclusive call is when it has the lock. -/
def gatheringPhase (s : Lock R) : Phase R :=
  match s.nonExclusivePromises.length with
  | 0 => .ready
  | n + 1 => .gathering n

theorem view_awaitNonExclusive (s : Lock R) (i : Nat) :
    ({ s with loop := s.awaitNonExclusive i } : Lock R).view i =
      (if s.nonExclusivePromises = [] then (s.view i).add (.begin i)
        else (s.view i).addMany s.nonExclusivePromises.length (.observed i)) ∧
    ∀ j, j ≠ i → ({ s with loop := s.awaitNonExclusive i } : Lock R).view j = s.view j := by
  unfold Lock.awaitNonExclusive
  by_cases hnil : s.nonExclusivePromises = []
  · simp only [if_pos hnil]
    have hperm := EventLoop.continuations_enqueue (.begin i) s.loop
    exact ⟨view_self hperm rfl, fun j hj => view_other hperm rfl hj⟩
  · simp only [if_neg hnil]
    have hperm := EventLoop.continuations_awaitAll
      (s.nonExclusivePromises.map LockPromise.callback) (.observed i) s.loop
    rw [List.length_map] at hperm
    refine ⟨?_, fun j hj => ?_⟩
    · rw [view_append hperm (EventLoop.settled_awaitAll _ _ _)]
      exact if_pos rfl
    · rw [view_append hperm (EventLoop.settled_awaitAll _ _ _)]
      exact if_neg hj.symm

theorem Sound.runExclusive (h : s.Sound phase) (hi : phase i = .entering .exclusive)
    (he : s.exclusivePromise = none) :
    (runExclusive i s).Sound (Function.update phase i s.gatheringPhase) := by
  have hblank := h.blank_entering hi
  have hkind : s.kinds[i]? = some .exclusive := congrArg View.kind hblank
  have hstarts : s.started.count i = 0 := congrArg View.starts hblank
  have hexclusive : s.loop.settled (.exclusive i) = none := congrArg View.exclusive hblank
  have hown : s.ownPromise i = .exclusive i := by
    unfold ownPromise
    rw [hkind]
    rfl
  let t : Lock R := { s with loop := s.awaitNonExclusive i }
  have ht : t.InPlace := h.toInPlace.awaitNonExclusive he i
  have htsettled : t.loop.settled = s.loop.settled := by
    show (s.awaitNonExclusive i).settled = _
    unfold awaitNonExclusive
    split
    · rfl
    · exact EventLoop.settled_awaitAll _ _ _
  -- the call has the lock, and observes all that runs
  let u : Lock R := { t with
    remaining := Function.update s.remaining i s.nonExclusivePromises.length
    exclusivePromise := some i }
  have hu : u.InPlace := by
    refine ⟨ht.tidy, fun p k hmem => ?_, ht.due, fun e w he' hw hnone => ?_⟩
    · have hplaced := ht.placed p k hmem
      cases k with
      | retry j =>
        obtain ⟨e, he', _⟩ := hplaced
        have hsome : s.exclusivePromise = some e := he'
        rw [he] at hsome
        cases hsome
      | _ => exact hplaced
    · obtain rfl : i = e := Option.some.inj he'
      refine ⟨hstarts, ?_⟩
      have hmem : w ∈ s.nonExclusivePromises := hw
      have hpending : s.loop.settled (.callback w) = none := htsettled ▸ hnone
      show _ ∈ (s.awaitNonExclusive i).reactions
      unfold awaitNonExclusive
      rw [if_neg (List.ne_nil_of_mem hmem)]
      exact EventLoop.mem_reactions_awaitAll.2
        (.inr ⟨hpending, List.mem_map_of_mem hmem, rfl⟩)
  have hperm := EventLoop.continuations_await (.exclusive i) (.finish i) u.loop
  have hsettled := EventLoop.settled_await (.exclusive i) (.finish i) u.loop
  have hpending : u.loop.settled (.exclusive i) = none := htsettled ▸ hexclusive
  obtain ⟨htself, htother⟩ := view_awaitNonExclusive s i
  have huview : ∀ j, u.view j = { t.view j with
      remaining := Function.update s.remaining i s.nonExclusivePromises.length j
      owner := decide (some i = some j) } := fun _ => rfl
  refine ⟨hu.await hown.symm fun hne => absurd hpending hne,
    views_update h.views ?_ fun j hj => ?_⟩
  · refine (view_self hperm hsettled).trans ?_
    rw [LockJob.call, huview, Function.update_self]
    show ({ t.view i with
      remaining := s.nonExclusivePromises.length
      owner := decide (some i = some i) } : View R).add (.finish i) = _
    rw [htself, hblank]
    unfold gatheringPhase
    cases hset : s.nonExclusivePromises with
    | nil => simp [expected, blank, View.add, View.addMany]
    | cons w ws => simp [expected, blank, View.add, View.addMany]
  · refine (view_other hperm hsettled hj).trans ?_
    have hij : some i ≠ some j := fun h => hj (Option.some.inj h).symm
    have htj : t.view j = s.view j := htother j hj
    have howner : (s.view j).owner = false := by
      unfold view
      rw [he]
      rfl
    rw [huview, htj, Function.update_of_ne hj, decide_eq_false hij, ← howner]
    rfl

/-- The call is not at the condition of its loop. -/
def Phase.Left (ph : Phase R) : Prop := ∀ kind, ph ≠ .entering kind

/-- **A call enters**, or waits. -/
theorem Sound.enter {kind : LockKind} (h : s.Sound phase) (hi : phase i = .entering kind) :
    ∃ ph : Phase R, ph.Left ∧ (enter i s).Sound (Function.update phase i ph) := by
  have hkind : s.kinds[i]? = some kind := congrArg View.kind (h.blank_entering hi)
  cases he : s.exclusivePromise with
  | some e =>
    rw [enter_taken he i]
    exact ⟨.waiting kind, fun _ hk => (nomatch hk), h.wait hi he⟩
  | none =>
    cases kind with
    | exclusive =>
      rw [enter_exclusive he hkind]
      refine ⟨s.gatheringPhase, fun k hk => ?_, h.runExclusive hi he⟩
      unfold gatheringPhase at hk
      split at hk <;> cases hk
    | nonExclusive =>
      rw [enter_nonExclusive he hkind]
      exact ⟨.running .nonExclusive, fun _ hk => (nomatch hk), h.runNonExclusive hi he⟩

/-! ## 5. Which phase a continuation belongs to -/

section Belongs

variable {v : View R}

theorem phase_of_retry (h : v.add (.retry i) = expected ph) :
    ∃ kind, ph = .waiting kind ∧ v = blank (some kind) := by
  have hcount : v.retries + 1 = (expected ph).retries := congrArg View.retries h
  cases ph with
  | waiting kind => exact ⟨kind, rfl, View.add_injective h⟩
  | running kind => cases kind <;> exact absurd hcount (Nat.succ_ne_zero _)
  | ending kind r => cases kind <;> exact absurd hcount (Nat.succ_ne_zero _)
  | done kind r => cases kind <;> exact absurd hcount (Nat.succ_ne_zero _)
  | _ => exact absurd hcount (Nat.succ_ne_zero _)

/-- A call that waits for one promise less than `Promise.all` does. -/
def gatheringLess (n : Nat) : View R :=
  { blank (some .exclusive) with
    gathering := n, remaining := n + 1, finishes := 1, owner := true }

theorem phase_of_gathering (h : { v with gathering := v.gathering + 1 } = expected ph) :
    ∃ n, ph = .gathering n ∧ v = gatheringLess n := by
  have hcount : v.gathering + 1 = (expected ph).gathering := congrArg View.gathering h
  cases ph with
  | gathering n =>
    have hadd : v.add (.counted 0) = (gatheringLess n).add (.counted 0) := h
    exact ⟨n, rfl, View.add_injective hadd⟩
  | running kind => cases kind <;> exact absurd hcount (Nat.succ_ne_zero _)
  | ending kind r => cases kind <;> exact absurd hcount (Nat.succ_ne_zero _)
  | done kind r => cases kind <;> exact absurd hcount (Nat.succ_ne_zero _)
  | _ => exact absurd hcount (Nat.succ_ne_zero _)

theorem phase_of_begin (h : v.add (.begin i) = expected ph) :
    ph = .ready ∧ v = { blank (some .exclusive) with finishes := 1, owner := true } := by
  have hcount : v.begins + 1 = (expected ph).begins := congrArg View.begins h
  cases ph with
  | ready => exact ⟨rfl, View.add_injective h⟩
  | running kind => cases kind <;> exact absurd hcount (Nat.succ_ne_zero _)
  | ending kind r => cases kind <;> exact absurd hcount (Nat.succ_ne_zero _)
  | done kind r => cases kind <;> exact absurd hcount (Nat.succ_ne_zero _)
  | _ => exact absurd hcount (Nat.succ_ne_zero _)

/-- The callback has settled, so the continuation behind it is that of a call that returns. -/
theorem phase_of_returned (h : v.add (.returned i) = expected ph) (hdue : v.callback ≠ none) :
    ∃ r, ph = .returning r ∧
      v = { blank (some .exclusive) with
        finishes := 1, starts := 1, callback := some r, owner := true } := by
  have hcount : v.returns + 1 = (expected ph).returns := congrArg View.returns h
  cases ph with
  | returning r => exact ⟨r, rfl, View.add_injective h⟩
  | running kind =>
    cases kind with
    | exclusive => exact absurd (congrArg View.callback h) hdue
    | nonExclusive => exact absurd hcount (Nat.succ_ne_zero _)
  | ending kind r => cases kind <;> exact absurd hcount (Nat.succ_ne_zero _)
  | done kind r => cases kind <;> exact absurd hcount (Nat.succ_ne_zero _)
  | _ => exact absurd hcount (Nat.succ_ne_zero _)

/-- The promise that a call waits for in the end. -/
def View.own (v : View R) : Option R :=
  if v.kind = some .exclusive then v.exclusive else v.callback

theorem phase_of_finish (h : v.add (.finish i) = expected ph) (hdue : v.own ≠ none) :
    ∃ kind r, ph = .ending kind r ∧ v.own = some r := by
  have hcount : v.finishes + 1 = (expected ph).finishes := congrArg View.finishes h
  have hadd := congrArg View.own h
  have hown : v.own = (expected ph).own := hadd
  cases ph with
  | ending kind r =>
    refine ⟨kind, r, rfl, hown.trans ?_⟩
    cases kind <;> rfl
  | running kind => cases kind <;> exact absurd hown hdue
  | done kind r => cases kind <;> exact absurd hcount (Nat.succ_ne_zero _)
  | gathering n => exact absurd hown hdue
  | ready => exact absurd hown hdue
  | returning r => exact absurd hown hdue
  | _ => exact absurd hcount (Nat.succ_ne_zero _)

end Belongs

/-! ## 6. The jobs -/

/-- The lock when a job has been taken out of the queue. -/
structure Popped (s : Lock R) (phase : Nat → Phase R) (job : LockJob) : Prop extends s.InPlace where
  self : (s.view job.call).add job = expected (phase job.call)
  others : ∀ j, j ≠ job.call → s.view j = expected (phase j)
  dueJob : s.Due job

theorem Sound.pop {job : LockJob} {l : EventLoop LockPromise LockJob R} (h : s.Sound phase)
    (hnext : s.loop.next = some (job, l)) : Popped { s with loop := l } phase job := by
  obtain ⟨hjobs, _, hsettled⟩ := EventLoop.next_eq_some hnext
  let t : Lock R := { s with loop := l }
  have hperm : s.loop.continuations.Perm (job :: t.loop.continuations) :=
    List.Perm.of_eq (EventLoop.continuations_next hnext)
  refine ⟨h.toInPlace.next hnext, ?_, fun j hj => ?_, ?_⟩
  · rw [← h.views]
    exact (view_self (s := t) hperm hsettled.symm).symm
  · rw [← h.views]
    exact (view_other (s := t) hperm hsettled.symm hj).symm
  · have hdue := h.due job (hjobs ▸ List.mem_cons_self)
    exact hdue.mono fun q hq => by rwa [hsettled]

/-- The job of a call is done, and the call is in a phase again. -/
theorem Popped.sound {job : LockJob} (h : Popped s phase job) (hs : s'.InPlace)
    (hself : s'.view job.call = expected ph) (hothers : ∀ j, j ≠ job.call → s'.view j = s.view j) :
    s'.Sound (Function.update phase job.call ph) := by
  refine ⟨hs, fun j => ?_⟩
  by_cases hj : j = job.call
  · rw [hj, hself, Function.update_self]
  · rw [hothers j hj, h.others j hj, Function.update_of_ne hj]

theorem Popped.retry (h : Popped s phase (.retry i)) :
    ∃ ph : Phase R, ph.Left ∧ (Lock.enter i s).Sound (Function.update phase i ph) := by
  obtain ⟨kind, _, hview⟩ := phase_of_retry h.self
  have hsound : s.Sound (Function.update phase i (.entering kind)) :=
    h.sound h.toInPlace hview fun _ _ => rfl
  obtain ⟨ph, hleft, henter⟩ := hsound.enter (Function.update_self i _ phase)
  rw [Function.update_idem] at henter
  exact ⟨ph, hleft, henter⟩

theorem Popped.observed (h : Popped s phase (.observed i)) :
    ({ s with loop := s.loop.enqueue (.counted i) } : Lock R).Sound
      (Function.update phase i (phase i)) := by
  have hperm := EventLoop.continuations_enqueue (.counted i) s.loop
  refine h.sound (h.toInPlace.enqueue trivial) ?_ fun j hj => view_other hperm rfl hj
  exact (view_self hperm rfl).trans h.self

/-- The phase after one promise less. -/
def countedPhase : Nat → Phase R
  | 0 => .ready
  | n + 1 => .gathering n

theorem Popped.counted (h : Popped s phase (.counted i)) :
    ∃ n, (Lock.count i s).Sound (Function.update phase i (countedPhase n)) := by
  obtain ⟨n, _, hless⟩ := phase_of_gathering h.self
  have hview : s.view i = gatheringLess n := hless
  have hremaining : s.remaining i = n + 1 := congrArg View.remaining hview
  let t : Lock R := { s with remaining := Function.update s.remaining i n }
  have ht : t.InPlace := ⟨h.tidy, h.placed, h.due, h.observes⟩
  have hother : ∀ j, j ≠ i → t.view j = s.view j := by
    intro j hj
    show ({ s.view j with remaining := Function.update s.remaining i n j } : View R) = _
    rw [Function.update_of_ne hj]
    rfl
  have hself : t.view i = { gatheringLess n with remaining := n } := by
    show ({ s.view i with remaining := Function.update s.remaining i n i } : View R) = _
    rw [Function.update_self, hview]
  refine ⟨n, ?_⟩
  unfold Lock.count
  rw [hremaining, Nat.add_sub_cancel]
  cases n with
  | zero =>
    have hperm := EventLoop.continuations_enqueue (.begin i) t.loop
    rw [if_pos rfl]
    refine h.sound (ht.enqueue trivial) ?_ fun j hj => ?_
    · refine (view_self (s := t) hperm rfl).trans ?_
      rw [LockJob.call, hself]
      rfl
    · exact (view_other (s := t) hperm rfl hj).trans (hother j hj)
  | succ n =>
    rw [if_neg (by omega)]
    exact h.sound ht hself hother

theorem copies_pos {p : LockPromise} {job : LockJob} (h : (p, job) ∈ s.loop.reactions) :
    0 < s.copies job :=
  List.count_pos_iff.2 (List.mem_append_right _ (List.mem_map.2 ⟨(p, job), h, rfl⟩))

/-- All callbacks that were running when the call got the lock have settled. -/
theorem Popped.begin (h : Popped s phase (.begin i)) :
    (Lock.begin i s).Sound (Function.update phase i (.running .exclusive)) := by
  obtain ⟨_, hready⟩ := phase_of_begin h.self
  have hview : s.view i = { blank (some .exclusive) with finishes := 1, owner := true } := hready
  have howner : s.exclusivePromise = some i := of_decide_eq_true (congrArg View.owner hview)
  have hstarts : s.started.count i = 0 := congrArg View.starts hview
  have hcallback : s.loop.settled (.callback i) = none := congrArg View.callback hview
  have hgathering : s.copies (.observed i) + s.copies (.counted i) = 0 :=
    congrArg View.gathering hview
  let t : Lock R := { s with started := s.started ++ [i] }
  have ht : t.InPlace := by
    refine ⟨h.tidy, h.placed, h.due, fun e w he hw hnone => ?_⟩
    obtain rfl : i = e := Option.some.inj (howner.symm.trans he)
    have hpos := copies_pos (h.observes i w he hw hnone).2
    omega
  have hperm := EventLoop.continuations_await (.callback i) (.returned i) t.loop
  have hsettled := EventLoop.settled_await (.callback i) (.returned i) t.loop
  have htview : ∀ j, t.view j = { s.view j with starts := (s.started ++ [i]).count j } :=
    fun _ => rfl
  refine h.sound (ht.await rfl fun hne => absurd hcallback hne) ?_ fun j hj => ?_
  · refine (view_self hperm hsettled).trans ?_
    rw [LockJob.call, htview, hview, List.count_append, hstarts, List.count_singleton_self]
    rfl
  · refine (view_other hperm hsettled hj).trans ?_
    have hnone : [i].count j = 0 :=
      List.count_eq_zero_of_not_mem fun hmem => hj (List.mem_singleton.1 hmem)
    rw [htview, List.count_append, hnone]
    rfl

theorem copies_settle {p : LockPromise} (r : R) (job : LockJob) :
    ({ s with loop := s.loop.settle p r } : Lock R).copies job = s.copies job :=
  (EventLoop.continuations_settle p r s.loop).count_eq job

/-- A promise that settles shows in the view of its call. -/
theorem view_settle {p : LockPromise} (hp : s.loop.settled p = none) (r : R) (j : Nat) :
    ({ s with loop := s.loop.settle p r } : Lock R).view j = { s.view j with
      callback := if .callback j = p then some r else s.loop.settled (.callback j)
      exclusive := if .exclusive j = p then some r else s.loop.settled (.exclusive j) } := by
  unfold view
  simp only [copies_settle, EventLoop.settled_settle hp]

theorem view_settle_other {p : LockPromise} (hp : s.loop.settled p = none) (r : R) {j : Nat}
    (hc : .callback j ≠ p) (he : .exclusive j ≠ p) :
    ({ s with loop := s.loop.settle p r } : Lock R).view j = s.view j := by
  rw [view_settle hp, if_neg hc, if_neg he]
  rfl

theorem Popped.returned (h : Popped s phase (.returned i)) :
    ∃ r, (Lock.returned i s).Sound (Function.update phase i (.ending .exclusive r)) := by
  obtain ⟨r, _, hreturning⟩ := phase_of_returned h.self h.dueJob
  have hview : s.view i = { blank (some .exclusive) with
      finishes := 1, starts := 1, callback := some r, owner := true } := hreturning
  have hcallback : s.loop.settled (.callback i) = some r := congrArg View.callback hview
  have hexclusive : s.loop.settled (.exclusive i) = none := congrArg View.exclusive hview
  refine ⟨r, ?_⟩
  unfold Lock.returned
  rw [hcallback]
  refine h.sound (h.toInPlace.settle hexclusive r) ?_ fun j hj => ?_
  · refine (view_settle hexclusive r i).trans ?_
    rw [if_pos rfl, if_neg (fun heq => (nomatch heq)), hcallback, hview]
    rfl
  · refine view_settle_other hexclusive r (fun heq => (nomatch heq)) fun heq => hj ?_
    exact LockPromise.exclusive.inj heq

theorem own_view (s : Lock R) (i : Nat) : (s.view i).own = s.loop.settled (s.ownPromise i) := by
  unfold View.own ownPromise view
  dsimp only
  split <;> rfl

/-- The call that has the lock gives it back. -/
theorem Popped.finishExclusive {r : R} (h : Popped s phase (.finish i))
    (hview : s.view i = { expected (.ending .exclusive r) with finishes := 0 }) :
    (Lock.finish i s).Sound (Function.update phase i (.done .exclusive r)) := by
  have hkind : s.kinds[i]? = some .exclusive := congrArg View.kind hview
  have howner : s.exclusivePromise = some i := of_decide_eq_true (congrArg View.owner hview)
  have hexclusive : s.loop.settled (.exclusive i) = some r := congrArg View.exclusive hview
  have hown : s.loop.settled (s.ownPromise i) = some r := by
    unfold ownPromise
    rw [if_pos hkind, hexclusive]
  have hfinish : Lock.finish i s = { s with
      exclusivePromise := none, delivered := Function.update s.delivered i (some r) } := by
    unfold Lock.finish
    rw [if_pos hkind, if_pos hkind, hown]
  rw [hfinish]
  refine h.sound ⟨h.tidy, fun p k hmem => ?_, h.due, fun _ _ he => (nomatch he)⟩ ?_ fun j hj => ?_
  · have hplaced := h.placed p k hmem
    cases k with
    | retry j =>
      -- nothing waits for a promise that has settled
      obtain ⟨e, he, rfl⟩ := hplaced
      obtain rfl : i = e := Option.some.inj (howner.symm.trans he)
      have hnone := h.tidy _ _ hmem
      rw [hexclusive] at hnone
      cases hnone
    | _ => exact hplaced
  · show ({ s.view i with
      delivered := Function.update s.delivered i (some r) i, owner := false } : View R) = _
    rw [Function.update_self, hview]
    rfl
  · show ({ s.view j with
      delivered := Function.update s.delivered i (some r) j, owner := false } : View R) = _
    have hne : some i ≠ some j := fun heq => hj (Option.some.inj heq).symm
    have hfalse : (s.view j).owner = false := by
      unfold view
      rw [howner]
      exact decide_eq_false hne
    have hj' : j ≠ i := hj
    rw [Function.update_of_ne hj', ← hfalse]
    rfl

theorem Popped.finishNonExclusive {r : R} (h : Popped s phase (.finish i))
    (hview : s.view i = { expected (.ending .nonExclusive r) with finishes := 0 }) :
    (Lock.finish i s).Sound (Function.update phase i (.done .nonExclusive r)) := by
  have hkind : s.kinds[i]? = some .nonExclusive := congrArg View.kind hview
  have hnot : ¬s.kinds[i]? = some .exclusive := by
    rw [hkind]
    intro heq
    cases heq
  have hcallback : s.loop.settled (.callback i) = some r := congrArg View.callback hview
  have hmember : s.nonExclusivePromises.count i = 1 := congrArg View.member hview
  have hown : s.loop.settled (s.ownPromise i) = some r := by
    unfold ownPromise
    rw [if_neg hnot, hcallback]
  have hfinish : Lock.finish i s = { s with
      nonExclusivePromises := s.nonExclusivePromises.erase i
      delivered := Function.update s.delivered i (some r) } := by
    unfold Lock.finish
    rw [if_neg hnot, if_neg hnot, hown]
  rw [hfinish]
  refine h.sound ⟨h.tidy, fun p k hmem => ?_, h.due, fun e w he hw hnone => ?_⟩ ?_ fun j hj => ?_
  · have hplaced := h.placed p k hmem
    cases k with
    | observed e =>
      obtain ⟨w, hw, rfl⟩ := hplaced
      have hne : w ≠ i := by
        intro hwi
        have hnone := h.tidy _ _ hmem
        rw [hwi, hcallback] at hnone
        cases hnone
      exact ⟨w, (List.mem_erase_of_ne hne).2 hw, rfl⟩
    | _ => exact hplaced
  · exact h.observes e w he (List.mem_of_mem_erase hw) hnone
  · show ({ s.view i with
      delivered := Function.update s.delivered i (some r) i
      member := (s.nonExclusivePromises.erase i).count i } : View R) = _
    rw [Function.update_self, List.count_erase_self, hmember, hview]
    rfl
  · show ({ s.view j with
      delivered := Function.update s.delivered i (some r) j
      member := (s.nonExclusivePromises.erase i).count j } : View R) = _
    have hj' : j ≠ i := hj
    rw [Function.update_of_ne hj', List.count_erase_of_ne hj']
    rfl

theorem Popped.finish (h : Popped s phase (.finish i)) :
    ∃ kind r, (Lock.finish i s).Sound (Function.update phase i (.done kind r)) := by
  have hdue : (s.view i).own ≠ none := by
    rw [own_view]
    exact h.dueJob
  obtain ⟨kind, r, hphase, _⟩ := phase_of_finish h.self hdue
  have hadd := h.self
  rw [hphase] at hadd
  refine ⟨kind, r, ?_⟩
  cases kind with
  | exclusive =>
    have hview : s.view i = { expected (.ending .exclusive r) with finishes := 0 } :=
      View.add_injective hadd
    exact h.finishExclusive hview
  | nonExclusive =>
    have hview : s.view i = { expected (.ending .nonExclusive r) with finishes := 0 } :=
      View.add_injective hadd
    exact h.finishNonExclusive hview

/-! ## 7. All events -/

/-- **A job** moves its call on. -/
theorem Popped.runJob {job : LockJob} (h : Popped s phase job) (hleft : ∀ j, (phase j).Left) :
    ∃ ph : Phase R, ph.Left ∧ (Lock.runJob job s).Sound (Function.update phase job.call ph) := by
  cases job with
  | retry i => exact h.retry
  | observed i => exact ⟨phase i, hleft i, h.observed⟩
  | counted i =>
    obtain ⟨n, hcounted⟩ := h.counted
    refine ⟨countedPhase n, fun kind hk => ?_, hcounted⟩
    cases n <;> cases hk
  | begin i => exact ⟨.running .exclusive, fun _ hk => (nomatch hk), h.begin⟩
  | returned i =>
    obtain ⟨r, hreturned⟩ := h.returned
    exact ⟨.ending .exclusive r, fun _ hk => (nomatch hk), hreturned⟩
  | finish i =>
    obtain ⟨kind, r, hfinish⟩ := h.finish
    exact ⟨.done kind r, fun _ hk => (nomatch hk), hfinish⟩

/-- The phases of a lock between two events. -/
structure Resting (s : Lock R) (phase : Nat → Phase R) : Prop extends s.Sound phase where
  left : ∀ j, (phase j).Left

theorem left_update (hleft : ∀ j, (phase j).Left) (hph : ph.Left) (j : Nat) :
    (Function.update phase i ph j).Left := by
  by_cases hj : j = i
  · rw [hj, Function.update_self]
    exact hph
  · rw [Function.update_of_ne hj]
    exact hleft j

theorem Resting.runNext (h : s.Resting phase) :
    ∃ phase' : Nat → Phase R, s.runNext.Resting phase' := by
  unfold Lock.runNext
  split
  · rename_i job l hnext
    obtain ⟨ph, hleft, hsound⟩ := (h.toSound.pop hnext).runJob h.left
    exact ⟨_, hsound, left_update h.left hleft⟩
  · exact ⟨phase, h⟩

theorem phase_of_kind_none (h : (expected ph).kind = none) : ph = .fresh := by
  cases ph with
  | fresh => rfl
  | running kind => cases kind <;> cases h
  | ending kind r => cases kind <;> cases h
  | done kind r => cases kind <;> cases h
  | _ => cases h

/-- There is nothing of a call that has not been made. -/
theorem Sound.fresh (h : s.Sound phase) (hi : s.kinds[i]? = none) : s.view i = blank none := by
  have hkind : (s.view i).kind = none := hi
  rw [h.views] at hkind ⊢
  rw [phase_of_kind_none hkind]
  rfl

/-- A new call is at the condition of its loop. -/
theorem Sound.made (h : s.Sound phase) (kind : LockKind) :
    ({ s with kinds := s.kinds ++ [kind] } : Lock R).Sound
      (Function.update phase s.kinds.length (.entering kind)) := by
  have hfresh := h.fresh (List.getElem?_eq_none (Nat.le_refl s.kinds.length))
  have hfinishes : s.copies (.finish s.kinds.length) = 0 := congrArg View.finishes hfresh
  have hget : ∀ j, j ≠ s.kinds.length → (s.kinds ++ [kind])[j]? = s.kinds[j]? := by
    intro j hj
    rcases Nat.lt_or_gt_of_ne hj with hlt | hgt
    · exact List.getElem?_append_left hlt
    · rw [List.getElem?_eq_none (Nat.le_of_lt hgt), List.getElem?_eq_none]
      rw [List.length_append]
      exact hgt
  have hown : ∀ j, j ≠ s.kinds.length →
      ({ s with kinds := s.kinds ++ [kind] } : Lock R).ownPromise j = s.ownPromise j := by
    intro j hj
    unfold ownPromise
    rw [hget j hj]
  have hne : ∀ j, 0 < s.copies (.finish j) → j ≠ s.kinds.length := by
    intro j hpos heq
    rw [heq, hfinishes] at hpos
    exact absurd hpos (Nat.lt_irrefl 0)
  refine ⟨⟨h.tidy, fun p k hmem => ?_, fun k hmem => ?_, h.observes⟩,
    views_update h.views ?_ fun j hj => ?_⟩
  · have hplaced := h.placed p k hmem
    cases k with
    | finish j => exact hplaced.trans (hown j (hne j (copies_pos hmem))).symm
    | _ => exact hplaced
  · have hdue := h.due k hmem
    cases k with
    | finish j =>
      have hpos : 0 < s.copies (.finish j) := List.count_pos_iff.2 (List.mem_append_left _ hmem)
      unfold Due
      dsimp only
      rw [hown j (hne j hpos)]
      exact hdue
    | _ => exact hdue
  · show ({ s.view s.kinds.length with
      kind := (s.kinds ++ [kind])[s.kinds.length]? } : View R) = _
    rw [hfresh, List.getElem?_concat_length]
    rfl
  · show ({ s.view j with kind := (s.kinds ++ [kind])[j]? } : View R) = _
    rw [hget j hj]
    rfl

theorem phase_of_running (hstarts : (expected ph).starts ≠ 0)
    (hcallback : (expected ph).callback = none) :
    ∃ kind, ph = .running kind := by
  cases ph with
  | running kind => exact ⟨kind, rfl⟩
  | returning r => cases hcallback
  | ending kind r => cases kind <;> cases hcallback
  | done kind r => cases kind <;> cases hcallback
  | _ => exact absurd rfl hstarts

/-- A callback that is called and pending is that of a call in this phase. -/
theorem Sound.phase_running (h : s.Sound phase) (hrunning : s.Running i) :
    ∃ kind, phase i = .running kind := by
  have hstarts : (s.view i).starts ≠ 0 := Nat.ne_of_gt (List.count_pos_iff.2 hrunning.1)
  have hcallback : (s.view i).callback = none := hrunning.2
  rw [h.views] at hstarts hcallback
  exact phase_of_running hstarts hcallback

/-- A callback settles. -/
theorem Sound.settleCallback (h : s.Sound phase) (hrunning : s.Running i) (r : R) :
    ∃ ph : Phase R, ph.Left ∧ ({ s with loop := s.loop.settle (.callback i) r } : Lock R).Sound
      (Function.update phase i ph) := by
  obtain ⟨kind, hphase⟩ := h.phase_running hrunning
  have hview := h.views i
  rw [hphase] at hview
  have hplace := h.toInPlace.settle hrunning.2 r
  have hself := view_settle hrunning.2 r i
  rw [if_pos rfl, if_neg (fun heq => (nomatch heq)), hview] at hself
  have hother : ∀ j, j ≠ i →
      ({ s with loop := s.loop.settle (.callback i) r } : Lock R).view j = s.view j := by
    intro j hj
    exact view_settle_other hrunning.2 r (fun heq => hj (LockPromise.callback.inj heq))
      fun heq => (nomatch heq)
  have hexclusive : s.loop.settled (.exclusive i) = none := by
    have hnone := congrArg View.exclusive hview
    cases kind <;> exact hnone
  rw [hexclusive] at hself
  cases kind with
  | exclusive =>
    exact ⟨.returning r, fun _ hk => (nomatch hk), hplace, views_update h.views hself hother⟩
  | nonExclusive =>
    exact ⟨.ending .nonExclusive r, fun _ hk => (nomatch hk), hplace,
      views_update h.views hself hother⟩

/-- **One event** leaves every call in a phase. -/
theorem Resting.perform (h : s.Resting phase) (event : LockEvent R) :
    ∃ phase' : Nat → Phase R, (s.perform event).Resting phase' := by
  cases event with
  | call kind =>
    obtain ⟨ph, hleft, hsound⟩ :=
      (h.toSound.made kind).enter (Function.update_self s.kinds.length _ phase)
    rw [Function.update_idem] at hsound
    exact ⟨_, hsound, left_update h.left hleft⟩
  | settle i r =>
    unfold Lock.perform
    dsimp only
    split
    · rename_i hrunning
      obtain ⟨ph, hleft, hsound⟩ := h.toSound.settleCallback hrunning r
      exact ⟨_, hsound, left_update h.left hleft⟩
    · exact ⟨phase, h⟩
  | job => exact h.runNext

theorem resting_new : (new : Lock R).Resting fun _ => .fresh := by
  refine ⟨⟨⟨fun _ _ h => (nomatch h), fun _ _ h => (nomatch h), fun _ h => (nomatch h),
    fun _ _ h => (nomatch h)⟩, fun _ => rfl⟩, fun _ _ h => (nomatch h)⟩

/-- **After all events** every call is in a phase. -/
theorem resting_afterEvents (events : List (LockEvent R)) :
    ∃ phase : Nat → Phase R, (afterEvents events).Resting phase := by
  unfold afterEvents
  have hfold : ∀ (s : Lock R) (phase : Nat → Phase R), s.Resting phase →
      ∃ phase' : Nat → Phase R, (events.foldl Lock.perform s).Resting phase' := by
    induction events with
    | nil => exact fun s phase h => ⟨phase, h⟩
    | cons event events ih =>
      intro s phase h
      obtain ⟨phase', h'⟩ := h.perform event
      exact ih _ phase' h'
  exact hfold new _ resting_new

end Lock

end CoreEx
