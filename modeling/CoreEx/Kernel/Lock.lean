/-
  File:      CoreEx/Kernel/Lock.lean
  Subject:   `core-kernel/source/utils/lock.ts`: callbacks that run alone, and callbacks that do not.

  A call is known by its number. What is left of it after an `await` is a job; the jobs of all calls
  go through one queue. Between two jobs new calls may be made, and callbacks may settle.

  * `Lock` -- the two fields, the counters of `Promise.all`, the event loop, and a record of what
    has been started and what has been delivered;
  * `runNonExclusive`, `runExclusive`, `enter` -- a call up to its first `await`;
  * `runJob` -- what comes after each of them;
  * `LockEvent`, `perform`, `afterEvents` -- all that can happen.
-/
import CoreEx.Lib.EventLoop

namespace CoreEx

/-- Which of the two functions is called. -/
inductive LockKind
  | exclusive
  | nonExclusive
  deriving DecidableEq, Repr

/-- The promise that a callback returns, and that of the inner function of `runExclusive`. -/
inductive LockPromise
  | callback (i : Nat)
  | exclusive (i : Nat)
  deriving DecidableEq, Repr

/-- The rest of a function after an `await`. -/
inductive LockJob
  /-- A call that waited for another one's exclusive promise. -/
  | retry (i : Nat)
  /-- One of the functions that `runExclusive` maps over the promises has seen its promise settle. -/
  | observed (i : Nat)
  /-- `Promise.all` learns of it. -/
  | counted (i : Nat)
  /-- The inner function of `runExclusive`, after `Promise.all`. -/
  | begin (i : Nat)
  /-- The same, after the callback. -/
  | returned (i : Nat)
  /-- The call itself, after the promise it has registered. -/
  | finish (i : Nat)
  deriving DecidableEq, Repr

/-- The call that it is the rest of. -/
def LockJob.call : LockJob → Nat
  | .retry i => i
  | .observed i => i
  | .counted i => i
  | .begin i => i
  | .returned i => i
  | .finish i => i

/-- A lock. What a promise settles to, a result or a rejection, is an `R`. -/
structure Lock (R : Type) where
  exclusivePromise : Option Nat
  nonExclusivePromises : List Nat
  /-- How many promises `Promise.all` still waits for. -/
  remaining : Nat → Nat
  loop : EventLoop LockPromise LockJob R
  /-- The calls that have been made. -/
  kinds : List LockKind
  /-- The calls whose callbacks have been called, one entry for each time. -/
  started : List Nat
  /-- What the callers' promises settled to. -/
  delivered : Nat → Option R

namespace Lock

variable {R : Type}

/-! ## 1. The code -/

/-- A new lock. -/
def new : Lock R := ⟨none, [], fun _ => 0, EventLoop.empty, [], [], fun _ => none⟩

/-- `runNonExclusive` after its loop: the callback is called, and its promise is added. -/
def runNonExclusive (i : Nat) (s : Lock R) : Lock R :=
  { s with
    started := s.started ++ [i]
    nonExclusivePromises := s.nonExclusivePromises ++ [i]
    loop := s.loop.await (.callback i) (.finish i) }

/-- `await Promise.all(...)` over the promises that are there. -/
def awaitNonExclusive (i : Nat) (s : Lock R) : EventLoop LockPromise LockJob R :=
  if s.nonExclusivePromises = [] then s.loop.enqueue (.begin i)
  else s.loop.awaitAll (s.nonExclusivePromises.map .callback) (.observed i)

/-- `runExclusive` after its loop: the inner function begins, and its promise is set. -/
def runExclusive (i : Nat) (s : Lock R) : Lock R :=
  { s with
    remaining := Function.update s.remaining i s.nonExclusivePromises.length
    exclusivePromise := some i
    loop := (s.awaitNonExclusive i).await (.exclusive i) (.finish i) }

/-- `while (this.#exclusivePromise) await this.#exclusivePromise`, and what comes behind the loop. -/
def enter (i : Nat) (s : Lock R) : Lock R :=
  match s.exclusivePromise with
  | some e => { s with loop := s.loop.await (.exclusive e) (.retry i) }
  | none =>
    match s.kinds[i]? with
    | some .exclusive => runExclusive i s
    | some .nonExclusive => runNonExclusive i s
    | none => s

/-- `Promise.all` has one promise less to wait for. -/
def count (i : Nat) (s : Lock R) : Lock R :=
  { s with
    remaining := Function.update s.remaining i (s.remaining i - 1)
    loop := if s.remaining i = 1 then s.loop.enqueue (.begin i) else s.loop }

/-- The callback of an exclusive call is called. -/
def begin (i : Nat) (s : Lock R) : Lock R :=
  { s with
    started := s.started ++ [i]
    loop := s.loop.await (.callback i) (.returned i) }

/-- The inner function of `runExclusive` returns, or throws, what the callback did. -/
def returned (i : Nat) (s : Lock R) : Lock R :=
  match s.loop.settled (.callback i) with
  | some r => { s with loop := s.loop.settle (.exclusive i) r }
  | none => s

/-- The promise that a call registers, and waits for in the end. -/
def ownPromise (s : Lock R) (i : Nat) : LockPromise :=
  if s.kinds[i]? = some .exclusive then .exclusive i else .callback i

/-- The `finally` of a call, and its result. -/
def finish (i : Nat) (s : Lock R) : Lock R :=
  { s with
    exclusivePromise := if s.kinds[i]? = some .exclusive then none else s.exclusivePromise
    nonExclusivePromises :=
      if s.kinds[i]? = some .exclusive then s.nonExclusivePromises
      else s.nonExclusivePromises.erase i
    delivered := Function.update s.delivered i (s.loop.settled (s.ownPromise i)) }

/-- A job of the queue. -/
def runJob : LockJob → Lock R → Lock R
  | .retry i, s => enter i s
  | .observed i, s => { s with loop := s.loop.enqueue (.counted i) }
  | .counted i, s => count i s
  | .begin i, s => begin i s
  | .returned i, s => returned i s
  | .finish i, s => finish i s

/-! ## 2. What happens -/

/-- The callback has been called, and its promise is pending. -/
def Running (s : Lock R) (i : Nat) : Prop :=
  i ∈ s.started ∧ s.loop.settled (.callback i) = none

instance (s : Lock R) (i : Nat) : Decidable (s.Running i) :=
  inferInstanceAs (Decidable (_ ∧ s.loop.settled (.callback i) = none))

/-- A call is made, a callback that is running settles, or the next job runs. -/
inductive LockEvent (R : Type)
  | call (kind : LockKind)
  | settle (i : Nat) (r : R)
  | job

/-- The next job, if there is one. -/
def runNext (s : Lock R) : Lock R :=
  match s.loop.next with
  | some (job, loop) => runJob job { s with loop := loop }
  | none => s

/-- One event. -/
def perform (s : Lock R) : LockEvent R → Lock R
  | .call kind => enter s.kinds.length { s with kinds := s.kinds ++ [kind] }
  | .settle i r =>
    if s.Running i then { s with loop := s.loop.settle (.callback i) r } else s
  | .job => s.runNext

/-- The lock after some events. -/
def afterEvents (events : List (LockEvent R)) : Lock R := events.foldl perform new

/-! ## 3. The loop of the calls -/

variable {s : Lock R} {i : Nat}

theorem enter_taken {e : Nat} (h : s.exclusivePromise = some e) (i : Nat) :
    enter i s = { s with loop := s.loop.await (.exclusive e) (.retry i) } := by
  unfold enter
  rw [h]

theorem enter_exclusive (h : s.exclusivePromise = none) (hi : s.kinds[i]? = some .exclusive) :
    enter i s = runExclusive i s := by
  unfold enter
  rw [h, hi]

theorem enter_nonExclusive (h : s.exclusivePromise = none)
    (hi : s.kinds[i]? = some .nonExclusive) : enter i s = runNonExclusive i s := by
  unfold enter
  rw [h, hi]

end Lock

end CoreEx
