/-
  File:      CoreEx/Kernel/MemoryQueue.lean
  Subject:   `core-kernel/source/services/queue/drivers/memory.ts`: jobs that are handled one
             after the other.

  The loop over the jobs is one asynchronous function; every call of it is an activation, and nothing
  but the field `#running` keeps two of them from handling jobs at the same time. A job is known by
  its number in the order in which the jobs were queued, a call of `pause` or `stop` by its own.
  Between two turns of the event loop the queue may be called; what a listener calls while the loop
  is at an event is called there.

  * `MemoryQueue` -- the fields, the event loop, and a record of what has been done;
  * `takeNext`, `processJobs` -- the loop over the jobs, up to an `await`;
  * `push`, `bulk`, `start`, `pause`, `stop`, `clear` -- the methods; `resume` is `start`;
  * `proceed` -- what comes after each `await`;
  * `QueueEvent`, `perform`, `afterEvents` -- all that can happen.
-/
import CoreEx.Lib.EventLoop

namespace CoreEx

/-- How the promise of a job settles. -/
inductive JobResult
  | succeeded
  | failed
  deriving DecidableEq, Repr

/-- A job in the queue. `handle` may throw before it returns a promise. -/
structure QueuedJob where
  number : Nat
  throwsAtOnce : Bool
  deriving DecidableEq, Repr

/-- The promises. -/
inductive QueuePromise
  /-- What `job.handle()` returns. -/
  | handle (n : Nat)
  /-- What `this.events.dispatch(..)` returns after the job. -/
  | dispatch (n : Nat)
  /-- What `#waitUntilProcessed()` returns. -/
  | waiting (c : Nat)
  /-- What `pause()` or `stop()` returns. -/
  | returned (c : Nat)
  deriving DecidableEq, Repr

/-- The rest of a function after an `await`. -/
inductive QueueContinuation
  /-- `#processJobs` after `await job.handle()`. -/
  | handled (n : Nat)
  /-- `#processJobs` after the event has been dispatched. -/
  | dispatched (n : Nat)
  /-- `pause` after `await this.#waitUntilProcessed()`. -/
  | paused (c : Nat)
  /-- `stop` after `await this.clear()`. -/
  | cleared (c : Nat)
  /-- The promise that `stop` returns adopts the one that its body returns. -/
  | adopt (c : Nat)
  | adopted (c : Nat)
  deriving DecidableEq, Repr

namespace QueueContinuation

/-- It is the rest of an activation of `#processJobs`. -/
def isActivation : QueueContinuation → Bool
  | handled _ => true
  | dispatched _ => true
  | _ => false

/-- What it waits for; `await this.clear()` and the adoption wait for what is settled already. -/
def awaits : QueueContinuation → Option QueuePromise
  | handled n => some (.handle n)
  | dispatched n => some (.dispatch n)
  | paused c => some (.waiting c)
  | cleared _ => none
  | adopt _ => none
  | adopted c => some (.waiting c)

end QueueContinuation

/-- A queue. -/
structure MemoryQueue where
  jobs : List QueuedJob
  running : Bool
  started : Bool
  onProcessedCallbacks : List Nat
  loop : EventLoop QueuePromise QueueContinuation JobResult
  /-- How many jobs have been queued. -/
  queued : Nat
  /-- How many calls of `pause` and `stop` have been made. -/
  calls : Nat
  /-- The jobs whose `handle` has been called, one entry for each time. -/
  taken : List Nat
  /-- The jobs that have been taken out of the queue otherwise. -/
  dropped : List Nat
  /-- The events `queue.finished` and `queue.failed`. -/
  reported : List (Nat × JobResult)

namespace MemoryQueue

/-! ## 1. The loop over the jobs -/

/-- A new queue. -/
def new : MemoryQueue := ⟨[], false, false, [], EventLoop.empty, 0, 0, [], [], []⟩

/-- `await this.events.dispatch(..)`. -/
def dispatch (n : Nat) (r : JobResult) (s : MemoryQueue) : MemoryQueue :=
  { s with
    reported := s.reported ++ [(n, r)]
    loop := s.loop.await (.dispatch n) (.dispatched n) }

/-- The body of the loop up to its first `await`; a job that throws at once is caught. -/
def handle (job : QueuedJob) (rest : List QueuedJob) (s : MemoryQueue) : MemoryQueue :=
  let s := { s with running := true, jobs := rest, taken := s.taken ++ [job.number] }
  if job.throwsAtOnce then dispatch job.number .failed s
  else { s with loop := s.loop.await (.handle job.number) (.handled job.number) }

/-- `#resolveOnProcessed()`. -/
def resolveOnProcessed (s : MemoryQueue) : MemoryQueue :=
  { s with
    onProcessedCallbacks := []
    loop := s.loop.settleAll (s.onProcessedCallbacks.map .waiting) .succeeded }

/-- What comes behind the loop; the listeners of `drain` may call the queue. -/
def endLoop (s : MemoryQueue) : MemoryQueue := resolveOnProcessed { s with running := false }

/-- `while (this.#jobs.length > 0) { if (!this.#started) break; .. }`, from its head on. -/
def takeNext (s : MemoryQueue) : MemoryQueue :=
  match s.jobs with
  | [] => endLoop s
  | job :: rest => if s.started then handle job rest s else endLoop s

/-- `#processJobs()`. -/
def processJobs (s : MemoryQueue) : MemoryQueue := if s.running then s else takeNext s

/-! ## 2. The methods -/

/-- `this.#jobs.push(job)`. -/
def enqueue (s : MemoryQueue) (throwsAtOnce : Bool) : MemoryQueue :=
  { s with jobs := s.jobs ++ [⟨s.queued, throwsAtOnce⟩], queued := s.queued + 1 }

/-- `push(job)`. -/
def push (throwsAtOnce : Bool) (s : MemoryQueue) : MemoryQueue :=
  processJobs (s.enqueue throwsAtOnce)

/-- `bulk(jobs)`. -/
def bulk (jobs : List Bool) (s : MemoryQueue) : MemoryQueue := jobs.foldl enqueue s

/-- `start()`. -/
def start (s : MemoryQueue) : MemoryQueue := processJobs { s with started := true }

/-- `clear()`. -/
def clear (s : MemoryQueue) : MemoryQueue :=
  { s with jobs := [], dropped := s.dropped ++ s.jobs.map QueuedJob.number }

/-- `#waitUntilProcessed()`. -/
def waitUntilProcessed (c : Nat) (s : MemoryQueue) : MemoryQueue :=
  if s.running then { s with onProcessedCallbacks := s.onProcessedCallbacks ++ [c] }
  else { s with loop := s.loop.settle (.waiting c) .succeeded }

/-- `this.#started = false` and the promise, with which `pause` and `stop` begin. -/
def suspend (s : MemoryQueue) : MemoryQueue :=
  waitUntilProcessed s.calls { s with started := false, calls := s.calls + 1 }

/-- `pause()`. -/
def pause (s : MemoryQueue) : MemoryQueue :=
  let s' := s.suspend
  { s' with loop := s'.loop.await (.waiting s.calls) (.paused s.calls) }

/-- `stop()`. -/
def stop (s : MemoryQueue) : MemoryQueue :=
  let s' := s.suspend.clear
  { s' with loop := s'.loop.enqueue (.cleared s.calls) }

/-! ## 3. What happens -/

/-- The rest of a function. -/
def proceed : QueueContinuation → MemoryQueue → MemoryQueue
  | .handled n, s =>
    match s.loop.settled (.handle n) with
    | some r => dispatch n r s
    | none => s
  | .dispatched _, s => takeNext s
  | .paused c, s => { s with loop := s.loop.settle (.returned c) .succeeded }
  | .cleared c, s => { s with loop := s.loop.enqueue (.adopt c) }
  | .adopt c, s => { s with loop := s.loop.await (.waiting c) (.adopted c) }
  | .adopted c, s => { s with loop := s.loop.settle (.returned c) .succeeded }

/-- A call of a method. -/
inductive QueueCall
  | push (throwsAtOnce : Bool)
  | bulk (jobs : List Bool)
  | start
  | resume
  | pause
  | stop
  | clear

def call : QueueCall → MemoryQueue → MemoryQueue
  | .push throwsAtOnce, s => push throwsAtOnce s
  | .bulk jobs, s => bulk jobs s
  | .start, s => start s
  | .resume, s => start s
  | .pause, s => pause s
  | .stop, s => stop s
  | .clear, s => clear s

/-- A call; the promise of a job, or of a dispatch, that is waited for settles; or the next turn of
    the event loop. -/
inductive QueueEvent
  | call (c : QueueCall)
  | settle (n : Nat) (r : JobResult)
  | dispatched (n : Nat)
  | turn

/-- A promise that something waits for settles. -/
def settleAwaited (p : QueuePromise) (r : JobResult) (s : MemoryQueue) : MemoryQueue :=
  if p ∈ s.loop.reactions.map Prod.fst then { s with loop := s.loop.settle p r } else s

/-- The next turn. -/
def turn (s : MemoryQueue) : MemoryQueue :=
  match s.loop.next with
  | some (k, loop) => proceed k { s with loop := loop }
  | none => s

/-- One event. -/
def perform (s : MemoryQueue) : QueueEvent → MemoryQueue
  | .call c => call c s
  | .settle n r => settleAwaited (.handle n) r s
  | .dispatched n => settleAwaited (.dispatch n) .succeeded s
  | .turn => turn s

/-- The queue after some events. -/
def afterEvents (events : List QueueEvent) : MemoryQueue := events.foldl perform new

/-- What is left of the activations of `#processJobs`: jobs that are being handled, or whose event is
    being dispatched. -/
def activations (s : MemoryQueue) : List QueueContinuation :=
  s.loop.continuations.filter QueueContinuation.isActivation

/-- The promise of the job is pending, and the loop waits for it. -/
def Handling (s : MemoryQueue) (n : Nat) : Prop :=
  (QueuePromise.handle n, QueueContinuation.handled n) ∈ s.loop.reactions

instance (s : MemoryQueue) (n : Nat) : Decidable (s.Handling n) :=
  inferInstanceAs (Decidable (_ ∈ s.loop.reactions))

end MemoryQueue

end CoreEx
