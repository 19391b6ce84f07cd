/-
  File:      CoreEx/Blockchain/StateMachine.lean
  Subject:   `core-blockchain/source/state-machine`: the machine of the node with its actions, and the
             parts of `blockchain.ts` that send it events.

  The machine is sent an event at a time. Entering a state puts its actions behind what runs already;
  some of them wait for the network before they send an event of their own. Between two of these
  pieces of code the queue may go on, a block may come in, a timer may fire.

  * `SyncState`, `BlockchainState`, `MachineEvent`, `ActionKey`, `blockchainMachine` -- the machine;
  * `MachineNode`, `dispatch` -- the node around it;
  * `enqueueBlocks`, `finishJob`, `forkBlock`, `dispose` -- what else happens on it;
  * `Performs`, `Ends`, `MachineStep` -- the pieces of code that run;
  * **`enqueue_view`**, `finishJob_view`, `pause_view` -- the queue as the memory queue behaves.
-/
import CoreEx.Kernel.MemoryQueue
import CoreEx.Lib.Statechart

namespace CoreEx

/-! ## 1. The machine -/

/-- The states in `syncWithNetwork`; `ended` is `end`. -/
inductive SyncState where
  | downloadBlocks
  | downloadFinished
  | downloadPaused
  | ended
  | idle
  | processFinished
  | syncing
  deriving DecidableEq, Repr

inductive BlockchainState where
  | exit
  | fork
  | idle
  | init
  | newBlock
  | stopped
  | syncWithNetwork (s : SyncState)
  | uninitialised
  deriving DecidableEq, Repr

/-- The events, of the machine and of the code. -/
inductive MachineEvent where
  | downloaded
  | failure
  | fork
  | networkHalted
  | networkStart
  | newBlock
  | noBlock
  | notSynced
  | paused
  | processFinished
  | rollback
  | start
  | started
  | stop
  | success
  | syncFinished
  | synced
  | test
  | wakeUp
  deriving DecidableEq, Repr

/-- The names of the actions. -/
inductive ActionKey where
  | blockchainReady
  | checkLastBlockSynced
  | checkLastDownloadedBlockSynced
  | checkLater
  | downloadBlocks
  | downloadFinished
  | downloadPaused
  | exitApp
  | init
  | startForkRecovery
  | stopped
  | syncingComplete
  deriving DecidableEq, Repr

namespace SyncState

/-- `on` of the states in `syncWithNetwork`. -/
def on : SyncState → MachineEvent → Option SyncState
  | downloadBlocks, .downloaded => some syncing
  | downloadBlocks, .noBlock => some syncing
  | downloadBlocks, .processFinished => some downloadFinished
  | downloadFinished, .processFinished => some processFinished
  | downloadPaused, .processFinished => some processFinished
  | idle, .downloaded => some downloadBlocks
  | processFinished, .notSynced => some downloadBlocks
  | processFinished, .synced => some ended
  | syncing, .networkHalted => some ended
  | syncing, .notSynced => some downloadBlocks
  | syncing, .paused => some downloadPaused
  | syncing, .synced => some downloadFinished
  | _, _ => none

/-- `onEntry`. -/
def onEntry : SyncState → List ActionKey
  | downloadBlocks => [.downloadBlocks]
  | downloadFinished => [.downloadFinished]
  | downloadPaused => [.downloadPaused]
  | ended => [.syncingComplete]
  | idle => []
  | processFinished => [.checkLastBlockSynced]
  | syncing => [.checkLastDownloadedBlockSynced]

end SyncState

namespace BlockchainState

/-- `on` of a state that has none inside, and of one inside `syncWithNetwork`, whose first state is
    `syncing`. -/
def own : BlockchainState → MachineEvent → Option BlockchainState
  | fork, .failure => some exit
  | fork, .stop => some stopped
  | fork, .success => some (syncWithNetwork .syncing)
  | idle, .fork => some fork
  | idle, .newBlock => some newBlock
  | idle, .stop => some stopped
  | idle, .wakeUp => some (syncWithNetwork .syncing)
  | init, .failure => some exit
  | init, .networkStart => some idle
  | init, .started => some (syncWithNetwork .syncing)
  | init, .stop => some stopped
  | newBlock, .fork => some fork
  | newBlock, .processFinished => some idle
  | newBlock, .stop => some stopped
  | syncWithNetwork s, e => (s.on e).map syncWithNetwork
  | uninitialised, .start => some init
  | uninitialised, .stop => some stopped
  | _, _ => none

/-- `on` of `syncWithNetwork`. -/
def enclosing : BlockchainState → MachineEvent → Option BlockchainState
  | syncWithNetwork _, .fork => some fork
  | syncWithNetwork _, .stop => some stopped
  | syncWithNetwork _, .syncFinished => some idle
  | syncWithNetwork _, .test => some idle
  | _, _ => none

/-- `onEntry`. -/
def onEntry : BlockchainState → List ActionKey
  | exit => [.exitApp]
  | fork => [.startForkRecovery]
  | idle => [.checkLater, .blockchainReady]
  | init => [.init]
  | newBlock => []
  | stopped => [.stopped]
  | syncWithNetwork s => s.onEntry
  | uninitialised => []

end BlockchainState

/-- `blockchainMachine`. -/
def blockchainMachine : Statechart BlockchainState MachineEvent ActionKey where
  initial := .uninitialised
  own := BlockchainState.own
  enclosing := BlockchainState.enclosing
  onEntry := BlockchainState.onEntry

/-- The table `actions` has an action of the name. -/
def ActionKey.isFound : ActionKey → Bool
  | startForkRecovery => false
  | _ => true

/-! ## 2. The node -/

/-- An action, or a part of one, that waits for something. -/
inductive Activity where
  /-- `Initialize`. -/
  | initializing
  /-- `CheckLastDownloadedBlockSynced` while it checks the health of the network. -/
  | checking
  /-- `DownloadBlocks`, from the block with an id on. -/
  | downloading (lastDownloadedBlock : String)
  /-- `DownloadBlocks` while it looks whether the first block is chained. -/
  | chaining
  deriving DecidableEq, Repr

/-- What the machine and its actions work on; blocks by their ids. -/
structure MachineNode where
  /-- `stateStore.getBlockchain().value`. -/
  value : BlockchainState
  /-- What has been given to `setImmediate`. -/
  pending : List ActionKey
  active : List Activity
  /-- The events the machine has been sent, as it logs them. -/
  events : List MachineEvent
  lastBlock : String
  lastDownloadedBlock : Option String
  /-- `queue.size()`, the jobs that wait. -/
  waiting : Nat
  /-- `queue.isRunning()`. -/
  running : Bool
  /-- `queue.isStarted()`. -/
  queueStarted : Bool
  /-- `stateStore.isStarted()`. -/
  started : Bool
  /-- `blockchain.isStopped()`. -/
  stopped : Bool
  /-- `stateStore.isWakeUpTimeoutSet()`. -/
  wakeUpTimeout : Bool
  networkStart : Bool
  /-- What waited for a promise that was rejected; nobody waits for the actions. -/
  rejected : List Activity
  deriving DecidableEq, Repr

namespace MachineNode

/-- `stateMachine.transition(event)`; an action that is not found is reported only. -/
def dispatch (e : MachineEvent) (s : MachineNode) : MachineNode :=
  { s with
    value := (blockchainMachine.transition s.value e).1
    pending := s.pending ++ (blockchainMachine.transition s.value e).2.filter ActionKey.isFound
    events := s.events ++ [e] }

/-- The node that `boot()` leaves. -/
def booted (lastBlock : String) (networkStart : Bool) : MachineNode :=
  dispatch .start
    ⟨blockchainMachine.initial, [], [], [], lastBlock, none, 0, false, false, false, false, false,
      networkStart, []⟩

/-- A job is pushed, and the queue resumed. -/
def createQueueJob (s : MachineNode) : MachineNode :=
  if s.running then { s with waiting := s.waiting + 1, queueStarted := true }
  else { s with running := true, queueStarted := true }

/-- `enqueueBlocks(blocks)`, of blocks that make some number of jobs. -/
def enqueueBlocks (jobs : Nat) (s : MachineNode) : MachineNode := createQueueJob^[jobs] s

/-- `clearQueue()`. -/
def clearQueue (s : MachineNode) : MachineNode := { s with waiting := 0 }

/-- `forkBlock(block)`. -/
def forkBlock (s : MachineNode) : MachineNode :=
  dispatch .fork
    { s with lastDownloadedBlock := some s.lastBlock, waiting := 0, queueStarted := false }

/-- A job has been handled: the queue goes on with the next one, or ends, and reports when it is
    empty. -/
def finishJob (s : MachineNode) : MachineNode :=
  if s.waiting = 0 then dispatch .processFinished { s with running := false }
  else if s.queueStarted then { s with waiting := s.waiting - 1 }
  else { s with running := false }

/-- `dispose()`. -/
def dispose (s : MachineNode) : MachineNode :=
  if s.stopped then s
  else
    { dispatch .stop { s with stopped := true, wakeUpTimeout := false } with
      waiting := 0
      queueStarted := false }

/-- A timer fires, or the forger wakes the node. -/
def forceWakeup (s : MachineNode) : MachineNode :=
  dispatch .wakeUp { s with wakeUpTimeout := false }

/-- `handleIncomingBlock(block)`, from where the block is enqueued: a block makes one job or two. -/
def handleIncomingBlock (jobs : Nat) (s : MachineNode) : MachineNode :=
  if s.started then enqueueBlocks jobs (dispatch .newBlock s) else s

/-- The block downloaded last has changed since a download began. -/
def Changed (s : MachineNode) (lastDownloadedBlock : String) : Prop :=
  ∃ id, s.lastDownloadedBlock = some id ∧ id ≠ lastDownloadedBlock

/-- `DownloadBlocks` when there is nothing it can enqueue. -/
def noBlock (empty : Bool) (s : MachineNode) : MachineNode :=
  let cleared := if empty then s else clearQueue s
  dispatch .noBlock
    (if cleared.waiting = 0 then { cleared with lastDownloadedBlock := some cleared.lastBlock }
    else cleared)

end MachineNode

open MachineNode

/-! ## 3. The pieces of code that run -/

/-- **An action** that begins, up to its end or to where it waits. -/
inductive Performs : ActionKey → MachineNode → MachineNode → Prop
  | blockchainReady (s : MachineNode) : Performs .blockchainReady s { s with started := true }
  | checkLastBlockSynced (isSynced : Bool) (s : MachineNode) :
    Performs .checkLastBlockSynced s (dispatch (if isSynced then .synced else .notSynced) s)
  | notSynced (s : MachineNode) :
    Performs .checkLastDownloadedBlockSynced s (dispatch .notSynced s)
  | paused (s : MachineNode) : 100 < s.waiting →
    Performs .checkLastDownloadedBlockSynced s (dispatch .paused s)
  | networkHalted (s : MachineNode) : s.running = false →
    Performs .checkLastDownloadedBlockSynced s (dispatch .networkHalted s)
  | checking (s : MachineNode) : s.running = false →
    Performs .checkLastDownloadedBlockSynced s { s with active := s.active ++ [.checking] }
  | synced (s : MachineNode) : Performs .checkLastDownloadedBlockSynced s (dispatch .synced s)
  | test (s : MachineNode) : Performs .checkLastDownloadedBlockSynced s (dispatch .test s)
  | checkLater (s : MachineNode) : Performs .checkLater s
    (if s.stopped = false ∧ s.wakeUpTimeout = false then { s with wakeUpTimeout := true } else s)
  | downloadBlocks (s : MachineNode) : Performs .downloadBlocks s
    { s with active := s.active ++ [.downloading (s.lastDownloadedBlock.getD s.lastBlock)] }
  | downloadFinished (s : MachineNode) : Performs .downloadFinished s
    (if s.networkStart then dispatch .syncFinished { s with networkStart := false }
    else if s.running then s
    else dispatch .processFinished s)
  | downloadPaused (s : MachineNode) : Performs .downloadPaused s s
  | exitApp (s : MachineNode) : Performs .exitApp s s
  | init (s : MachineNode) : Performs .init s { s with active := s.active ++ [.initializing] }
  | stopped (s : MachineNode) : Performs .stopped s s
  | syncingComplete (s : MachineNode) : Performs .syncingComplete s (dispatch .syncFinished s)

/-- **What waits** goes on. -/
inductive Ends : Activity → MachineNode → MachineNode → Prop
  | rollback (s : MachineNode) : Ends .initializing s (dispatch .rollback s)
  | failure (s : MachineNode) : Ends .initializing s (dispatch .failure s)
  | started (s : MachineNode) : Ends .initializing s (dispatch .started s)
  | networkHalted (s : MachineNode) : Ends .checking s (dispatch .networkHalted s)
  | fork (s : MachineNode) : Ends .checking s (dispatch .fork s)
  | synced (s : MachineNode) : Ends .checking s (dispatch .synced s)
  | test (s : MachineNode) : Ends .checking s (dispatch .test s)
  | given (id : String) (s : MachineNode) : s.stopped = true ∨ s.Changed id →
    Ends (.downloading id) s s
  | empty (id : String) (s : MachineNode) : s.stopped = false → ¬s.Changed id →
    Ends (.downloading id) s (s.noBlock true)
  | chaining (id : String) (s : MachineNode) : s.stopped = false → ¬s.Changed id →
    Ends (.downloading id) s { s with active := s.active ++ [.chaining] }
  | unchained (s : MachineNode) : Ends .chaining s (s.noBlock false)
  | downloaded (jobs : Nat) (last : String) (s : MachineNode) : 0 < jobs →
    Ends .chaining s
      (dispatch .downloaded { s.enqueueBlocks jobs with lastDownloadedBlock := some last })
  | failed (jobs : Nat) (s : MachineNode) :
    Ends .chaining s (dispatch .noBlock (s.enqueueBlocks jobs))
  /-- `checkNetworkHealth`, `downloadBlocksFromHeight` or `isBlockChained` throws: only `Initialize`
      catches what is thrown where it waits. -/
  | thrown (a : Activity) (s : MachineNode) : a ≠ .initializing →
    Ends a s { s with rejected := s.rejected ++ [a] }

/-- **One piece of code**, in any order. -/
inductive MachineStep : MachineNode → MachineNode → Prop
  | action {s s' : MachineNode} (before after : List ActionKey) (a : ActionKey) :
    s.pending = before ++ a :: after → Performs a { s with pending := before ++ after } s' →
    MachineStep s s'
  | activity {s s' : MachineNode} (before after : List Activity) (a : Activity) :
    s.active = before ++ a :: after → Ends a { s with active := before ++ after } s' →
    MachineStep s s'
  | handleIncomingBlock (jobs : Nat) (s : MachineNode) : 0 < jobs →
    MachineStep s (s.handleIncomingBlock jobs)
  /-- A job that runs changes the last block and the one downloaded last. -/
  | process (s : MachineNode) (lastBlock : String) (lastDownloadedBlock : Option String) :
    s.running = true →
    MachineStep s { s with lastBlock := lastBlock, lastDownloadedBlock := lastDownloadedBlock }
  | clearQueue (s : MachineNode) : s.running = true → MachineStep s s.clearQueue
  | forkBlock (s : MachineNode) : s.running = true → MachineStep s s.forkBlock
  | resetWakeUp (s : MachineNode) : s.running = true → s.started = true →
    MachineStep s { s with wakeUpTimeout := true }
  | finishJob (s : MachineNode) : s.running = true → MachineStep s s.finishJob
  | forceWakeup (s : MachineNode) : MachineStep s s.forceWakeup
  | checkMissingBlocks (s : MachineNode) : MachineStep s (dispatch .fork s)
  | dispose (s : MachineNode) : MachineStep s s.dispose

/-- What comes of a node. -/
abbrev Becomes : MachineNode → MachineNode → Prop := Relation.ReflTransGen MachineStep

/-! ## 4. The queue -/

namespace MemoryQueue

/-- What the machine sees of the queue: how many jobs wait, whether it runs, and whether it may. -/
def view (q : MemoryQueue) : Nat × Bool × Bool := (q.jobs.length, q.running, q.started)

theorem view_handle (job : QueuedJob) (rest : List QueuedJob) (q : MemoryQueue) :
    view (handle job rest q) = (rest.length, true, q.started) := by
  unfold handle
  dsimp only
  split <;> rfl

theorem view_takeNext (q : MemoryQueue) : view (takeNext q) =
    if q.jobs.length = 0 ∨ q.started = false then (q.jobs.length, false, q.started)
    else (q.jobs.length - 1, true, q.started) := by
  unfold takeNext
  cases hjobs : q.jobs with
  | nil =>
    show view (endLoop q) = _
    unfold view endLoop resolveOnProcessed
    rw [hjobs]
    rfl
  | cons job rest =>
    cases hstarted : q.started with
    | false =>
      show view (endLoop q) = _
      unfold view endLoop resolveOnProcessed
      rw [hjobs, hstarted]
      rfl
    | true =>
      show view (handle job rest q) = _
      rw [view_handle, hstarted]
      rfl

/-- **A job that is pushed before the queue is resumed**, as `createQueueJob` has it. -/
theorem enqueue_view (q : MemoryQueue) (throwsAtOnce : Bool)
    (h : q.running = false → q.jobs = []) :
    view (start (push throwsAtOnce q)) =
      if q.running then (q.jobs.length + 1, true, true) else (0, true, true) := by
  cases hrunning : q.running with
  | true =>
    unfold start push processJobs enqueue view
    simp [hrunning]
  | false =>
    have hjobs := h hrunning
    cases hstarted : q.started with
    | false =>
      have hpush : push throwsAtOnce q = endLoop (q.enqueue throwsAtOnce) := by
        unfold push processJobs enqueue takeNext
        simp [hrunning, hstarted, hjobs]
      rw [hpush]
      unfold start processJobs endLoop resolveOnProcessed enqueue
      simp only [hjobs, Bool.false_eq_true, if_false]
      rw [view_takeNext]
      rfl
    | true =>
      have hpush : view (push throwsAtOnce q) = (0, true, true) := by
        unfold push processJobs enqueue
        simp only [hrunning, Bool.false_eq_true, if_false]
        rw [view_takeNext]
        simp [hjobs, hstarted]
      have hrun : (push throwsAtOnce q).running = true :=
        congrArg (fun v : Nat × Bool × Bool => v.2.1) hpush
      have hlength : (push throwsAtOnce q).jobs.length = 0 := congrArg Prod.fst hpush
      unfold start processJobs view
      simp [hrun, hlength]

/-- The queue after a job, as `finishJob` has it. -/
theorem finishJob_view (q : MemoryQueue) : view (proceed (.dispatched 0) q) =
    if q.jobs.length = 0 ∨ q.started = false then (q.jobs.length, false, q.started)
    else (q.jobs.length - 1, true, q.started) := view_takeNext q

/-- The queue that is paused and cleared, as `forkBlock` has it. -/
theorem pause_view (q : MemoryQueue) : view (clear (pause q)) = (0, q.running, false) := by
  unfold clear pause suspend waitUntilProcessed view
  dsimp only
  split <;> simp_all

end MemoryQueue

end CoreEx
