/-
  File:      CoreEx/Blockchain/ProcessBlocksJob.lean
  Subject:   `core-blockchain/source/process-blocks-job.ts`, with the handlers of
             `processor/handlers` and what they ask of `blockchain.ts`.

  A job takes the blocks of a chunk one after the other and stops at the first that is not accepted.
  What comes of a block in the parts that look at it -- the clock, the factory, the processor, the
  wallets, the rounds, the pool -- is a `Trial` of it, and may be anything. What the handlers and the
  job make of it is the code here: the last block, the one downloaded last, the queue and the block
  of a fork.

  * `BlockchainNode`, `clearQueue`, `resetLastDownloadedBlock`, `forkBlock`;
  * `Trial`, `BlockHandler.execute` -- a block and its handler;
  * `tryBlock`, `processBlocks`, `conclude`, `revertBlocks`, `handle` -- the job;
  * **`handlerOf_next`** -- what a `Trial` promises of the processor; `trialOf` -- the `Trial` of a
    block on a node.
-/
import CoreEx.Blocks.BlockProcessor

namespace CoreEx

/-! ## 1. What the job works on -/

/-- `BlockProcessorResult`. -/
inductive BlockProcessorResult where
  | accepted
  | discardedButCanBeBroadcasted
  | rejected
  | rollback
  | reverted
  | corrupted
  deriving DecidableEq, Repr

/-- The fields of the state store and of the blockchain that the job touches. -/
structure BlockchainNode where
  lastBlock : BlockData
  lastDownloadedBlock : Option BlockData
  lastStoredBlockHeight : Nat
  forkedBlock : Option BlockData
  /-- The chunks of the jobs that wait. -/
  queue : List (List BlockData)
  started : Bool
  /-- `stateMachine.getState()`. -/
  machineState : String
  /-- What has been handed to `networkMonitor.broadcastBlock`. -/
  broadcasted : List BlockData
  /-- The events the state machine has been sent. -/
  dispatched : List String
  deriving DecidableEq, Repr

namespace BlockchainNode

/-- `blockchain.getLastDownloadedBlock()`. -/
def getLastDownloadedBlock (s : BlockchainNode) : BlockData :=
  s.lastDownloadedBlock.getD s.lastBlock

/-- `clearQueue()`. -/
def clearQueue (s : BlockchainNode) : BlockchainNode := { s with queue := [] }

/-- `resetLastDownloadedBlock()`. -/
def resetLastDownloadedBlock (s : BlockchainNode) : BlockchainNode :=
  { s with lastDownloadedBlock := some s.lastBlock }

/-- `dispatch(event)`. -/
def dispatch (event : String) (s : BlockchainNode) : BlockchainNode :=
  { s with dispatched := s.dispatched ++ [event] }

/-- `forkBlock(block)`, of which `clearAndStopQueue` is a part. -/
def forkBlock (block : BlockData) (s : BlockchainNode) : BlockchainNode :=
  (clearQueue (resetLastDownloadedBlock { s with forkedBlock := some block })).dispatch "FORK"

end BlockchainNode

open BlockchainNode

/-- Code that works on it and may throw. -/
abbrev BlockchainProg : Type → Type := Prog BlockchainNode Exception

/-- What comes of `databaseInteraction.applyBlock(block)`. -/
inductive Application where
  | applied
  /-- It throws before the block is the last one. -/
  | refused (error : Exception)
  /-- It throws when the block is the last one already. -/
  | brokenOff (error : Exception)
  deriving DecidableEq, Repr

/-- A block of a chunk, and what is found when it is processed. -/
structure Trial where
  block : BlockData
  currentSlot : Except Exception Int
  blockSlot : Except Exception Int
  /-- `blockFactory.fromData(block)`. -/
  fromData : Except Exception Unit
  /-- The handler `BlockProcessor.process` gives the block to on top of a last block. -/
  handler : BlockData → Except Exception BlockHandler
  /-- Whether the generator is among the active validators of the round. -/
  activeGenerator : Except Exception Bool
  application : Application
  /-- `transactionPool.removeForgedTransaction`, of all its transactions. -/
  removeForged : Except Exception Unit
  /-- What there is of the block before, when it is reverted. -/
  previousBlock : Option BlockData
  /-- A block that is accepted comes next. -/
  next : ∀ lastBlock, handler lastBlock = .ok .acceptBlock → block.height = lastBlock.height + 1

/-! ## 2. The handlers -/

/-- `execute` of `VerificationFailedHandler`, `IncompatibleTransactionsHandler`,
    `NonceOutOfOrderHandler` and `InvalidGeneratorHandler`. -/
def RejectingHandler.execute : BlockchainProg BlockProcessorResult := do
  Prog.modify resetLastDownloadedBlock
  pure .rejected

/-- `AlreadyForgedHandler.execute(block)`. -/
def AlreadyForgedHandler.execute : BlockchainProg BlockProcessorResult := do
  Prog.modify resetLastDownloadedBlock
  pure .discardedButCanBeBroadcasted

namespace UnchainedHandler

/-- `UnchainedBlockStatus`. -/
inductive UnchainedBlockStatus where
  | notReadyToAcceptNewHeight
  | alreadyInBlockchain
  | equalToLastBlock
  | generatorMismatch
  | doubleForging
  | invalidTimestamp
  deriving DecidableEq, Repr

/-- `#checkUnchainedBlock(block)`. -/
def checkUnchainedBlock (isValidGenerator : Bool) (lastBlock block : BlockData) :
    UnchainedBlockStatus :=
  if block.height > lastBlock.height + 1 then .notReadyToAcceptNewHeight
  else if block.height < lastBlock.height then .alreadyInBlockchain
  else if block.height = lastBlock.height ∧ block.id = lastBlock.id then .equalToLastBlock
  else if block.timestamp < lastBlock.timestamp then .invalidTimestamp
  else if isValidGenerator then .doubleForging
  else .generatorMismatch

/-- The result for a status. -/
def answer (t : Trial) : UnchainedBlockStatus → BlockchainProg BlockProcessorResult
  | .doubleForging => do
    let active ← Prog.ofExcept t.activeGenerator
    pure (if active then .rollback else .rejected)
  | .notReadyToAcceptNewHeight | .generatorMismatch | .invalidTimestamp => pure .rejected
  | .alreadyInBlockchain | .equalToLastBlock => pure .discardedButCanBeBroadcasted

/-- `execute(block)`. -/
def execute (isValidGenerator : Bool) (t : Trial) : BlockchainProg BlockProcessorResult := do
  Prog.modify resetLastDownloadedBlock
  Prog.modify clearQueue
  let lastBlock ← Prog.gets BlockchainNode.lastBlock
  answer t (checkUnchainedBlock isValidGenerator lastBlock t.block)

end UnchainedHandler

/-- `RevertBlockHandler.execute(block)`; without a previous block something has been thrown. -/
def RevertBlockHandler.execute (previousBlock : Option BlockData) (block : BlockData) :
    BlockchainProg BlockProcessorResult :=
  match previousBlock with
  | some previous =>
    if previous.height + 1 = block.height then do
      Prog.modify fun s => { s with lastBlock := previous }
      pure .reverted
    else pure .corrupted
  | none => pure .corrupted

namespace AcceptBlockHandler

/-- `databaseInteraction.applyBlock(block)`. -/
def applyBlock (t : Trial) : BlockchainProg Unit :=
  match t.application with
  | .applied => Prog.modify fun s => { s with lastBlock := t.block }
  | .refused error => Prog.throw error
  | .brokenOff error => do
    Prog.modify fun s => { s with lastBlock := t.block }
    Prog.throw error

/-- A fork ends with a block of the height it began at. -/
def recover (block : BlockData) (s : BlockchainNode) : BlockchainNode :=
  match s.forkedBlock with
  | some forked => if forked.height = block.height then { s with forkedBlock := none } else s
  | none => s

/-- `lastDownloadedBlock` is never behind the last accepted block. -/
def keepUp (block : BlockData) (s : BlockchainNode) : BlockchainNode :=
  match s.lastDownloadedBlock with
  | some downloaded =>
    if downloaded.height < block.height then { s with lastDownloadedBlock := some block } else s
  | none => s

/-- The `try` of `execute`. -/
def accept (t : Trial) : BlockchainProg BlockProcessorResult := do
  applyBlock t
  Prog.modify (recover t.block)
  Prog.ofExcept t.removeForged
  Prog.modify (keepUp t.block)
  pure .accepted

/-- A block that has been the last one is reverted. -/
def revertAccepted (t : Trial) : BlockchainProg BlockProcessorResult := do
  let revertResult ← RevertBlockHandler.execute t.previousBlock t.block
  pure (if revertResult = .corrupted then revertResult else .rejected)

/-- The `catch` of `execute`. -/
def refuse (t : Trial) : BlockchainProg BlockProcessorResult := do
  Prog.modify resetLastDownloadedBlock
  let lastBlock ← Prog.gets BlockchainNode.lastBlock
  if lastBlock.height = t.block.height then revertAccepted t else pure .rejected

/-- `execute(block)`. -/
def execute (t : Trial) : BlockchainProg BlockProcessorResult :=
  Prog.tryCatch (accept t) fun _ => refuse t

end AcceptBlockHandler

/-- `execute(block)` of a handler. -/
def BlockHandler.execute (t : Trial) : BlockHandler → BlockchainProg BlockProcessorResult
  | .verificationFailed | .incompatibleTransactions | .nonceOutOfOrder | .invalidGenerator =>
    RejectingHandler.execute
  | .unchained isValidGenerator => UnchainedHandler.execute isValidGenerator t
  | .alreadyForged => AlreadyForgedHandler.execute
  | .acceptBlock => AcceptBlockHandler.execute t

/-! ## 3. The job -/

/-- How a job ends that does not return. -/
inductive JobStop where
  /-- `process.exit(1)`. -/
  | exited
  | thrown (error : Exception)
  deriving DecidableEq, Repr

abbrev JobProg : Type → Type := Prog BlockchainNode JobStop

namespace ProcessBlocksJob

/-- What else the job meets. -/
structure Surroundings where
  /-- `databaseService.saveBlocks(acceptedBlocks)`. -/
  saveBlocks : Except Exception Unit
  /-- What there is of the block before one that is reverted. -/
  previousBlock : BlockData → Option BlockData
  calculateRound : Except Exception Unit
  deleteRound : Except Exception Unit
  restoreCurrentRound : Except Exception Unit

/-- The variables of `handle`. -/
structure ChunkState where
  acceptedBlocks : List BlockData
  forkBlock : Option BlockData
  lastProcessResult : Option BlockProcessorResult
  lastProcessedBlock : Option BlockData
  deriving DecidableEq, Repr

def ChunkState.new : ChunkState := ⟨[], none, none, none⟩

/-- The loop's body up to the result: nothing comes of a block of a future slot. -/
def processBlock (t : Trial) : BlockchainProg (Option BlockProcessorResult) := do
  let currentSlot ← Prog.ofExcept t.currentSlot
  let blockSlot ← Prog.ofExcept t.blockSlot
  if blockSlot > currentSlot then pure none
  else do
    Prog.ofExcept t.fromData
    let lastBlock ← Prog.gets BlockchainNode.lastBlock
    let handler ← Prog.ofExcept (t.handler lastBlock)
    let result ← handler.execute t
    pure (some result)

/-- Code that ends with nothing when it throws. -/
def caught {α : Type} (x : BlockchainProg (Option α)) : JobProg (Option α) :=
  ⟨fun s => match x.run s with
    | .done result s' => .done result s'
    | .thrown _ s' => .done none s'⟩

/-- The loop ends at an exception as it ends at a block of a future slot. -/
def tryBlock (t : Trial) : JobProg (Option BlockProcessorResult) := caught (processBlock t)

/-- What a result that is not `Accepted` leaves. -/
def stopAt (block : BlockData) (result : BlockProcessorResult) (c : ChunkState) :
    JobProg ChunkState :=
  match result with
  | .corrupted => Prog.throw .exited
  | .rollback => do
    Prog.modify fun s => { s with lastDownloadedBlock := some block }
    pure { c with forkBlock := some block }
  | _ => pure c

/-- The loop. -/
def processBlocks : List Trial → ChunkState → JobProg ChunkState
  | [], c => pure c
  | t :: blocks, c =>
    tryBlock t >>= fun result =>
      match result with
      | none => pure c
      | some .accepted => processBlocks blocks
        ⟨c.acceptedBlocks ++ [t.block], c.forkBlock, some .accepted, some t.block⟩
      | some result =>
        stopAt t.block result ⟨c.acceptedBlocks, c.forkBlock, some result, some t.block⟩

/-- `networkMonitor.broadcastBlock(block)`, when it is wanted. -/
def broadcast (block : BlockData) (s : BlockchainNode) : BlockchainNode :=
  if s.started = true ∧ s.machineState = "newBlock" then
    { s with broadcasted := s.broadcasted ++ [block] }
  else s

/-- The block that may be broadcast when the chunk is done. -/
def ChunkState.toBroadcast (c : ChunkState) : Option BlockData :=
  if c.lastProcessResult = some .accepted ∨
      c.lastProcessResult = some .discardedButCanBeBroadcasted then c.lastProcessedBlock
  else none

/-- The end of `handle`. -/
def conclude (c : ChunkState) (s : BlockchainNode) : BlockchainNode :=
  match c.toBroadcast, c.forkBlock with
  | some block, _ => broadcast block s
  | none, some block => BlockchainNode.forkBlock block s
  | none, none => resetLastDownloadedBlock (clearQueue s)

/-- What `RevertBlockHandler` answers for a block of the job. -/
def revertResult (x : Surroundings) (block : BlockData) :
    BlockchainProg (Option BlockProcessorResult) := do
  let result ← RevertBlockHandler.execute (x.previousBlock block) block
  pure (some result)

/-- One pass of the loop of `#revertBlocks`. -/
def revertOne (x : Surroundings) (block : BlockData) : JobProg Unit := do
  let result ← caught (revertResult x block)
  Prog.throwIf (result = some .corrupted) .exited

/-- A call whose exception the job passes on. -/
def passOn (result : Except Exception Unit) : JobProg Unit :=
  Prog.ofExcept (result.mapError JobStop.thrown)

/-- `#revertBlocks(blocksToRevert)`. -/
def revertBlocks (x : Surroundings) (blocksToRevert : List BlockData) : JobProg Unit := do
  passOn x.calculateRound
  Prog.forEach (revertOne x) blocksToRevert.reverse
  passOn x.deleteRound
  passOn x.restoreCurrentRound
  Prog.modify clearQueue
  Prog.modify resetLastDownloadedBlock

/-- `handle` from where blocks are saved. -/
def finish (x : Surroundings) (c : ChunkState) : JobProg Unit :=
  match c.acceptedBlocks.getLast? with
  | none => Prog.modify (conclude c)
  | some last =>
    match x.saveBlocks with
    | .ok () => Prog.modify fun s => conclude c { s with lastStoredBlockHeight := last.height }
    | .error _ => revertBlocks x c.acceptedBlocks

/-- `handle()`. The test whether the first block is chained is of a promise that is not awaited, and
    a promise counts as true. -/
def handle (x : Surroundings) (blocks : List Trial) : JobProg Unit :=
  if blocks = [] then pure ()
  else do
    let c ← processBlocks blocks .new
    finish x c

end ProcessBlocksJob

/-! ## 4. The processor -/

namespace BlockProcessor

variable {env : BlockServices} {node : Node} {now later : Int} {block : Block}
  {r : WalletRepository} {L : Ledger} {N : Names} {lastBlock : BlockData}

/-- The handler `process` gives a block to, on a node with a last block. -/
def handlerOf (env : BlockServices) (node : Node) (now later : Int) (block : Block)
    (r : WalletRepository) (lastBlock : BlockData) : Except Exception BlockHandler :=
  if node.store.lastBlock?.map Block.data = some lastBlock then
    match (process env node now later block).run r with
    | .done handler _ => .ok handler
    | .thrown e _ => .error e
  else .error (.error "")

/-- **A block that is accepted comes next**, as `Trial.next` says. -/
theorem handlerOf_next (hr : Stands env.toServices (L, N) r)
    (h : handlerOf env node now later block r lastBlock = .ok .acceptBlock) :
    block.data.height = lastBlock.height + 1 := by
  unfold handlerOf at h
  by_cases hlast : node.store.lastBlock?.map Block.data = some lastBlock
  · rw [if_pos hlast] at h
    cases hrun : (process env node now later block).run r with
    | thrown e r' =>
      rw [hrun] at h
      cases h
    | done handler r' =>
      rw [hrun] at h
      obtain rfl : handler = .acceptBlock := Except.ok.inj h
      obtain ⟨last, hlast', hchained, _⟩ := ((process_accepts_iff hr).1 ⟨r', hrun⟩).1.chained
      rw [hlast'] at hlast
      cases hlast
      unfold isBlockChained at hchained
      split at hchained
      · have hall := Except.ok.inj hchained
        rw [Bool.and_eq_true, Bool.and_eq_true] at hall
        exact of_decide_eq_true hall.1.2
      · cases hchained
      · cases hchained
  · rw [if_neg hlast] at h
    cases h

/-- **The `Trial` of a block on a node**: its handler is the one the processor gives it to. -/
def trialOf (env : BlockServices) (node : Node) (now later : Int) (block : Block)
    (r : ConsistentRepository env.toServices) (currentSlot blockSlot : Except Exception Int)
    (fromData : Except Exception Unit) (activeGenerator : Except Exception Bool)
    (application : Application) (removeForged : Except Exception Unit)
    (previousBlock : Option BlockData) : Trial where
  block := block.data
  currentSlot := currentSlot
  blockSlot := blockSlot
  fromData := fromData
  handler := handlerOf env node now later block r.toWalletRepository
  activeGenerator := activeGenerator
  application := application
  removeForged := removeForged
  previousBlock := previousBlock
  next _ h := handlerOf_next r.stands h

end BlockProcessor

end CoreEx
