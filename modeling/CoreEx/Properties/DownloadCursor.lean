/-
  File:      CoreEx/Properties/DownloadCursor.lean
  Subject:   What a job over a chunk of blocks leaves: the queue, the block downloaded last, the
             height.

  A job accepts the blocks of its chunk up to one at which it stops. What it does then depends on
  the last result it has, and that may be of the block before.

  * `GivenTo`, `tryBlock_of_given`, `tryBlock_of_not_given` -- one block;
  * `Accepts`, `Stops`, **`accepts_or_stops`** -- how far a job comes;
  * `processBlocks_of_stops` -- the variables it has then;
  * **`handle_queue`** -- when the queue is emptied and the cursor reset, and when not;
  * **`handle_height`** -- the height goes up by the blocks accepted, or comes back to where it was.
-/
import CoreEx.Blockchain.ProcessBlocksJob

namespace CoreEx

open BlockchainNode

/-! ## 1. One block -/

/-- The block comes to a handler. -/
def GivenTo (t : Trial) (s : BlockchainNode) (handler : BlockHandler) : Prop :=
  ∃ current slot, t.currentSlot = .ok current ∧ t.blockSlot = .ok slot ∧ slot ≤ current ∧
    t.fromData = .ok () ∧ t.handler s.lastBlock = .ok handler

theorem GivenTo.unique {t : Trial} {s : BlockchainNode} {handler handler' : BlockHandler}
    (h : GivenTo t s handler) (h' : GivenTo t s handler') : handler = handler' := by
  obtain ⟨_, _, _, _, _, _, hhandler⟩ := h
  obtain ⟨_, _, _, _, _, _, hhandler'⟩ := h'
  exact Except.ok.inj (hhandler.symm.trans hhandler')

namespace ProcessBlocksJob

section Block

variable {t : Trial} {s s' : BlockchainNode} {handler : BlockHandler}

theorem processBlock_of_given (h : GivenTo t s handler) :
    (processBlock t).run s = (do
      let result ← handler.execute t
      pure (some result) : BlockchainProg _).run s := by
  obtain ⟨current, slot, hcurrent, hslot, hle, hdata, hhandler⟩ := h
  unfold processBlock
  rw [hcurrent, hslot, hdata, Prog.run_bind]
  show (Prog.run (if slot > current then _ else _) s) = _
  rw [if_neg (Int.not_lt.2 hle)]
  show ((Prog.ofExcept (t.handler s.lastBlock) : BlockchainProg _) >>= _).run s = _
  rw [hhandler]
  rfl

/-- A block that comes to a handler. -/
theorem tryBlock_of_given (h : GivenTo t s handler) :
    (tryBlock t).run s = match (handler.execute t).run s with
      | .done result s' => .done (some result) s'
      | .thrown _ s' => .done none s' := by
  unfold tryBlock caught
  dsimp only
  rw [processBlock_of_given h, Prog.run_bind]
  cases (handler.execute t).run s <;> rfl

/-- A block that comes to none. -/
theorem tryBlock_of_not_given (h : ∀ handler, ¬GivenTo t s handler) :
    (tryBlock t).run s = .done none s := by
  have hsilent : (processBlock t).run s = .done none s ∨
      ∃ e, (processBlock t).run s = .thrown e s := by
    unfold processBlock
    cases hcurrent : t.currentSlot with
    | error e => exact Or.inr ⟨e, rfl⟩
    | ok current =>
      cases hslot : t.blockSlot with
      | error e => exact Or.inr ⟨e, rfl⟩
      | ok slot =>
        show (Prog.run (if slot > current then _ else _) s) = _ ∨
          ∃ e, (Prog.run (if slot > current then _ else _) s) = _
        by_cases hfuture : slot > current
        · rw [if_pos hfuture]
          exact Or.inl rfl
        · rw [if_neg hfuture]
          cases hdata : t.fromData with
          | error e => exact Or.inr ⟨e, rfl⟩
          | ok u =>
            cases hhandler : t.handler s.lastBlock with
            | error e =>
              refine Or.inr ⟨e, ?_⟩
              show ((Prog.ofExcept (t.handler s.lastBlock) : BlockchainProg _) >>= _).run s = _
              rw [hhandler]
              rfl
            | ok handler =>
              exact absurd ⟨current, slot, hcurrent, hslot, Int.not_lt.1 hfuture, hdata, hhandler⟩
                (h handler)
  unfold tryBlock caught
  dsimp only
  rcases hsilent with hrun | ⟨e, hrun⟩
  · rw [hrun]
  · rw [hrun]

/-- The queue is empty, and the cursor on the last block. -/
def CursorReset (s : BlockchainNode) : Prop :=
  s.queue = [] ∧ s.lastDownloadedBlock = some s.lastBlock

/-- What comes of a block, and what it leaves. -/
inductive Tried (t : Trial) (s : BlockchainNode) :
    Option BlockProcessorResult → BlockchainNode → Prop
  | silent : (∀ handler, ¬GivenTo t s handler) → Tried t s none s
  | rejected {handler : BlockHandler} : GivenTo t s handler →
    (∀ isValidGenerator, handler ≠ .unchained isValidGenerator) →
    Tried t s (some .rejected) (resetLastDownloadedBlock s)
  | alreadyForged : GivenTo t s .alreadyForged →
    Tried t s (some .discardedButCanBeBroadcasted) (resetLastDownloadedBlock s)
  | unchained {isValidGenerator : Bool} {o : Option BlockProcessorResult} :
    GivenTo t s (.unchained isValidGenerator) → o ≠ some .accepted →
    Tried t s o (clearQueue (resetLastDownloadedBlock s))
  | accepted : GivenTo t s .acceptBlock → Tried t s (some .accepted)
    (AcceptBlockHandler.keepUp t.block
      (AcceptBlockHandler.recover t.block { s with lastBlock := t.block }))
  | refused {s' : BlockchainNode} : GivenTo t s .acceptBlock → s'.queue = s.queue →
    s'.lastBlock.height = s.lastBlock.height → s'.lastStoredBlockHeight = s.lastStoredBlockHeight →
    Tried t s (some .rejected) s'
  | corrupted {s' : BlockchainNode} : Tried t s (some .corrupted) s'

theorem answer_ne_accepted {status : UnchainedHandler.UnchainedBlockStatus}
    {result : BlockProcessorResult}
    (h : (UnchainedHandler.answer t status).run s = .done result s') :
    s' = s ∧ result ≠ .accepted := by
  cases status with
  | doubleForging =>
    unfold UnchainedHandler.answer at h
    cases hactive : t.activeGenerator with
    | error e =>
      rw [hactive] at h
      cases h
    | ok active =>
      rw [hactive] at h
      cases h
      cases active <;> exact ⟨rfl, by decide⟩
  | notReadyToAcceptNewHeight | generatorMismatch | invalidTimestamp =>
    cases h
    exact ⟨rfl, by decide⟩
  | alreadyInBlockchain | equalToLastBlock =>
    cases h
    exact ⟨rfl, by decide⟩

theorem recover_fields (block : BlockData) (s : BlockchainNode) :
    (AcceptBlockHandler.recover block s).queue = s.queue ∧
      (AcceptBlockHandler.recover block s).lastBlock = s.lastBlock ∧
      (AcceptBlockHandler.recover block s).lastStoredBlockHeight = s.lastStoredBlockHeight := by
  unfold AcceptBlockHandler.recover
  split
  · split <;> exact ⟨rfl, rfl, rfl⟩
  · exact ⟨rfl, rfl, rfl⟩

theorem keepUp_fields (block : BlockData) (s : BlockchainNode) :
    (AcceptBlockHandler.keepUp block s).queue = s.queue ∧
      (AcceptBlockHandler.keepUp block s).lastBlock = s.lastBlock ∧
      (AcceptBlockHandler.keepUp block s).lastStoredBlockHeight = s.lastStoredBlockHeight := by
  unfold AcceptBlockHandler.keepUp
  split
  · split <;> exact ⟨rfl, rfl, rfl⟩
  · exact ⟨rfl, rfl, rfl⟩

/-- `RevertBlockHandler` goes back by one block, or says that the state is corrupted. -/
theorem revert_cases (previousBlock : Option BlockData) (block : BlockData) (s : BlockchainNode) :
    (RevertBlockHandler.execute previousBlock block).run s = .done .corrupted s ∨
      ∃ previous, previous.height + 1 = block.height ∧
        (RevertBlockHandler.execute previousBlock block).run s =
          .done .reverted { s with lastBlock := previous } := by
  cases previousBlock with
  | none => exact Or.inl rfl
  | some previous =>
    unfold RevertBlockHandler.execute
    dsimp only
    by_cases hheight : previous.height + 1 = block.height
    · rw [if_pos hheight]
      exact Or.inr ⟨previous, hheight, rfl⟩
    · rw [if_neg hheight]
      exact Or.inl rfl

/-- The `catch` of `AcceptBlockHandler`, when the block is the last one already. -/
theorem refuse_accepted (hgiven : GivenTo t s .acceptBlock)
    (hlast : s'.lastBlock.height = s.lastBlock.height + 1)
    (hblock : t.block.height = s.lastBlock.height + 1) (hqueue : s'.queue = s.queue)
    (hstored : s'.lastStoredBlockHeight = s.lastStoredBlockHeight) :
    ∃ result s'', (AcceptBlockHandler.refuse t).run s' = .done result s'' ∧
      Tried t s (some result) s'' := by
  have hrun : (AcceptBlockHandler.refuse t).run s' =
      (AcceptBlockHandler.revertAccepted t).run (resetLastDownloadedBlock s') := by
    unfold AcceptBlockHandler.refuse
    show (Prog.run (if s'.lastBlock.height = t.block.height then _ else _) _) = _
    rw [if_pos (hlast.trans hblock.symm)]
  rw [hrun]
  unfold AcceptBlockHandler.revertAccepted
  rcases revert_cases t.previousBlock t.block (resetLastDownloadedBlock s') with
    hcorrupted | ⟨previous, hheight, hreverted⟩
  · rw [Prog.run_bind_of_done hcorrupted]
    exact ⟨_, _, rfl, .corrupted⟩
  · rw [Prog.run_bind_of_done hreverted]
    refine ⟨_, _, rfl, .refused hgiven hqueue ?_ hstored⟩
    show previous.height = s.lastBlock.height
    omega

/-- `AcceptBlockHandler`. -/
theorem accept_tried (hgiven : GivenTo t s .acceptBlock) :
    ∃ result s', (AcceptBlockHandler.execute t).run s = .done result s' ∧
      Tried t s (some result) s' := by
  obtain ⟨_, _, _, _, _, _, hhandler⟩ := id hgiven
  have hnext := t.next _ hhandler
  unfold AcceptBlockHandler.execute
  rw [Prog.run_tryCatch]
  cases happlication : t.application with
  | applied =>
    cases hpool : t.removeForged with
    | ok u =>
      have hrun : (AcceptBlockHandler.accept t).run s = .done .accepted
          (AcceptBlockHandler.keepUp t.block
            (AcceptBlockHandler.recover t.block { s with lastBlock := t.block })) := by
        unfold AcceptBlockHandler.accept AcceptBlockHandler.applyBlock
        rw [happlication, hpool]
        rfl
      rw [hrun]
      exact ⟨_, _, rfl, .accepted hgiven⟩
    | error e =>
      have hrun : (AcceptBlockHandler.accept t).run s = .thrown e
          (AcceptBlockHandler.recover t.block { s with lastBlock := t.block }) := by
        unfold AcceptBlockHandler.accept AcceptBlockHandler.applyBlock
        rw [happlication, hpool]
        rfl
      rw [hrun]
      obtain ⟨hqueue, hlast, hstored⟩ :=
        recover_fields t.block { s with lastBlock := t.block }
      refine refuse_accepted hgiven ?_ hnext hqueue hstored
      rw [hlast]
      exact hnext
  | refused e =>
    have hrun : (AcceptBlockHandler.accept t).run s = .thrown e s := by
      unfold AcceptBlockHandler.accept AcceptBlockHandler.applyBlock
      rw [happlication]
      rfl
    rw [hrun]
    have hrejected : (AcceptBlockHandler.refuse t).run s =
        .done .rejected (resetLastDownloadedBlock s) := by
      unfold AcceptBlockHandler.refuse
      show (Prog.run (if s.lastBlock.height = t.block.height then _ else _) _) = _
      rw [if_neg (by omega)]
      rfl
    exact ⟨_, _, hrejected, .rejected hgiven fun _ h => (nomatch h)⟩
  | brokenOff e =>
    have hrun :
        (AcceptBlockHandler.accept t).run s = .thrown e { s with lastBlock := t.block } := by
      unfold AcceptBlockHandler.accept AcceptBlockHandler.applyBlock
      rw [happlication]
      rfl
    rw [hrun]
    exact refuse_accepted hgiven hnext hnext rfl rfl

/-- **What comes of a block.** -/
theorem tryBlock_tried (t : Trial) (s : BlockchainNode) :
    ∃ o s', (tryBlock t).run s = .done o s' ∧ Tried t s o s' := by
  by_cases hgiven : ∃ handler, GivenTo t s handler
  · obtain ⟨handler, hgiven⟩ := hgiven
    rw [tryBlock_of_given hgiven]
    cases handler with
    | verificationFailed | incompatibleTransactions | nonceOutOfOrder | invalidGenerator =>
      exact ⟨_, _, rfl, .rejected hgiven fun _ h => (nomatch h)⟩
    | alreadyForged => exact ⟨_, _, rfl, .alreadyForged hgiven⟩
    | acceptBlock =>
      obtain ⟨result, s', hrun, htried⟩ := accept_tried hgiven
      have hexecute : (BlockHandler.acceptBlock.execute t).run s = .done result s' := hrun
      rw [hexecute]
      exact ⟨_, _, rfl, htried⟩
    | unchained isValidGenerator =>
      have hexecute : ((BlockHandler.unchained isValidGenerator).execute t).run s =
          (UnchainedHandler.answer t (UnchainedHandler.checkUnchainedBlock isValidGenerator
            s.lastBlock t.block)).run (clearQueue (resetLastDownloadedBlock s)) := rfl
      rw [hexecute]
      generalize UnchainedHandler.checkUnchainedBlock isValidGenerator s.lastBlock t.block = status
      cases hrun : (UnchainedHandler.answer t status).run
          (clearQueue (resetLastDownloadedBlock s)) with
      | done result s' =>
        obtain ⟨rfl, hresult⟩ := answer_ne_accepted hrun
        exact ⟨_, _, rfl, .unchained hgiven fun h => hresult (Option.some.inj h)⟩
      | thrown e s' =>
        have hs' : s' = clearQueue (resetLastDownloadedBlock s) := by
          cases status with
          | doubleForging =>
            unfold UnchainedHandler.answer at hrun
            cases hactive : t.activeGenerator with
            | error e' =>
              rw [hactive] at hrun
              cases hrun
              rfl
            | ok active =>
              rw [hactive] at hrun
              cases hrun
          | _ => cases hrun
        rw [hs']
        exact ⟨_, _, rfl, .unchained hgiven fun h => (nomatch h)⟩
  · exact ⟨_, _, tryBlock_of_not_given fun handler h => hgiven ⟨handler, h⟩,
      .silent fun handler h => hgiven ⟨handler, h⟩⟩

theorem tried_of_run {o : Option BlockProcessorResult} (h : (tryBlock t).run s = .done o s') :
    Tried t s o s' := by
  obtain ⟨o', s'', hrun, htried⟩ := tryBlock_tried t s
  rw [h] at hrun
  cases hrun
  exact htried

/-- A block that is accepted comes next, and is the last one then. -/
theorem Tried.next (h : Tried t s (some .accepted) s') :
    s'.queue = s.queue ∧ s'.lastBlock = t.block ∧ t.block.height = s.lastBlock.height + 1 ∧
      s'.lastStoredBlockHeight = s.lastStoredBlockHeight := by
  cases h with
  | unchained _ ho => exact absurd rfl ho
  | accepted hgiven =>
    obtain ⟨_, _, _, _, _, _, hhandler⟩ := hgiven
    obtain ⟨hqueue, hlast, hstored⟩ := keepUp_fields t.block
      (AcceptBlockHandler.recover t.block { s with lastBlock := t.block })
    obtain ⟨hqueue', hlast', hstored'⟩ := recover_fields t.block { s with lastBlock := t.block }
    exact ⟨hqueue.trans hqueue', hlast.trans hlast', t.next _ hhandler, hstored.trans hstored'⟩

/-- Any other block leaves the height, unless the state is corrupted. -/
theorem Tried.stays {o : Option BlockProcessorResult} (h : Tried t s o s')
    (ho : o ≠ some .accepted) (hcorrupted : o ≠ some .corrupted) :
    s'.lastBlock.height = s.lastBlock.height ∧
      s'.lastStoredBlockHeight = s.lastStoredBlockHeight := by
  cases h with
  | silent _ => exact ⟨rfl, rfl⟩
  | rejected _ _ => exact ⟨rfl, rfl⟩
  | alreadyForged _ => exact ⟨rfl, rfl⟩
  | unchained _ _ => exact ⟨rfl, rfl⟩
  | accepted _ => exact absurd rfl ho
  | refused _ _ hheight hstored => exact ⟨hheight, hstored⟩
  | corrupted => exact absurd rfl hcorrupted

/-- The handler of unchained blocks resets the cursor. -/
theorem Tried.reset {o : Option BlockProcessorResult} (h : Tried t s o s')
    {isValidGenerator : Bool} (hgiven : GivenTo t s (.unchained isValidGenerator))
    (hcorrupted : o ≠ some .corrupted) : CursorReset s' := by
  cases h with
  | silent hnot => exact absurd hgiven (hnot _)
  | rejected hgiven' hnot => exact absurd (hgiven'.unique hgiven) (hnot _)
  | alreadyForged hgiven' => cases hgiven'.unique hgiven
  | unchained _ _ => exact ⟨rfl, rfl⟩
  | accepted hgiven' => cases hgiven'.unique hgiven
  | refused hgiven' _ _ _ => cases hgiven'.unique hgiven
  | corrupted => exact absurd rfl hcorrupted

/-- Of the handlers only that of unchained blocks empties the queue. -/
theorem Tried.queue {o : Option BlockProcessorResult} (h : Tried t s o s')
    (hcorrupted : o ≠ some .corrupted)
    (hchained : ∀ isValidGenerator, ¬GivenTo t s (.unchained isValidGenerator)) :
    s'.queue = s.queue := by
  cases h with
  | silent _ => rfl
  | rejected _ _ => rfl
  | alreadyForged _ => rfl
  | unchained hgiven _ => exact absurd hgiven (hchained _)
  | accepted hgiven => exact (Tried.accepted hgiven).next.1
  | refused _ hqueue _ _ => exact hqueue
  | corrupted => exact absurd rfl hcorrupted

end Block

/-! ## 2. How far a job comes -/

/-- All these blocks are accepted. -/
inductive Accepts : List Trial → BlockchainNode → BlockchainNode → Prop
  | nil (s : BlockchainNode) : Accepts [] s s
  | cons {t : Trial} {blocks : List Trial} {s s₁ s₂ : BlockchainNode} :
    (tryBlock t).run s = .done (some .accepted) s₁ → Accepts blocks s₁ s₂ →
    Accepts (t :: blocks) s s₂

/-- The blocks `accepted` of a chunk are accepted, and the one that comes next is not. -/
structure Stops (blocks : List Trial) (s : BlockchainNode) (accepted : List Trial) (t : Trial)
    (o : Option BlockProcessorResult) (s₁ s₂ : BlockchainNode) : Prop where
  split : ∃ rest, blocks = accepted ++ t :: rest
  accepts : Accepts accepted s s₁
  tries : (tryBlock t).run s₁ = .done o s₂
  stops : o ≠ some .accepted

/-- The variables after blocks that have been accepted. -/
def ChunkState.after (c : ChunkState) (accepted : List Trial) : ChunkState :=
  accepted.foldl (fun c t =>
    ⟨c.acceptedBlocks ++ [t.block], c.forkBlock, some .accepted, some t.block⟩) c

/-- The end of the loop at a block it stops at. -/
def stopped (accepted : List Trial) (t : Trial) : Option BlockProcessorResult → JobProg ChunkState
  | none => pure (ChunkState.new.after accepted)
  | some result =>
    stopAt t.block result ⟨accepted.map Trial.block, none, some result, some t.block⟩

section Chunk

variable {x : Surroundings} {blocks accepted rest : List Trial} {t : Trial}
  {o : Option BlockProcessorResult} {c : ChunkState} {s s₁ s₂ s' : BlockchainNode}

/-- **A chunk is accepted, or the job stops in it.** -/
theorem accepts_or_stops (blocks : List Trial) (s : BlockchainNode) :
    (∃ s', Accepts blocks s s') ∨ ∃ accepted t o s₁ s₂, Stops blocks s accepted t o s₁ s₂ := by
  induction blocks generalizing s with
  | nil => exact Or.inl ⟨s, .nil s⟩
  | cons t blocks ih =>
    obtain ⟨o, s', hrun, _⟩ := tryBlock_tried t s
    by_cases ho : o = some .accepted
    · subst ho
      rcases ih s' with ⟨s'', haccepts⟩ | ⟨accepted, t', o, s₁, s₂, hstops⟩
      · exact Or.inl ⟨s'', .cons hrun haccepts⟩
      · obtain ⟨rest, hrest⟩ := hstops.split
        refine Or.inr ⟨t :: accepted, t', o, s₁, s₂, ⟨rest, ?_⟩, .cons hrun hstops.accepts,
          hstops.tries, hstops.stops⟩
        rw [hrest]
        rfl
    · exact Or.inr ⟨[], t, o, s, s', ⟨blocks, rfl⟩, .nil s, hrun, ho⟩

theorem processBlocks_accepts (h : Accepts accepted s s₁) :
    (processBlocks (accepted ++ rest) c).run s =
      (processBlocks rest (c.after accepted)).run s₁ := by
  induction h generalizing c with
  | nil s => rfl
  | cons hrun _ ih =>
    rw [List.cons_append]
    conv_lhs => unfold processBlocks
    rw [Prog.run_bind_of_done hrun]
    exact ih

theorem after_acceptedBlocks (c : ChunkState) (accepted : List Trial) :
    (c.after accepted).acceptedBlocks = c.acceptedBlocks ++ accepted.map Trial.block := by
  induction accepted generalizing c with
  | nil => exact (List.append_nil _).symm
  | cons t accepted ih =>
    refine (ih _).trans ?_
    rw [List.map_cons, List.append_assoc]
    rfl

theorem after_forkBlock (c : ChunkState) (accepted : List Trial) :
    (c.after accepted).forkBlock = c.forkBlock := by
  induction accepted generalizing c with
  | nil => rfl
  | cons t accepted ih => exact ih _

/-- After an accepted block there is one that may be broadcast. -/
theorem after_toBroadcast (h : accepted ≠ []) :
    ∃ block, (c.after accepted).toBroadcast = some block := by
  obtain ⟨accepted, t, rfl⟩ : ∃ before t, accepted = before ++ [t] :=
    ⟨_, _, (List.dropLast_append_getLast h).symm⟩
  refine ⟨t.block, ?_⟩
  unfold ChunkState.after
  rw [List.foldl_append]
  rfl

/-- The variables of a job that stops. -/
theorem processBlocks_of_stops (h : Stops blocks s accepted t o s₁ s₂) :
    (processBlocks blocks .new).run s = (stopped accepted t o).run s₂ := by
  obtain ⟨rest, hrest⟩ := h.split
  rw [hrest, processBlocks_accepts h.accepts]
  conv_lhs => unfold processBlocks
  rw [Prog.run_bind_of_done h.tries]
  have hblocks : (ChunkState.new.after accepted).acceptedBlocks = accepted.map Trial.block :=
    after_acceptedBlocks _ _
  have hfork : (ChunkState.new.after accepted).forkBlock = none := after_forkBlock _ _
  cases o with
  | none => rfl
  | some result =>
    rw [hblocks, hfork]
    cases result with
    | accepted => exact absurd rfl h.stops
    | _ => rfl

/-! ## 3. The end of a job -/

theorem broadcast_fields (block : BlockData) (s : BlockchainNode) :
    (broadcast block s).queue = s.queue ∧
      (broadcast block s).lastDownloadedBlock = s.lastDownloadedBlock ∧
      (broadcast block s).lastBlock = s.lastBlock ∧
      (broadcast block s).lastStoredBlockHeight = s.lastStoredBlockHeight := by
  unfold broadcast
  split <;> exact ⟨rfl, rfl, rfl, rfl⟩

/-- Without a block to broadcast the job resets the cursor. -/
theorem conclude_resets (h : c.toBroadcast = none) (s : BlockchainNode) :
    CursorReset (conclude c s) := by
  unfold conclude
  rw [h]
  cases c.forkBlock <;> exact ⟨rfl, rfl⟩

theorem conclude_broadcasts {block : BlockData} (h : c.toBroadcast = some block)
    (s : BlockchainNode) : conclude c s = broadcast block s := by
  unfold conclude
  rw [h]

theorem conclude_fields (c : ChunkState) (s : BlockchainNode) :
    (conclude c s).lastBlock = s.lastBlock ∧
      (conclude c s).lastStoredBlockHeight = s.lastStoredBlockHeight := by
  cases hblock : c.toBroadcast with
  | some block =>
    rw [conclude_broadcasts hblock]
    exact (broadcast_fields block s).2.2
  | none =>
    unfold conclude
    rw [hblock]
    cases c.forkBlock <;> exact ⟨rfl, rfl⟩

/-- A job that has not been able to save its blocks resets the cursor, if it returns. -/
theorem revertBlocks_resets {blocks : List BlockData}
    (h : (revertBlocks x blocks).run s = .done () s') : CursorReset s' := by
  unfold revertBlocks at h
  obtain ⟨_, _, _, h⟩ := Prog.run_bind_done.1 h
  obtain ⟨_, _, _, h⟩ := Prog.run_bind_done.1 h
  obtain ⟨_, _, _, h⟩ := Prog.run_bind_done.1 h
  obtain ⟨_, _, _, h⟩ := Prog.run_bind_done.1 h
  obtain ⟨_, _, hclear, hreset⟩ := Prog.run_bind_done.1 h
  cases hclear
  cases hreset
  exact ⟨rfl, rfl⟩

/-- The blocks of the job are saved, if there are any. -/
def Saved (x : Surroundings) (accepted : List Trial) : Prop :=
  accepted = [] ∨ x.saveBlocks = .ok ()

/-- A block may be broadcast when the job stops. -/
def Broadcasts (accepted : List Trial) (o : Option BlockProcessorResult) : Prop :=
  (o = none ∧ accepted ≠ []) ∨ o = some .discardedButCanBeBroadcasted

/-- A job that stops decides by the block before, or keeps the queue for a block that may be
    broadcast. -/
structure Overlooked (x : Surroundings) (accepted : List Trial) (t : Trial)
    (o : Option BlockProcessorResult) (s₁ : BlockchainNode) : Prop where
  saved : Saved x accepted
  broadcasts : Broadcasts accepted o
  chained : ∀ isValidGenerator, ¬GivenTo t s₁ (.unchained isValidGenerator)

/-- The loop's end. -/
theorem stopped_done {c : ChunkState} (h : (stopped accepted t o).run s = .done c s')
    (ho : o ≠ some .accepted) :
    o ≠ some .corrupted ∧ c.acceptedBlocks = accepted.map Trial.block ∧
      (c.toBroadcast = none ↔ ¬Broadcasts accepted o) ∧ s'.queue = s.queue ∧
      s'.lastBlock = s.lastBlock ∧ s'.lastStoredBlockHeight = s.lastStoredBlockHeight ∧
      (o ≠ some .rollback → s' = s) := by
  cases o with
  | none =>
    cases h
    refine ⟨fun h => (nomatch h), after_acceptedBlocks _ _, ?_, rfl, rfl, rfl, fun _ => rfl⟩
    by_cases hempty : accepted = []
    · subst hempty
      refine ⟨fun _ h => ?_, fun _ => rfl⟩
      rcases h with ⟨-, h⟩ | h
      · exact h rfl
      · cases h
    · obtain ⟨block, hblock⟩ : ∃ block,
          (ChunkState.new.after accepted).toBroadcast = some block := after_toBroadcast hempty
      rw [hblock]
      exact ⟨fun h => (nomatch h), fun h => absurd (Or.inl ⟨rfl, hempty⟩) h⟩
  | some result =>
    have hnot : result ≠ .discardedButCanBeBroadcasted → ¬Broadcasts accepted (some result) := by
      intro hresult h
      rcases h with ⟨h, -⟩ | h
      · cases h
      · exact hresult (Option.some.inj h)
    cases result with
    | accepted => exact absurd rfl ho
    | discardedButCanBeBroadcasted =>
      cases h
      exact ⟨fun h => (nomatch h), rfl, ⟨fun h => (nomatch h), fun h => absurd (Or.inr rfl) h⟩,
        rfl, rfl, rfl, fun _ => rfl⟩
    | rejected =>
      cases h
      exact ⟨fun h => (nomatch h), rfl, ⟨fun _ => hnot (by decide), fun _ => rfl⟩, rfl, rfl, rfl,
        fun _ => rfl⟩
    | rollback =>
      cases h
      exact ⟨fun h => (nomatch h), rfl, ⟨fun _ => hnot (by decide), fun _ => rfl⟩, rfl, rfl, rfl,
        fun h => absurd rfl h⟩
    | reverted =>
      cases h
      exact ⟨fun h => (nomatch h), rfl, ⟨fun _ => hnot (by decide), fun _ => rfl⟩, rfl, rfl, rfl,
        fun _ => rfl⟩
    | corrupted => cases h

/-- `setLastStoredBlockHeight`, if there are blocks. -/
def stored (accepted : List Trial) (s : BlockchainNode) : BlockchainNode :=
  match accepted.getLast? with
  | none => s
  | some last => { s with lastStoredBlockHeight := last.block.height }

theorem stored_fields (accepted : List Trial) (s : BlockchainNode) :
    (stored accepted s).queue = s.queue ∧
      (stored accepted s).lastDownloadedBlock = s.lastDownloadedBlock ∧
      (stored accepted s).lastBlock = s.lastBlock := by
  unfold stored
  cases accepted.getLast? <;> exact ⟨rfl, rfl, rfl⟩

theorem finish_done {c : ChunkState} (haccepted : c.acceptedBlocks = accepted.map Trial.block)
    (h : (finish x c).run s = .done () s') :
    (Saved x accepted ∧ s' = conclude c (stored accepted s)) ∨
      (¬Saved x accepted ∧ (revertBlocks x (accepted.map Trial.block)).run s = .done () s') := by
  unfold finish at h
  rw [haccepted, List.getLast?_map] at h
  unfold stored
  cases hlast : accepted.getLast? with
  | none =>
    rw [hlast] at h
    cases h
    exact Or.inl ⟨Or.inl (List.getLast?_eq_none_iff.1 hlast), rfl⟩
  | some last =>
    rw [hlast] at h
    have hne : accepted ≠ [] := fun hnil => by
      rw [hnil] at hlast
      cases hlast
    cases hsave : x.saveBlocks with
    | ok u =>
      dsimp only [Option.map_some] at h
      rw [hsave] at h
      cases h
      exact Or.inl ⟨Or.inr hsave, rfl⟩
    | error e =>
      dsimp only [Option.map_some] at h
      rw [hsave] at h
      refine Or.inr ⟨fun hsaved => ?_, h⟩
      rcases hsaved with hnil | hok
      · exact hne hnil
      · rw [hsave] at hok
        cases hok

/-- The two parts of a job that stops. -/
theorem handle_done (hstops : Stops blocks s accepted t o s₁ s₂)
    (h : (handle x blocks).run s = .done () s') :
    ∃ c s₃, (stopped accepted t o).run s₂ = .done c s₃ ∧ (finish x c).run s₃ = .done () s' := by
  have hne : blocks ≠ [] := by
    obtain ⟨rest, hrest⟩ := hstops.split
    rw [hrest]
    exact List.append_ne_nil_of_right_ne_nil _ (List.cons_ne_nil _ _)
  unfold handle at h
  rw [if_neg hne] at h
  obtain ⟨c, s₃, hloop, hfinish⟩ := Prog.run_bind_done.1 h
  rw [processBlocks_of_stops hstops] at hloop
  exact ⟨c, s₃, hloop, hfinish⟩

theorem queue_of_accepts (h : Accepts accepted s s₁) : s₁.queue = s.queue := by
  induction h with
  | nil s => rfl
  | cons hrun _ ih => exact ih.trans (tried_of_run hrun).next.1

/-- **The queue after a job that stops**: it is kept when the job overlooks that it has stopped, and
    otherwise emptied, with the cursor on the last block. -/
theorem handle_queue (hstops : Stops blocks s accepted t o s₁ s₂)
    (h : (handle x blocks).run s = .done () s') :
    (Overlooked x accepted t o s₁ → s'.queue = s.queue) ∧
      (¬Overlooked x accepted t o s₁ → CursorReset s') := by
  obtain ⟨c, s₃, hloop, hfinish⟩ := handle_done hstops h
  obtain ⟨hcorrupted, hblocks, hbroadcast, hqueue, hlast, _, hsame⟩ :=
    stopped_done hloop hstops.stops
  have htried := tried_of_run hstops.tries
  rcases finish_done hblocks hfinish with ⟨hsaved, rfl⟩ | ⟨hnot, hrevert⟩
  · obtain ⟨hqueue', hcursor', hlast'⟩ := stored_fields accepted s₃
    cases hblock : c.toBroadcast with
    | none =>
      refine ⟨fun hover => absurd hover.broadcasts (hbroadcast.1 hblock), fun _ => ?_⟩
      exact conclude_resets hblock _
    | some block =>
      have hyes : Broadcasts accepted o := by
        by_contra hno
        rw [hbroadcast.2 hno] at hblock
        cases hblock
      obtain ⟨hqueue'', hcursor'', hlast'', _⟩ := broadcast_fields block (stored accepted s₃)
      rw [conclude_broadcasts hblock]
      refine ⟨fun hover => ?_, fun hover => ?_⟩
      · rw [hqueue'', hqueue', hqueue, htried.queue hcorrupted hover.chained,
          queue_of_accepts hstops.accepts]
      · -- the handler of unchained blocks has reset the cursor
        have hgiven : ∃ isValidGenerator, GivenTo t s₁ (.unchained isValidGenerator) := by
          by_contra hno
          exact hover ⟨hsaved, hyes, fun v hv => hno ⟨v, hv⟩⟩
        obtain ⟨isValidGenerator, hgiven⟩ := hgiven
        have hreset : CursorReset s₂ := htried.reset hgiven hcorrupted
        have hs₃ : s₃ = s₂ := hsame fun hrollback => by
          rcases hyes with ⟨hnone, -⟩ | hdiscarded
          · rw [hrollback] at hnone
            cases hnone
          · rw [hrollback] at hdiscarded
            cases hdiscarded
        refine ⟨?_, ?_⟩
        · rw [hqueue'', hqueue', hs₃]
          exact hreset.1
        · rw [hcursor'', hcursor', hlast'', hlast', hs₃]
          exact hreset.2
  · exact ⟨fun hover => absurd hover.saved hnot, fun _ => revertBlocks_resets hrevert⟩

/-! ## 4. The height -/

/-- The blocks of consecutive heights on top of a height. -/
def OnTop (height : Nat) (blocks : List BlockData) : Prop :=
  blocks.map BlockData.height = List.range' (height + 1) blocks.length

theorem height_of_accepts (h : Accepts accepted s s₁) :
    OnTop s.lastBlock.height (accepted.map Trial.block) ∧
      s₁.lastBlock.height = s.lastBlock.height + accepted.length ∧
      s₁.lastStoredBlockHeight = s.lastStoredBlockHeight := by
  induction h with
  | nil s => exact ⟨rfl, rfl, rfl⟩
  | @cons t accepted s s₁ s₂ hrun _ ih =>
    obtain ⟨_, hlast, hheight, hstored⟩ := (tried_of_run hrun).next
    obtain ⟨hontop, hend, hstored'⟩ := ih
    have hfirst : s₁.lastBlock.height = s.lastBlock.height + 1 := hlast ▸ hheight
    refine ⟨?_, ?_, hstored'.trans hstored⟩
    · unfold OnTop at hontop ⊢
      rw [List.map_cons, List.map_cons, List.length_cons, List.range'_succ, hontop, hheight, hfirst]
    · rw [hend, hfirst, List.length_cons]
      omega

/-- One block is reverted. -/
theorem revertOne_done {block : BlockData} (h : (revertOne x block).run s = .done () s') :
    s'.lastBlock.height + 1 = block.height ∧
      s'.lastStoredBlockHeight = s.lastStoredBlockHeight := by
  unfold revertOne at h
  obtain ⟨o, s₁, hcaught, hexit⟩ := Prog.run_bind_done.1 h
  rcases revert_cases (x.previousBlock block) block s with hrun | ⟨previous, hheight, hrun⟩
  · have hcorrupted : (caught (revertResult x block)).run s = .done (some .corrupted) s := by
      unfold caught revertResult
      dsimp only
      rw [Prog.run_bind_of_done hrun]
      rfl
    rw [hcorrupted] at hcaught
    cases hcaught
    cases hexit
  · have hreverted : (caught (revertResult x block)).run s =
        .done (some .reverted) { s with lastBlock := previous } := by
      unfold caught revertResult
      dsimp only
      rw [Prog.run_bind_of_done hrun]
      rfl
    rw [hreverted] at hcaught
    cases hcaught
    cases hexit
    exact ⟨hheight, rfl⟩

/-- The blocks are reverted from the last one down. -/
theorem revertAll_done (x : Surroundings) {height : Nat} (blocks : List BlockData)
    (hontop : OnTop height blocks) {s s' : BlockchainNode}
    (hlast : s.lastBlock.height = height + blocks.length)
    (h : (Prog.forEach (revertOne x) blocks.reverse).run s = .done () s') :
    s'.lastBlock.height = height ∧ s'.lastStoredBlockHeight = s.lastStoredBlockHeight := by
  induction blocks using List.reverseRecOn generalizing s with
  | nil =>
    cases h
    exact ⟨hlast, rfl⟩
  | append_singleton blocks block ih =>
    unfold OnTop at hontop
    rw [List.length_append, List.length_singleton, List.range'_concat, List.map_append,
      List.map_singleton] at hontop
    obtain ⟨hbefore, hblock⟩ := List.append_inj' hontop rfl
    rw [List.reverse_append, List.reverse_singleton, List.singleton_append, Prog.forEach_cons] at h
    obtain ⟨_, s₁, hone, hrest⟩ := Prog.run_bind_done.1 h
    obtain ⟨hheight, hstored⟩ := revertOne_done hone
    have hblock' : block.height = height + 1 + 1 * blocks.length := (List.cons.inj hblock).1
    obtain ⟨hend, hstored'⟩ := ih hbefore (by omega) hrest
    exact ⟨hend, hstored'.trans hstored⟩

theorem passOn_done {result : Except Exception Unit} (h : (passOn result).run s = .done () s') :
    s' = s := by
  unfold passOn at h
  cases result with
  | ok u =>
    cases h
    rfl
  | error e => cases h

theorem revertBlocks_height {height : Nat} {blocks : List BlockData} (hontop : OnTop height blocks)
    (hlast : s.lastBlock.height = height + blocks.length)
    (h : (revertBlocks x blocks).run s = .done () s') :
    s'.lastBlock.height = height ∧ s'.lastStoredBlockHeight = s.lastStoredBlockHeight := by
  unfold revertBlocks at h
  obtain ⟨_, s₁, hround, h⟩ := Prog.run_bind_done.1 h
  obtain ⟨_, s₂, hall, h⟩ := Prog.run_bind_done.1 h
  obtain ⟨_, s₃, hdelete, h⟩ := Prog.run_bind_done.1 h
  obtain ⟨_, s₄, hrestore, h⟩ := Prog.run_bind_done.1 h
  obtain ⟨_, s₅, hclear, hreset⟩ := Prog.run_bind_done.1 h
  cases passOn_done hround
  cases passOn_done hdelete
  cases passOn_done hrestore
  cases hclear
  cases hreset
  have hend := revertAll_done x blocks hontop hlast hall
  exact hend

/-- What saving the blocks, or taking them back, makes of the height. -/
theorem finish_height {c : ChunkState} {s₃ : BlockchainNode} (haccepts : Accepts accepted s s₁)
    (hblocks : c.acceptedBlocks = accepted.map Trial.block)
    (hlast : s₃.lastBlock.height = s₁.lastBlock.height)
    (hstored : s₃.lastStoredBlockHeight = s₁.lastStoredBlockHeight)
    (h : (finish x c).run s₃ = .done () s') :
    (Saved x accepted → s'.lastBlock.height = s.lastBlock.height + accepted.length ∧
      s'.lastStoredBlockHeight =
        if accepted = [] then s.lastStoredBlockHeight else s'.lastBlock.height) ∧
      (¬Saved x accepted → s'.lastBlock.height = s.lastBlock.height ∧
        s'.lastStoredBlockHeight = s.lastStoredBlockHeight) := by
  obtain ⟨hontop, hheight, hstored'⟩ := height_of_accepts haccepts
  rcases finish_done hblocks h with ⟨hsaved, rfl⟩ | ⟨hnot, hrevert⟩
  · refine ⟨fun _ => ?_, fun hnot => absurd hsaved hnot⟩
    obtain ⟨hlast', hstored''⟩ := conclude_fields c (stored accepted s₃)
    have hend : (conclude c (stored accepted s₃)).lastBlock.height =
        s.lastBlock.height + accepted.length := by
      rw [hlast', (stored_fields accepted s₃).2.2, hlast, hheight]
    refine ⟨hend, ?_⟩
    rw [hend, hstored'']
    by_cases hempty : accepted = []
    · subst hempty
      rw [if_pos rfl]
      exact hstored.trans hstored'
    · obtain ⟨before, last, rfl⟩ : ∃ before t, accepted = before ++ [t] :=
        ⟨_, _, (List.dropLast_append_getLast hempty).symm⟩
      rw [if_neg hempty]
      unfold OnTop at hontop
      rw [List.length_map, List.length_append, List.length_singleton, List.range'_concat,
        List.map_append, List.map_append, List.map_singleton, List.map_singleton] at hontop
      have hlastHeight := (List.cons.inj (List.append_inj' hontop rfl).2).1
      unfold stored
      rw [List.getLast?_concat]
      show last.block.height = _
      rw [List.length_append, List.length_singleton, hlastHeight]
      omega
  · refine ⟨fun hsaved => absurd hsaved hnot, fun _ => ?_⟩
    obtain ⟨hend, hsame⟩ := revertBlocks_height hontop
      (by rw [hlast, hheight, List.length_map]) hrevert
    exact ⟨hend, hsame.trans (hstored.trans hstored')⟩

/-- **The height after a job**: that of the blocks accepted, which are the first of the chunk, or
    the height before when they could not be saved. -/
theorem handle_height (h : (handle x blocks).run s = .done () s') :
    ∃ accepted s₁, Accepts accepted s s₁ ∧
      (accepted = blocks ∨ ∃ t o s₂, Stops blocks s accepted t o s₁ s₂) ∧
      (Saved x accepted → s'.lastBlock.height = s.lastBlock.height + accepted.length ∧
        s'.lastStoredBlockHeight =
          if accepted = [] then s.lastStoredBlockHeight else s'.lastBlock.height) ∧
      (¬Saved x accepted → s'.lastBlock.height = s.lastBlock.height ∧
        s'.lastStoredBlockHeight = s.lastStoredBlockHeight) := by
  rcases accepts_or_stops blocks s with ⟨s₁, haccepts⟩ | ⟨accepted, t, o, s₁, s₂, hstops⟩
  · refine ⟨blocks, s₁, haccepts, Or.inl rfl, ?_⟩
    unfold handle at h
    by_cases hempty : blocks = []
    · subst hempty
      rw [if_pos rfl] at h
      cases h
      cases haccepts
      exact ⟨fun _ => ⟨rfl, rfl⟩, fun hnot => absurd (Or.inl rfl) hnot⟩
    · rw [if_neg hempty] at h
      obtain ⟨c, s₃, hloop, hfinish⟩ := Prog.run_bind_done.1 h
      have hall : (processBlocks blocks .new).run s = .done (ChunkState.new.after blocks) s₁ := by
        have happend : (processBlocks (blocks ++ []) .new).run s =
            (processBlocks [] (ChunkState.new.after blocks)).run s₁ :=
          processBlocks_accepts haccepts
        rw [List.append_nil] at happend
        rw [happend]
        rfl
      rw [hall] at hloop
      cases hloop
      exact finish_height haccepts (after_acceptedBlocks _ _) rfl rfl hfinish
  · refine ⟨accepted, s₁, hstops.accepts, Or.inr ⟨t, o, s₂, hstops⟩, ?_⟩
    obtain ⟨c, s₃, hloop, hfinish⟩ := handle_done hstops h
    obtain ⟨hcorrupted, hblocks, _, _, hlast, hstored, _⟩ := stopped_done hloop hstops.stops
    obtain ⟨hheight, hstored'⟩ := (tried_of_run hstops.tries).stays hstops.stops hcorrupted
    exact finish_height hstops.accepts hblocks (hlast ▸ hheight) (hstored.trans hstored') hfinish

end Chunk

end ProcessBlocksJob

/-! ## 5. A block of a future slot -/

namespace Sample

/-- A block of a chain. -/
def downloaded (height : Nat) : BlockData where
  id := some (toString height)
  timestamp := 8 * height
  version := 1
  height := height
  previousBlock := some (toString (height - 1))
  numberOfTransactions := 0
  totalAmount := 0
  totalFee := 0
  reward := 0
  payloadLength := 0
  payloadHash := ""
  generatorPublicKey := ⟨"forger", by decide⟩
  blockSignature := none

/-- The block on top of a height, which passes everything there. -/
def passing (height : Nat) : Trial where
  block := downloaded (height + 1)
  currentSlot := .ok 5
  blockSlot := .ok (height + 1)
  fromData := .ok ()
  handler last := if last.height = height then .ok .acceptBlock else .ok (.unchained true)
  activeGenerator := .ok true
  application := .applied
  removeForged := .ok ()
  previousBlock := some (downloaded height)
  next last h := by
    by_cases hlast : last.height = height
    · rw [hlast]
      rfl
    · rw [if_neg hlast] at h
      cases h

/-- The same, but of a slot that has not come. -/
def tooEarly (height : Nat) : Trial := { passing height with blockSlot := .ok 6 }

/-- A node that has downloaded up to height 9. -/
def syncing : BlockchainNode :=
  ⟨downloaded 1, some (downloaded 9), 1, none, [[downloaded 9]], true, "newBlock", [], []⟩

def undisturbed : ProcessBlocksJob.Surroundings :=
  ⟨.ok (), fun block => some (downloaded (block.height - 1)), .ok (), .ok (), .ok ()⟩

/-- The first block is accepted, and the job stops at the second. -/
theorem tooEarly_stops : ∃ s₁, ProcessBlocksJob.Stops [passing 1, tooEarly 2] syncing [passing 1]
    (tooEarly 2) none s₁ s₁ :=
  ⟨_, ⟨[], rfl⟩, .cons rfl (.nil _), rfl, fun h => (nomatch h)⟩

theorem job_done : (ProcessBlocksJob.handle undisturbed [passing 1, tooEarly 2]).run syncing =
    .done () ((ProcessBlocksJob.handle undisturbed [passing 1, tooEarly 2]).run syncing).state :=
  Outcome.eq_done rfl

end Sample

namespace ProcessBlocksJob

/-- After a block of a future slot the queue is kept when a block has been accepted before it. -/
theorem handle_queue_tooEarly :
    ((handle Sample.undisturbed [Sample.passing 1, Sample.tooEarly 2]).run
      Sample.syncing).state.queue = [[Sample.downloaded 9]] := by
  obtain ⟨s₁, hstops⟩ := Sample.tooEarly_stops
  refine (handle_queue hstops Sample.job_done).1 ⟨Or.inr rfl, Or.inl ⟨rfl, ?_⟩, ?_⟩
  · exact List.cons_ne_nil _ _
  · intro isValidGenerator hgiven
    obtain ⟨current, slot, hcurrent, hslot, hle, _⟩ := hgiven
    cases hcurrent
    cases hslot
    exact absurd hle (by decide)

/-- One block of two is accepted. -/
theorem handle_height_tooEarly : ∃ accepted s₁, Accepts accepted Sample.syncing s₁ ∧
    (Saved Sample.undisturbed accepted →
      ((handle Sample.undisturbed [Sample.passing 1, Sample.tooEarly 2]).run
        Sample.syncing).state.lastBlock.height = 1 + accepted.length) := by
  obtain ⟨accepted, s₁, haccepts, _, hheight, _⟩ :=
    handle_height Sample.job_done
  exact ⟨accepted, s₁, haccepts, fun h => (hheight h).1⟩

end ProcessBlocksJob

end CoreEx
