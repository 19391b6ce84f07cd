/-
  File:      CoreEx/Properties/MachineProgress.lean
  Subject:   Which nodes wait for an event that nothing is going to send.

  What a state waits for is on its way: an action that has been asked for, a download, a job of the
  queue, a timer. What is left over is a fork, a node whose database does not verify, and a node on
  which an action threw where it waited for the network or for the slot of a block: nobody catches
  that, and no event follows.

  * `home` -- the state an action, or what waits, is for;
  * `Due` -- something is on its way in the state a node is in;
  * `Busy` -- the queue runs as long as jobs wait;
  * `Due.dispatch`, `Due.performs`, `Due.ends`, **`progress`** -- in every run;
  * **`neverStuck`** -- where a node can be when nothing is on its way;
  * **`thrown_stuck`** -- a node that waits for good.
-/
import CoreEx.Blockchain.StateMachine

namespace CoreEx

open MachineNode

/-! ## 1. What is on its way -/

/-- The state that waits for an action. -/
def ActionKey.home : ActionKey → Option BlockchainState
  | checkLastBlockSynced => some (.syncWithNetwork .processFinished)
  | checkLastDownloadedBlockSynced => some (.syncWithNetwork .syncing)
  | checkLater => some .idle
  | downloadBlocks => some (.syncWithNetwork .downloadBlocks)
  | downloadFinished => some (.syncWithNetwork .downloadFinished)
  | init => some .init
  | syncingComplete => some (.syncWithNetwork .ended)
  | _ => none

/-- The state that waits for something to go on. -/
def Activity.home : Activity → BlockchainState
  | initializing => .init
  | checking => .syncWithNetwork .syncing
  | downloading _ => .syncWithNetwork .downloadBlocks
  | chaining => .syncWithNetwork .downloadBlocks

/-- The states that wait for a job of the queue. -/
def jobStates : List BlockchainState :=
  [.newBlock, .syncWithNetwork .downloadBlocks, .syncWithNetwork .downloadFinished,
    .syncWithNetwork .downloadPaused]

/-- The states that wait for nothing. -/
def finalStates : List BlockchainState := [.exit, .fork, .stopped]

/-- What waits is going to send an event: blocks that have been overtaken are given up. -/
def MachineNode.Sends (s : MachineNode) : Activity → Prop
  | .downloading id => ¬s.Changed id
  | _ => True

/-- **Something is on its way** in the state the node is in, or nothing is going to be. -/
inductive Due (s : MachineNode) : Prop
  | action (a : ActionKey) : a ∈ s.pending → a.home = some s.value → Due s
  | activity (a : Activity) : a ∈ s.active → a.home = s.value → s.Sends a → Due s
  | job : s.running = true → s.value ∈ jobStates → Due s
  | timer : s.value = .idle → s.wakeUpTimeout = true → Due s
  /-- The database did not verify. -/
  | rollback : s.value = .init → .rollback ∈ s.events → Due s
  /-- What the state waits for has thrown. -/
  | thrown (a : Activity) : a ∈ s.rejected → a.home = s.value → Due s
  | final : s.value ∈ finalStates → Due s

/-- **The queue runs as long as jobs wait**, and a node that has been disposed of has stopped. -/
structure Busy (s : MachineNode) : Prop where
  running : s.waiting ≠ 0 → s.running = true
  queueStarted : s.waiting ≠ 0 → s.queueStarted = true
  stopped : s.stopped = true → s.value = .stopped ∨ s.value = .exit

theorem downloadBlocks_mem : BlockchainState.syncWithNetwork .downloadBlocks ∈ jobStates := by
  decide

/-- More on its way does no harm. -/
theorem Due.mono {s t : MachineNode} (h : Due s) (hvalue : t.value = s.value)
    (hpending : s.pending ⊆ t.pending) (hactive : s.active ⊆ t.active)
    (hevents : s.events ⊆ t.events) (hrejected : s.rejected ⊆ t.rejected)
    (hrunning : s.running = true → t.running = true)
    (htimer : s.wakeUpTimeout = true → t.wakeUpTimeout = true)
    (hlast : t.lastDownloadedBlock = s.lastDownloadedBlock ∨ t.running = true ∨
      s.value ≠ .syncWithNetwork .downloadBlocks) : Due t := by
  cases h with
  | action a ha hhome => exact Due.action a (hpending ha) (hvalue ▸ hhome)
  | activity a ha hhome hsends =>
    rcases hlast with hlast | hrun | hother
    · refine Due.activity a (hactive ha) (hvalue ▸ hhome) ?_
      cases a with
      | downloading id =>
        intro hchanged
        obtain ⟨id', heq, hne⟩ := hchanged
        exact hsends ⟨id', hlast ▸ heq, hne⟩
      | _ => trivial
    · cases a with
      | downloading id => exact Due.job hrun (hvalue ▸ hhome ▸ downloadBlocks_mem)
      | chaining => exact Due.job hrun (hvalue ▸ hhome ▸ downloadBlocks_mem)
      | initializing =>
        exact Due.activity .initializing (hactive ha) (hvalue ▸ hhome) trivial
      | checking => exact Due.activity .checking (hactive ha) (hvalue ▸ hhome) trivial
    · cases a with
      | downloading id => exact absurd hhome.symm hother
      | chaining => exact absurd hhome.symm hother
      | initializing =>
        exact Due.activity .initializing (hactive ha) (hvalue ▸ hhome) trivial
      | checking => exact Due.activity .checking (hactive ha) (hvalue ▸ hhome) trivial
  | job hrun hstate => exact Due.job (hrunning hrun) (hvalue ▸ hstate)
  | timer hidle htimeout => exact Due.timer (hvalue ▸ hidle) (htimer htimeout)
  | rollback hinit hevent => exact Due.rollback (hvalue ▸ hinit) (hevents hevent)
  | thrown a ha hhome => exact Due.thrown a (hrejected ha) (hvalue ▸ hhome)
  | final hfinal => exact Due.final (hvalue ▸ hfinal)

/-- What is asked for, what waits and what has been sent is the same. -/
theorem Due.same {s t : MachineNode} (h : Due s) (hvalue : t.value = s.value)
    (hpending : t.pending = s.pending) (hactive : t.active = s.active)
    (hevents : t.events = s.events) (hrejected : t.rejected = s.rejected)
    (hrunning : s.running = true → t.running = true)
    (htimer : s.wakeUpTimeout = true → t.wakeUpTimeout = true)
    (hlast : t.lastDownloadedBlock = s.lastDownloadedBlock ∨ t.running = true ∨
      s.value ≠ .syncWithNetwork .downloadBlocks) : Due t :=
  h.mono hvalue (fun _ ha => hpending ▸ ha) (fun _ ha => hactive ▸ ha) (fun _ ha => hevents ▸ ha)
    (fun _ ha => hrejected ▸ ha) hrunning htimer hlast

/-- Something more waits. -/
theorem Due.await {s : MachineNode} (h : Due s) (a : Activity) :
    Due { s with active := s.active ++ [a] } :=
  h.mono rfl (fun _ ha => ha) (fun _ ha => List.mem_append_left _ ha) (fun _ ha => ha)
    (fun _ ha => ha) id id (Or.inl rfl)

/-- An event has been sent that led nowhere. -/
theorem Due.sent {s : MachineNode} (h : Due s) (e : MachineEvent) :
    Due { s with events := s.events ++ [e] } :=
  h.mono rfl (fun _ ha => ha) (fun _ ha => ha) (fun _ ha => List.mem_append_left _ ha)
    (fun _ ha => ha) id id (Or.inl rfl)

/-! ## 2. An event -/

/-- The events that lead into the states that ask for no action. -/
theorem next_cases {v w : BlockchainState} {e : MachineEvent}
    (h : blockchainMachine.next v e = some w) :
    w ≠ .syncWithNetwork .idle ∧ w ≠ .uninitialised ∧ (w = .newBlock → e = .newBlock) ∧
      (w = .syncWithNetwork .downloadPaused → e = .paused) ∧ (w = .init → v = .uninitialised) := by
  cases v with
  | syncWithNetwork v =>
    cases v <;> cases e <;> cases h <;> decide
  | _ => cases e <;> cases h <;> decide

/-- The states that end a node are not left. -/
theorem ended_closed :
    blockchainMachine.Closed (fun v => v = .stopped ∨ v = .exit) fun _ => True := by
  intro v e w hv _ hnext
  rcases hv with rfl | rfl <;> cases e <;> exact nomatch hnext

/-- What an event leads to: nothing new, or a state whose actions are asked for. -/
theorem dispatch_cases (e : MachineEvent) (s : MachineNode) :
    (blockchainMachine.next s.value e = none ∧
        dispatch e s = { s with events := s.events ++ [e] }) ∨
      ∃ w, blockchainMachine.next s.value e = some w ∧ dispatch e s =
        { s with
          value := w
          pending := s.pending ++ (blockchainMachine.onEntry w).filter ActionKey.isFound
          events := s.events ++ [e] } := by
  unfold dispatch
  cases hnext : blockchainMachine.next s.value e with
  | none =>
    refine Or.inl ⟨rfl, ?_⟩
    rw [Statechart.transition_of_none hnext]
    simp
  | some w =>
    refine Or.inr ⟨w, rfl, ?_⟩
    rw [Statechart.transition_of_next hnext]

/-- **A state that is entered** has something on its way. -/
theorem due_entered {s : MachineNode} {e : MachineEvent}
    (h : (blockchainMachine.next s.value e).isSome = true)
    (hjob : e = .newBlock ∨ e = .paused → s.running = true) : Due (dispatch e s) := by
  rcases dispatch_cases e s with ⟨hnone, _⟩ | ⟨w, hsome, heq⟩
  · rw [hnone] at h
    cases h
  rw [heq]
  obtain ⟨hidle, huninitialised, hnew, hpaused, _⟩ := next_cases hsome
  have hasks : ∀ a, a ∈ (blockchainMachine.onEntry w).filter ActionKey.isFound →
      a ∈ s.pending ++ (blockchainMachine.onEntry w).filter ActionKey.isFound :=
    fun a ha => List.mem_append_right _ ha
  cases w with
  | exit => exact Due.final (show .exit ∈ finalStates by decide)
  | fork => exact Due.final (show .fork ∈ finalStates by decide)
  | stopped => exact Due.final (show .stopped ∈ finalStates by decide)
  | idle => exact Due.action .checkLater (hasks _ (by decide)) rfl
  | init => exact Due.action .init (hasks _ (by decide)) rfl
  | newBlock => exact Due.job (hjob (Or.inl (hnew rfl))) (show .newBlock ∈ jobStates by decide)
  | uninitialised => exact absurd rfl huninitialised
  | syncWithNetwork v =>
    cases v with
    | downloadBlocks => exact Due.action .downloadBlocks (hasks _ (by decide)) rfl
    | downloadFinished => exact Due.action .downloadFinished (hasks _ (by decide)) rfl
    | downloadPaused =>
      exact Due.job (hjob (Or.inr (hpaused rfl)))
        (show .syncWithNetwork .downloadPaused ∈ jobStates by decide)
    | ended => exact Due.action .syncingComplete (hasks _ (by decide)) rfl
    | idle => exact absurd rfl hidle
    | processFinished => exact Due.action .checkLastBlockSynced (hasks _ (by decide)) rfl
    | syncing => exact Due.action .checkLastDownloadedBlockSynced (hasks _ (by decide)) rfl

/-- **An event** leads nowhere, or into a state that has something on its way. -/
theorem Due.dispatch {s : MachineNode} {e : MachineEvent} (h : Due s)
    (hjob : e = .newBlock ∨ e = .paused → s.running = true) : Due (dispatch e s) := by
  rcases dispatch_cases e s with ⟨_, heq⟩ | ⟨w, hsome, _⟩
  · rw [heq]
    exact h.sent e
  · exact due_entered (by rw [hsome]; rfl) hjob

/-- An event leaves the queue alone, and does not start a node that has stopped. -/
theorem Busy.dispatch {s : MachineNode} (h : Busy s) (e : MachineEvent) : Busy (dispatch e s) :=
  ⟨h.running, h.queueStarted, fun hstopped => ended_closed.transition (h.stopped hstopped) trivial⟩

/-! ## 3. The pieces of code -/

/-- What may still be said when an action has begun: something else is on its way, or the state
    waits for this action. -/
def DueBut (s : MachineNode) (home : Option BlockchainState) : Prop := Due s ∨ home = some s.value

/-- **An event at the end of an action** that leads out of the state the action is for. -/
theorem DueBut.dispatch {s : MachineNode} {home : Option BlockchainState} {e : MachineEvent}
    (h : DueBut s home) (hleads : ∀ v, home = some v → (blockchainMachine.next v e).isSome = true)
    (hjob : e = .newBlock ∨ e = .paused → s.running = true) : Due (MachineNode.dispatch e s) := by
  rcases h with h | h
  · exact h.dispatch hjob
  · exact due_entered (hleads s.value h) hjob

/-- An action is taken from what has been asked for. -/
theorem Due.withoutAction {s : MachineNode} (h : Due s) {before after : List ActionKey}
    {a : ActionKey} (hpending : s.pending = before ++ a :: after) :
    DueBut { s with pending := before ++ after } a.home := by
  cases h with
  | action a' ha hhome =>
    rw [hpending] at ha
    by_cases heq : a' = a
    · exact Or.inr (heq ▸ hhome)
    · refine Or.inl (Due.action a' ?_ hhome)
      show a' ∈ before ++ after
      simpa [heq] using ha
  | activity a' ha hhome hsends =>
    exact Or.inl (Due.activity a' ha hhome (by cases a' <;> exact hsends))
  | job hrun hstate => exact Or.inl (Due.job hrun hstate)
  | timer hidle htimeout => exact Or.inl (Due.timer hidle htimeout)
  | rollback hinit hevent => exact Or.inl (Due.rollback hinit hevent)
  | thrown a' ha hhome => exact Or.inl (Due.thrown a' ha hhome)
  | final hfinal => exact Or.inl (Due.final hfinal)

/-- What waited goes on: unless it would send nothing, the state may have waited for it. -/
theorem Due.withoutActivity {s : MachineNode} (h : Due s) {before after : List Activity}
    {a : Activity} (hactive : s.active = before ++ a :: after) :
    Due { s with active := before ++ after } ∨ a.home = s.value ∧ s.Sends a := by
  cases h with
  | action a' ha hhome => exact Or.inl (Due.action a' ha hhome)
  | activity a' ha hhome hsends =>
    rw [hactive] at ha
    by_cases heq : a' = a
    · exact Or.inr ⟨heq ▸ hhome, heq ▸ hsends⟩
    · refine Or.inl (Due.activity a' ?_ hhome (by cases a' <;> exact hsends))
      show a' ∈ before ++ after
      simpa [heq] using ha
  | job hrun hstate => exact Or.inl (Due.job hrun hstate)
  | timer hidle htimeout => exact Or.inl (Due.timer hidle htimeout)
  | rollback hinit hevent => exact Or.inl (Due.rollback hinit hevent)
  | thrown a' ha hhome => exact Or.inl (Due.thrown a' ha hhome)
  | final hfinal => exact Or.inl (Due.final hfinal)

/-- The queue runs once blocks have been enqueued. -/
theorem enqueueBlocks_eq (s : MachineNode) {jobs : Nat} (h : 0 < jobs) :
    ∃ waiting, s.enqueueBlocks jobs =
      { s with waiting := waiting, running := true, queueStarted := true } := by
  obtain ⟨n, rfl⟩ := Nat.exists_eq_add_of_lt h
  rw [Nat.zero_add]
  clear h
  induction n with
  | zero =>
    show ∃ waiting, s.createQueueJob = _
    unfold createQueueJob
    split
    · rename_i hrun
      exact ⟨s.waiting + 1, by rw [hrun]⟩
    · exact ⟨s.waiting, rfl⟩
  | succ n ih =>
    obtain ⟨waiting, heq⟩ := ih
    refine ⟨waiting + 1, ?_⟩
    unfold enqueueBlocks at heq ⊢
    rw [Function.iterate_succ_apply', heq]
    rfl

/-- Blocks that are enqueued take nothing from what is on its way. -/
theorem Due.enqueueBlocks {s : MachineNode} (h : Due s) {jobs : Nat} (hjobs : 0 < jobs) :
    Due (s.enqueueBlocks jobs) := by
  obtain ⟨waiting, heq⟩ := enqueueBlocks_eq s hjobs
  rw [heq]
  exact h.same rfl rfl rfl rfl rfl (fun _ => rfl) id (Or.inl rfl)

theorem Busy.enqueueBlocks {s : MachineNode} (h : Busy s) {jobs : Nat} (hjobs : 0 < jobs) :
    Busy (s.enqueueBlocks jobs) := by
  obtain ⟨waiting, heq⟩ := enqueueBlocks_eq s hjobs
  rw [heq]
  exact ⟨fun _ => rfl, fun _ => rfl, h.stopped⟩

/-- **An action** that begins leaves something on its way. -/
theorem Due.performs {a : ActionKey} {s s' : MachineNode} (h : DueBut s a.home) (hbusy : Busy s)
    (hperforms : Performs a s s') : Due s' := by
  have hother : a.home = none → Due s := fun hhome =>
    h.resolve_right fun heq => nomatch hhome.symm.trans heq
  cases hperforms with
  | blockchainReady =>
    exact (hother rfl).same rfl rfl rfl rfl rfl id id (Or.inl rfl)
  | checkLastBlockSynced isSynced =>
    refine h.dispatch (fun v hv => ?_) (absurd · (by cases isSynced <;> decide))
    obtain rfl := Option.some.inj hv
    cases isSynced <;> rfl
  | notSynced => exact h.dispatch (fun v hv => Option.some.inj hv ▸ rfl) (absurd · (by decide))
  | paused _ hwaiting =>
    exact h.dispatch (fun v hv => Option.some.inj hv ▸ rfl) fun _ => hbusy.running (by omega)
  | networkHalted => exact h.dispatch (fun v hv => Option.some.inj hv ▸ rfl) (absurd · (by decide))
  | checking =>
    rcases h with h | hhome
    · exact h.await _
    · exact Due.activity .checking (List.mem_append_right _ (List.mem_singleton_self _))
        (Option.some.inj hhome) trivial
  | synced => exact h.dispatch (fun v hv => Option.some.inj hv ▸ rfl) (absurd · (by decide))
  | test => exact h.dispatch (fun v hv => Option.some.inj hv ▸ rfl) (absurd · (by decide))
  | checkLater =>
    split
    · rename_i hset
      rcases h with h | hhome
      · exact h.same rfl rfl rfl rfl rfl id (fun _ => rfl) (Or.inl rfl)
      · exact Due.timer (Option.some.inj hhome).symm rfl
    · rename_i hset
      rcases h with h | hhome
      · exact h
      have hidle : s.value = .idle := (Option.some.inj hhome).symm
      have hrunning : s.stopped = false := by
        by_contra hstopped
        rcases hbusy.stopped (Bool.not_eq_false _ ▸ hstopped) with hv | hv <;>
          exact nomatch hidle.symm.trans hv
      refine Due.timer hidle ?_
      by_contra htimeout
      exact hset ⟨hrunning, Bool.eq_false_iff.2 htimeout⟩
  | downloadBlocks =>
    rcases h with h | hhome
    · exact h.await _
    · refine Due.activity _ (List.mem_append_right _ (List.mem_singleton_self _))
        (Option.some.inj hhome) ?_
      intro hchanged
      obtain ⟨id, heq, hne⟩ := hchanged
      have hlast : s.lastDownloadedBlock = some id := heq
      rw [hlast] at hne
      exact hne rfl
  | downloadFinished =>
    split
    · have hfirst : DueBut { s with networkStart := false } ActionKey.downloadFinished.home :=
        h.imp (fun h => h.same rfl rfl rfl rfl rfl id id (Or.inl rfl)) id
      exact hfirst.dispatch (fun v hv => Option.some.inj hv ▸ rfl) (absurd · (by decide))
    · split
      · rename_i hrun
        rcases h with h | hhome
        · exact h
        · exact Due.job hrun (Option.some.inj hhome ▸
            (by decide : BlockchainState.syncWithNetwork .downloadFinished ∈ jobStates))
      · exact h.dispatch (fun v hv => Option.some.inj hv ▸ rfl) (absurd · (by decide))
  | downloadPaused => exact hother rfl
  | exitApp => exact hother rfl
  | init =>
    rcases h with h | hhome
    · exact h.await _
    · exact Due.activity .initializing (List.mem_append_right _ (List.mem_singleton_self _))
        (Option.some.inj hhome) trivial
  | stopped => exact hother rfl
  | syncingComplete =>
    exact h.dispatch (fun v hv => Option.some.inj hv ▸ rfl) (absurd · (by decide))

/-- Nothing can be enqueued: a state that waits for blocks is left. -/
theorem due_noBlock {s : MachineNode} (empty : Bool)
    (h : Due s ∨ s.value = .syncWithNetwork .downloadBlocks) : Due (s.noBlock empty) := by
  unfold MachineNode.noBlock
  dsimp only
  generalize hcleared : (if empty then s else s.clearQueue) = cleared
  have hsame : cleared = { s with waiting := cleared.waiting } := by
    rw [← hcleared]
    split <;> rfl
  generalize hlast : (if cleared.waiting = 0 then
    { cleared with lastDownloadedBlock := some cleared.lastBlock } else cleared) = t
  have ht : ∃ last, t =
      { s with waiting := cleared.waiting, lastDownloadedBlock := last } := by
    rw [← hlast]
    split
    · exact ⟨some cleared.lastBlock, by rw [hsame]⟩
    · exact ⟨s.lastDownloadedBlock, hsame⟩
  obtain ⟨last, rfl⟩ := ht
  by_cases hvalue : s.value = .syncWithNetwork .downloadBlocks
  · refine due_entered ?_ (absurd · (by decide))
    show (blockchainMachine.next s.value .noBlock).isSome = true
    rw [hvalue]
    rfl
  · refine Due.dispatch ?_ (absurd · (by decide))
    exact (h.resolve_right hvalue).same rfl rfl rfl rfl rfl id id (Or.inr (Or.inr hvalue))

theorem busy_noBlock {s : MachineNode} (h : Busy s) (empty : Bool) : Busy (s.noBlock empty) := by
  unfold MachineNode.noBlock
  refine Busy.dispatch ?_ _
  have hcleared : Busy (if empty then s else s.clearQueue) := by
    split
    · exact h
    · exact ⟨fun hne => absurd rfl hne, fun hne => absurd rfl hne, h.stopped⟩
  generalize (if empty then s else s.clearQueue) = cleared at hcleared ⊢
  split
  · exact ⟨hcleared.running, hcleared.queueStarted, hcleared.stopped⟩
  · exact hcleared

/-- **What waited** leaves something on its way. -/
theorem Due.ends {a : Activity} {s s' : MachineNode}
    (h : Due s ∨ a.home = s.value ∧ s.Sends a) (hbusy : Busy s) (hends : Ends a s s') : Due s' := by
  have hdispatch : ∀ e, (blockchainMachine.next a.home e).isSome = true →
      ¬(e = .newBlock ∨ e = .paused) → Due (MachineNode.dispatch e s) := by
    intro e hleads hjob
    rcases h with h | ⟨hhome, _⟩
    · exact h.dispatch (absurd · hjob)
    · exact due_entered (hhome ▸ hleads) (absurd · hjob)
  cases hends with
  | rollback =>
    rcases h with h | ⟨hhome, _⟩
    · exact h.dispatch (absurd · (by decide))
    · refine Due.rollback ?_ (List.mem_append_right _ (List.mem_singleton_self _))
      show (blockchainMachine.transition s.value .rollback).1 = .init
      rw [← hhome]
      rfl
  | failure => exact hdispatch .failure rfl (by decide)
  | started => exact hdispatch .started rfl (by decide)
  | networkHalted => exact hdispatch .networkHalted rfl (by decide)
  | fork => exact hdispatch .fork rfl (by decide)
  | synced => exact hdispatch .synced rfl (by decide)
  | test => exact hdispatch .test rfl (by decide)
  | given id _ hgiven =>
    rcases h with h | ⟨hhome, hsends⟩
    · exact h
    rcases hgiven with hstopped | hchanged
    · rcases hbusy.stopped hstopped with hv | hv <;> exact nomatch hhome.trans hv
    · exact absurd hchanged hsends
  | empty => exact due_noBlock true (h.imp id fun h => h.1.symm)
  | chaining =>
    rcases h with h | ⟨hhome, _⟩
    · exact h.await _
    · exact Due.activity .chaining (List.mem_append_right _ (List.mem_singleton_self _)) hhome
        trivial
  | unchained => exact due_noBlock false (h.imp id fun h => h.1.symm)
  | downloaded jobs last _ hjobs =>
    obtain ⟨waiting, heq⟩ := enqueueBlocks_eq s hjobs
    rw [heq]
    rcases h with h | ⟨hhome, _⟩
    · refine Due.dispatch ?_ (absurd · (by decide))
      exact h.same rfl rfl rfl rfl rfl (fun _ => rfl) id (Or.inr (Or.inl rfl))
    · refine due_entered ?_ (absurd · (by decide))
      show (blockchainMachine.next s.value .downloaded).isSome = true
      rw [← hhome]
      rfl
  | failed jobs =>
    rcases h with h | ⟨hhome, _⟩
    · refine Due.dispatch ?_ (absurd · (by decide))
      rcases Nat.eq_zero_or_pos jobs with rfl | hjobs
      · exact h
      · exact h.enqueueBlocks hjobs
    · refine due_entered ?_ (absurd · (by decide))
      have hvalue : (s.enqueueBlocks jobs).value = s.value := by
        rcases Nat.eq_zero_or_pos jobs with rfl | hjobs
        · rfl
        · obtain ⟨waiting, heq⟩ := enqueueBlocks_eq s hjobs
          rw [heq]
      rw [hvalue, ← hhome]
      rfl
  | thrown =>
    rcases h with h | ⟨hhome, _⟩
    · exact h.mono rfl (fun _ ha => ha) (fun _ ha => ha) (fun _ ha => ha)
        (fun _ ha => List.mem_append_left _ ha) id id (Or.inl rfl)
    · exact Due.thrown a (List.mem_append_right _ (List.mem_singleton_self _)) hhome

theorem Busy.performs {a : ActionKey} {s s' : MachineNode} (h : Busy s)
    (hperforms : Performs a s s') : Busy s' := by
  cases hperforms with
  | blockchainReady => exact ⟨h.running, h.queueStarted, h.stopped⟩
  | checkLater =>
    split
    · exact ⟨h.running, h.queueStarted, h.stopped⟩
    · exact h
  | downloadFinished =>
    split
    · have hfirst : Busy { s with networkStart := false } :=
        ⟨h.running, h.queueStarted, h.stopped⟩
      exact hfirst.dispatch _
    · split
      · exact h
      · exact h.dispatch _
  | checking => exact ⟨h.running, h.queueStarted, h.stopped⟩
  | downloadBlocks => exact ⟨h.running, h.queueStarted, h.stopped⟩
  | init => exact ⟨h.running, h.queueStarted, h.stopped⟩
  | downloadPaused => exact h
  | exitApp => exact h
  | stopped => exact h
  | _ => exact h.dispatch _

theorem Busy.ends {a : Activity} {s s' : MachineNode} (h : Busy s) (hends : Ends a s s') :
    Busy s' := by
  cases hends with
  | given => exact h
  | empty => exact busy_noBlock h true
  | unchained => exact busy_noBlock h false
  | chaining => exact ⟨h.running, h.queueStarted, h.stopped⟩
  | thrown => exact ⟨h.running, h.queueStarted, h.stopped⟩
  | downloaded jobs last _ hjobs =>
    have henqueued := h.enqueueBlocks hjobs
    have hlast : Busy { s.enqueueBlocks jobs with lastDownloadedBlock := some last } :=
      ⟨henqueued.running, henqueued.queueStarted, henqueued.stopped⟩
    exact hlast.dispatch _
  | failed jobs =>
    refine Busy.dispatch ?_ _
    rcases Nat.eq_zero_or_pos jobs with rfl | hjobs
    · exact h
    · exact h.enqueueBlocks hjobs
  | _ => exact h.dispatch _

/-! ## 4. Every run -/

/-- A node that has been disposed of is in a state that ends it, or was never started. -/
theorem stop_ends {v : BlockchainState} (h : v ≠ .uninitialised) :
    (blockchainMachine.transition v .stop).1 = .stopped ∨
      (blockchainMachine.transition v .stop).1 = .exit := by
  cases v with
  | syncWithNetwork v => cases v <;> exact Or.inl rfl
  | exit => exact Or.inr rfl
  | uninitialised => exact absurd rfl h
  | _ => exact Or.inl rfl

/-- Something is on its way, so the node has been started. -/
theorem Due.value_ne {s : MachineNode} (h : Due s) : s.value ≠ .uninitialised := by
  intro hvalue
  cases h with
  | action a _ hhome => rw [hvalue] at hhome; cases a <;> exact nomatch hhome
  | activity a _ hhome => rw [hvalue] at hhome; cases a <;> exact nomatch hhome
  | job _ hstate => rw [hvalue] at hstate; exact absurd hstate (by decide)
  | timer hidle => exact nomatch hvalue.symm.trans hidle
  | rollback hinit => exact nomatch hvalue.symm.trans hinit
  | thrown a _ hhome => rw [hvalue] at hhome; cases a <;> exact nomatch hhome
  | final hfinal => rw [hvalue] at hfinal; exact absurd hfinal (by decide)

/-- A state that does not wait for a job. -/
theorem Due.withoutJob {s : MachineNode} (h : Due s) (hstate : s.value ∉ jobStates) :
    Due { s with running := false } := by
  cases h with
  | action a ha hhome => exact Due.action a ha hhome
  | activity a ha hhome hsends =>
    exact Due.activity a ha hhome (by cases a <;> exact hsends)
  | job _ hmem => exact absurd hmem hstate
  | timer hidle htimeout => exact Due.timer hidle htimeout
  | rollback hinit hevent => exact Due.rollback hinit hevent
  | thrown a ha hhome => exact Due.thrown a ha hhome
  | final hfinal => exact Due.final hfinal

/-- A state that does not wait for the timer. -/
theorem Due.withoutTimer {s : MachineNode} (h : Due s) (hvalue : s.value ≠ .idle) :
    Due { s with wakeUpTimeout := false } := by
  cases h with
  | action a ha hhome => exact Due.action a ha hhome
  | activity a ha hhome hsends =>
    exact Due.activity a ha hhome (by cases a <;> exact hsends)
  | job hrun hmem => exact Due.job hrun hmem
  | timer hidle => exact absurd hidle hvalue
  | rollback hinit hevent => exact Due.rollback hinit hevent
  | thrown a ha hhome => exact Due.thrown a ha hhome
  | final hfinal => exact Due.final hfinal

/-- The queue goes on to the next job, or ends with the event that the states that wait for it
    know. -/
theorem due_finishJob {s : MachineNode} (h : Due s) (hbusy : Busy s) : Due s.finishJob := by
  unfold MachineNode.finishJob
  split
  · by_cases hstate : s.value ∈ jobStates
    · refine due_entered ?_ (absurd · (by decide))
      show (blockchainMachine.next s.value .processFinished).isSome = true
      generalize s.value = v at hstate ⊢
      revert v
      decide
    · exact (h.withoutJob hstate).dispatch (absurd · (by decide))
  · rename_i hwaiting
    rw [if_pos (hbusy.queueStarted hwaiting)]
    exact h.same rfl rfl rfl rfl rfl id id (Or.inl rfl)

theorem busy_finishJob {s : MachineNode} (h : Busy s) : Busy s.finishJob := by
  unfold MachineNode.finishJob
  split
  · rename_i hwaiting
    refine Busy.dispatch ?_ _
    exact ⟨fun hne => absurd hwaiting hne, fun hne => absurd hwaiting hne, h.stopped⟩
  · rename_i hwaiting
    rw [if_pos (h.queueStarted hwaiting)]
    exact ⟨fun _ => h.running hwaiting, fun _ => h.queueStarted hwaiting, h.stopped⟩

/-- **One piece of code** leaves something on its way. -/
theorem due_step {s s' : MachineNode} (h : Due s) (hbusy : Busy s) (hstep : MachineStep s s') :
    Due s' := by
  cases hstep with
  | action before after a hpending hperforms =>
    have hrest : Busy { s with pending := before ++ after } :=
      ⟨hbusy.running, hbusy.queueStarted, hbusy.stopped⟩
    exact Due.performs (h.withoutAction hpending) hrest hperforms
  | activity before after a hactive hends =>
    have hrest : Busy { s with active := before ++ after } :=
      ⟨hbusy.running, hbusy.queueStarted, hbusy.stopped⟩
    refine Due.ends ((h.withoutActivity hactive).imp id fun hwaits => ?_) hrest hends
    exact ⟨hwaits.1, by cases a <;> exact hwaits.2⟩
  | handleIncomingBlock jobs _ hjobs =>
    unfold MachineNode.handleIncomingBlock
    split
    · rcases dispatch_cases .newBlock s with ⟨_, heq⟩ | ⟨w, hsome, heq⟩
      · exact Due.enqueueBlocks (by
          rw [heq]
          exact h.sent _) hjobs
      · obtain ⟨waiting, heq'⟩ := enqueueBlocks_eq (dispatch .newBlock s) hjobs
        have hw : w = .newBlock := by
          generalize s.value = v at hsome
          revert hsome
          cases v with
          | syncWithNetwork v => cases v <;> exact fun hsome => nomatch hsome
          | idle => exact fun hsome => (Option.some.inj hsome).symm
          | _ => exact fun hsome => nomatch hsome
        rw [heq', heq, hw]
        exact Due.job rfl (show .newBlock ∈ jobStates by decide)
    · exact h
  | process _ lastBlock lastDownloadedBlock hrun =>
    exact h.same rfl rfl rfl rfl rfl id id (Or.inr (Or.inl hrun))
  | clearQueue =>
    exact h.same rfl rfl rfl rfl rfl id id (Or.inl rfl)
  | forkBlock _ hrun =>
    refine Due.dispatch ?_ (absurd · (by decide))
    exact h.same rfl rfl rfl rfl rfl id id (Or.inr (Or.inl hrun))
  | resetWakeUp =>
    exact h.same rfl rfl rfl rfl rfl id (fun _ => rfl) (Or.inl rfl)
  | finishJob => exact due_finishJob h hbusy
  | forceWakeup =>
    by_cases hvalue : s.value = .idle
    · refine due_entered ?_ (absurd · (by decide))
      show (blockchainMachine.next s.value .wakeUp).isSome = true
      rw [hvalue]
      rfl
    · exact (h.withoutTimer hvalue).dispatch (absurd · (by decide))
  | checkMissingBlocks => exact h.dispatch (absurd · (by decide))
  | dispose =>
    unfold MachineNode.dispose
    split
    · exact h
    · refine Due.final ?_
      show (blockchainMachine.transition s.value .stop).1 ∈ finalStates
      rcases stop_ends h.value_ne with hv | hv <;> rw [hv] <;> decide

/-- One piece of code keeps the queue running as long as jobs wait. -/
theorem busy_step {s s' : MachineNode} (hdue : Due s) (h : Busy s) (hstep : MachineStep s s') :
    Busy s' := by
  cases hstep with
  | action before after a _ hperforms =>
    exact Busy.performs (s := { s with pending := before ++ after })
      ⟨h.running, h.queueStarted, h.stopped⟩ hperforms
  | activity before after a _ hends =>
    exact Busy.ends (s := { s with active := before ++ after })
      ⟨h.running, h.queueStarted, h.stopped⟩ hends
  | handleIncomingBlock jobs _ hjobs =>
    unfold MachineNode.handleIncomingBlock
    split
    · exact (h.dispatch _).enqueueBlocks hjobs
    · exact h
  | process => exact ⟨h.running, h.queueStarted, h.stopped⟩
  | clearQueue => exact ⟨fun hne => absurd rfl hne, fun hne => absurd rfl hne, h.stopped⟩
  | forkBlock =>
    refine Busy.dispatch ?_ _
    exact ⟨fun hne => absurd rfl hne, fun hne => absurd rfl hne, h.stopped⟩
  | resetWakeUp => exact ⟨h.running, h.queueStarted, h.stopped⟩
  | finishJob => exact busy_finishJob h
  | forceWakeup =>
    refine Busy.dispatch ?_ _
    exact ⟨h.running, h.queueStarted, h.stopped⟩
  | checkMissingBlocks => exact h.dispatch _
  | dispose =>
    unfold MachineNode.dispose
    split
    · exact h
    · exact ⟨fun hne => absurd rfl hne, fun hne => absurd rfl hne,
        fun _ => stop_ends hdue.value_ne⟩

/-- **Something is always on its way**, whatever runs when. -/
theorem progress (lastBlock : String) (networkStart : Bool) {s : MachineNode}
    (h : Becomes (booted lastBlock networkStart) s) : Due s ∧ Busy s := by
  induction h with
  | refl =>
    refine ⟨Due.action .init (List.mem_singleton_self _) rfl, ?_⟩
    exact ⟨fun hne => absurd rfl hne, fun hne => absurd rfl hne, fun hstopped => nomatch hstopped⟩
  | tail _ hstep ih => exact ⟨due_step ih.1 ih.2 hstep, busy_step ih.1 ih.2 hstep⟩

/-- **Where a node can be when nothing runs**: it has stopped, it has forked, its database did not
    verify, it waits for the timer in the state it is meant to be in, or it waits for good for
    something that threw. -/
theorem neverStuck (lastBlock : String) (networkStart : Bool) {s : MachineNode}
    (h : Becomes (booted lastBlock networkStart) s) (hpending : s.pending = [])
    (hactive : s.active = []) (hrunning : s.running = false) :
    s.value = .stopped ∨ s.value = .exit ∨ s.value = .fork ∨
      s.value = .init ∧ .rollback ∈ s.events ∨ s.value = .idle ∧ s.wakeUpTimeout = true ∨
      ∃ a ∈ s.rejected, a.home = s.value := by
  obtain ⟨hdue, _⟩ := progress lastBlock networkStart h
  cases hdue with
  | action a ha => rw [hpending] at ha; cases ha
  | activity a ha => rw [hactive] at ha; cases ha
  | job hrun => rw [hrunning] at hrun; cases hrun
  | timer hidle htimeout => exact Or.inr (Or.inr (Or.inr (Or.inr (Or.inl ⟨hidle, htimeout⟩))))
  | rollback hinit hevent => exact Or.inr (Or.inr (Or.inr (Or.inl ⟨hinit, hevent⟩)))
  | thrown a ha hhome => exact Or.inr (Or.inr (Or.inr (Or.inr (Or.inr ⟨a, ha, hhome⟩))))
  | final hfinal =>
    generalize s.value = v at hfinal ⊢
    unfold finalStates at hfinal
    simp only [List.mem_cons, List.not_mem_nil, or_false] at hfinal
    rcases hfinal with rfl | rfl | rfl
    · exact Or.inr (Or.inl rfl)
    · exact Or.inr (Or.inr (Or.inl rfl))
    · exact Or.inl rfl

/-- A node that is in sync. -/
def inSync : MachineNode where
  value := .idle
  pending := []
  active := []
  events := [.start, .started, .synced, .processFinished, .synced, .syncFinished]
  lastBlock := "1"
  lastDownloadedBlock := none
  waiting := 0
  running := false
  queueStarted := false
  started := true
  stopped := false
  wakeUpTimeout := true
  networkStart := false
  rejected := []

/-- It comes up without a download. -/
theorem inSync_reached : Becomes (booted "1" false) inSync := by
  refine .tail (.tail (.tail (.tail (.tail (.tail (.tail (.tail .refl
    (.action [] [] .init rfl (.init _)))
    (.activity [] [] .initializing rfl (.started _)))
    (.action [] [] .checkLastDownloadedBlockSynced rfl (.synced _)))
    (.action [] [] .downloadFinished rfl (.downloadFinished _)))
    (.action [] [] .checkLastBlockSynced rfl (.checkLastBlockSynced true _)))
    (.action [] [] .syncingComplete rfl (.syncingComplete _)))
    (.action [] [.blockchainReady] .checkLater rfl (.checkLater _)))
    (.action [] [] .blockchainReady rfl (.blockchainReady _))

theorem neverStuck_inSync :
    inSync.value = .stopped ∨ inSync.value = .exit ∨ inSync.value = .fork ∨
      inSync.value = .init ∧ .rollback ∈ inSync.events ∨
      inSync.value = .idle ∧ inSync.wakeUpTimeout = true ∨
      ∃ a ∈ inSync.rejected, a.home = inSync.value :=
  neverStuck "1" false inSync_reached rfl rfl rfl

theorem not_changed_of_none {s : MachineNode} {id : String} (hnone : s.lastDownloadedBlock = none) :
    ¬s.Changed id :=
  fun ⟨_, hsome, _⟩ => nomatch hsome.symm.trans hnone

/-- **A node that waits for good**: it has downloaded blocks, and the slot of the first one could not
    be computed. -/
theorem thrown_stuck : ∃ s, Becomes (booted "1" false) s ∧ s.pending = [] ∧ s.active = [] ∧
    s.running = false ∧ s.value = .syncWithNetwork .downloadBlocks := by
  refine ⟨_, .tail (.tail (.tail (.tail (.tail (.tail .refl
    (.action [] [] .init rfl (.init _)))
    (.activity [] [] .initializing rfl (.started _)))
    (.action [] [] .checkLastDownloadedBlockSynced rfl (.notSynced _)))
    (.action [] [] .downloadBlocks rfl (.downloadBlocks _)))
    (.activity [] [] (.downloading "1") rfl (.chaining "1" _ rfl (not_changed_of_none rfl))))
    (.activity [] [] .chaining rfl (.thrown _ _ nofun)), rfl, rfl, rfl, rfl⟩

end CoreEx
