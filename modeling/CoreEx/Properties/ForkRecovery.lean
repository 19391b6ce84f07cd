/-
  File:      CoreEx/Properties/ForkRecovery.lean
  Subject:   A node that has forked never goes back to work.

  The machine would leave a fork by `SUCCESS`, after an action that the table does not have, or by
  `FAILURE`, which only `Initialize` sends. `Initialize` runs once, and before any fork.

  * `Ordinary`, `Effect`, `step_effect` -- the events that are sent, and by what;
  * `Once`, `reached_once` -- `Initialize` runs once in every run;
  * **`fork_final`** -- a fork is left by stopping only.
-/
import CoreEx.Properties.MachineProgress

namespace CoreEx

open MachineNode

/-! ## 1. The events that are sent -/

/-- An event that is not the end of `Initialize`; nothing sends `SUCCESS` or `NETWORKSTART`. -/
def Ordinary (e : MachineEvent) : Prop :=
  e ≠ .failure ∧ e ≠ .networkStart ∧ e ≠ .start ∧ e ≠ .started ∧ e ≠ .success

instance (e : MachineEvent) : Decidable (Ordinary e) := by
  unfold Ordinary
  infer_instance

/-- How often `Initialize` has been asked for, or waits. -/
def MachineNode.inits (s : MachineNode) : Nat :=
  s.pending.count .init + s.active.count .initializing

/-- **What a piece of code does** to the machine, and to how often `Initialize` is to come. -/
structure Effect (s : MachineNode) (allowed : Nat) (s' : MachineNode) : Prop where
  value : s'.value = s.value ∨
    ∃ e, Ordinary e ∧ blockchainMachine.next s.value e = some s'.value
  inits : s.value ≠ .uninitialised → s'.inits ≤ s.inits + allowed
  stopped : s.stopped = true → s'.stopped = true
  /-- Only a node that is disposed of is sent `STOP`. -/
  stops : s'.value = .stopped → s.value = .stopped ∨ s'.stopped = true

/-- A piece of code that leaves the machine alone. -/
theorem Effect.of_eq {s s' : MachineNode} {allowed : Nat} (hvalue : s'.value = s.value)
    (hstopped : s'.stopped = s.stopped) (hinits : s'.inits ≤ s.inits + allowed) :
    Effect s allowed s' :=
  ⟨Or.inl hvalue, fun _ => hinits, fun h => hstopped.trans h, fun h => Or.inl (hvalue ▸ h)⟩

/-- `STOP` is the only event that leads into the stopped state. -/
theorem next_stopped {v : BlockchainState} {e : MachineEvent}
    (h : blockchainMachine.next v e = some .stopped) : e = .stop := by
  cases v with
  | syncWithNetwork v => cases v <;> cases e <;> first | rfl | exact nomatch h
  | _ => cases e <;> first | rfl | exact nomatch h

/-- `Initialize` is asked for by the first event only. -/
theorem inits_dispatch (e : MachineEvent) {s : MachineNode} (h : s.value ≠ .uninitialised) :
    (dispatch e s).inits = s.inits := by
  rcases dispatch_cases e s with ⟨_, heq⟩ | ⟨w, hsome, heq⟩
  · rw [heq]
    rfl
  · have hnone : ((blockchainMachine.onEntry w).filter ActionKey.isFound).count .init = 0 := by
      have hw : w ≠ .init := fun hw => h ((next_cases hsome).2.2.2.2 hw)
      cases w with
      | init => exact absurd rfl hw
      | syncWithNetwork v => cases v <;> rfl
      | _ => rfl
    rw [heq]
    unfold inits
    dsimp only
    rw [List.count_append, hnone, Nat.add_zero]

/-- **An ordinary event**, and what has been done before it. -/
theorem Effect.dispatch {s t : MachineNode} {allowed : Nat} {e : MachineEvent}
    (hvalue : t.value = s.value) (hstopped : t.stopped = s.stopped)
    (hinits : t.inits ≤ s.inits + allowed) (he : Ordinary e ∧ e ≠ .stop) :
    Effect s allowed (dispatch e t) := by
  have hvalues : (MachineNode.dispatch e t).value = s.value ∨
      blockchainMachine.next s.value e = some (MachineNode.dispatch e t).value := by
    rcases dispatch_cases e t with ⟨_, heq⟩ | ⟨w, hsome, heq⟩
    · exact Or.inl (by rw [heq]; exact hvalue)
    · exact Or.inr (by rw [heq, ← hvalue]; exact hsome)
  refine ⟨hvalues.imp id fun h => ⟨e, he.1, h⟩,
    fun hne => (inits_dispatch e (hvalue ▸ hne)).le.trans hinits, fun h => hstopped.trans h,
    fun h => ?_⟩
  rcases hvalues with hsame | hnext
  · exact Or.inl (hsame ▸ h)
  · exact absurd (next_stopped (h ▸ hnext)) he.2

/-- Blocks that are enqueued leave the machine alone. -/
theorem enqueueBlocks_frame (s : MachineNode) (jobs : Nat) :
    (s.enqueueBlocks jobs).value = s.value ∧ (s.enqueueBlocks jobs).stopped = s.stopped ∧
      (s.enqueueBlocks jobs).inits = s.inits := by
  rcases Nat.eq_zero_or_pos jobs with rfl | hjobs
  · exact ⟨rfl, rfl, rfl⟩
  · obtain ⟨waiting, heq⟩ := enqueueBlocks_eq s hjobs
    rw [heq]
    exact ⟨rfl, rfl, rfl⟩

theorem noBlock_effect (empty : Bool) (s : MachineNode) : Effect s 0 (s.noBlock empty) := by
  unfold MachineNode.noBlock
  dsimp only
  have hcleared :
      ∃ waiting, (if empty then s else s.clearQueue) = { s with waiting := waiting } := by
    split
    · exact ⟨s.waiting, rfl⟩
    · exact ⟨0, rfl⟩
  obtain ⟨waiting, heq⟩ := hcleared
  rw [heq]
  split
  · exact Effect.dispatch rfl rfl (Nat.le_refl _) (by decide)
  · exact Effect.dispatch rfl rfl (Nat.le_refl _) (by decide)

/-- The actions send ordinary events, and `Initialize` waits where it was asked for. -/
theorem performs_effect {a : ActionKey} {s s' : MachineNode} (h : Performs a s s') :
    Effect s (if a = .init then 1 else 0) s' := by
  cases h with
  | blockchainReady => exact Effect.of_eq rfl rfl (Nat.le_refl _)
  | checkLastBlockSynced isSynced =>
    exact Effect.dispatch rfl rfl (Nat.le_refl _) (by cases isSynced <;> decide)
  | checking =>
    refine Effect.of_eq rfl rfl ?_
    unfold inits
    dsimp only
    rw [List.count_append]
    exact Nat.le_refl _
  | checkLater =>
    show Effect s 0 _
    split
    · exact Effect.of_eq rfl rfl (Nat.le_refl _)
    · exact Effect.of_eq rfl rfl (Nat.le_refl _)
  | downloadBlocks =>
    refine Effect.of_eq rfl rfl ?_
    unfold inits
    dsimp only
    rw [List.count_append, List.count_singleton]
    exact Nat.le_refl _
  | downloadFinished =>
    show Effect s 0 _
    split
    · exact Effect.dispatch rfl rfl (Nat.le_refl _) (by decide)
    · split
      · exact Effect.of_eq rfl rfl (Nat.le_refl _)
      · exact Effect.dispatch rfl rfl (Nat.le_refl _) (by decide)
  | downloadPaused => exact Effect.of_eq rfl rfl (Nat.le_refl _)
  | exitApp => exact Effect.of_eq rfl rfl (Nat.le_refl _)
  | init =>
    refine Effect.of_eq rfl rfl ?_
    unfold inits
    dsimp only
    rw [List.count_append, List.count_singleton, if_pos rfl]
    exact Nat.le_refl _
  | stopped => exact Effect.of_eq rfl rfl (Nat.le_refl _)
  | _ => exact Effect.dispatch rfl rfl (Nat.le_refl _) (by decide)

/-- What waited sends an ordinary event, unless it is `Initialize` that ends. -/
theorem ends_effect {a : Activity} {s s' : MachineNode} (h : Ends a s s') :
    a = .initializing ∧ (s' = dispatch .failure s ∨ s' = dispatch .started s) ∨ Effect s 0 s' := by
  cases h with
  | failure => exact Or.inl ⟨rfl, Or.inl rfl⟩
  | started => exact Or.inl ⟨rfl, Or.inr rfl⟩
  | given => exact Or.inr (Effect.of_eq rfl rfl (Nat.le_refl _))
  | thrown => exact Or.inr (Effect.of_eq rfl rfl (Nat.le_refl _))
  | empty => exact Or.inr (noBlock_effect true s)
  | unchained => exact Or.inr (noBlock_effect false s)
  | chaining =>
    refine Or.inr (Effect.of_eq rfl rfl ?_)
    unfold inits
    dsimp only
    rw [List.count_append, List.count_singleton]
    exact Nat.le_refl _
  | downloaded jobs last =>
    obtain ⟨hvalue, hstopped, hinits⟩ := enqueueBlocks_frame s jobs
    exact Or.inr (Effect.dispatch hvalue hstopped hinits.le (by decide))
  | failed jobs =>
    obtain ⟨hvalue, hstopped, hinits⟩ := enqueueBlocks_frame s jobs
    exact Or.inr (Effect.dispatch hvalue hstopped hinits.le (by decide))
  | _ => exact Or.inr (Effect.dispatch rfl rfl (Nat.le_refl _) (by decide))

/-- **Every piece of code** sends an ordinary event or none, unless `Initialize` ends. -/
theorem step_effect {s s' : MachineNode} (h : MachineStep s s') :
    (∃ before after e, s.active = before ++ Activity.initializing :: after ∧
        (e = .failure ∨ e = .started) ∧ s' = dispatch e { s with active := before ++ after }) ∨
      Effect s 0 s' := by
  cases h with
  | action before after a hpending hperforms =>
    refine Or.inr (?_)
    have heffect := performs_effect hperforms
    refine ⟨heffect.value, fun hne => (heffect.inits hne).trans ?_, heffect.stopped,
      heffect.stops⟩
    unfold inits
    rw [hpending]
    dsimp only
    rw [List.count_append, List.count_append, List.count_cons]
    by_cases ha : a = .init
    · rw [if_pos ha, if_pos (beq_iff_eq.2 ha)]
      omega
    · rw [if_neg ha, if_neg fun h => ha (beq_iff_eq.1 h)]
      omega
  | activity before after a hactive hends =>
    rcases ends_effect hends with ⟨rfl, hend⟩ | hends
    · refine Or.inl ⟨before, after, ?_⟩
      rcases hend with hend | hend
      · exact ⟨.failure, hactive, Or.inl rfl, hend⟩
      · exact ⟨.started, hactive, Or.inr rfl, hend⟩
    · refine Or.inr ⟨hends.value, fun hne => (hends.inits hne).trans ?_, hends.stopped,
        hends.stops⟩
      unfold inits
      rw [hactive]
      dsimp only
      rw [List.count_append, List.count_append, List.count_cons]
      omega
  | handleIncomingBlock jobs =>
    refine Or.inr (?_)
    unfold MachineNode.handleIncomingBlock
    split
    · obtain ⟨hvalue, hstopped, hinits⟩ := enqueueBlocks_frame (dispatch .newBlock s) jobs
      have heffect : Effect s 0 (dispatch .newBlock s) :=
        Effect.dispatch rfl rfl (Nat.le_add_right _ 0) (by decide)
      exact ⟨hvalue ▸ heffect.value, hinits ▸ heffect.inits, hstopped ▸ heffect.stopped,
        hvalue ▸ hstopped ▸ heffect.stops⟩
    · exact Effect.of_eq rfl rfl (Nat.le_refl _)
  | process => exact Or.inr ((Effect.of_eq rfl rfl (Nat.le_refl _)))
  | clearQueue => exact Or.inr ((Effect.of_eq rfl rfl (Nat.le_refl _)))
  | forkBlock => exact Or.inr ((Effect.dispatch rfl rfl (Nat.le_refl _) (by decide)))
  | resetWakeUp => exact Or.inr ((Effect.of_eq rfl rfl (Nat.le_refl _)))
  | finishJob =>
    refine Or.inr (?_)
    unfold MachineNode.finishJob
    split
    · exact Effect.dispatch rfl rfl (Nat.le_refl _) (by decide)
    · split
      · exact Effect.of_eq rfl rfl (Nat.le_refl _)
      · exact Effect.of_eq rfl rfl (Nat.le_refl _)
  | forceWakeup => exact Or.inr ((Effect.dispatch rfl rfl (Nat.le_refl _) (by decide)))
  | checkMissingBlocks => exact Or.inr ((Effect.dispatch rfl rfl (Nat.le_refl _) (by decide)))
  | dispose =>
    refine Or.inr ?_
    unfold MachineNode.dispose
    split
    · exact Effect.of_eq rfl rfl (Nat.le_refl _)
    · refine ⟨?_, fun hne => ?_, fun _ => rfl, fun _ => Or.inr rfl⟩
      · show (blockchainMachine.transition s.value .stop).1 = s.value ∨ _
        cases hnext : blockchainMachine.next s.value .stop with
        | none => exact Or.inl (by rw [Statechart.transition_of_none hnext])
        | some w =>
          refine Or.inr ⟨.stop, by decide, hnext.trans ?_⟩
          show some w = some (blockchainMachine.transition s.value .stop).1
          rw [Statechart.transition_of_next hnext]
      · exact (inits_dispatch .stop (s := { s with stopped := true, wakeUpTimeout := false })
          hne).le

/-! ## 2. A fork -/

/-- **`Initialize` runs once**, in the state it is for or after the node has been disposed of. -/
structure Once (s : MachineNode) : Prop where
  inits : s.inits ≤ 1
  value : 0 < s.inits → s.value = .init ∨ s.value = .stopped

/-- Before `Initialize` ends, the node can only be disposed of. -/
theorem initialising_closed :
    blockchainMachine.Closed (fun v => v = .init ∨ v = .stopped) Ordinary := by
  intro v e w hv he hnext
  rcases hv with rfl | rfl
  · cases e with
    | failure => exact absurd rfl he.1
    | networkStart => exact absurd rfl he.2.1
    | started => exact absurd rfl he.2.2.2.1
    | stop => exact Or.inr (Option.some.inj hnext).symm
    | _ => exact nomatch hnext
  · cases e <;> exact nomatch hnext

/-- So can a node that has forked. -/
theorem fork_closed : blockchainMachine.Closed (fun v => v = .fork ∨ v = .stopped) Ordinary := by
  intro v e w hv he hnext
  rcases hv with rfl | rfl
  · cases e with
    | failure => exact absurd rfl he.1
    | success => exact absurd rfl he.2.2.2.2
    | stop => exact Or.inr (Option.some.inj hnext).symm
    | _ => exact nomatch hnext
  · cases e <;> exact nomatch hnext

/-- A closed set of states is kept by a piece of code that sends an ordinary event or none. -/
theorem Effect.closed {P : BlockchainState → Prop} (h : blockchainMachine.Closed P Ordinary)
    {s s' : MachineNode} {allowed : Nat} (heffect : Effect s allowed s') (hs : P s.value) :
    P s'.value := by
  rcases heffect.value with heq | ⟨e, he, hnext⟩
  · rw [heq]
    exact hs
  · exact h s.value e s'.value hs he hnext

/-- `Initialize` that ends is not to come any more. -/
theorem inits_end {s : MachineNode} {before after : List Activity} {e : MachineEvent}
    (hactive : s.active = before ++ .initializing :: after) (hvalue : s.value ≠ .uninitialised) :
    (dispatch e { s with active := before ++ after }).inits + 1 = s.inits := by
  rw [inits_dispatch e (s := { s with active := before ++ after }) hvalue]
  unfold inits
  rw [hactive]
  dsimp only
  rw [List.count_append, List.count_append, List.count_cons, if_pos (beq_self_eq_true _)]
  omega

theorem once_step {s s' : MachineNode} (hdue : Due s) (h : Once s) (hstep : MachineStep s s') :
    Once s' := by
  rcases step_effect hstep with ⟨before, after, e, hactive, _, rfl⟩ | heffect
  · have hend := inits_end (e := e) hactive hdue.value_ne
    have honce := h.inits
    exact ⟨by omega, fun hpos => by omega⟩
  · have hinits := heffect.inits hdue.value_ne
    exact ⟨hinits.trans h.inits, fun hpos =>
      heffect.closed initialising_closed (h.value (Nat.lt_of_lt_of_le hpos hinits))⟩

/-- `Initialize` runs once in every run. -/
theorem reached_once (lastBlock : String) (networkStart : Bool) {s : MachineNode}
    (h : Becomes (booted lastBlock networkStart) s) : Once s := by
  induction h with
  | refl => exact ⟨Nat.le_refl 1, fun _ => Or.inl rfl⟩
  | tail hreached hstep ih => exact once_step (progress lastBlock networkStart hreached).1 ih hstep

/-- **A fork is left by stopping only**, when the node is disposed of: nothing recovers from it. -/
theorem fork_final (lastBlock : String) (networkStart : Bool) {s s' : MachineNode}
    (h : Becomes (booted lastBlock networkStart) s) (hfork : s.value = .fork)
    (hbecomes : Becomes s s') :
    s'.value = .fork ∨ s'.value = .stopped ∧ s'.stopped = true := by
  induction hbecomes with
  | refl => exact Or.inl hfork
  | tail hprefix hstep ih =>
    rcases step_effect hstep with ⟨before, after, e, hactive, _, rfl⟩ | heffect
    · have hreached := h.trans hprefix
      have hend := inits_end (e := e) hactive (progress lastBlock networkStart hreached).1.value_ne
      have hvalue := (reached_once lastBlock networkStart hreached).value (by omega)
      rcases ih with ih | ⟨ih, hstopped⟩
      · rcases hvalue with hvalue | hvalue <;> exact nomatch hvalue.symm.trans ih
      · refine Or.inr ⟨?_, hstopped⟩
        show (blockchainMachine.transition _ e).1 = .stopped
        rw [ih]
        cases e <;> rfl
    · rcases heffect.closed fork_closed (ih.imp id And.left) with hvalue | hvalue
      · exact Or.inl hvalue
      · refine Or.inr ⟨hvalue, ?_⟩
        rcases heffect.stops hvalue with hbefore | hstopped
        · rcases ih with ih | ⟨_, hstopped⟩
          · exact nomatch hbefore.symm.trans ih
          · exact heffect.stopped hstopped
        · exact hstopped

/-- The node in sync has found that it is on a fork. -/
def forked : MachineNode := dispatch .fork inSync

/-- It is disposed of. -/
theorem fork_final_forked :
    forked.dispose.value = .fork ∨ forked.dispose.value = .stopped ∧ forked.dispose.stopped = true :=
  fork_final "1" false (inSync_reached.tail (.checkMissingBlocks inSync)) rfl
    (.single (.dispose forked))

end CoreEx
