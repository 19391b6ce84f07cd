/-
  File:      CoreEx/State/StateStore.lean
  Subject:   `core-state/source/stores/state.ts`: the last blocks, and the height the
             configuration is told.

  `setLastBlock` keeps the blocks below the new one and appends it. Its assertion is the one thing
  in the store that can throw: a block more than one above the last is refused, before anything
  was written.

  * `StateStore`, `getLastBlock`, `setLastBlock` -- the code;
  * `StateStore.Ordered` -- heights ascend, and every block is filed under its own;
  * **`setLastBlock_done`**, `setLastBlock_thrown` -- when it returns and when it throws.
-/
import CoreEx.Lib.OrderedMap
import CoreEx.State.WalletRepository

namespace CoreEx

/-! ## 1. The code -/

/-- What `setLastBlock` reads and writes. -/
structure StateStore where
  lastBlocks : OrderedMap Nat Block
  /-- `storage.maxLastBlocks`. -/
  maxLastBlocks : Nat
  /-- `configuration.getHeight()`. -/
  height : Nat
  noBlockCounter : Nat
  p2pUpdateCounter : Nat

/-- Code that works on the store and may throw. -/
abbrev StoreProg : Type → Type := Prog StateStore Exception

namespace StateStore

/-- `lastBlocks.last()`. -/
def lastBlock? (s : StateStore) : Option Block := s.lastBlocks.last?.map Prod.snd

/-- `getLastBlock`. -/
def getLastBlock : StoreProg Block := do
  let lastBlock ← Prog.gets lastBlock?
  assertDefined lastBlock

/-- `getLastBlocksByHeight(start, end)`, for an `end` that is not 0. -/
def getLastBlocksByHeight (s : StateStore) (start stop : Int) : List Block :=
  s.lastBlocks.values.filter fun b => start ≤ b.data.height ∧ (b.data.height : Int) ≤ stop

/-- `lastBlocks.filter((b) => b.data.height < height)`. -/
def keepBelow (height : Nat) (s : StateStore) : StateStore :=
  { s with lastBlocks := s.lastBlocks.filter fun _ b => b.data.height < height }

/-- `lastBlocks.set(block.data.height, block); configuration.setHeight(block.data.height)`. -/
def insert (block : Block) (s : StateStore) : StateStore :=
  { s with lastBlocks := s.lastBlocks.set block.data.height block, height := block.data.height }

/-- `lastBlocks.delete(lastBlocks.first().data.height)`, when there are too many. -/
def dropOldest (s : StateStore) : StateStore :=
  match s.lastBlocks.first? with
  | some (_, first) => { s with lastBlocks := s.lastBlocks.delete first.data.height }
  | none => s

def resetCounters (s : StateStore) : StateStore :=
  { s with noBlockCounter := 0, p2pUpdateCounter := 0 }

/-- The rollback of `setLastBlock`; `height - 1` may be negative there, so one is added to the
    other side. -/
def rollback (block : Block) (last : Option Block) : StoreProg Unit :=
  match last with
  | some last => Prog.when (last.data.height + 1 ≠ block.data.height) do
      Prog.throwIf (¬ block.data.height ≤ last.data.height + 1) .assertionError
      Prog.modify (keepBelow block.data.height)
  | none => pure ()

/-- `setLastBlock`. -/
def setLastBlock (block : Block) : StoreProg Unit := do
  let last ← Prog.gets lastBlock?
  rollback block last
  Prog.modify (insert block)
  let s ← Prog.gets id
  Prog.when (s.lastBlocks.size > s.maxLastBlocks) (Prog.modify dropOldest)
  Prog.modify resetCounters

/-! ## 2. When it returns -/

/-- The store as `setLastBlock` leaves it; the schema of `storage.maxLastBlocks` asks for at
    least one. -/
structure Ordered (s : StateStore) : Prop where
  ascending : s.lastBlocks.keys.Pairwise (· < ·)
  own : ∀ e ∈ s.lastBlocks.entries, e.2.data.height = e.1
  capacity : 1 ≤ s.maxLastBlocks

/-- All heights are below that of the last block, or equal. -/
theorem Ordered.le_last {s : StateStore} (h : s.Ordered) {last : Block}
    (hlast : s.lastBlock? = some last) : ∀ e ∈ s.lastBlocks.entries, e.1 ≤ last.data.height := by
  intro e he
  obtain ⟨l, hl, rfl⟩ := Option.map_eq_some_iff.1 hlast
  have hmem : l ∈ s.lastBlocks.entries := List.mem_of_getLast? hl
  rw [h.own l hmem]
  obtain ⟨front, hfront⟩ := List.getLast?_eq_some_iff.1 hl
  rw [hfront] at he
  rcases List.mem_append.1 he with hf | hs
  · have hasc := h.ascending
    unfold OrderedMap.keys at hasc
    rw [hfront, List.map_append, List.pairwise_append] at hasc
    exact Nat.le_of_lt (hasc.2.2 e.1 (List.mem_map_of_mem hf) l.1 (by simp))
  · exact Nat.le_of_eq (congrArg Prod.fst (List.mem_singleton.1 hs))

/-- What the rollback leaves: an ordered store with lower blocks only. -/
theorem rollback_done {s : StateStore} (h : s.Ordered) {block : Block}
    (hok : ∀ last, s.lastBlock? = some last → block.data.height ≤ last.data.height + 1) :
    ∃ s', (rollback block s.lastBlock?).run s = .done () s' ∧ s'.Ordered ∧
      ∀ e ∈ s'.lastBlocks.entries, e.1 < block.data.height := by
  cases hlast : s.lastBlock? with
  | none =>
    refine ⟨s, rfl, h, fun e he => ?_⟩
    have hnil : s.lastBlocks.entries = [] := by
      have hnone : s.lastBlocks.entries.getLast? = none := by
        simpa [lastBlock?, OrderedMap.last?] using hlast
      exact List.getLast?_eq_none_iff.1 hnone
    rw [hnil] at he
    cases he
  | some last =>
    have hle := hok last hlast
    by_cases hnext : last.data.height + 1 = block.data.height
    · refine ⟨s, ?_, h, fun e he => ?_⟩
      · simp [rollback, Prog.when, hnext]
      · have := h.le_last hlast e he
        omega
    · refine ⟨keepBelow block.data.height s, ?_, ⟨?_, ?_, h.capacity⟩, fun e he => ?_⟩
      · have hnot : ¬ (¬ block.data.height ≤ last.data.height + 1) := fun hn => hn hle
        simp only [rollback, Prog.when, Prog.throwIf, if_pos hnext, if_neg hnot]
        rfl
      · exact h.ascending.sublist (List.filter_sublist.map _)
      · exact fun e he => h.own e (List.mem_of_mem_filter he)
      · have hmem := List.mem_filter.1 he
        have hlt : e.2.data.height < block.data.height := by simpa using hmem.2
        rwa [h.own e hmem.1] at hlt

theorem insert_entries {s : StateStore} {block : Block}
    (hlt : ∀ e ∈ s.lastBlocks.entries, e.1 < block.data.height) :
    (insert block s).lastBlocks.entries =
      s.lastBlocks.entries ++ [(block.data.height, block)] :=
  OrderedMap.setEntries_of_notMem block fun e he => Nat.ne_of_lt (hlt e he)

theorem insert_ordered {s : StateStore} (h : s.Ordered) {block : Block}
    (hlt : ∀ e ∈ s.lastBlocks.entries, e.1 < block.data.height) : (insert block s).Ordered := by
  refine ⟨?_, fun e he => ?_, h.capacity⟩
  · unfold OrderedMap.keys
    rw [insert_entries hlt, List.map_append, List.pairwise_append]
    refine ⟨h.ascending, List.pairwise_singleton _ _, fun a ha b hb => ?_⟩
    obtain ⟨e, he, rfl⟩ := List.mem_map.1 ha
    have hb' : b = block.data.height := by simpa using hb
    rw [hb']
    exact hlt e he
  · rw [insert_entries hlt] at he
    rcases List.mem_append.1 he with hold | hnew
    · exact h.own e hold
    · rw [List.mem_singleton.1 hnew]

/-- Dropping the oldest block keeps the last one, when there are two. -/
theorem dropOldest_last {s : StateStore} (h : s.Ordered) {block : Block}
    (hlast : s.lastBlock? = some block) (hsize : 2 ≤ s.lastBlocks.size) :
    s.dropOldest.Ordered ∧ s.dropOldest.lastBlock? = some block ∧
      s.dropOldest.height = s.height := by
  unfold dropOldest
  cases hfirst : s.lastBlocks.first? with
  | none => exact ⟨h, hlast, rfl⟩
  | some f =>
    obtain ⟨k, first⟩ := f
    refine ⟨⟨h.ascending.sublist (List.filter_sublist.map _),
      fun e he => h.own e (List.mem_of_mem_filter he), h.capacity⟩, ?_, rfl⟩
    obtain ⟨l, hl, rfl⟩ := Option.map_eq_some_iff.1 hlast
    obtain ⟨front, hfront⟩ := List.getLast?_eq_some_iff.1 hl
    have hk : first.data.height = k := h.own (k, first) (List.mem_of_mem_head? hfirst)
    have hne : l.1 ≠ first.data.height := by
      rw [hk]
      intro heq
      cases front with
      | nil =>
        rw [OrderedMap.size, hfront] at hsize
        simp at hsize
      | cons e es =>
        have hhead : e = (k, first) := by
          unfold OrderedMap.first? at hfirst
          rw [hfront] at hfirst
          simpa using hfirst
        have hasc := h.ascending
        unfold OrderedMap.keys at hasc
        rw [hfront, List.map_append, List.pairwise_append] at hasc
        have hlt := hasc.2.2 e.1 (by simp) l.1 (by simp)
        rw [hhead, heq] at hlt
        exact Nat.lt_irrefl _ hlt
    show ((s.lastBlocks.entries.filter fun e => decide (e.1 ≠ first.data.height)).getLast?).map
      Prod.snd = some l.2
    have hkeep : [l].filter (fun e => decide (e.1 ≠ first.data.height)) = [l] := by
      simp [hne]
    rw [hfront, List.filter_append, hkeep, List.getLast?_append]
    rfl

/-- **A block at most one above the last becomes the last one.** -/
theorem setLastBlock_done {s : StateStore} (h : s.Ordered) (block : Block)
    (hok : ∀ last, s.lastBlock? = some last → block.data.height ≤ last.data.height + 1) :
    ∃ s', (setLastBlock block).run s = .done () s' ∧ s'.Ordered ∧
      s'.lastBlock? = some block ∧ s'.height = block.data.height := by
  obtain ⟨s₁, hrun, h₁, hlt⟩ := rollback_done h hok
  have h₂ := insert_ordered h₁ hlt
  have hlast₂ : (insert block s₁).lastBlock? = some block := by
    unfold lastBlock? OrderedMap.last?
    rw [insert_entries hlt, List.getLast?_append]
    rfl
  have hstart : (setLastBlock block).run s = (do
      let s ← Prog.gets id
      Prog.when (s.lastBlocks.size > s.maxLastBlocks) (Prog.modify dropOldest)
      Prog.modify resetCounters : StoreProg Unit).run (insert block s₁) := by
    unfold setLastBlock
    rw [Prog.run_bind_of_done (Prog.run_gets _ _), Prog.run_bind_of_done hrun,
      Prog.run_bind_of_done (Prog.run_modify _ _)]
  rw [hstart]
  by_cases hsize : (insert block s₁).lastBlocks.size > (insert block s₁).maxLastBlocks
  · have htwo : 2 ≤ (insert block s₁).lastBlocks.size := by
      have := h₂.capacity
      omega
    obtain ⟨hord, hlast, hheight⟩ := dropOldest_last h₂ hlast₂ htwo
    refine ⟨resetCounters (insert block s₁).dropOldest, ?_, ⟨hord.ascending, hord.own,
      hord.capacity⟩, hlast, hheight⟩
    rw [Prog.run_bind_of_done (Prog.run_gets _ _)]
    simp only [id_eq, Prog.when, if_pos hsize]
    rfl
  · refine ⟨resetCounters (insert block s₁), ?_, ⟨h₂.ascending, h₂.own, h₂.capacity⟩, hlast₂, rfl⟩
    rw [Prog.run_bind_of_done (Prog.run_gets _ _)]
    simp only [id_eq, Prog.when, if_neg hsize]
    rfl

/-- A block further up is refused, and the store stays as it is. -/
theorem setLastBlock_thrown {s : StateStore} {block last : Block}
    (hlast : s.lastBlock? = some last) (h : last.data.height + 1 < block.data.height) :
    (setLastBlock block).run s = .thrown .assertionError s := by
  have hne : last.data.height + 1 ≠ block.data.height := by omega
  have hnot : ¬ block.data.height ≤ last.data.height + 1 := by omega
  have hroll : (rollback block s.lastBlock?).run s = .thrown .assertionError s := by
    rw [hlast]
    simp only [rollback, Prog.when, Prog.throwIf, if_pos hne, if_pos hnot]
    rfl
  unfold setLastBlock
  rw [Prog.run_bind_of_done (Prog.run_gets _ _), Prog.run_bind_of_thrown hroll]

end StateStore

end CoreEx
