/-
  File:      CoreEx/Properties/KeptBlocks.lean
  Subject:   The window of last blocks over any run of `setLastBlock`.

  Fork detection, the blocks of a round and the search for forged transactions all read the last
  blocks and take them for an unbroken piece of the chain. It is one: whatever is set, a next block,
  an earlier one again or another of the same height, what is kept has no gap and ends with it.

  * `kept`, `keep` -- the blocks kept, and what `setLastBlock` does to the list;
  * `Window` -- heights without gaps, not more than there is room for;
  * `Follows`, `Linked` -- which blocks may be set, and what holds of those kept then;
  * **`keptBlocks_of_run`** -- both over whole runs, and what a refused block leaves.
-/
import CoreEx.Blocks.BlockProcessor
import CoreEx.Properties.VoteBalances
import Mathlib.Data.List.Chain

namespace CoreEx

namespace StateStore

/-! ## 1. The list of kept blocks -/

/-- The blocks kept, the oldest first. -/
def kept (s : StateStore) : List Block := s.lastBlocks.values

/-- What becomes of them when a block is set. -/
def keep (block : Block) (maxLastBlocks : Nat) (blocks : List Block) : List Block :=
  let next := blocks.filter (·.data.height < block.data.height) ++ [block]
  if next.length > maxLastBlocks then next.tail else next

theorem getLast?_kept (s : StateStore) : s.kept.getLast? = s.lastBlock? := by
  simp [kept, OrderedMap.values, lastBlock?, OrderedMap.last?, List.getLast?_map]

/-- The rollback leaves the blocks below the new one. -/
theorem rollback_entries {s s' : StateStore} (h : s.Ordered) {block : Block}
    (hrun : (rollback block s.lastBlock?).run s = .done () s') :
    s'.lastBlocks.entries =
        s.lastBlocks.entries.filter (fun e => e.2.data.height < block.data.height) ∧
      s'.maxLastBlocks = s.maxLastBlocks := by
  have hsame : (∀ e ∈ s.lastBlocks.entries, e.1 < block.data.height) →
      s.lastBlocks.entries =
        s.lastBlocks.entries.filter (fun e => e.2.data.height < block.data.height) := by
    intro hlt
    refine (List.filter_eq_self.2 fun e he => ?_).symm
    rw [h.own e he]
    exact decide_eq_true (hlt e he)
  cases hlast : s.lastBlock? with
  | none =>
    rw [hlast] at hrun
    cases hrun
    have hnil : s.lastBlocks.entries = [] := by
      have hnone : s.lastBlocks.entries.getLast? = none := by
        simpa [lastBlock?, OrderedMap.last?] using hlast
      exact List.getLast?_eq_none_iff.1 hnone
    exact ⟨by rw [hnil]; rfl, rfl⟩
  | some last =>
    rw [hlast] at hrun
    by_cases hnext : last.data.height + 1 = block.data.height
    · have hskip : (rollback block (some last)).run s = .done () s := by
        simp [rollback, Prog.when, hnext]
      rw [hskip] at hrun
      cases hrun
      refine ⟨hsame fun e he => ?_, rfl⟩
      have := h.le_last hlast e he
      omega
    · by_cases hle : block.data.height ≤ last.data.height + 1
      · have hkeep : (rollback block (some last)).run s =
            .done () (keepBelow block.data.height s) := by
          have hnot : ¬ (¬ block.data.height ≤ last.data.height + 1) := fun hn => hn hle
          simp only [rollback, Prog.when, Prog.throwIf, if_pos hnext, if_neg hnot]
          rfl
        rw [hkeep] at hrun
        cases hrun
        exact ⟨rfl, rfl⟩
      · have hthrow : (rollback block (some last)).run s = .thrown .assertionError s := by
          simp only [rollback, Prog.when, Prog.throwIf, if_pos hnext, if_pos hle]
          rfl
        rw [hthrow] at hrun
        cases hrun

/-- Dropping the oldest block takes the head off. -/
theorem kept_dropOldest {s : StateStore} (h : s.Ordered) : s.dropOldest.kept = s.kept.tail := by
  unfold dropOldest kept OrderedMap.values
  cases hentries : s.lastBlocks.entries with
  | nil => simp [OrderedMap.first?, hentries]
  | cons e es =>
    have hfirst : s.lastBlocks.first? = some e := by simp [OrderedMap.first?, hentries]
    have hown : e.2.data.height = e.1 := h.own e (by simp [hentries])
    have hasc := h.ascending
    unfold OrderedMap.keys at hasc
    rw [hentries, List.map_cons, List.pairwise_cons] at hasc
    have hrest : es.filter (fun x => decide (x.1 ≠ e.1)) = es := by
      refine List.filter_eq_self.2 fun x hx => decide_eq_true fun heq => ?_
      have hlt := hasc.1 x.1 (List.mem_map_of_mem hx)
      omega
    rw [hfirst]
    show ((s.lastBlocks.entries.filter fun x => decide (x.1 ≠ e.2.data.height)).map Prod.snd) = _
    rw [hentries, hown, List.filter_cons_of_neg (by simp), hrest]
    rfl

/-- **What `setLastBlock` does to the list**, when it returns. -/
theorem setLastBlock_kept {s s' : StateStore} (h : s.Ordered) {block : Block}
    (hrun : (setLastBlock block).run s = .done () s') :
    s'.kept = keep block s.maxLastBlocks s.kept ∧ s'.maxLastBlocks = s.maxLastBlocks ∧
      s'.Ordered ∧ ∀ last, s.lastBlock? = some last → block.data.height ≤ last.data.height + 1 := by
  have hok : ∀ last, s.lastBlock? = some last → block.data.height ≤ last.data.height + 1 := by
    intro last hlast
    by_contra hnot
    rw [setLastBlock_thrown hlast (by omega)] at hrun
    cases hrun
  obtain ⟨s₁, hroll, h₁, hlt⟩ := rollback_done h hok
  obtain ⟨hentries, hmax⟩ := rollback_entries h hroll
  have h₂ := insert_ordered h₁ hlt
  have hkept₂ : (insert block s₁).kept =
      s.kept.filter (·.data.height < block.data.height) ++ [block] := by
    unfold kept OrderedMap.values
    rw [insert_entries hlt, hentries, List.map_append, List.filter_map]
    rfl
  have hsize : (insert block s₁).lastBlocks.size = (insert block s₁).kept.length := by
    simp [kept, OrderedMap.values, OrderedMap.size]
  have hmax₂ : (insert block s₁).maxLastBlocks = s.maxLastBlocks := hmax
  have hstart : (setLastBlock block).run s = (do
      let s ← Prog.gets id
      Prog.when (s.lastBlocks.size > s.maxLastBlocks) (Prog.modify dropOldest)
      Prog.modify resetCounters : StoreProg Unit).run (insert block s₁) := by
    unfold setLastBlock
    rw [Prog.run_bind_of_done (Prog.run_gets _ _), Prog.run_bind_of_done hroll,
      Prog.run_bind_of_done (Prog.run_modify _ _)]
  rw [hstart, Prog.run_bind_of_done (Prog.run_gets _ _)] at hrun
  simp only [id_eq, Prog.when] at hrun
  by_cases hfull : (insert block s₁).lastBlocks.size > (insert block s₁).maxLastBlocks
  · rw [if_pos hfull] at hrun
    have hs' : s' = resetCounters (insert block s₁).dropOldest := by
      cases hrun
      rfl
    have hmax₃ : (insert block s₁).dropOldest.maxLastBlocks = s.maxLastBlocks := by
      unfold dropOldest
      split
      · exact hmax₂
      · exact hmax₂
    have hord : (insert block s₁).dropOldest.Ordered := by
      unfold dropOldest
      split
      · exact ⟨h₂.ascending.sublist (List.filter_sublist.map _),
          fun e he => h₂.own e (List.mem_of_mem_filter he), h₂.capacity⟩
      · exact h₂
    subst hs'
    refine ⟨?_, hmax₃, ⟨hord.ascending, hord.own, hord.capacity⟩, hok⟩
    show (insert block s₁).dropOldest.kept = _
    rw [kept_dropOldest h₂, hkept₂]
    rw [hsize, hkept₂, hmax₂] at hfull
    exact (if_pos hfull).symm
  · rw [if_neg hfull] at hrun
    have hs' : s' = resetCounters (insert block s₁) := by
      cases hrun
      rfl
    subst hs'
    refine ⟨?_, hmax₂, ⟨h₂.ascending, h₂.own, h₂.capacity⟩, hok⟩
    show (insert block s₁).kept = _
    rw [hsize, hkept₂, hmax₂] at hfull
    rw [hkept₂]
    exact (if_neg hfull).symm

/-! ## 2. Chains of blocks -/

/-- A block is one above another. -/
def PlusOne (a b : Block) : Prop := b.data.height = a.data.height + 1

/-- It names that one as its predecessor, too. -/
def FollowsPrevious (a b : Block) : Prop := PlusOne a b ∧ b.data.previousBlock = a.data.id

/-- Where a block can be put among others that are chained by `R`: behind them, in the place of one
    of the same height, or below all of them. -/
def Fits (R : Block → Block → Prop) (blocks : List Block) (block : Block) : Prop :=
  (∃ front last, blocks = front ++ [last] ∧ R last block) ∨
    (∃ front old rest, blocks = front ++ old :: rest ∧ old.data.height = block.data.height ∧
      ∀ a, R a old → R a block) ∨
    ∀ a ∈ blocks, block.data.height < a.data.height

variable {R : Block → Block → Prop} {blocks : List Block} {block : Block}

theorem ascending_of_chain (hR : ∀ a b, R a b → PlusOne a b) (h : blocks.IsChain R) :
    blocks.Pairwise fun a b => a.data.height < b.data.height := by
  have hlt : blocks.IsChain fun a b => a.data.height < b.data.height :=
    h.imp fun a b hab => by
      have hone : b.data.height = a.data.height + 1 := hR a b hab
      omega
  have htrans : Trans (fun a b : Block => a.data.height < b.data.height)
      (fun a b : Block => a.data.height < b.data.height)
      (fun a b : Block => a.data.height < b.data.height) :=
    ⟨fun h₁ h₂ => Nat.lt_trans h₁ h₂⟩
  exact List.isChain_iff_pairwise.1 hlt

/-- The blocks below one of a chain are those before it. -/
theorem filter_below {front rest : List Block} {old : Block}
    (h : (front ++ old :: rest).Pairwise fun a b => a.data.height < b.data.height) :
    (front ++ old :: rest).filter (·.data.height < old.data.height) = front := by
  obtain ⟨-, hold, hcross⟩ := List.pairwise_append.1 h
  obtain ⟨hrest, -⟩ := List.pairwise_cons.1 hold
  have hfront : front.filter (·.data.height < old.data.height) = front :=
    List.filter_eq_self.2 fun a ha => decide_eq_true (hcross a ha old List.mem_cons_self)
  have hnone : (old :: rest).filter (·.data.height < old.data.height) = [] := by
    refine List.filter_eq_nil_iff.2 fun a ha => ?_
    rcases List.mem_cons.1 ha with rfl | hmem
    · simp
    · have := hrest a hmem
      simp only [decide_eq_true_eq]
      omega
  rw [List.filter_append, hfront, hnone, List.append_nil]

/-- **A block that fits keeps the chain.** -/
theorem keep_chain (hR : ∀ a b, R a b → PlusOne a b) (h : blocks.IsChain R)
    (hfits : Fits R blocks block) (maxLastBlocks : Nat) :
    (keep block maxLastBlocks blocks).IsChain R := by
  have hasc := ascending_of_chain hR h
  have hnext : (blocks.filter (·.data.height < block.data.height) ++ [block]).IsChain R := by
    rcases hfits with ⟨front, last, rfl, hlast⟩ | ⟨front, old, rest, rfl, hsame, hold⟩ | hbelow
    · have hone : block.data.height = last.data.height + 1 := hR last block hlast
      have hall : (front ++ [last]).filter (·.data.height < block.data.height) =
          front ++ [last] := by
        refine List.filter_eq_self.2 fun a ha => decide_eq_true ?_
        rcases List.mem_append.1 ha with hfront | hmem
        · have := (List.pairwise_append.1 hasc).2.2 a hfront last List.mem_cons_self
          omega
        · rw [List.mem_singleton.1 hmem]
          omega
      rw [hall]
      refine List.isChain_append.2 ⟨h, List.isChain_singleton _, fun a ha b hb => ?_⟩
      have ha' : last = a := by simpa using ha
      have hb' : block = b := by simpa using hb
      rw [← ha', ← hb']
      exact hlast
    · have hfront := filter_below hasc
      rw [hsame] at hfront
      rw [hfront]
      obtain ⟨hchain, -, hjoin⟩ := List.isChain_append.1 h
      refine List.isChain_append.2 ⟨hchain, List.isChain_singleton _, fun a ha b hb => ?_⟩
      have hb' : block = b := by simpa using hb
      rw [← hb']
      exact hold a (hjoin a ha old rfl)
    · have hnone : blocks.filter (·.data.height < block.data.height) = [] := by
        refine List.filter_eq_nil_iff.2 fun a ha => ?_
        have := hbelow a ha
        simp only [decide_eq_true_eq]
        omega
      rw [hnone]
      exact List.isChain_singleton _
  unfold keep
  dsimp only
  split
  · exact hnext.tail
  · exact hnext

theorem keep_length {maxLastBlocks : Nat}
    (h : blocks.length ≤ maxLastBlocks) (block : Block) :
    (keep block maxLastBlocks blocks).length ≤ maxLastBlocks := by
  have hfilter : (blocks.filter (·.data.height < block.data.height)).length ≤ blocks.length :=
    List.length_filter_le _ _
  unfold keep
  dsimp only
  split
  · rw [List.length_tail, List.length_append, List.length_singleton]
    omega
  · omega

theorem getLast?_keep {maxLastBlocks : Nat} (hroom : 1 ≤ maxLastBlocks) :
    (keep block maxLastBlocks blocks).getLast? = some block := by
  unfold keep
  dsimp only
  split
  · rename_i hfull
    cases hfront : blocks.filter (·.data.height < block.data.height) with
    | nil =>
      rw [hfront] at hfull
      simp at hfull
      omega
    | cons a as => simp
  · simp

/-- A block at most one above the last fits, as far as heights go. -/
theorem fits_of_le (h : blocks.IsChain PlusOne)
    (hle : ∀ last, blocks.getLast? = some last → block.data.height ≤ last.data.height + 1) :
    Fits PlusOne blocks block := by
  induction blocks with
  | nil => exact Or.inr (Or.inr fun a ha => (nomatch ha))
  | cons a blocks ih =>
    have hasc := ascending_of_chain (fun _ _ h => h) h
    obtain ⟨hfirst, -⟩ := List.pairwise_cons.1 hasc
    rcases Nat.lt_trichotomy block.data.height a.data.height with hlt | heq | hgt
    · refine Or.inr (Or.inr fun b hb => ?_)
      rcases List.mem_cons.1 hb with rfl | hmem
      · exact hlt
      · exact Nat.lt_trans hlt (hfirst b hmem)
    · refine Or.inr (Or.inl ⟨[], a, blocks, rfl, heq.symm, fun x hx => ?_⟩)
      show block.data.height = x.data.height + 1
      rw [heq]
      exact hx
    · cases blocks with
      | nil =>
        refine Or.inl ⟨[], a, rfl, ?_⟩
        have := hle a rfl
        show block.data.height = a.data.height + 1
        omega
      | cons b blocks =>
        obtain ⟨hab, hrest⟩ := List.isChain_cons_cons.1 h
        rcases ih hrest (fun last hlast => hle last (by rw [List.getLast?_cons_cons, hlast])) with
          ⟨front, last, heq, hlast⟩ | ⟨front, old, rest, heq, hsame, hold⟩ | hbelow
        · exact Or.inl ⟨a :: front, last, by rw [heq]; rfl, hlast⟩
        · exact Or.inr (Or.inl ⟨a :: front, old, rest, by rw [heq]; rfl, hsame, hold⟩)
        · have hb := hbelow b List.mem_cons_self
          have hone : b.data.height = a.data.height + 1 := hab
          omega

/-! ## 3. One call -/

/-- The blocks kept are a piece of a chain, as long as there is room for. -/
structure Window (s : StateStore) : Prop where
  ordered : s.Ordered
  plusOne : s.kept.IsChain PlusOne
  atMost : s.kept.length ≤ s.maxLastBlocks

/-- A store without blocks and with room for one. -/
theorem window_empty {s : StateStore} (h : s.lastBlocks = .empty) (hmax : 1 ≤ s.maxLastBlocks) :
    Window s := by
  have hkept : s.kept = [] := by
    unfold kept
    rw [h]
    rfl
  refine ⟨⟨?_, fun e he => ?_, hmax⟩, ?_, ?_⟩
  · rw [h]
    exact List.Pairwise.nil
  · rw [h] at he
    cases he
  · rw [hkept]
    exact List.isChain_nil
  · rw [hkept]
    exact Nat.zero_le _

/-- **One call keeps the window, and ends it with its block.** -/
theorem Window.setLastBlock {s s' : StateStore} (h : Window s)
    (hrun : (setLastBlock block).run s = .done () s') :
    Window s' ∧ s'.maxLastBlocks = s.maxLastBlocks ∧ s'.lastBlock? = some block := by
  obtain ⟨hkept, hmax, hord, hok⟩ := setLastBlock_kept h.ordered hrun
  have hfits : Fits PlusOne s.kept block :=
    fits_of_le h.plusOne fun last hlast => hok last (by rw [← getLast?_kept, hlast])
  refine ⟨⟨hord, ?_, ?_⟩, hmax, ?_⟩
  · rw [hkept]
    exact keep_chain (fun _ _ hone => hone) h.plusOne hfits _
  · rw [hkept, hmax]
    exact keep_length h.atMost block
  · rw [← getLast?_kept, hkept]
    exact getLast?_keep h.ordered.capacity

/-- A call that throws leaves the store as it was, and its block was too far up. -/
theorem Window.setLastBlock_thrown {s s' : StateStore} (h : Window s) {e : Exception}
    (hrun : (StateStore.setLastBlock block).run s = .thrown e s') :
    s' = s ∧ ∃ last, s.lastBlock? = some last ∧ last.data.height + 1 < block.data.height := by
  by_cases hok : ∀ last, s.lastBlock? = some last → block.data.height ≤ last.data.height + 1
  · obtain ⟨s'', hdone, -⟩ := setLastBlock_done h.ordered block hok
    rw [hdone] at hrun
    cases hrun
  · obtain ⟨last, hlast⟩ := not_forall.1 hok
    obtain ⟨hlast, hfar⟩ := Classical.not_imp.1 hlast
    have hfar : last.data.height + 1 < block.data.height := by omega
    rw [StateStore.setLastBlock_thrown hlast hfar] at hrun
    cases hrun
    exact ⟨rfl, last, hlast, hfar⟩

/-! ## 4. Links -/

/-- Which blocks are set: above the last one those that are chained to it, otherwise blocks that
    are kept, and the predecessor of the oldest. -/
def Follows (s : StateStore) (block : Block) : Prop :=
  ∀ last, s.lastBlock? = some last →
    (last.data.height < block.data.height ∧
      ∃ env, BlockProcessor.isBlockChained env last.data block.data = .ok true) ∨
    block ∈ s.kept ∨
    ∃ oldest rest, s.kept = oldest :: rest ∧ FollowsPrevious block oldest

/-- The calls of a run set such blocks only. -/
def FollowsAll : StateStore → List Block → Prop
  | _, [] => True
  | s, block :: blocks =>
    Follows s block ∧ ∀ s', (setLastBlock block).run s = .done () s' → FollowsAll s' blocks

theorem followsPrevious_of_chained {env : TimeServices} {a b : Block}
    (h : BlockProcessor.isBlockChained env a.data b.data = .ok true) : FollowsPrevious a b := by
  unfold BlockProcessor.isBlockChained at h
  split at h
  · simp only [Except.ok.injEq, Bool.and_eq_true, decide_eq_true_eq] at h
    exact ⟨h.1.2, h.1.1⟩
  · cases h
  · cases h

theorem fits_of_follows {s : StateStore} (hlinked : s.kept.IsChain FollowsPrevious)
    (h : Follows s block) : Fits FollowsPrevious s.kept block := by
  cases hlast : s.kept.getLast? with
  | none =>
    refine Or.inr (Or.inr fun a ha => ?_)
    rw [List.getLast?_eq_none_iff.1 hlast] at ha
    cases ha
  | some last =>
    rcases h last (by rw [← getLast?_kept, hlast]) with
      ⟨-, env, hchained⟩ | hmem | ⟨oldest, rest, hkept, holdest⟩
    · obtain ⟨front, hfront⟩ := List.getLast?_eq_some_iff.1 hlast
      exact Or.inl ⟨front, last, hfront, followsPrevious_of_chained hchained⟩
    · obtain ⟨front, rest, hsplit⟩ := List.append_of_mem hmem
      exact Or.inr (Or.inl ⟨front, block, rest, hsplit, rfl, fun _ ha => ha⟩)
    · refine Or.inr (Or.inr fun a ha => ?_)
      have hasc := ascending_of_chain (fun _ _ hab => hab.1) hlinked
      rw [hkept] at ha hasc
      have hone : oldest.data.height = block.data.height + 1 := holdest.1
      rcases List.mem_cons.1 ha with rfl | hrest
      · omega
      · have := (List.pairwise_cons.1 hasc).1 a hrest
        omega

/-! ## 5. Runs -/

theorem Window.forEach {s s' : StateStore} (h : Window s) {calls : List Block}
    (hrun : (Prog.forEach StateStore.setLastBlock calls).run s = .done () s') :
    Window s' ∧ s'.maxLastBlocks = s.maxLastBlocks ∧
      (∀ last, calls.getLast? = some last → s'.lastBlock? = some last) ∧
      (FollowsAll s calls → s.kept.IsChain FollowsPrevious → s'.kept.IsChain FollowsPrevious) := by
  induction calls generalizing s with
  | nil =>
    cases hrun
    exact ⟨h, rfl, fun last hlast => (nomatch hlast), fun _ hlinked => hlinked⟩
  | cons block calls ih =>
    rw [Prog.forEach_cons, Prog.run_bind_done] at hrun
    obtain ⟨_, s₁, hblock, hcalls⟩ := hrun
    obtain ⟨h₁, hmax, hlast₁⟩ := h.setLastBlock hblock
    obtain ⟨h', hmax', hlast', hlinks⟩ := ih h₁ hcalls
    refine ⟨h', hmax'.trans hmax, fun last hlast => ?_, fun hfollows hlinked => ?_⟩
    · cases calls with
      | nil =>
        cases hcalls
        cases hlast
        exact hlast₁
      | cons b bs => exact hlast' last (by rw [List.getLast?_cons_cons] at hlast; exact hlast)
    · refine hlinks (hfollows.2 s₁ hblock) ?_
      rw [(setLastBlock_kept h.ordered hblock).1]
      exact keep_chain (fun _ _ hab => hab.1) hlinked (fits_of_follows hlinked hfollows.1) _

end StateStore

open StateStore

/-- **The last blocks are an unbroken piece of the chain.** After any calls of `setLastBlock` that
    return, from a store without blocks: the heights kept are consecutive, there are not more than
    `maxLastBlocks`, and the newest block is the one set last. A further call that throws leaves
    the store as it is. And where every block set followed, each block kept names the one before
    it. -/
theorem keptBlocks_of_run {start s : StateStore} (hstart : start.lastBlocks = .empty)
    (hroom : 1 ≤ start.maxLastBlocks) {calls : List Block}
    (hrun : (Prog.forEach setLastBlock calls).run start = .done () s) :
    s.kept.IsChain (fun a b => b.data.height = a.data.height + 1) ∧
      s.kept.length ≤ start.maxLastBlocks ∧
      (∀ last, calls.getLast? = some last → s.kept.getLast? = some last) ∧
      (∀ block e s', (setLastBlock block).run s = .thrown e s' →
        s' = s ∧ ∃ last, s.lastBlock? = some last ∧ last.data.height + 1 < block.data.height) ∧
      (FollowsAll start calls →
        s.kept.IsChain fun a b => b.data.previousBlock = a.data.id) := by
  obtain ⟨h, hmax, hlast, hlinks⟩ := (window_empty hstart hroom).forEach hrun
  refine ⟨h.plusOne, hmax ▸ h.atMost, fun last hcalls => ?_, fun block e s' hthrown => ?_,
    fun hfollows => ?_⟩
  · rw [getLast?_kept]
    exact hlast last hcalls
  · exact h.setLastBlock_thrown hthrown
  · have hempty : start.kept = [] := by
      unfold kept
      rw [hstart]
      rfl
    have hchain := hlinks hfollows (by rw [hempty]; exact List.isChain_nil)
    exact hchain.imp fun _ _ hab => hab.2

namespace Sample

/-- A store with room for two blocks. -/
def emptyStore : StateStore := ⟨.empty, 2, 1, 0, 0⟩

/-- Three heights, and the third once more: by then the first block is gone. -/
def calls : List Block := [1, 2, 3, 3].map fun height => ⟨header height 0 0, []⟩

end Sample

/-- The sample calls, with what they leave. -/
theorem keptBlocks_of_run_sample :
    (((Prog.forEach setLastBlock Sample.calls).run Sample.emptyStore).state.kept.IsChain
      fun a b => b.data.height = a.data.height + 1) :=
  (@keptBlocks_of_run Sample.emptyStore _ rfl (by decide) _
    (Outcome.eq_done (by decide))).1

end CoreEx
