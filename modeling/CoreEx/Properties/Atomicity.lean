/-
  File:      CoreEx/Properties/Atomicity.lean
  Subject:   What a block that is refused leaves behind.

  A transaction that throws changes nothing, and both catch blocks take back the transactions
  that were finished. The forger's part is in neither list. In `applyBlock` it is followed by
  `setLastBlock` only, which throws when the block is more than one above the last; in
  `revertBlock` it comes first, so every transaction that cannot be reverted throws after it.

  * `Unchanged`, `AtomicOnError` -- the property;
  * `forged_eq_iff` -- when the forger's part of a block changes nothing;
  * `applyBlock_atomic_iff`, `revertBlock_atomic`, `revertBlock_not_atomic` -- the two methods;
  * **`atomicOnError_of_block`** -- both.
-/
import CoreEx.State.LastBlocks
import CoreEx.Properties.Reversal

namespace CoreEx

/-! ## 1. The property -/

/-- The same balance, nonce and attributes in every wallet, and the same last block. -/
structure Unchanged (s s' : NodeState) : Prop where
  accounts : s'.repository.accounts = s.repository.accounts
  lastBlock : s'.store.lastBlock? = s.store.lastBlock?

/-- When the program throws from `s`, it leaves everything as it was. -/
def AtomicOnError (x : BlockProg Unit) (s : NodeState) : Prop :=
  ∀ e s', x.run s = .thrown e s' → Unchanged s s'

/-! ## 2. The forger's part -/

/-- The forger has nothing to gain: no reward, no fees, and no last block to remember. -/
structure ForgerUnaffected (w : Account) (d : BlockData) : Prop where
  amount : BalanceMutator.amount d = 0
  lastBlock : w.isValidator = true → w.lastBlock = some d

theorem forged_eq_iff (env : Services) (a : Address) (d : BlockData) (L : Ledger) :
    forged env a d L = L ↔ ForgerUnaffected (L a) d := by
  constructor
  · intro h
    have ha : (L.move env (earned a d) a).setLastBlock (some d) = L a := by
      have happ := congrFun h a
      unfold forged at happ
      rwa [Ledger.change_self] at happ
    constructor
    · have hbal : (L a).balance + posted (earned a d) a = (L a).balance :=
        congrArg Account.balance ha
      have hpost : posted (earned a d) a = BalanceMutator.amount d := by
        simp [earned, posted_cons]
      omega
    · intro hval
      rw [← ha] at hval ⊢
      obtain ⟨v, hv⟩ := Option.isSome_iff_exists.1 hval
      have hlast : ∀ w : Account, (w.setLastBlock (some d)).validator = some v →
          (w.setLastBlock (some d)).lastBlock = some d := by
        intro w hw
        obtain ⟨b, n, vote, ms, v'⟩ := w
        cases v' with
        | none => cases hw
        | some v' => rfl
      exact hlast _ hv
  · intro h
    have hmove : L.move env (earned a d) = L := Ledger.move_of_zero env
      (fun p hp => by
        obtain rfl := List.mem_singleton.1 hp
        exact h.amount) L
    unfold forged
    rw [hmove]
    funext b
    rw [Ledger.change_apply]
    split
    · rename_i hba
      subst hba
      have hlast := h.lastBlock
      revert hlast
      obtain ⟨bal, n, vote, ms, v⟩ := L b
      cases v with
      | none => exact fun _ => rfl
      | some v =>
        intro hlast
        have hv : v.lastBlock = some d := hlast rfl
        obtain ⟨name, vb, lb, rest⟩ := v
        simp only at hv
        subst hv
        rfl
    · rfl

/-- Reverted, the forger has no last block. -/
theorem unforged_lastBlock {env : Services} (a : Address) (d : BlockData) (L : Ledger) :
    (unforged env a d L a).lastBlock = none := by
  have hmove : (unforged env a d L a).lastBlock = (L.change a (·.setLastBlock none) a).lastBlock := by
    refine Ledger.move_read Account.lastBlock (by intro _ _; rfl) ?_ env _ _ a
    intro w δ
    obtain ⟨bal, nonce, vote, ms, v⟩ := w
    cases v with
    | none => rfl
    | some v => rfl
  rw [hmove, Ledger.change_self]
  obtain ⟨bal, nonce, vote, ms, v⟩ := L a
  cases v with
  | none => rfl
  | some v => rfl

/-! ## 3. `applyBlock` -/

section Methods

variable {env : Services} {block : Block}

/-- **`applyBlock` is atomic exactly when it is not late**, or when the forger has nothing to
    gain. -/
theorem applyBlock_atomic_iff (n : ConsistentNode env) (hblock : block.SchemaValid) :
    AtomicOnError (BlockState.applyBlock env block) n.state ↔
      ¬ BlockState.Late env block n.state ∨ ForgerUnaffected (n.repository.accounts
        (env.addressFromPublicKey block.data.generatorPublicKey)) block.data := by
  have hspec := BlockState.applyBlock_spec hblock n.repository.good n.ordered n.stands
  rw [← forged_eq_iff env]
  constructor
  · intro h
    by_cases hlate : BlockState.Late env block n.state
    · refine Or.inr ?_
      cases hr : (BlockState.applyBlock env block).run n.state with
      | done u s' => exact absurd hlate (hspec.of_done hr).2
      | thrown e s' =>
        obtain ⟨b, st, hs', -, -, hb⟩ := hspec.of_thrown hr
        rcases hb with ⟨hnot, -⟩ | ⟨-, rfl⟩
        · exact absurd hlate hnot
        · exact hs'.1.accounts.symm.trans (h e s' hr).accounts
    · exact Or.inl hlate
  · intro h e s' hr
    obtain ⟨b, st, hs', -, hlast, hb⟩ := hspec.of_thrown hr
    have hstore : s'.store.lastBlock? = n.state.store.lastBlock? := by
      rw [hs'.2, hlast]
      rfl
    refine ⟨hs'.1.accounts.trans ?_, hstore⟩
    rcases hb with ⟨-, rfl⟩ | ⟨hlate, rfl⟩
    · rfl
    · rcases h with hnot | hsame
      · exact absurd hlate hnot
      · exact hsame

/-! ## 4. `revertBlock` -/

/-- **`revertBlock` is atomic unless it is late.** -/
theorem revertBlock_atomic (n : ConsistentNode env)
    (h : ¬ BlockState.RevertLate env block n.state) :
    AtomicOnError (BlockState.revertBlock env block) n.state := by
  intro e s' hr
  have hs' := BlockState.revertBlock_thrown n.repository.good n.stands hr h
  exact ⟨hs'.1.accounts, congrArg StateStore.lastBlock? hs'.2⟩

/-- When it is late, the forger has lost its `lastBlock`, and nothing brings that back. -/
theorem revertBlock_not_atomic (n : ConsistentNode env)
    (hlast : (n.repository.accounts
      (env.addressFromPublicKey block.data.generatorPublicKey)).lastBlock ≠ none)
    (h : BlockState.RevertLate env block n.state) :
    ¬ AtomicOnError (BlockState.revertBlock env block) n.state := by
  obtain ⟨s₁, ts₁, s₂, e, s', hforger, ⟨e₂, hloop⟩, hagain, hr⟩ := BlockState.revertBlock_late h
  have hs₁ : (s₁.repository.accounts
      (env.addressFromPublicKey block.data.generatorPublicKey)).lastBlock = none := by
    unfold BlockState.forgerReverted at hforger
    rw [Prog.run_bind_done] at hforger
    obtain ⟨a, s₀, hfind, hpay⟩ := hforger
    obtain ⟨hs₀, rfl⟩ := ((BlockState.onRepository_always n.store
      (WalletRepository.findByPublicKey_always block.data.generatorPublicKey))
        _ n.stands).of_done hfind
    obtain ⟨hstands, -⟩ := (BlockState.onRepository_atomic n.store
      (BlockState.revertBlockFromForger_atomic (N := n.repository.books.2)
        n.repository.good.consistent _ block.data)).of_done hs₀ hpay
    rw [hstands.1.accounts]
    exact unforged_lastBlock _ _ _
  have hs₂ := (BlockState.forEach_forgets BlockState.revertTransaction_forgetful _).of_thrown
    hloop _ hs₁
  have hs' := BlockState.forEach_forgets (@BlockState.applyTransaction_forgetful env) ts₁ s₂
  rw [hagain] at hs'
  intro hatomic
  refine hlast ?_
  have hsame := (hatomic e s' hr).accounts
  show Account.lastBlock (n.state.repository.accounts _) = none
  rw [← hsame]
  exact hs' _ hs₂

end Methods

/-! ## 5. Both -/

/-- **When a block that throws leaves everything as it was.** `applyBlock`: exactly when the block
    does not get past its transactions and its forger with a height too high for the store, or
    the forger has nothing to gain. `revertBlock`: whenever no transaction of the block fails to
    revert, and only then if the forger remembers a block. -/
theorem atomicOnError_of_block (env : Services) (n : ConsistentNode env) (block : Block)
    (hblock : block.SchemaValid) :
    (AtomicOnError (BlockState.applyBlock env block) n.state ↔
      ¬ BlockState.Late env block n.state ∨ ForgerUnaffected (n.repository.accounts
        (env.addressFromPublicKey block.data.generatorPublicKey)) block.data) ∧
    (¬ BlockState.RevertLate env block n.state →
      AtomicOnError (BlockState.revertBlock env block) n.state) ∧
    ((n.repository.accounts
        (env.addressFromPublicKey block.data.generatorPublicKey)).lastBlock ≠ none →
      (AtomicOnError (BlockState.revertBlock env block) n.state ↔
        ¬ BlockState.RevertLate env block n.state)) := by
  refine ⟨applyBlock_atomic_iff n hblock, revertBlock_atomic n, fun hlast => ⟨fun h hlate => ?_,
    revertBlock_atomic n⟩⟩
  exact revertBlock_not_atomic n hlast hlate h

namespace Sample

/-- The store of `node` is at height 1. -/
def gapBlock : Block := ⟨header 3 2 10, [vote, transfer]⟩

theorem gapBlock_valid : gapBlock.SchemaValid := block_valid

/-- Not a transaction that was applied: the nonce is not the last one of `alice`. -/
def strangeBlock : Block := ⟨header 2 1 5, [transfer]⟩

end Sample

/-- The refused block has left its reward and its fees with the forger, and a block that cannot
    be reverted has taken them away. -/
theorem atomicOnError_fails :
    ¬ AtomicOnError (BlockState.applyBlock Services.simple Sample.gapBlock) Sample.node.state ∧
    ¬ AtomicOnError (BlockState.revertBlock Services.simple Sample.strangeBlock)
      Sample.node.state := by
  have hchanged : ∀ {x : BlockProg Unit}, (x.run Sample.node.state).isDone = false →
      ((x.run Sample.node.state).state.repository.accounts ⟨"alice", by decide⟩).balance ≠
        (Sample.node.state.repository.accounts ⟨"alice", by decide⟩).balance →
      ¬ AtomicOnError x Sample.node.state := by
    intro x hthrown hbal h
    obtain ⟨e, hr⟩ := Outcome.eq_thrown hthrown
    rw [(h e _ hr).accounts] at hbal
    exact hbal rfl
  exact ⟨hchanged (by decide) (by decide), hchanged (by decide) (by decide)⟩

/-- The theorem at the first of these blocks. -/
theorem atomicOnError_of_block_sample :
    (AtomicOnError (BlockState.applyBlock Services.simple Sample.gapBlock) Sample.node.state ↔
      ¬ BlockState.Late Services.simple Sample.gapBlock Sample.node.state ∨
        ForgerUnaffected (Sample.node.repository.accounts ⟨"alice", by decide⟩)
          Sample.gapBlock.data) :=
  (atomicOnError_of_block Services.simple Sample.node Sample.gapBlock Sample.gapBlock_valid).1

end CoreEx
