/-
  File:      CoreEx/Properties/Reversal.lean
  Subject:   Reverting a block undoes applying it.

  The books come back exactly, but for the attribute `lastBlock`, which the attribute mutator
  clears instead of restoring.

  * `Account.Restored` -- the contents that come back;
  * **`revertBlock_of_applyBlock`** -- what `applyBlock` did, `revertBlock` undoes.
-/
import CoreEx.Properties.VoteBalances

namespace CoreEx

/-- Balance, nonce, vote, multi-signature, username, resignation and vote balance are the same. -/
structure Account.Restored (w w' : Account) : Prop where
  balance : w'.balance = w.balance
  nonce : w'.nonce = w.nonce
  vote : w'.vote = w.vote
  multiSignature : w'.multiSignature = w.multiSignature
  username : w'.username = w.username
  isResigned : w'.isResigned = w.isResigned
  voteBalance : w'.voteBalance? = w.voteBalance?

theorem Account.restored_setLastBlock (lastBlock : Option BlockData) (w : Account) :
    w.Restored (w.setLastBlock lastBlock) :=
  ⟨rfl, rfl, rfl, rfl, setLastBlock_username _ _, setLastBlock_isResigned _ _,
    setLastBlock_voteBalance? _ _⟩

/-- **After `applyBlock`, `revertBlock` returns and restores every wallet and both name
    indexes.** -/
theorem revertBlock_of_applyBlock (env : Services) (n : ConsistentNode env) (block : Block)
    (hblock : block.SchemaValid) (s' : NodeState)
    (happly : (BlockState.applyBlock env block).run n.state = .done () s') :
    ∃ s'', (BlockState.revertBlock env block).run s' = .done () s'' ∧
      (∀ a, (n.repository.accounts a).Restored (s''.repository.accounts a)) ∧
      s''.repository.names = n.repository.names := by
  have haccepted := (BlockState.applyBlock_spec hblock n.repository.good n.ordered
    n.stands).of_done happly
  obtain ⟨s'', st, hrevert, hs'', -⟩ :=
    BlockState.revertBlock_accepted hblock n.repository.good haccepted.1
  refine ⟨s'', hrevert, fun a => ?_, hs''.names⟩
  rw [hs''.accounts]
  show Account.Restored _ (Ledger.change _ _ _ a)
  rw [Ledger.change_apply]
  split
  · exact Account.restored_setLastBlock none _
  · exact ⟨rfl, rfl, rfl, rfl, rfl, rfl, rfl⟩

namespace Sample

/-- A node at height 1 with one validator. -/
def node : ConsistentNode Services.simple where
  repository := repository
  store := ⟨⟨[(1, ⟨header 1 0 0, []⟩)], by decide⟩, 1, 1, 0, 0⟩
  ordered := ⟨by decide, by decide, by decide⟩

/-- The validator votes for itself and sends something. -/
def block : Block := ⟨header 2 2 10, [vote, transfer]⟩

theorem block_valid : block.SchemaValid := by
  intro t ht
  have hcases : t = vote ∨ t = transfer := by simpa [block] using ht
  rcases hcases with rfl | rfl
  · exact vote_valid
  · exact transfer_valid

end Sample

/-- The sample block is applied and reverted. -/
theorem revertBlock_of_applyBlock_sample :
    ∃ s'', (BlockState.revertBlock Services.simple Sample.block).run
        ((BlockState.applyBlock Services.simple Sample.block).run Sample.node.state).state =
      .done () s'' ∧
      (∀ a, (Sample.node.repository.accounts a).Restored (s''.repository.accounts a)) ∧
      s''.repository.names = Sample.node.repository.names :=
  revertBlock_of_applyBlock Services.simple Sample.node Sample.block Sample.block_valid _
    (Outcome.eq_done (by decide))

end CoreEx
