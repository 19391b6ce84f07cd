/-
  File:      CoreEx/State/LastBlocks.lean
  Subject:   No transaction writes the attribute `lastBlock`.

  The only writer is the attribute mutator. A registration replaces the object the attribute is
  in, so a transaction can make a wallet lose it, but not get it back; that holds of every run,
  also of one that throws half-way, on any repository.

  * `NoNewLastBlock` -- no wallet has a `lastBlock` it did not have before;
  * **`BlockState.applyTransaction_forgetful`**, **`BlockState.revertTransaction_forgetful`**.
-/
import CoreEx.State.WalletFrames

namespace CoreEx

open WalletRepository Base

/-- `getAttribute("validator").lastBlock`, when there is one. -/
def Account.lastBlock (w : Account) : Option BlockData := w.validator.bind (·.lastBlock)

/-- Nobody has a last block who had none. -/
def NoNewLastBlock (r r' : WalletRepository) : Prop :=
  ∀ a, (r.accounts a).lastBlock = none → (r'.accounts a).lastBlock = none

/-- The relation between the wallets. -/
def NoLastBlockGained (w w' : Wallet) : Prop :=
  w.toAccount.lastBlock = none → w'.toAccount.lastBlock = none

theorem TransactionWrite.lastBlock {w x : Account} (h : TransactionWrite w x)
    (hnone : w.lastBlock = none) : x.lastBlock = none := by
  cases h with
  | amounts same =>
    unfold Account.lastBlock at hnone ⊢
    rw [same]
    exact hnone
  | registered username => rfl
  | unregistered => rfl
  | voteBalance value | resigned | active =>
    obtain ⟨b, n, vote, ms, v⟩ := w
    cases v with
    | none => rfl
    | some v => exact hnone

instance : WalletFrame NoLastBlockGained where
  refl _ h := h
  trans h h' hu := h' (h hu)
  publicKey _ _ h := h
  written _ _ h hnone := h.lastBlock hnone

namespace BlockState

variable {env : Services}

/-- The same on the state of a node. -/
def NodeForgets (s s' : NodeState) : Prop := NoNewLastBlock s.repository s'.repository

/-- **A loop of transactions, applied or reverted, gives nobody a last block.** -/
theorem forEach_forgets {f : Transaction → BlockProg Unit}
    (hf : ∀ t, Prog.Keeps NodeForgets (f t)) (ts : List Transaction) :
    Prog.Keeps NodeForgets (Prog.forEach f ts) :=
  Prog.Keeps.forEach (fun _ _ h => h) (fun _ _ _ h h' a ha => h' a (h a ha)) hf ts

theorem applyTransaction_forgetful (t : Transaction) :
    Prog.Keeps NodeForgets (applyTransaction env t) :=
  show Prog.Keeps (NodeKeeps NoLastBlockGained) _ from applyTransaction_framed t

theorem revertTransaction_forgetful (t : Transaction) :
    Prog.Keeps NodeForgets (revertTransaction env t) :=
  show Prog.Keeps (NodeKeeps NoLastBlockGained) _ from revertTransaction_framed t

end BlockState

end CoreEx
