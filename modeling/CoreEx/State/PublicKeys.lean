/-
  File:      CoreEx/State/PublicKeys.lean
  Subject:   A wallet that has a public key keeps one.

  Looking a wallet up by its key attaches the key, and nothing takes a key away.

  * `StillKeyed` -- the relation; `KeysKept` -- the same of all wallets of a node;
  * **`BlockState.applyBlock_keysKept`**, **`BlockState.revertBlock_keysKept`**.
-/
import CoreEx.State.WalletFrames

namespace CoreEx

open WalletRepository Base

/-- `w'` has a key if `w` has one. -/
def StillKeyed (w w' : Wallet) : Prop := w.publicKey.isSome → w'.publicKey.isSome

instance : WalletFrame StillKeyed where
  refl _ h := h
  trans h h' hu := h' (h hu)
  publicKey _ _ _ := rfl
  written _ _ _ h := h

/-- Whatever is done to an account, its wallet keeps the key. -/
theorem Framed.account (a : Address) (g : Account → Account) :
    Framed StillKeyed (WalletRepository.update a g) := by
  intro r
  exact setWallet fun h => h

/-- Every wallet of the node that had a key has one. -/
abbrev KeysKept : NodeState → NodeState → Prop := BlockState.NodeKeeps StillKeyed

namespace Framed

variable {env : Services}

theorem setLastBlock (a : Address) (lastBlock : Option BlockData) :
    Framed StillKeyed (AttributeMutator.setLastBlock a lastBlock) :=
  (gets _).bind fun _ => (assertDefined _).bind fun _ => account a _

theorem changeVoteBalance (vote : Option PublicKey) (change : Int) :
    Framed StillKeyed (BalanceMutator.changeVoteBalance env vote change) := by
  cases vote with
  | none => exact pure ()
  | some k =>
    exact (findByPublicKey k).bind fun a => (gets _).bind fun _ =>
      (assertDefined _).bind fun _ => account a _

theorem applyBlockToForger (a : Address) (d : BlockData) :
    Framed StillKeyed (BlockState.applyBlockToForger env a d) :=
  (setLastBlock a _).bind fun _ => (gets _).bind fun _ => (changeVoteBalance _ _).bind fun _ =>
    account a _

theorem revertBlockFromForger (a : Address) (d : BlockData) :
    Framed StillKeyed (BlockState.revertBlockFromForger env a d) :=
  (setLastBlock a _).bind fun _ => (gets _).bind fun _ => (changeVoteBalance _ _).bind fun _ =>
    account a _

end Framed

namespace BlockState

variable {env : Services}

theorem onStore_keysKept {α : Type} (x : StoreProg α) : Prog.Keeps KeysKept (onStore x) := by
  intro s
  have hsame : ((onStore x).run s).state.repository = s.repository := by
    unfold onStore
    rw [Prog.run_zoom]
    cases x.run s.store <;> rfl
  show WalletsKeep StillKeyed s.repository ((onStore x).run s).state.repository
  rw [hsame]
  exact Framed.refl _

/-- **Applying a block takes no key away.** -/
theorem applyBlock_keysKept (block : Block) : Prog.Keeps KeysKept (applyBlock env block) := by
  have htrans := @nodeKeeps_trans StillKeyed _
  have hrefl := @nodeKeeps_refl StillKeyed _
  have htrans' : ∀ p q u : NodeState × List Transaction, KeysKept p.1 q.1 → KeysKept q.1 u.1 →
      KeysKept p.1 u.1 := fun _ _ _ => htrans _ _ _
  have hinit : Prog.Keeps KeysKept
      (onRepository (initGenesisForgerWallet block.data.generatorPublicKey)) :=
    onRepository_keeps ((Framed.gets _).bind fun _ => Framed.throwIf _ _)
  have htry : ∀ a, Prog.Keeps (fun p q => KeysKept p.1 q.1) (tryApply env a block) := by
    intro a
    refine Prog.Keeps.bind htrans' (Prog.Keeps.recordEach hrefl htrans
      applyTransaction_framed _) fun _ => Prog.Keeps.zoom (fun _ _ => rfl) ?_
    exact Prog.Keeps.bind htrans (onRepository_keeps (Framed.applyBlockToForger a _))
      fun _ => onStore_keysKept _
  have hundo : ∀ prev e, Prog.Keeps (fun p q => KeysKept p.1 q.1) (undoApply env prev e) := by
    intro prev e
    refine Prog.Keeps.bind htrans' (Prog.Keeps.gets (fun p => hrefl p.1) _)
      fun _ => Prog.Keeps.zoom (fun _ _ => rfl) ?_
    exact Prog.Keeps.bind htrans (Prog.Keeps.forEach hrefl htrans revertTransaction_framed _)
      fun _ => Prog.Keeps.bind htrans (onStore_keysKept _) fun _ => Prog.Keeps.throw hrefl e
  refine Prog.Keeps.bind htrans (Prog.Keeps.when hrefl hinit) fun _ =>
    Prog.Keeps.bind htrans (onStore_keysKept _) fun prev =>
    Prog.Keeps.bind htrans (onRepository_keeps (Framed.findByPublicKey _)) fun a => ?_
  exact Prog.Keeps.withLocal (Prog.Keeps.tryCatch htrans' (htry a) fun e => hundo prev e)

/-- **Neither does reverting one.** -/
theorem revertBlock_keysKept (block : Block) : Prog.Keeps KeysKept (revertBlock env block) := by
  have htrans := @nodeKeeps_trans StillKeyed _
  have hrefl := @nodeKeeps_refl StillKeyed _
  have htrans' : ∀ p q u : NodeState × List Transaction, KeysKept p.1 q.1 → KeysKept q.1 u.1 →
      KeysKept p.1 u.1 := fun _ _ _ => htrans _ _ _
  have htry : ∀ a, Prog.Keeps (fun p q => KeysKept p.1 q.1) (tryRevert env a block) := by
    intro a
    refine Prog.Keeps.bind htrans' (Prog.Keeps.zoom (fun _ _ => rfl)
      (onRepository_keeps (Framed.revertBlockFromForger a _))) fun _ => ?_
    exact Prog.Keeps.recordEach hrefl htrans revertTransaction_framed _
  have hundo : ∀ e, Prog.Keeps (fun p q => KeysKept p.1 q.1) (undoRevert env e) := by
    intro e
    refine Prog.Keeps.bind htrans' (Prog.Keeps.gets (fun p => hrefl p.1) _)
      fun _ => Prog.Keeps.zoom (fun _ _ => rfl) ?_
    exact Prog.Keeps.bind htrans (Prog.Keeps.forEach hrefl htrans applyTransaction_framed _)
      fun _ => Prog.Keeps.throw hrefl e
  refine Prog.Keeps.bind htrans (onRepository_keeps (Framed.findByPublicKey _)) fun a => ?_
  exact Prog.Keeps.withLocal (Prog.Keeps.tryCatch htrans' (htry a) hundo)

end BlockState

end CoreEx
