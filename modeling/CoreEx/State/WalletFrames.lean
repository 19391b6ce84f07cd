/-
  File:      CoreEx/State/WalletFrames.lean
  Subject:   What transactions leave alone, whatever they do.

  A handler writes amounts, votes and multi-signatures, and of the validator object the vote
  balance and the resignation; a registration replaces that object. A relation between wallets
  that all these writes keep holds between the wallets before and after any run, also of one that
  throws half-way, on any repository.

  * `TransactionWrite` -- the writes; `WalletFrame` -- a relation they keep;
  * `Framed` -- a program that keeps it for every wallet; `Framed.handler` -- all handlers do;
  * **`BlockState.applyTransaction_framed`**, **`BlockState.revertTransaction_framed`**.
-/
import CoreEx.State.RepositoryFrames

namespace CoreEx

open WalletRepository Base

/-! ## 1. The relation -/

/-- What a transaction may make of an account in one write. -/
inductive TransactionWrite : Account → Account → Prop
  | amounts {w w' : Account} (same : w'.validator = w.validator) : TransactionWrite w w'
  | voteBalance (value : Int) (w : Account) : TransactionWrite w (w.setVoteBalance value)
  | resigned (w : Account) : TransactionWrite w w.setResigned
  | active (w : Account) : TransactionWrite w w.forgetResigned
  | registered (username : Option String) (w : Account) :
    TransactionWrite w (w.setValidator (some (registered username)))
  | unregistered (w : Account) : TransactionWrite w (w.setValidator none)

/-- A relation between wallets that the writes keep, and attaching a key too. -/
class WalletFrame (ρ : Wallet → Wallet → Prop) : Prop where
  refl : ∀ w, ρ w w
  trans : ∀ {u v w}, ρ u v → ρ v w → ρ u w
  publicKey : ∀ w k, ρ w { w with publicKey := some k }
  written : ∀ (w : Wallet) {x : Account}, TransactionWrite w.toAccount x → ρ w (w.withAccount x)

/-- Every wallet is related to what it was. -/
def WalletsKeep (ρ : Wallet → Wallet → Prop) (r r' : WalletRepository) : Prop :=
  ∀ a, ρ (r.wallet a) (r'.wallet a)

/-- Every run of the program, returning or throwing, keeps the relation. -/
def Framed {α : Type} (ρ : Wallet → Wallet → Prop) (x : RepositoryProg α) : Prop :=
  Prog.Keeps (WalletsKeep ρ) x

namespace Framed

variable {ρ : Wallet → Wallet → Prop} [WalletFrame ρ] {α β : Type} {x : RepositoryProg α}
  {f : α → RepositoryProg β} {env : Services}

theorem refl (r : WalletRepository) : WalletsKeep ρ r r := fun _ => WalletFrame.refl _

theorem trans (r r' r'' : WalletRepository) (h : WalletsKeep ρ r r')
    (h' : WalletsKeep ρ r' r'') : WalletsKeep ρ r r'' :=
  fun a => WalletFrame.trans (h a) (h' a)

theorem setWallet {r : WalletRepository} {a : Address} {w : Wallet} (h : ρ (r.wallet a) w) :
    WalletsKeep ρ r (r.setWallet a w) := by
  intro b
  rw [wallet_setWallet]
  by_cases hba : b = a
  · subst hba
    rw [if_pos rfl]
    exact h
  · rw [if_neg hba]
    exact WalletFrame.refl _

/-- Lookups and the common writes keep it, so every rule for such a relation applies. -/
instance : RepositoryFrame (WalletsKeep ρ) where
  refl := refl
  trans := trans
  create r a hknown b := by
    rw [wallet_create hknown]
    exact WalletFrame.refl _
  attach r a k := setWallet (r := r) (WalletFrame.publicKey _ k)
  amounts _ a _ hx := setWallet (WalletFrame.written _ (.amounts hx))
  voteBalance _ a value := setWallet (WalletFrame.written _ (.voteBalance value _))

theorem pure (a : α) : Framed ρ (Pure.pure a : RepositoryProg α) := RepositoryKeeps.pure a

theorem gets (g : WalletRepository → α) : Framed ρ (Prog.gets g : RepositoryProg α) :=
  RepositoryKeeps.gets g

theorem bind (hx : Framed ρ x) (hf : ∀ a, Framed ρ (f a)) : Framed ρ (x >>= f) :=
  RepositoryKeeps.bind hx hf

theorem throwIf (c : Prop) [Decidable c] (e : Exception) :
    Framed ρ (Prog.throwIf c e : RepositoryProg Unit) :=
  RepositoryKeeps.throwIf c e

theorem assertDefined (o : Option α) : Framed ρ (assertDefined o : RepositoryProg α) :=
  RepositoryKeeps.assertDefined o

theorem findByPublicKey (k : PublicKey) : Framed ρ (findByPublicKey env k) :=
  RepositoryKeeps.findByPublicKey k

/-! ## 2. Indexing, and the two handlers that do it -/

theorem update (a : Address) {g : Account → Account} (hg : ∀ w, TransactionWrite w (g w)) :
    Framed ρ (update a g) :=
  fun r => setWallet (WalletFrame.written (r.wallet a) (hg (r.accounts a)))

theorem index (a : Address) : RepositoryKeeps (WalletsKeep ρ) (index a) := by
  have haddr : Framed ρ (Prog.modify (reindexAddress a)) := by
    intro r b
    show ρ (r.wallet b) ((reindexAddress a r).wallet b)
    rw [wallet_reindexAddress]
    exact WalletFrame.refl _
  have hkey : Framed ρ (Prog.modify (reindexPublicKey a)) := by
    intro r b
    show ρ (r.wallet b) ((reindexPublicKey a r).wallet b)
    rw [wallet_reindexPublicKey]
    exact WalletFrame.refl _
  have hname : Framed ρ (reindexUsername a) :=
    bind (fun _ _ => WalletFrame.refl _) fun _ => (gets _).bind fun _ =>
      RepositoryKeeps.when ((assertDefined _).bind fun _ _ _ => WalletFrame.refl _)
  have hresigned : Framed ρ (reindexResignation a) :=
    bind (fun _ _ => WalletFrame.refl _) fun _ => (gets _).bind fun _ =>
      RepositoryKeeps.when ((assertDefined _).bind fun _ _ _ => WalletFrame.refl _)
  exact haddr.bind fun _ => hkey.bind fun _ => hname.bind fun _ => hresigned

variable {t : Transaction}

theorem registration :
    HandlerKeeps (WalletsKeep ρ) env t ValidatorRegistrationTransactionHandler.handler := by
  have happly : Framed ρ
      (Base.applyToSender ValidatorRegistrationTransactionHandler.throwIfCannotBeApplied env t) :=
    RepositoryKeeps.baseApply RepositoryKeeps.registrationCheck
  have hrevert : Framed ρ (Base.revertForSender env t) := RepositoryKeeps.baseRevert
  exact ⟨(happly.bind fun _ => (assertDefined _).bind fun _ =>
      (findByPublicKey _).bind fun a => (assertDefined _).bind fun _ =>
        (update a (.registered _)).bind fun _ => index a).bind fun _ => pure (),
    (hrevert.bind fun _ => (assertDefined _).bind fun _ => (findByPublicKey _).bind fun a =>
      (update a .unregistered).bind fun _ => index a).bind fun _ => pure ()⟩

theorem resignation :
    HandlerKeeps (WalletsKeep ρ) env t ValidatorResignationTransactionHandler.handler := by
  have happly : Framed ρ
      (Base.applyToSender ValidatorResignationTransactionHandler.throwIfCannotBeApplied env t) :=
    RepositoryKeeps.baseApply RepositoryKeeps.resignationCheck
  have hrevert : Framed ρ (Base.revertForSender env t) := RepositoryKeeps.baseRevert
  exact ⟨(happly.bind fun _ => (assertDefined _).bind fun _ =>
      (findByPublicKey _).bind fun a => (update a .resigned).bind fun _ =>
        index a).bind fun _ => pure (),
    (hrevert.bind fun _ => (assertDefined _).bind fun _ => (findByPublicKey _).bind fun a =>
      (update a .active).bind fun _ => index a).bind fun _ => pure ()⟩

/-- Every handler keeps the relation. -/
theorem handler : ∀ h ∈ handlers, HandlerKeeps (WalletsKeep ρ) env t h :=
  fun _ hh => RepositoryKeeps.handler registration resignation hh

end Framed

namespace BlockState

variable {ρ : Wallet → Wallet → Prop} [WalletFrame ρ] {env : Services}

/-- The same on the state of a node. -/
def NodeKeeps (ρ : Wallet → Wallet → Prop) (s s' : NodeState) : Prop :=
  WalletsKeep ρ s.repository s'.repository

theorem nodeKeeps_refl (s : NodeState) : NodeKeeps ρ s s := Framed.refl s.repository

theorem nodeKeeps_trans (s s' s'' : NodeState) (h : NodeKeeps ρ s s') (h' : NodeKeeps ρ s' s'') :
    NodeKeeps ρ s s'' :=
  Framed.trans _ _ _ h h'

omit [WalletFrame ρ] in
theorem onRepository_keeps {α : Type} {x : RepositoryProg α} (hx : Framed ρ x) :
    Prog.Keeps (NodeKeeps ρ) (onRepository x) :=
  RepositoryKeeps.onRepository hx

theorem atHeight_keeps {α : Type} {x : Services → RepositoryProg α}
    (hx : ∀ env, Framed ρ (x env)) : Prog.Keeps (NodeKeeps ρ) (atHeight env x) :=
  RepositoryKeeps.atHeight hx

/-- **A transaction applied keeps the relation.** -/
theorem applyTransaction_framed (t : Transaction) :
    Prog.Keeps (NodeKeeps ρ) (applyTransaction env t) :=
  atHeight_keeps fun _ => RepositoryKeeps.applyTransaction Framed.handler

/-- **So does a transaction reverted.** -/
theorem revertTransaction_framed (t : Transaction) :
    Prog.Keeps (NodeKeeps ρ) (revertTransaction env t) :=
  atHeight_keeps fun _ => RepositoryKeeps.revertTransaction Framed.handler

end BlockState

end CoreEx
