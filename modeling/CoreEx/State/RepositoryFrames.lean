/-
  File:      CoreEx/State/RepositoryFrames.lean
  Subject:   Relations between repositories that transactions keep.

  A handler looks wallets up, which may create one or attach a key, and writes amounts, votes,
  multi-signatures and vote balances. Only registrations and resignations write more and index the
  wallet anew. A relation that survives the former holds between the repositories before and after
  any run, also of one that throws half-way, as soon as those two handlers keep it.

  * `RepositoryFrame` -- a relation that lookups and the common writes keep;
  * `RepositoryKeeps` -- a program that keeps it, with one lemma for each operation and handler;
  * **`RepositoryKeeps.applyTransaction`**, **`RepositoryKeeps.revertTransaction`**.
-/
import CoreEx.State.BlockState

namespace CoreEx

open WalletRepository Base

/-! ## 1. The relation -/

/-- A repository in which one account was written. -/
def WalletRepository.withAccount (r : WalletRepository) (a : Address) (x : Account) :
    WalletRepository :=
  r.setWallet a ((r.wallet a).withAccount x)

/-- A relation that lookups keep, and the writes of all handlers. -/
class RepositoryFrame (R : WalletRepository → WalletRepository → Prop) : Prop where
  refl : ∀ r, R r r
  trans : ∀ r r' r'', R r r' → R r' r'' → R r r''
  create : ∀ (r : WalletRepository) (a : Address), r.hasByAddress a = false →
    R r (r.setWallet a Wallet.new)
  attach : ∀ r a k, R r (WalletRepository.attach a k r)
  amounts : ∀ (r : WalletRepository) (a : Address) {x : Account},
    x.validator = (r.accounts a).validator → R r (r.withAccount a x)
  voteBalance : ∀ (r : WalletRepository) (a : Address) (value : Int),
    R r (r.withAccount a ((r.accounts a).setVoteBalance value))

/-- Every run of the program, returning or throwing, keeps the relation. -/
def RepositoryKeeps {α : Type} (R : WalletRepository → WalletRepository → Prop)
    (x : RepositoryProg α) : Prop :=
  Prog.Keeps R x

/-- A handler keeps the relation, applying and reverting. -/
def HandlerKeeps (R : WalletRepository → WalletRepository → Prop) (env : Services)
    (t : Transaction) (x : TransactionHandler) : Prop :=
  RepositoryKeeps R (x.apply env t) ∧ RepositoryKeeps R (x.revert env t)

namespace RepositoryKeeps

variable {R : WalletRepository → WalletRepository → Prop} [RepositoryFrame R] {α β : Type}
  {x : RepositoryProg α} {f : α → RepositoryProg β} {env : Services} {t : Transaction}

theorem pure (a : α) : RepositoryKeeps R (Pure.pure a : RepositoryProg α) :=
  Prog.Keeps.pure RepositoryFrame.refl a

theorem throw (e : Exception) : RepositoryKeeps R (Prog.throw e : RepositoryProg α) :=
  Prog.Keeps.throw RepositoryFrame.refl e

theorem gets (g : WalletRepository → α) :
    RepositoryKeeps R (Prog.gets g : RepositoryProg α) :=
  Prog.Keeps.gets RepositoryFrame.refl g

theorem ofExcept (r : Except Exception α) :
    RepositoryKeeps R (Prog.ofExcept r : RepositoryProg α) :=
  Prog.Keeps.ofExcept RepositoryFrame.refl r

theorem bind (hx : RepositoryKeeps R x) (hf : ∀ a, RepositoryKeeps R (f a)) :
    RepositoryKeeps R (x >>= f) :=
  Prog.Keeps.bind RepositoryFrame.trans hx hf

omit [RepositoryFrame R] in
theorem ite {c : Prop} [Decidable c] {y : RepositoryProg α} (hx : RepositoryKeeps R x)
    (hy : RepositoryKeeps R y) : RepositoryKeeps R (if c then x else y) :=
  Prog.Keeps.ite hx hy

theorem when {c : Prop} [Decidable c] {x : RepositoryProg Unit} (hx : RepositoryKeeps R x) :
    RepositoryKeeps R (Prog.when c x) :=
  Prog.Keeps.when RepositoryFrame.refl hx

theorem throwIf (c : Prop) [Decidable c] (e : Exception) :
    RepositoryKeeps R (Prog.throwIf c e : RepositoryProg Unit) :=
  Prog.Keeps.throwIf RepositoryFrame.refl c e

theorem forEach {g : β → RepositoryProg Unit} (hg : ∀ b, RepositoryKeeps R (g b))
    (bs : List β) : RepositoryKeeps R (Prog.forEach g bs) :=
  Prog.Keeps.forEach RepositoryFrame.refl RepositoryFrame.trans hg bs

theorem assertDefined (o : Option α) :
    RepositoryKeeps R (assertDefined o : RepositoryProg α) := by
  cases o with
  | none => exact throw _
  | some a => exact pure a

/-! ## 2. The repository -/

theorem amounts (a : Address) {g : Account → Account}
    (hg : ∀ w, (g w).validator = w.validator) : RepositoryKeeps R (update a g) :=
  fun r => RepositoryFrame.amounts r a (hg (r.accounts a))

theorem findByAddress (a : Address) : RepositoryKeeps R (findByAddress a) := by
  intro r
  unfold WalletRepository.findByAddress
  rw [Prog.run_bind_of_done (Prog.run_gets _ _)]
  cases hknown : r.hasByAddress a with
  | true => exact RepositoryFrame.refl r
  | false => exact RepositoryFrame.create r a hknown

theorem findByPublicKey (k : PublicKey) : RepositoryKeeps R (findByPublicKey env k) := by
  have hattach : ∀ a, RepositoryKeeps R (Prog.modify (WalletRepository.attach a k)) :=
    fun a r => RepositoryFrame.attach r a k
  exact (gets _).bind fun _ => (when ((findByAddress _).bind hattach)).bind fun _ =>
    (gets _).bind fun _ => assertDefined _

/-! ## 3. The base class -/

theorem checkNonceApply (a : Address) : RepositoryKeeps R (verifyTransactionNonceApply a t) :=
  (gets _).bind fun _ => throwIf _ _

theorem baseCheck (a : Address) : RepositoryKeeps R (Base.throwIfCannotBeApplied env t a) := by
  have hms : RepositoryKeeps R (checkMultiSignature env t) :=
    (assertDefined _).bind fun _ => (findByPublicKey _).bind fun _ => (gets _).bind fun _ =>
      (throwIf _ _).bind fun _ => ((throwIf _ _).bind fun _ => pure _).bind fun _ =>
        (throwIf _ _).bind fun _ => (assertDefined _).bind fun _ => throwIf _ _
  exact (findByAddress _).bind fun _ => (gets _).bind fun _ => (assertDefined _).bind fun _ =>
    (gets _).bind fun _ => (gets _).bind fun _ => (throwIf _ _).bind fun _ =>
      (checkNonceApply a).bind fun _ => (throwIf _ _).bind fun _ => (throwIf _ _).bind fun _ =>
        ite hms (throwIf _ _)

theorem baseApply {check : Services → Transaction → Address → RepositoryProg Unit}
    (hcheck : ∀ a, RepositoryKeeps R (check env t a)) :
    RepositoryKeeps R (Base.applyToSender check env t) := by
  unfold Base.applyToSender
  refine (assertDefined _).bind fun _ => (findByPublicKey _).bind fun a =>
    (hcheck a).bind fun _ => ?_
  have hlast : RepositoryKeeps R (WalletRepository.update a fun w =>
      w.setBalance (w.balance - t.data.amount - t.data.fee)) := amounts a (by intro _; rfl)
  split
  · exact (checkNonceApply a).bind fun _ => (assertDefined _).bind fun _ =>
      (amounts a (by intro _; rfl)).bind fun _ => hlast
  · exact (amounts a (by intro _; rfl)).bind fun _ => hlast

theorem baseRevert : RepositoryKeeps R (Base.revertForSender env t) := by
  unfold Base.revertForSender verifyTransactionNonceRevert
  exact (assertDefined _).bind fun _ => (findByPublicKey _).bind fun a =>
    (amounts a (by intro _; rfl)).bind fun _ => ((gets _).bind fun _ => throwIf _ _).bind fun _ =>
      amounts a (by intro _; rfl)

/-! ## 4. The handlers -/

theorem transfer : HandlerKeeps R env t TransferTransactionHandler.handler := by
  have hrecipient : ∀ g : Account → Account, (∀ w, (g w).validator = w.validator) →
      RepositoryKeeps R (do
        let recipientId ← CoreEx.assertDefined t.data.recipientId
        let recipient ← WalletRepository.findByAddress recipientId
        WalletRepository.update recipient g) := fun g hg =>
    (assertDefined _).bind fun _ => (findByAddress _).bind fun a => amounts a hg
  exact ⟨(baseApply baseCheck).bind fun _ => hrecipient _ fun _ => rfl,
    baseRevert.bind fun _ => hrecipient _ fun _ => rfl⟩

theorem multiPayment : HandlerKeeps R env t MultiPaymentTransactionHandler.handler := by
  have hcheck : ∀ a,
      RepositoryKeeps R (MultiPaymentTransactionHandler.throwIfCannotBeApplied env t a) :=
    fun a => (assertDefined _).bind fun _ => (gets _).bind fun _ => (throwIf _ _).bind fun _ =>
      baseCheck a
  exact ⟨((baseApply hcheck).bind fun _ => (assertDefined _).bind fun _ =>
      (assertDefined _).bind fun _ => (findByPublicKey _).bind fun a =>
        amounts a (by intro _; rfl)).bind fun _ => (assertDefined _).bind fun _ =>
          forEach (fun _ => (findByAddress _).bind fun a => amounts a (by intro _; rfl)) _,
    (baseRevert.bind fun _ => (assertDefined _).bind fun _ => (assertDefined _).bind fun _ =>
      (findByPublicKey _).bind fun a => amounts a (by intro _; rfl)).bind fun _ =>
        (assertDefined _).bind fun _ =>
          forEach (fun _ => (findByAddress _).bind fun a => amounts a (by intro _; rfl)) _⟩

theorem checkUnvote (vote : Option PublicKey) (unvote : PublicKey) :
    RepositoryKeeps R (VoteTransactionHandler.checkUnvote env vote unvote) := by
  unfold VoteTransactionHandler.checkUnvote
  refine (findByPublicKey _).bind fun a => ?_
  cases vote with
  | none => exact (throw _).bind fun _ => (gets _).bind fun _ => throwIf _ _
  | some vote => exact (throwIf _ _).bind fun _ => (gets _).bind fun _ => throwIf _ _

theorem checkUnvotes (vote : Option PublicKey) (unvotes : List PublicKey) :
    RepositoryKeeps R (VoteTransactionHandler.checkUnvotes env vote unvotes) := by
  induction unvotes generalizing vote with
  | nil => exact pure vote
  | cons unvote unvotes ih => exact (checkUnvote vote unvote).bind fun _ => ih none

theorem vote : HandlerKeeps R env t VoteTransactionHandler.handler := by
  have hcheck : ∀ a, RepositoryKeeps R (VoteTransactionHandler.throwIfCannotBeApplied env t a) :=
    fun a => (assertDefined _).bind fun _ => (assertDefined _).bind fun _ =>
      ((throwIf _ _).bind fun _ => (throwIf _ _).bind fun _ => throwIf _ _).bind fun _ =>
        (gets _).bind fun _ => (checkUnvotes _ _).bind fun _ =>
          (forEach (fun _ => (findByPublicKey _).bind fun _ => (throwIf _ _).bind fun _ =>
            (gets _).bind fun _ => (throwIf _ _).bind fun _ => throwIf _ _) _).bind fun _ =>
              baseCheck a
  exact ⟨((baseApply hcheck).bind fun _ => (assertDefined _).bind fun _ =>
      (findByPublicKey _).bind fun a => (assertDefined _).bind fun _ =>
        (assertDefined _).bind fun _ => (when (amounts a (by intro _; rfl))).bind fun _ =>
          forEach (fun _ => amounts a (by intro _; rfl)) _).bind fun _ => pure (),
    (baseRevert.bind fun _ => (assertDefined _).bind fun _ =>
      (findByPublicKey _).bind fun a => (assertDefined _).bind fun _ =>
        (assertDefined _).bind fun _ => (when (amounts a (by intro _; rfl))).bind fun _ =>
          forEach (fun _ => amounts a (by intro _; rfl)) _).bind fun _ => pure ()⟩

theorem registrationCheck (a : Address) :
    RepositoryKeeps R (ValidatorRegistrationTransactionHandler.throwIfCannotBeApplied env t a) :=
  (assertDefined _).bind fun _ => (findByPublicKey _).bind fun _ =>
    (gets _).bind fun _ => (throwIf _ _).bind fun _ => (assertDefined _).bind fun _ =>
      (gets _).bind fun _ => (throwIf _ _).bind fun _ => (gets _).bind fun _ =>
        (throwIf _ _).bind fun _ => baseCheck a

theorem resignationCheck (a : Address) :
    RepositoryKeeps R (ValidatorResignationTransactionHandler.throwIfCannotBeApplied env t a) :=
  (gets _).bind fun _ => (throwIf _ _).bind fun _ => (throwIf _ _).bind fun _ =>
    (gets _).bind fun _ => (throwIf _ _).bind fun _ => baseCheck a

theorem multiSignature :
    HandlerKeeps R env t MultiSignatureRegistrationTransactionHandler.handler := by
  have hcheck : ∀ a,
      RepositoryKeeps R
        (MultiSignatureRegistrationTransactionHandler.throwIfCannotBeApplied env t a) :=
    fun a => (assertDefined _).bind fun _ => (throwIf _ _).bind fun _ =>
      (assertDefined _).bind fun _ => (throwIf _ _).bind fun _ => (ofExcept _).bind fun _ =>
        (findByPublicKey _).bind fun _ => (gets _).bind fun _ => (throwIf _ _).bind fun _ =>
          (gets _).bind fun _ => (throwIf _ _).bind fun _ => baseCheck a
  exact ⟨(baseApply hcheck).bind fun _ => (assertDefined _).bind fun _ =>
      (ofExcept _).bind fun _ => (findByPublicKey _).bind fun a => amounts a (by intro _; rfl),
    baseRevert.bind fun _ => (assertDefined _).bind fun _ => (ofExcept _).bind fun _ =>
      (findByPublicKey _).bind fun a => amounts a (by intro _; rfl)⟩

/-- Every handler keeps the relation, when the two that index a wallet do. -/
theorem handler
    (hregistration : HandlerKeeps R env t ValidatorRegistrationTransactionHandler.handler)
    (hresignation : HandlerKeeps R env t ValidatorResignationTransactionHandler.handler)
    {x : TransactionHandler} (hx : x ∈ handlers) : HandlerKeeps R env t x := by
  simp only [handlers, List.mem_cons, List.not_mem_nil, or_false] at hx
  rcases hx with rfl | rfl | rfl | rfl | rfl | rfl
  · exact hregistration
  · exact hresignation
  · exact multiPayment
  · exact multiSignature
  · exact transfer
  · exact vote

/-! ## 5. Vote balances and whole transactions -/

theorem addToVoteBalance (a : Address) (change : Int) :
    RepositoryKeeps R (addToVoteBalance a change) :=
  (gets _).bind fun _ r => RepositoryFrame.voteBalance r a _

theorem addToValidator (k : Option PublicKey) (change : Int) :
    RepositoryKeeps R (addToValidator env k change) := by
  cases k with
  | none => exact pure ()
  | some k => exact (findByPublicKey k).bind fun a => addToVoteBalance a change

theorem updateVoteBalances (sender : Address) (recipient : Option Address) (d : TransactionData)
    (revert : Bool) : RepositoryKeeps R (updateVoteBalances env sender recipient d revert) := by
  have hunvotes : RepositoryKeeps R (readUnvotes d.unvotes) := by
    cases d.unvotes with
    | none => exact throw _
    | some unvotes => exact pure unvotes
  have hvote : RepositoryKeeps R (updateVoteBalancesOfVote env sender d revert) :=
    (assertDefined _).bind fun _ => (gets _).bind fun _ => hunvotes.bind fun _ =>
      (addToValidator _ _).bind fun _ => addToValidator _ _
  have hout : RepositoryKeeps R (outgoing d) :=
    ite ((assertDefined _).bind fun _ => pure _) (pure _)
  have hsender : RepositoryKeeps R (updateVoteBalancesOfSender env sender d revert) := by
    refine (gets _).bind fun s => ?_
    cases s.vote with
    | none => exact pure ()
    | some k => exact (findByPublicKey k).bind fun a => hout.bind fun _ => addToVoteBalance a _
  have hpayments : RepositoryKeeps R (updateVoteBalancesOfPayments env d revert) :=
    when ((assertDefined _).bind fun _ => forEach (fun _ => (findByAddress _).bind fun _ =>
      (gets _).bind fun _ => addToValidator _ _) _)
  have hrecipient : RepositoryKeeps R (updateVoteBalancesOfRecipient env recipient d revert) := by
    cases recipient with
    | none => exact pure ()
    | some a => exact (gets _).bind fun _ => addToValidator _ _
  exact ite hvote (hsender.bind fun _ => hpayments.bind fun _ => hrecipient)

theorem findRecipient (d : TransactionData) : RepositoryKeeps R (findRecipient d) := by
  unfold CoreEx.findRecipient
  cases d.recipientId with
  | none => exact pure none
  | some a => exact (findByAddress a).bind fun _ => pure _

/-- The handler of a transaction, with what comes before and after it. -/
theorem withHandler {α : Type} {x : TransactionHandler → RepositoryProg α}
    (hx : ∀ h ∈ handlers, RepositoryKeeps R (x h)) :
    RepositoryKeeps R (Prog.ofExcept (getActivatedHandlerForData handlers t.data) >>= x) := by
  cases hfound : getActivatedHandlerForData handlers t.data with
  | error e => exact throw e
  | ok y =>
    refine hx y ?_
    unfold getActivatedHandlerForData getRegisteredHandlerByType at hfound
    split at hfound
    · rename_i z hz
      cases hfound
      exact List.mem_of_find?_eq_some hz
    · cases hfound

theorem applyTransaction (hh : ∀ h ∈ handlers, HandlerKeeps R env t h) :
    RepositoryKeeps R (applyTransaction env t) :=
  withHandler fun h hmem => (hh h hmem).1.bind fun _ => (assertDefined _).bind fun _ =>
    (findByPublicKey _).bind fun _ => (findRecipient _).bind fun _ => updateVoteBalances _ _ _ _

theorem revertTransaction (hh : ∀ h ∈ handlers, HandlerKeeps R env t h) :
    RepositoryKeeps R (revertTransaction env t) :=
  withHandler fun h hmem => (assertDefined _).bind fun _ => (findByPublicKey _).bind fun _ =>
    (findRecipient _).bind fun _ => (hh h hmem).2.bind fun _ => updateVoteBalances _ _ _ _

omit [RepositoryFrame R] in
theorem onRepository (hx : RepositoryKeeps R x) :
    Prog.Keeps (fun s s' : NodeState => R s.repository s'.repository)
      (BlockState.onRepository x) :=
  Prog.Keeps.zoom (fun _ _ => rfl) hx

/-- The same on the state of a node, under the configuration at its height. -/
theorem atHeight {x : Services → RepositoryProg α} (hx : ∀ env, RepositoryKeeps R (x env)) :
    Prog.Keeps (fun s s' : NodeState => R s.repository s'.repository)
      (BlockState.atHeight env x) := by
  have htrans : ∀ s s' s'' : NodeState, R s.repository s'.repository →
      R s'.repository s''.repository → R s.repository s''.repository :=
    fun _ _ _ => RepositoryFrame.trans _ _ _
  have hrefl : ∀ s : NodeState, R s.repository s.repository := fun _ => RepositoryFrame.refl _
  exact Prog.Keeps.bind htrans (Prog.Keeps.gets hrefl _) fun _ => onRepository (hx _)

end RepositoryKeeps

end CoreEx
