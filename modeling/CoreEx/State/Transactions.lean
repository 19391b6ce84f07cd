/-
  File:      CoreEx/State/Transactions.lean
  Subject:   `core-state/source/block-state.ts`, lines 91 to 133: one transaction applied or
             reverted.

  The handler changes balances, nonce and the one thing of its type, `#updateVoteBalances` follows.
  That both together are `Books.apply` and `Books.revert` is the content of this file; the way
  back is stated for what is undone, a transaction that was applied, whatever has moved balances
  since.

  * `handlers`, `applyTransaction`, `revertTransaction` -- the code;
  * `Admitted`, `Covered`, `Revertible` -- what an applied transaction has passed, and what
    reverting it needs;
  * `Books.Good.apply` -- applying keeps the books good;
  * **`applyTransaction_atomic`** -- applied as `Books.apply` says, or nothing happened;
  * **`revertTransaction_always`** -- what was applied can be reverted.
-/
import CoreEx.State.Consistency
import CoreEx.State.VoteBalances
import CoreEx.Transactions.MultiPayment
import CoreEx.Transactions.MultiSignatureRegistration
import CoreEx.Transactions.Transfer
import CoreEx.Transactions.ValidatorRegistration
import CoreEx.Transactions.ValidatorResignation
import CoreEx.Transactions.Vote

namespace CoreEx

open WalletRepository Base

/-! ## 1. The code -/

/-- The registered handlers, in the order of `app.json`. -/
def handlers : List TransactionHandler :=
  [ValidatorRegistrationTransactionHandler.handler, ValidatorResignationTransactionHandler.handler,
    MultiPaymentTransactionHandler.handler, MultiSignatureRegistrationTransactionHandler.handler,
    TransferTransactionHandler.handler, VoteTransactionHandler.handler]

/-- The wallet of `recipientId`, when there is one. -/
def findRecipient (d : TransactionData) : RepositoryProg (Option Address) :=
  match d.recipientId with
  | some recipientId => do
    let recipient ← findByAddress recipientId
    pure (some recipient)
  | none => pure none

/-- `applyTransaction`. -/
def applyTransaction (env : Services) (t : Transaction) : RepositoryProg Unit := do
  let transactionHandler ← Prog.ofExcept (getActivatedHandlerForData handlers t.data)
  transactionHandler.apply env t
  let publicKey ← assertDefined t.data.senderPublicKey
  let sender ← findByPublicKey env publicKey
  let recipient ← findRecipient t.data
  updateVoteBalances env sender recipient t.data false

/-- `revertTransaction`. -/
def revertTransaction (env : Services) (t : Transaction) : RepositoryProg Unit := do
  let transactionHandler ← Prog.ofExcept (getActivatedHandlerForData handlers t.data)
  let publicKey ← assertDefined t.data.senderPublicKey
  let sender ← findByPublicKey env publicKey
  let recipient ← findRecipient t.data
  transactionHandler.revert env t
  updateVoteBalances env sender recipient t.data true

/-! ## 2. The handler of a transaction -/

section Dispatch

variable {d : TransactionData} {x : TransactionHandler}

theorem handler_version (h : x ∈ handlers) : x.version = 1 := by
  simp only [handlers, List.mem_cons, List.not_mem_nil, or_false] at h
  rcases h with rfl | rfl | rfl | rfl | rfl | rfl <;> rfl

/-- The handler found is one of the six and has the type of the transaction. -/
theorem handler_found (hd : d.SchemaValid) (h : getActivatedHandlerForData handlers d = .ok x) :
    x ∈ handlers ∧ x.type = d.type := by
  unfold getActivatedHandlerForData getRegisteredHandlerByType at h
  split at h
  · rename_i y hy
    cases h
    refine ⟨List.mem_of_find?_eq_some hy, ?_⟩
    have hmatch := List.find?_some hy
    simp only [InternalTransactionType.from, hd.typeGroup, Option.getD_some, decide_eq_true_eq,
      InternalTransactionType.mk.injEq, and_true] at hmatch
    exact hmatch.1
  · cases h

/-- A type that has a handler finds it. -/
theorem handler_exists (hd : d.SchemaValid) (h : d.type ∈ handlers.map (·.type)) :
    ∃ x, getActivatedHandlerForData handlers d = .ok x := by
  obtain ⟨y, hy, htype⟩ := List.mem_map.1 h
  unfold getActivatedHandlerForData getRegisteredHandlerByType
  split
  · exact ⟨_, rfl⟩
  · rename_i hnone
    have hno := List.find?_eq_none.1 hnone y hy
    refine absurd ?_ hno
    simp [InternalTransactionType.from, hd.typeGroup, hd.version, htype, handler_version hy]

end Dispatch

/-! ## 3. What a transaction has passed -/

section Checks

variable {env : Services} {L : Ledger} {N : Names} {t : Transaction} {s : Address}

/-- What the checks make sure of, the balance apart. -/
structure Admitted (env : Services) (L : Ledger) (N : Names) (sender : Address)
    (t : Transaction) : Prop where
  known : t.data.type ∈ handlers.map (·.type)
  nonce : (L sender).nonce + 1 = nonceOf t
  vote : t.data.type = TransactionType.vote →
    VoteTransactionHandler.VoteAllowed env L sender t.data
  registration : t.data.type = TransactionType.validatorRegistration →
    ValidatorRegistrationTransactionHandler.RegistrationAllowed L N sender t.data
  resignation : t.data.type = TransactionType.validatorResignation →
    ValidatorResignationTransactionHandler.ResignationAllowed L sender
  multiSignature : t.data.type = TransactionType.multiSignature →
    MultiSignatureRegistrationTransactionHandler.AssetAllowed env L t.data
  multiPayment : t.data.type = TransactionType.multiPayment → t.data.payments.isSome

/-- The sender can pay. -/
structure Covered (L : Ledger) (sender : Address) (t : Transaction) : Prop where
  amount : 0 ≤ (L sender).balance - t.data.amount - t.data.fee
  payments : t.data.type = TransactionType.multiPayment →
    0 ≤ (L sender).balance - totalPayments (t.data.payments.getD []) - t.data.fee

/-- What `revertTransaction` needs of the accounts after the transaction, which later moves of
    amounts leave alone. -/
structure Revertible (env : Services) (L : Ledger) (sender : Address) (t : Transaction) :
    Prop where
  known : t.data.type ∈ handlers.map (·.type)
  nonce : (L sender).nonce = nonceOf t
  lists : t.data.type = TransactionType.vote → ∃ votes unvotes, t.data.votes = some votes ∧
    t.data.unvotes = some unvotes ∧ unvotes.length ≤ 1 ∧ 1 ≤ votes.length + unvotes.length
  vote : t.data.type = TransactionType.vote → (L sender).vote = (t.data.votes.getD []).head?
  validators : t.data.type = TransactionType.vote → ∀ k, (t.data.votes.getD []).head? = some k ∨
    (t.data.unvotes.getD []).head? = some k → (L (env.addressFromPublicKey k)).isValidator = true
  registration : t.data.type = TransactionType.validatorRegistration →
    ∀ a, L.delegate env a ≠ some sender
  multiSignature : t.data.type = TransactionType.multiSignature →
    ∃ asset k, t.data.multiSignature = some asset ∧
      env.publicKeyFromMultiSignatureAsset asset = .ok k
  multiPayment : t.data.type = TransactionType.multiPayment → t.data.payments.isSome

theorem Admitted.reversible (h : Admitted env L N s t) : Reversible env L s t := by
  refine ⟨h.nonce, fun hv => (h.vote hv).present, fun hr => ?_, fun hr => ?_,
    fun hm asset k hasset hk => ?_⟩
  · simpa [Account.isValidator] using (h.registration hr).fresh
  · exact ⟨(h.resignation hr).validator, (h.resignation hr).active⟩
  · obtain ⟨asset', k', hasset', hk', hnone⟩ := (h.multiSignature hm).fresh
    obtain rfl : asset = asset' := Option.some.inj (hasset.symm.trans hasset')
    obtain rfl : k = k' := Except.ok.inj (hk.symm.trans hk')
    exact hnone

/-- **The handler applies the transaction as a whole or not at all**, as its check decides. -/
theorem handler_apply_decided {x : TransactionHandler} {k : PublicKey} (hd : t.data.SchemaValid)
    (hL : L.Consistent env) (hk : t.data.senderPublicKey = some k)
    (hx : getActivatedHandlerForData handlers t.data = .ok x) :
    Prog.Decided (Stands env) (L, N) (x.apply env t)
      (fun _ => Admitted env L N (env.addressFromPublicKey k) t ∧
        Covered L (env.addressFromPublicKey k) t)
      (handled env t (env.addressFromPublicKey k) (L, N))
      fun r => ((checked x.throwIfCannotBeApplied env t k).run r).isDone = true := by
  obtain ⟨hmem, htype⟩ := handler_found hd hx
  have hknown : t.data.type ∈ handlers.map (·.type) := htype ▸ List.mem_map_of_mem hmem
  simp only [handlers, List.mem_cons, List.not_mem_nil, or_false] at hmem
  rcases hmem with rfl | rfl | rfl | rfl | rfl | rfl
  · have ht : t.data.type = TransactionType.validatorRegistration := htype.symm
    refine (ValidatorRegistrationTransactionHandler.registration_apply_decided ht hd.nonce hk).mono
      fun _ hq => ⟨⟨hknown, hq.1.nonce, ?_, fun _ => hq.2, ?_, ?_, ?_⟩, hq.1.balance, ?_⟩
    all_goals intro h; rw [ht] at h; cases h
  · have ht : t.data.type = TransactionType.validatorResignation := htype.symm
    refine (ValidatorResignationTransactionHandler.resignation_apply_decided ht hd.nonce hk
      (hL.username _)).mono
      fun _ hq => ⟨⟨hknown, hq.1.nonce, ?_, ?_, fun _ => hq.2, ?_, ?_⟩, hq.1.balance, ?_⟩
    all_goals intro h; rw [ht] at h; cases h
  · have ht : t.data.type = TransactionType.multiPayment := htype.symm
    refine (MultiPaymentTransactionHandler.multiPayment_apply_decided ht hd.nonce hk).mono
      fun _ hq => ?_
    obtain ⟨hspend, payments, hp, hbalance⟩ := hq
    refine ⟨⟨hknown, hspend.nonce, ?_, ?_, ?_, ?_, fun _ => by rw [hp]; rfl⟩, hspend.balance,
      fun _ => by rw [hp]; exact hbalance⟩
    all_goals intro h; rw [ht] at h; cases h
  · have ht : t.data.type = TransactionType.multiSignature := htype.symm
    refine (MultiSignatureRegistrationTransactionHandler.multiSignature_apply_decided ht hd.nonce
      hk).mono fun _ hq => ⟨⟨hknown, hq.1.nonce, ?_, ?_, ?_, fun _ => hq.2, ?_⟩, hq.1.balance, ?_⟩
    all_goals intro h; rw [ht] at h; cases h
  · have ht : t.data.type = TransactionType.transfer := htype.symm
    refine (TransferTransactionHandler.transfer_apply_decided ht hd.nonce hk
      (hd.recipientId ht)).mono fun _ hq => ⟨⟨hknown, hq.nonce, ?_, ?_, ?_, ?_, ?_⟩, hq.balance, ?_⟩
    all_goals intro h; rw [ht] at h; cases h
  · have ht : t.data.type = TransactionType.vote := htype.symm
    refine (VoteTransactionHandler.vote_apply_decided ht hd.nonce hk).mono
      fun _ hq => ⟨⟨hknown, hq.1.nonce, fun _ => hq.2, ?_, ?_, ?_, ?_⟩, hq.1.balance, ?_⟩
    all_goals intro h; rw [ht] at h; cases h

end Checks

/-! ## 4. The vote balances complete what the handler did -/

section Follow

variable {env : Services} {L : Ledger} {N : Names} {t : Transaction} {s : Address}

/-- Nobody follows an account that is no validator. -/
theorem posted_followed_eq_zero (hL : L.Consistent env) {a : Address}
    (ha : (L a).isValidator = false) (ps : List (Address × Int)) :
    posted (followed (L.delegate env) ps) a = 0 := by
  induction ps with
  | nil => rfl
  | cons p ps ih =>
    have hne : ¬ L.delegate env p.1 = some a := by
      intro h
      rw [hL.votes _ _ h] at ha
      cases ha
    rw [posted_followed_cons, if_neg hne, ih, zero_add]

/-- **After the handler, the vote balances make up `Ledger.apply`.** -/
theorem addVotes_handled (hd : t.data.SchemaValid) (hL : L.Consistent env)
    (h : Admitted env L N s t) :
    (handled env t s (L, N)).1.addVotes
      (voteChanges env (handled env t s (L, N)).1 s t.data false) = L.apply env t s := by
  have hdel : (L.bump s (nonceOf t)).delegate env = L.delegate env :=
    Ledger.delegate_change _ (by intro _; rfl) env s L
  unfold voteChanges
  by_cases hv : t.data.type = TransactionType.vote
  · have hnt : ¬ t.data.type = TransactionType.transfer := by
      rw [hv]
      decide
    have hnm : ¬ t.data.type = TransactionType.multiPayment := by
      rw [hv]
      decide
    have hpresent : L.delegate env s =
        (t.data.unvotes.getD []).head?.map env.addressFromPublicKey := by
      rw [← (h.vote hv).present]
      rfl
    have hbal : (handled env t s (L, N)).1 s =
        ((((L.bump s (nonceOf t)).post (entries t.data s)) s).setVote
          (t.data.votes.getD []).head?) := by
      simp only [handled, shape, if_pos hv, Ledger.change_self]
    simp only [if_pos hv, hbal]
    unfold Ledger.apply
    simp only [if_pos hv]
    unfold Ledger.redelegate Ledger.move
    rw [← Ledger.change_addVotes (·.setVote (t.data.votes.getD []).head?) (by intro _ _; rfl),
      ← Ledger.addVotes_append]
    simp only [handled, shape, if_pos hv]
    refine Ledger.addVotes_congr (fun a => ?_) _
    rw [posted_append, posted_append, Ledger.posted_shift, posted_postVote, posted_postVote,
      Ledger.delegate_addVotes, Ledger.delegate_post, hdel, hpresent]
    have hentries : posted (followed (L.delegate env) (entries t.data s)) a =
        if L.delegate env s = some a then -(t.data.amount + t.data.fee) else 0 := by
      unfold entries transferred
      rw [if_neg hnt, if_neg hnm, posted_followed_one]
    rw [hentries, hpresent, hd.amount_zero hnt]
    simp only [direction, Account.setVote, Ledger.addVotes, Account.addVoteBalance_balance]
    by_cases h₁ : (t.data.unvotes.getD []).head?.map env.addressFromPublicKey = some a
    · by_cases h₂ : (t.data.votes.getD []).head?.map env.addressFromPublicKey = some a
      · simp only [h₁, h₂, if_true, Bool.false_eq_true, if_false]
        omega
      · simp only [h₁, h₂, if_true, Bool.false_eq_true, if_false]
        omega
    · simp only [h₁, if_false, Bool.false_eq_true]
      split <;> omega
  · simp only [if_neg hv]
    unfold Ledger.apply
    simp only [if_neg hv]
    unfold Ledger.move
    have hreg : t.data.type = TransactionType.validatorRegistration →
        posted (followed (L.delegate env) (entries t.data s)) s = 0 :=
      fun hr => posted_followed_eq_zero hL (h.registration hr).fresh _
    rw [hdel, ← shape_addVotes hv hreg]
    refine Ledger.addVotes_congr (fun a => ?_) _
    have hdel' : (handled env t s (L, N)).1.delegate env = L.delegate env := by
      show (shape env t.data s _).delegate env = _
      rw [shape_delegate hv, Ledger.delegate_post, hdel]
    rw [hdel', posted_followedEntries hd]
    exact one_mul _

/-- **After the handler's way back, the vote balances make up `Ledger.revert`.** -/
theorem addVotes_unhandled (hd : t.data.SchemaValid)
    (hvote : t.data.type = TransactionType.vote → (L s).vote = (t.data.votes.getD []).head?) :
    (unhandled env t s (L, N)).1.addVotes
      (voteChanges env (unhandled env t s (L, N)).1 s t.data true) = L.revert env t s := by
  have hdel : (L.bump s (nonceOf t - 1)).delegate env = L.delegate env :=
    Ledger.delegate_change _ (by intro _; rfl) env s L
  unfold voteChanges
  by_cases hv : t.data.type = TransactionType.vote
  · have hnt : ¬ t.data.type = TransactionType.transfer := by
      rw [hv]
      decide
    have hnm : ¬ t.data.type = TransactionType.multiPayment := by
      rw [hv]
      decide
    have hpresent : L.delegate env s =
        (t.data.votes.getD []).head?.map env.addressFromPublicKey := by
      rw [← hvote hv]
      rfl
    have hentries : negated (entries t.data s) = [(s, t.data.fee)] := by
      unfold entries transferred
      rw [if_neg hnt, if_neg hnm, hd.amount_zero hnt]
      simp [negated]
    have hbal : ((unhandled env t s (L, N)).1 s).balance = (L s).balance + t.data.fee := by
      simp only [unhandled, unshape, if_pos hv, Ledger.change_self, hentries]
      simp [Account.setVote, Ledger.post, Account.increaseBalance, Account.setBalance,
        posted_cons, Ledger.bump, Account.setNonce]
    simp only [if_pos hv, hbal]
    unfold Ledger.revert
    simp only [if_pos hv]
    unfold Ledger.move
    rw [Ledger.redelegate_delegate, hdel]
    unfold Ledger.redelegate
    rw [Ledger.addVotes_post, ← Ledger.addVotes_append,
      Ledger.change_post (·.setVote (t.data.unvotes.getD []).head?) (by intro _ _; rfl)]
    simp only [unhandled, unshape, if_pos hv]
    refine Ledger.addVotes_congr (fun a => ?_) _
    rw [posted_append, posted_append, Ledger.posted_shift, posted_postVote, posted_postVote, hentries,
      posted_followed_one, Function.update_self, hdel, hpresent]
    have hback : ((L.bump s (nonceOf t - 1)) s).balance = (L s).balance := by
      simp [Ledger.bump, Account.setNonce]
    rw [hback]
    simp only [direction, if_true]
    by_cases h₁ : (t.data.unvotes.getD []).head?.map env.addressFromPublicKey = some a
    · by_cases h₂ : (t.data.votes.getD []).head?.map env.addressFromPublicKey = some a
      · simp only [h₁, h₂, if_true]
        omega
      · simp only [h₁, h₂, if_true, if_false]
        omega
    · simp only [h₁, if_false]
      split <;> omega
  · simp only [if_neg hv]
    unfold Ledger.revert
    simp only [if_neg hv]
    unfold Ledger.move
    rw [unshape_post hv, unshape_delegate hv, hdel]
    refine Ledger.addVotes_congr (fun a => ?_) _
    have hdel' : (unhandled env t s (L, N)).1.delegate env = L.delegate env := by
      show (unshape env t.data s _).delegate env = _
      rw [unshape_delegate hv, Ledger.delegate_post, hdel]
    rw [hdel', posted_followedEntries hd, followed_negated, posted_negated]
    exact neg_one_mul _

end Follow

/-! ## 5. The accounts after a transaction -/

section After

variable {env : Services} {L : Ledger} {N : Names} {t : Transaction} {s : Address}

theorem bump_read {β : Type} (read : Account → β) (h : ∀ w n, read (Account.setNonce n w) = read w)
    (n : Int) (a : Address) : read (L.bump s n a) = read (L a) := by
  unfold Ledger.bump
  rw [Ledger.change_apply]
  split
  · exact h _ _
  · rfl

/-- The accounts before the one thing changes. -/
def moved (env : Services) (t : Transaction) (s : Address) (L : Ledger) : Ledger :=
  (L.bump s (nonceOf t)).move env (entries t.data s)

/-- What `moved` leaves alone. -/
theorem moved_read {β : Type} (read : Account → β)
    (hnonce : ∀ w n, read (Account.setNonce n w) = read w)
    (hinc : ∀ w x, read (Account.increaseBalance x w) = read w)
    (hadd : ∀ w δ, read (Account.addVoteBalance δ w) = read w) (a : Address) :
    read (moved env t s L a) = read (L a) :=
  (Ledger.move_read read hinc hadd env _ _ a).trans (bump_read read hnonce _ a)

theorem moved_isValidator (a : Address) :
    (moved env t s L a).isValidator = (L a).isValidator :=
  moved_read (·.isValidator) (fun _ _ => rfl) (fun _ _ => rfl) Account.addVoteBalance_isValidator a

theorem moved_username (a : Address) : (moved env t s L a).username = (L a).username :=
  moved_read (·.username) (fun _ _ => rfl) (fun _ _ => rfl) Account.addVoteBalance_username a

theorem moved_isResigned (a : Address) : (moved env t s L a).isResigned = (L a).isResigned :=
  moved_read (·.isResigned) (fun _ _ => rfl) (fun _ _ => rfl) Account.addVoteBalance_isResigned a

theorem moved_nonce : (moved env t s L s).nonce = nonceOf t := by
  unfold moved
  rw [Ledger.move_nonce, Ledger.bump, Ledger.change_self]
  rfl

theorem moved_consistent (hL : L.Consistent env) : (moved env t s L).Consistent env :=
  Ledger.Consistent.move (hL.change rfl rfl rfl rfl) _

theorem apply_nonce : (L.apply env t s s).nonce = nonceOf t := by
  unfold Ledger.apply
  by_cases hv : t.data.type = TransactionType.vote
  · simp only [if_pos hv]
    rw [Ledger.redelegate_read (·.nonce) (fun _ _ => rfl) (fun _ _ => rfl)]
    exact moved_nonce
  · simp only [if_neg hv]
    obtain ⟨a, f, hf, hshape⟩ := shape_inert (s := s) hv
    rw [hshape, Ledger.change_apply]
    split
    · rw [hf.nonce]
      exact moved_nonce
    · exact moved_nonce

theorem apply_vote (hv : t.data.type = TransactionType.vote) :
    (L.apply env t s s).vote = (t.data.votes.getD []).head? := by
  unfold Ledger.apply
  simp only [if_pos hv]
  rw [Ledger.redelegate_vote, if_pos rfl]

theorem apply_delegate (hv : t.data.type ≠ TransactionType.vote) :
    (L.apply env t s).delegate env = L.delegate env := by
  unfold Ledger.apply
  simp only [if_neg hv]
  rw [shape_delegate hv, Ledger.delegate_move]
  exact Ledger.delegate_change _ (by intro _; rfl) env s L

/-- Usernames and resignations change only where the handler indexes anew. -/
theorem apply_names (a : Address) (h : ¬ (reindexes t.data ∧ a = s)) :
    (L.apply env t s a).username = (L a).username ∧
      (L.apply env t s a).isResigned = (L a).isResigned := by
  have hmoved : (moved env t s L a).username = (L a).username ∧
      (moved env t s L a).isResigned = (L a).isResigned :=
    ⟨moved_username a, moved_isResigned a⟩
  unfold Ledger.apply shape
  by_cases hv : t.data.type = TransactionType.vote
  · simp only [if_pos hv]
    rw [Ledger.redelegate_read (·.username) (fun _ _ => rfl) Account.addVoteBalance_username,
      Ledger.redelegate_read (·.isResigned) (fun _ _ => rfl) Account.addVoteBalance_isResigned]
    exact hmoved
  simp only [if_neg hv]
  by_cases h₁ : t.data.type = TransactionType.validatorRegistration
  · simp only [if_pos h₁]
    rw [Ledger.change_of_ne fun e => h ⟨Or.inl h₁, e⟩]
    exact hmoved
  simp only [if_neg h₁]
  by_cases h₂ : t.data.type = TransactionType.validatorResignation
  · simp only [if_pos h₂]
    rw [Ledger.change_of_ne fun e => h ⟨Or.inr h₂, e⟩]
    exact hmoved
  simp only [if_neg h₂]
  by_cases h₃ : t.data.type = TransactionType.multiSignature
  · simp only [if_pos h₃]
    rcases t.data.multiSignature.map env.publicKeyFromMultiSignatureAsset with _ | _ | k
    · exact hmoved
    · exact hmoved
    · simp only [Ledger.change_apply]
      split
      · exact hmoved
      · exact hmoved
  · simp only [if_neg h₃]
    exact hmoved

theorem setResigned_of_validator {w : Account} (h : w.isValidator = true) :
    w.setResigned.username = w.username ∧ w.setResigned.voteBalance? = w.voteBalance? := by
  obtain ⟨b, n, vote, ms, v⟩ := w
  cases v with
  | none => cases h
  | some v => exact ⟨rfl, rfl⟩

/-- **Applying keeps the accounts consistent.** -/
theorem Admitted.consistent (hL : L.Consistent env) (h : Admitted env L N s t) :
    (L.apply env t s).Consistent env := by
  have hM : (moved env t s L).Consistent env := moved_consistent hL
  unfold Ledger.apply shape
  by_cases hv : t.data.type = TransactionType.vote
  · simp only [if_pos hv]
    refine hM.redelegate s fun k hk => ?_
    rw [moved_isValidator]
    exact (h.vote hv).validators k (Or.inl hk)
  simp only [if_neg hv]
  by_cases h₁ : t.data.type = TransactionType.validatorRegistration
  · simp only [if_pos h₁]
    obtain ⟨username, hu, -⟩ := (h.registration h₁).free
    refine ⟨fun a ha => ?_, fun a ha => ?_, fun a b hb => ?_⟩
    · rw [Ledger.change_apply] at ha ⊢
      by_cases has : a = s
      · rw [if_pos has, hu]
        rfl
      · rw [if_neg has] at ha ⊢
        exact hM.username a ha
    · rw [Ledger.change_apply] at ha ⊢
      by_cases has : a = s
      · rw [if_pos has]
        rfl
      · rw [if_neg has] at ha ⊢
        exact hM.voteBalance a ha
    · rw [Ledger.delegate_change _ (by intro _; rfl)] at hb
      rw [Ledger.change_apply]
      split
      · rfl
      · exact hM.votes a b hb
  simp only [if_neg h₁]
  by_cases h₂ : t.data.type = TransactionType.validatorResignation
  · simp only [if_pos h₂]
    have hval : (moved env t s L s).isValidator = true := by
      rw [moved_isValidator]
      exact (h.resignation h₂).validator
    refine hM.change rfl ?_ (setResigned_of_validator hval).1 (setResigned_of_validator hval).2
    rw [hval]
    rfl
  simp only [if_neg h₂]
  by_cases h₃ : t.data.type = TransactionType.multiSignature
  · simp only [if_pos h₃]
    split
    · exact hM.change rfl rfl rfl rfl
    · exact hM
  · simp only [if_neg h₃]
    exact hM

/-- The name the sender has after a registration or a resignation was free or its own. -/
theorem Admitted.name_free (hb : Books.Good env (L, N)) (h : Admitted env L N s t)
    (hre : reindexes t.data) (u : String) (hu : (L.apply env t s s).username = some u) :
    N.usernames u = none ∨ N.usernames u = some s := by
  unfold Ledger.apply shape at hu
  rcases hre with h₁ | h₂
  · have hv : ¬ t.data.type = TransactionType.vote := by
      rw [h₁]
      decide
    simp only [if_neg hv, if_pos h₁, Ledger.change_self] at hu
    obtain ⟨username, hname, hfree⟩ := (h.registration h₁).free
    have hsame : username = u := Option.some.inj (hname.symm.trans hu)
    exact Or.inl (hsame ▸ hfree)
  · have hv : ¬ t.data.type = TransactionType.vote := by
      rw [h₂]
      decide
    have h₁ : ¬ t.data.type = TransactionType.validatorRegistration := by
      rw [h₂]
      decide
    simp only [if_neg hv, if_neg h₁, if_pos h₂, Ledger.change_self] at hu
    have hval : (moved env t s L s).isValidator = true := by
      rw [moved_isValidator]
      exact (h.resignation h₂).validator
    have hown : (L s).username = some u := by
      rw [← moved_username (t := t) (s := s), ← (setResigned_of_validator hval).1]
      exact hu
    exact Or.inr ((hb.agrees.usernames u s).2 hown)

/-- **Applying keeps the books good.** -/
theorem Books.Good.apply (hb : Books.Good env (L, N)) (h : Admitted env L N s t) :
    Books.Good env (Books.apply env t s (L, N)) := by
  refine ⟨h.consistent hb.consistent, ?_⟩
  unfold Books.apply
  by_cases hre : reindexes t.data
  · simp only [if_pos hre]
    exact hb.agrees.reindex (fun a ha => apply_names a fun hc => ha hc.2) (h.name_free hb hre)
  · simp only [if_neg hre]
    exact hb.agrees.congr (fun a => (apply_names a fun hc => hre hc.1).1) fun a =>
      (apply_names a fun hc => hre hc.1).2

/-- Reverting takes applying back, names included. -/
theorem Books.revert_apply (hb : Books.Good env (L, N)) (h : Admitted env L N s t) :
    Books.revert env t s (Books.apply env t s (L, N)) = (L, N) := by
  have hL : (L.apply env t s).revert env t s = L := Ledger.revert_apply h.reversible
  unfold Books.revert Books.apply
  by_cases hre : reindexes t.data
  · simp only [if_pos hre, hL]
    rw [Names.reindex_back hb.agrees (h.name_free hb hre)]
  · simp only [if_neg hre, hL]

end After

/-! ## 6. The code does it -/

section Correct

variable {env : Services} {L : Ledger} {N : Names} {t : Transaction} {k : PublicKey}

theorem findRecipient_always (d : TransactionData) :
    Prog.Always (Stands env) (L, N) (findRecipient d) (fun r => r = d.recipientId) (L, N) := by
  unfold findRecipient
  cases d.recipientId with
  | none => exact Prog.Always.pure rfl
  | some a =>
    refine (findByAddress_always a).bind fun b hb => ?_
    subst hb
    exact Prog.Always.pure rfl

/-- Changing the one thing takes no vote balance away, but for the way back of a registration. -/
theorem handled_voteBalance {s a : Address} (h : (L a).voteBalance?.isSome = true) :
    ((handled env t s (L, N)).1 a).voteBalance?.isSome = true := by
  have hbase : ((L.bump s (nonceOf t)).post (entries t.data s) a).voteBalance?.isSome = true :=
    (bump_read (·.voteBalance?.isSome) (fun _ _ => rfl) _ a).trans h
  show (shape env t.data s _ a).voteBalance?.isSome = true
  unfold shape
  by_cases hv : t.data.type = TransactionType.vote
  · simp only [if_pos hv, Ledger.change_apply]
    split
    · exact hbase
    · exact hbase
  simp only [if_neg hv]
  by_cases h₁ : t.data.type = TransactionType.validatorRegistration
  · simp only [if_pos h₁, Ledger.change_apply]
    split
    · rfl
    · exact hbase
  simp only [if_neg h₁]
  by_cases h₂ : t.data.type = TransactionType.validatorResignation
  · simp only [if_pos h₂, Ledger.change_apply]
    split
    · generalize (L.bump s (nonceOf t)).post (entries t.data s) a = w at hbase
      obtain ⟨b, n, vote, ms, v⟩ := w
      cases v with
      | none => cases hbase
      | some v => exact hbase
    · exact hbase
  simp only [if_neg h₂]
  by_cases h₃ : t.data.type = TransactionType.multiSignature
  · simp only [if_pos h₃]
    rcases t.data.multiSignature.map env.publicKeyFromMultiSignatureAsset with _ | _ | k
    · exact hbase
    · exact hbase
    · simp only [Ledger.change_apply]
      split
      · exact hbase
      · exact hbase
  · simp only [if_neg h₃]
    exact hbase

theorem unhandled_voteBalance {s a : Address} (h : (L a).voteBalance?.isSome = true)
    (hne : t.data.type = TransactionType.validatorRegistration → a ≠ s) :
    ((unhandled env t s (L, N)).1 a).voteBalance?.isSome = true := by
  have hbase : ((L.bump s (nonceOf t - 1)).post (negated (entries t.data s))
      a).voteBalance?.isSome = true :=
    (bump_read (·.voteBalance?.isSome) (fun _ _ => rfl) _ a).trans h
  show (unshape env t.data s _ a).voteBalance?.isSome = true
  unfold unshape
  by_cases hv : t.data.type = TransactionType.vote
  · simp only [if_pos hv, Ledger.change_apply]
    split
    · exact hbase
    · exact hbase
  simp only [if_neg hv]
  by_cases h₁ : t.data.type = TransactionType.validatorRegistration
  · simp only [if_pos h₁, Ledger.change_apply, if_neg (hne h₁)]
    exact hbase
  simp only [if_neg h₁]
  by_cases h₂ : t.data.type = TransactionType.validatorResignation
  · simp only [if_pos h₂, Ledger.change_apply]
    split
    · generalize (L.bump s (nonceOf t - 1)).post (negated (entries t.data s)) a = w at hbase
      obtain ⟨b, n, vote, ms, v⟩ := w
      cases v with
      | none => cases hbase
      | some v => exact hbase
    · exact hbase
  simp only [if_neg h₂]
  by_cases h₃ : t.data.type = TransactionType.multiSignature
  · simp only [if_pos h₃]
    rcases t.data.multiSignature.map env.publicKeyFromMultiSignatureAsset with _ | _ | k
    · exact hbase
    · exact hbase
    · simp only [Ledger.change_apply]
      split
      · exact hbase
      · exact hbase
  · simp only [if_neg h₃]
    exact hbase

theorem handled_names {s : Address} (hd : t.data.SchemaValid) (hL : L.Consistent env)
    (h : Admitted env L N s t) :
    ((handled env t s (L, N)).1.addVotes (voteChanges env (handled env t s (L, N)).1 s t.data
      false), (handled env t s (L, N)).2) = Books.apply env t s (L, N) := by
  have hL' := addVotes_handled hd hL h
  rw [hL']
  unfold Books.apply
  refine Prod.ext rfl ?_
  show (if reindexes t.data then N.reindex s ((handled env t s (L, N)).1 s) else N) =
    if reindexes t.data then N.reindex s (L.apply env t s s) else N
  rw [← hL', Names.reindex_congr (Ledger.addVotes_username _ _ s)
    (Ledger.addVotes_isResigned _ _ s)]

theorem unhandled_names {s : Address} (hd : t.data.SchemaValid)
    (hvote : t.data.type = TransactionType.vote → (L s).vote = (t.data.votes.getD []).head?) :
    ((unhandled env t s (L, N)).1.addVotes (voteChanges env (unhandled env t s (L, N)).1 s t.data
      true), (unhandled env t s (L, N)).2) = Books.revert env t s (L, N) := by
  have hL' := @addVotes_unhandled env L N t s hd hvote
  rw [hL']
  unfold Books.revert
  refine Prod.ext rfl ?_
  show (if reindexes t.data then N.reindex s ((unhandled env t s (L, N)).1 s) else N) =
    if reindexes t.data then N.reindex s (L.revert env t s s) else N
  rw [← hL', Names.reindex_congr (Ledger.addVotes_username _ _ s)
    (Ledger.addVotes_isResigned _ _ s)]

/-- **`applyTransaction` applies the transaction, or throws and leaves the books alone.** -/
theorem applyTransaction_atomic (hd : t.data.SchemaValid) (hL : L.Consistent env)
    (hk : t.data.senderPublicKey = some k) :
    Prog.Atomic (Stands env) (L, N) (applyTransaction env t)
      (fun _ => Admitted env L N (env.addressFromPublicKey k) t ∧
        Covered L (env.addressFromPublicKey k) t)
      (Books.apply env t (env.addressFromPublicKey k) (L, N)) := by
  unfold applyTransaction
  refine Prog.Atomic.ofExcept.check fun x hx => ?_
  refine (handler_apply_decided hd hL hk hx).atomic.andAlways fun _ hq => ?_
  rw [← handled_names hd hL hq.1]
  generalize hH : handled env t (env.addressFromPublicKey k) (L, N) = H
  obtain ⟨LH, NH⟩ := H
  have hsome : ∀ a, (L a).voteBalance?.isSome = true → (LH a).voteBalance?.isSome = true := by
    intro a ha
    have h := @handled_voteBalance env L N t (env.addressFromPublicKey k) a ha
    rwa [hH] at h
  refine (assertDefined_some hk).bind fun k' hk' => ?_
  subst hk'
  refine (findByPublicKey_always k').bind fun a ha => ?_
  subst ha
  refine (findRecipient_always _).bind fun recipient hr => ?_
  subst hr
  refine (updateVoteBalances_always hd (fun hv a b hb => ?_) (fun hv => ?_) (fun hv k hk => ?_)
    hq.1.multiPayment false).mono fun _ _ => hq
  · have hdel : LH.delegate env = L.delegate env := by
      have hfst : LH = (handled env t (env.addressFromPublicKey k') (L, N)).1 := by rw [hH]
      rw [hfst]
      show (shape env t.data _ _).delegate env = _
      rw [shape_delegate hv, Ledger.delegate_post]
      exact Ledger.delegate_change _ (by intro _; rfl) env _ L
    rw [hdel] at hb
    exact hsome b (hL.voteBalance b (hL.votes a b hb))
  · obtain ⟨votes, unvotes, hvotes, hunvotes, -⟩ := (hq.1.vote hv).lists
    rw [hvotes, hunvotes]
    exact ⟨rfl, rfl⟩
  · exact hsome _ (hL.voteBalance _ ((hq.1.vote hv).validators k hk))

/-- The handler's way back. -/
theorem handler_revert_always {x : TransactionHandler} (hd : t.data.SchemaValid)
    (hL : L.Consistent env) (h : Revertible env L (env.addressFromPublicKey k) t)
    (hk : t.data.senderPublicKey = some k)
    (hx : getActivatedHandlerForData handlers t.data = .ok x) :
    Prog.Always (Stands env) (L, N) (x.revert env t) (fun _ => True)
      (unhandled env t (env.addressFromPublicKey k) (L, N)) := by
  obtain ⟨hmem, htype⟩ := handler_found hd hx
  simp only [handlers, List.mem_cons, List.not_mem_nil, or_false] at hmem
  rcases hmem with rfl | rfl | rfl | rfl | rfl | rfl
  · exact ValidatorRegistrationTransactionHandler.registration_revert_always htype.symm hk h.nonce
  · exact ValidatorResignationTransactionHandler.resignation_revert_always htype.symm hk
      (hL.username _) h.nonce
  · obtain ⟨payments, hp⟩ := Option.isSome_iff_exists.1 (h.multiPayment htype.symm)
    exact MultiPaymentTransactionHandler.multiPayment_revert_always htype.symm hk hp h.nonce
  · obtain ⟨asset, mk, ha, hm⟩ := h.multiSignature htype.symm
    exact MultiSignatureRegistrationTransactionHandler.multiSignature_revert_always htype.symm hk
      ha hm h.nonce
  · exact TransferTransactionHandler.transfer_revert_always htype.symm hk
      (hd.recipientId htype.symm) h.nonce
  · obtain ⟨votes, unvotes, hvotes, hunvotes, hlen, hne⟩ := h.lists htype.symm
    exact VoteTransactionHandler.vote_revert_always htype.symm hk hvotes hunvotes hlen hne h.nonce

/-- **`revertTransaction` reverts as `Books.revert` says, and does not throw.** -/
theorem revertTransaction_always (hd : t.data.SchemaValid) (hL : L.Consistent env)
    (h : Revertible env L (env.addressFromPublicKey k) t) (hk : t.data.senderPublicKey = some k) :
    Prog.Always (Stands env) (L, N) (revertTransaction env t) (fun _ => True)
      (Books.revert env t (env.addressFromPublicKey k) (L, N)) := by
  rw [← unhandled_names hd h.vote]
  obtain ⟨x, hx⟩ := handler_exists hd h.known
  unfold revertTransaction
  have hfound : Prog.Always (Stands env) (L, N)
      (Prog.ofExcept (getActivatedHandlerForData handlers t.data) :
        RepositoryProg TransactionHandler) (fun y => y = x) (L, N) := by
    rw [hx]
    exact Prog.Always.pure rfl
  refine hfound.bind fun y hy => ?_
  subst hy
  refine (assertDefined_some hk).bind fun k' hk' => ?_
  subst hk'
  refine (findByPublicKey_always k').bind fun a ha => ?_
  subst ha
  refine (findRecipient_always _).bind fun recipient hr => ?_
  subst hr
  refine (handler_revert_always hd hL h hk hx).bind fun _ _ => ?_
  have hsome : ∀ a, (L a).isValidator = true →
      (t.data.type = TransactionType.validatorRegistration → a ≠ env.addressFromPublicKey k') →
      ((unhandled env t (env.addressFromPublicKey k') (L, N)).1 a).voteBalance?.isSome = true :=
    fun a ha hne => unhandled_voteBalance (hL.voteBalance a ha) hne
  have hdel : t.data.type ≠ TransactionType.vote →
      (unhandled env t (env.addressFromPublicKey k') (L, N)).1.delegate env = L.delegate env := by
    intro hv
    show (unshape env t.data _ _).delegate env = _
    rw [unshape_delegate hv, Ledger.delegate_post]
    exact Ledger.delegate_change _ (by intro _; rfl) env _ _
  refine updateVoteBalances_always hd (fun hv a b hab => ?_) (fun hv => ?_) (fun hv k hk => ?_)
    h.multiPayment true
  · have hfollow : L.delegate env a = some b := (congrFun (hdel hv) a).symm.trans hab
    exact hsome b (hL.votes a b hfollow) fun hr hb => h.registration hr a (hb ▸ hfollow)
  · obtain ⟨votes, unvotes, hvotes, hunvotes, -⟩ := h.lists hv
    rw [hvotes, hunvotes]
    exact ⟨rfl, rfl⟩
  · refine hsome _ (h.validators hv k hk) fun hr => ?_
    rw [hv] at hr
    cases hr

/-- What was applied can be reverted. -/
theorem Admitted.revertible {s : Address} (hL : L.Consistent env) (h : Admitted env L N s t) :
    Revertible env (L.apply env t s) s t := by
  refine ⟨h.known, apply_nonce, fun hv => ?_, apply_vote, fun hv k hk => ?_, fun hr a ha => ?_,
    fun hm => ?_, h.multiPayment⟩
  · obtain ⟨votes, unvotes, hvotes, hunvotes, -, hlen, hne⟩ := (h.vote hv).lists
    exact ⟨votes, unvotes, hvotes, hunvotes, hlen, hne⟩
  · have hval := (h.vote hv).validators k hk
    unfold Ledger.apply
    simp only [if_pos hv]
    rw [Ledger.redelegate_read (·.isValidator) (fun _ _ => rfl) Account.addVoteBalance_isValidator]
    exact (moved_isValidator _).trans hval
  · have hv : t.data.type ≠ TransactionType.vote := by
      rw [hr]
      decide
    rw [apply_delegate hv] at ha
    have hval := hL.votes a s ha
    rw [(h.registration hr).fresh] at hval
    cases hval
  · obtain ⟨asset, k, hasset, hk, -⟩ := (h.multiSignature hm).fresh
    exact ⟨asset, k, hasset, hk⟩

theorem Revertible.move {s : Address} (h : Revertible env L s t) (ps : List (Address × Int)) :
    Revertible env (L.move env ps) s t := by
  refine ⟨h.known, h.nonce, h.lists, h.vote, fun hv k hk => ?_, h.registration, h.multiSignature,
    h.multiPayment⟩
  rw [Ledger.move_isValidator]
  exact h.validators hv k hk

end Correct

end CoreEx
