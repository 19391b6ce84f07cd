/-
  File:      CoreEx/Transactions/Effect.lean
  Subject:   What a transaction does to the ledger, as one formula over the six types.

  Every transaction advances the sender's nonce and makes postings: the sender pays amount and
  fee, a transfer pays its recipient, a multi-payment pays a list. Beyond that each of four types
  changes one thing. The vote balances come later, in `BlockState`, so there are two formulas:
  `handled` is the state between handler and vote balances, `Ledger.apply` the state after both.

  * `entries` -- the postings of a transaction;
  * `shape`, `unshape` -- the one thing it changes, and back;
  * `handled`, `unhandled` -- what the handlers do;
  * `Ledger.apply`, `Ledger.revert` -- what a transaction is for;
  * **`Ledger.revert_apply`** -- reverting takes applying back.
-/
import CoreEx.Transactions.TransactionHandler

namespace CoreEx

open Base

/-! ## 1. Postings -/

/-- `payments.reduce((a, p) => a.plus(p.amount), BigNumber.ZERO)`. -/
def totalPayments (payments : List MultiPaymentItem) : Int :=
  payments.foldl (fun a p => a + p.amount) 0

theorem foldl_payments (payments : List MultiPaymentItem) (x : Int) :
    payments.foldl (fun a p => a + p.amount) x = x + totalPayments payments := by
  induction payments generalizing x with
  | nil => simp [totalPayments]
  | cons p ps ih =>
    unfold totalPayments
    rw [List.foldl_cons, List.foldl_cons, ih, ih (0 + p.amount)]
    omega

theorem totalPayments_cons (p : MultiPaymentItem) (ps : List MultiPaymentItem) :
    totalPayments (p :: ps) = p.amount + totalPayments ps := by
  have h := foldl_payments ps (0 + p.amount)
  unfold totalPayments at h ⊢
  rw [List.foldl_cons, h]
  omega

/-- What the recipients of a list of payments get. -/
def paid (payments : List MultiPaymentItem) : List (Address × Int) :=
  payments.map fun p => (p.recipientId, p.amount)

theorem sum_paid (payments : List MultiPaymentItem) :
    ((paid payments).map Prod.snd).sum = totalPayments payments := by
  induction payments with
  | nil => rfl
  | cons p ps ih =>
    rw [totalPayments_cons, ← ih]
    simp [paid]

/-- The postings that depend on the type: a transfer's recipient, a multi-payment's list. -/
def transferred (d : TransactionData) (sender : Address) : List (Address × Int) :=
  if d.type = TransactionType.transfer then d.recipientId.toList.map fun a => (a, d.amount)
  else if d.type = TransactionType.multiPayment then
    (sender, -totalPayments (d.payments.getD [])) :: paid (d.payments.getD [])
  else []

/-- The postings of a transaction. -/
def entries (d : TransactionData) (sender : Address) : List (Address × Int) :=
  (sender, -(d.amount + d.fee)) :: transferred d sender

/-! ## 2. The one thing a transaction changes -/

/-- The validator object a registration writes. -/
def registered (username : Option String) : ValidatorAttributes :=
  ⟨username, some 0, false, none, some 0, none⟩

/-- What the type changes beyond balances and nonce. -/
def shape (env : Services) (d : TransactionData) (sender : Address) (L : Ledger) : Ledger :=
  if d.type = TransactionType.vote then
    L.change sender (·.setVote (d.votes.getD []).head?)
  else if d.type = TransactionType.validatorRegistration then
    L.change sender (·.setValidator (some (registered d.username)))
  else if d.type = TransactionType.validatorResignation then
    L.change sender (·.setResigned)
  else if d.type = TransactionType.multiSignature then
    match d.multiSignature.map env.publicKeyFromMultiSignatureAsset with
    | some (.ok k) => L.change (env.addressFromPublicKey k) (·.setMultiSignature d.multiSignature)
    | _ => L
  else L

/-- The way back. -/
def unshape (env : Services) (d : TransactionData) (sender : Address) (L : Ledger) : Ledger :=
  if d.type = TransactionType.vote then
    L.change sender (·.setVote (d.unvotes.getD []).head?)
  else if d.type = TransactionType.validatorRegistration then
    L.change sender (·.setValidator none)
  else if d.type = TransactionType.validatorResignation then
    L.change sender (·.forgetResigned)
  else if d.type = TransactionType.multiSignature then
    match d.multiSignature.map env.publicKeyFromMultiSignatureAsset with
    | some (.ok k) => L.change (env.addressFromPublicKey k) (·.setMultiSignature none)
    | _ => L
  else L

/-- Whether the handler indexes the sender anew. -/
def reindexes (d : TransactionData) : Prop :=
  d.type = TransactionType.validatorRegistration ∨ d.type = TransactionType.validatorResignation

instance (d : TransactionData) : Decidable (reindexes d) :=
  inferInstanceAs (Decidable (_ ∨ _))

/-- Set the nonce of an account. -/
def Ledger.bump (a : Address) (nonce : Int) (L : Ledger) : Ledger := L.change a (·.setNonce nonce)

/-! ## 3. What the handlers do -/

/-- The books after `handler.apply`. -/
def handled (env : Services) (t : Transaction) (sender : Address) (b : Books) : Books :=
  let L := shape env t.data sender ((b.1.bump sender (nonceOf t)).post (entries t.data sender))
  (L, if reindexes t.data then b.2.reindex sender (L sender) else b.2)

/-- The books after `handler.revert`. -/
def unhandled (env : Services) (t : Transaction) (sender : Address) (b : Books) : Books :=
  let L := unshape env t.data sender
    ((b.1.bump sender (nonceOf t - 1)).post (negated (entries t.data sender)))
  (L, if reindexes t.data then b.2.reindex sender (L sender) else b.2)

/-- Charging the sender is advancing the nonce and one posting. -/
theorem change_charge (t : Transaction) (sender : Address) (L : Ledger) :
    L.change sender (charge t) =
      (L.bump sender (nonceOf t)).post [(sender, -(t.data.amount + t.data.fee))] := by
  rw [Ledger.post_cons, Ledger.post_nil]
  unfold Ledger.bump
  rw [Ledger.change_change]
  congr 1
  funext w
  ext1 <;> simp only [charge, Account.setNonce, Account.setBalance, Account.increaseBalance]
  omega

/-- Refunding the sender is taking the nonce back and one posting. -/
theorem change_refund {t : Transaction} {sender : Address} {L : Ledger}
    (hn : (L sender).nonce = nonceOf t) :
    L.change sender (refund t) =
      (L.bump sender (nonceOf t - 1)).post [(sender, t.data.amount + t.data.fee)] := by
  rw [Ledger.post_cons, Ledger.post_nil]
  unfold Ledger.bump
  rw [Ledger.change_change]
  funext b
  simp only [Ledger.change_apply]
  by_cases hb : b = sender
  · subst hb
    simp only [if_true, refund, Account.decreaseNonce, Account.increaseBalance,
      Account.setNonce, Account.setBalance, hn]
  · rw [if_neg hb, if_neg hb]

/-! ## 4. What a transaction is for -/

/-- The accounts after a transaction: the nonce advances, the postings are made with the vote
    balances following, and the one thing changes, a vote with the whole balance following. -/
def Ledger.apply (env : Services) (t : Transaction) (sender : Address) (L : Ledger) : Ledger :=
  let moved := (L.bump sender (nonceOf t)).move env (entries t.data sender)
  if t.data.type = TransactionType.vote then
    moved.redelegate env sender (t.data.votes.getD []).head?
  else shape env t.data sender moved

/-- The accounts after taking a transaction back. -/
def Ledger.revert (env : Services) (t : Transaction) (sender : Address) (L : Ledger) : Ledger :=
  let back := L.bump sender (nonceOf t - 1)
  (if t.data.type = TransactionType.vote then
    back.redelegate env sender (t.data.unvotes.getD []).head?
  else unshape env t.data sender back).move env (negated (entries t.data sender))

/-- Accounts and names after a transaction. -/
def Books.apply (env : Services) (t : Transaction) (sender : Address) (b : Books) : Books :=
  let L := b.1.apply env t sender
  (L, if reindexes t.data then b.2.reindex sender (L sender) else b.2)

/-- Accounts and names after taking a transaction back. -/
def Books.revert (env : Services) (t : Transaction) (sender : Address) (b : Books) : Books :=
  let L := b.1.revert env t sender
  (L, if reindexes t.data then b.2.reindex sender (L sender) else b.2)

namespace Ledger

/-! ## 5. Setting a nonce -/

theorem bump_move (env : Services) (a : Address) (n : Int) (ps : List (Address × Int))
    (L : Ledger) : (L.bump a n).move env ps = (L.move env ps).bump a n :=
  change_move (·.setNonce n) (fun _ => rfl) (fun _ _ => rfl) (fun _ _ => rfl) env a ps L

theorem bump_redelegate (env : Services) (a : Address) (n : Int) (vote : Option PublicKey)
    (L : Ledger) :
    (L.bump a n).redelegate env a vote = (L.redelegate env a vote).bump a n := by
  unfold redelegate bump
  rw [delegate_change (·.setNonce n) (fun _ => rfl), change_self,
    change_comm (·.setNonce n) (·.setVote vote) (fun _ => rfl),
    change_addVotes (·.setNonce n) (fun _ _ => rfl)]
  rfl

/-- Setting the nonce back to what it was. -/
theorem bump_bump (a : Address) {n m : Int} {L : Ledger} (h : (L a).nonce = m) :
    (L.bump a n).bump a m = L := by
  unfold bump
  rw [change_change]
  funext b
  rw [change_apply]
  by_cases hb : b = a
  · subst hb
    subst h
    rw [if_pos rfl]
    rfl
  · rw [if_neg hb]

end Ledger

/-! ## 6. The one thing leaves the rest alone -/

/-- A change of an account that neither reads nor writes its balance, its nonce and its vote. -/
structure Inert (f : Account → Account) : Prop where
  balance : ∀ w, (f w).balance = w.balance
  nonce : ∀ w, (f w).nonce = w.nonce
  vote : ∀ w, (f w).vote = w.vote
  setNonce : ∀ w n, f (w.setNonce n) = (f w).setNonce n
  increaseBalance : ∀ w x, f (w.increaseBalance x) = (f w).increaseBalance x

section Shape

variable {env : Services} {t : Transaction} {s : Address}

/-- Apart from votes, the one thing is an inert change of one account. -/
theorem shape_inert (hv : t.data.type ≠ TransactionType.vote) :
    ∃ a f, Inert f ∧ ∀ L, shape env t.data s L = L.change a f := by
  unfold shape
  simp only [if_neg hv]
  have hid : ∃ a f, Inert f ∧ ∀ L : Ledger, L = L.change a f :=
    ⟨s, id, by constructor <;> intros <;> rfl, fun L => (Ledger.change_id s L).symm⟩
  by_cases h₁ : t.data.type = TransactionType.validatorRegistration
  · simp only [if_pos h₁]
    exact ⟨s, (·.setValidator (some (registered t.data.username))),
      by constructor <;> intros <;> rfl, fun _ => rfl⟩
  simp only [if_neg h₁]
  by_cases h₂ : t.data.type = TransactionType.validatorResignation
  · simp only [if_pos h₂]
    exact ⟨s, (·.setResigned), by constructor <;> intros <;> rfl, fun _ => rfl⟩
  simp only [if_neg h₂]
  by_cases h₃ : t.data.type = TransactionType.multiSignature
  · simp only [if_pos h₃]
    split
    · exact ⟨_, (·.setMultiSignature t.data.multiSignature),
        by constructor <;> intros <;> rfl, fun _ => rfl⟩
    · exact hid
  · simp only [if_neg h₃]
    exact hid

theorem unshape_inert (hv : t.data.type ≠ TransactionType.vote) :
    ∃ a f, Inert f ∧ ∀ L, unshape env t.data s L = L.change a f := by
  unfold unshape
  simp only [if_neg hv]
  have hid : ∃ a f, Inert f ∧ ∀ L : Ledger, L = L.change a f :=
    ⟨s, id, by constructor <;> intros <;> rfl, fun L => (Ledger.change_id s L).symm⟩
  by_cases h₁ : t.data.type = TransactionType.validatorRegistration
  · simp only [if_pos h₁]
    exact ⟨s, (·.setValidator none), by constructor <;> intros <;> rfl, fun _ => rfl⟩
  simp only [if_neg h₁]
  by_cases h₂ : t.data.type = TransactionType.validatorResignation
  · simp only [if_pos h₂]
    exact ⟨s, (·.forgetResigned), by constructor <;> intros <;> rfl, fun _ => rfl⟩
  simp only [if_neg h₂]
  by_cases h₃ : t.data.type = TransactionType.multiSignature
  · simp only [if_pos h₃]
    split
    · exact ⟨_, (·.setMultiSignature none), by constructor <;> intros <;> rfl, fun _ => rfl⟩
    · exact hid
  · simp only [if_neg h₃]
    exact hid

theorem shape_delegate (hv : t.data.type ≠ TransactionType.vote) (L : Ledger) :
    (shape env t.data s L).delegate env = L.delegate env := by
  obtain ⟨a, f, hf, hshape⟩ := shape_inert (s := s) hv
  rw [hshape, Ledger.delegate_change f hf.vote]

theorem unshape_delegate (hv : t.data.type ≠ TransactionType.vote) (L : Ledger) :
    (unshape env t.data s L).delegate env = L.delegate env := by
  obtain ⟨a, f, hf, hshape⟩ := unshape_inert (s := s) hv
  rw [hshape, Ledger.delegate_change f hf.vote]

theorem shape_bump (hv : t.data.type ≠ TransactionType.vote) (n : Int) (L : Ledger) :
    (shape env t.data s L).bump s n = shape env t.data s (L.bump s n) := by
  obtain ⟨a, f, hf, hshape⟩ := shape_inert (s := s) hv
  rw [hshape, hshape]
  exact Ledger.change_comm f (·.setNonce n) (fun w => hf.setNonce w n) a s L

theorem unshape_post (hv : t.data.type ≠ TransactionType.vote) (ps : List (Address × Int))
    (L : Ledger) : (unshape env t.data s L).post ps = unshape env t.data s (L.post ps) := by
  obtain ⟨a, f, hf, hshape⟩ := unshape_inert (s := s) hv
  rw [hshape, hshape, Ledger.change_post f hf.increaseBalance]

/-- A registration writes a vote balance, so nobody may have voted for the sender before. -/
theorem shape_addVotes (hv : t.data.type ≠ TransactionType.vote) {ps : List (Address × Int)}
    (hreg : t.data.type = TransactionType.validatorRegistration → posted ps s = 0)
    (L : Ledger) : (shape env t.data s L).addVotes ps = shape env t.data s (L.addVotes ps) := by
  unfold shape
  rw [if_neg hv, if_neg hv]
  split
  · rename_i hr
    funext b
    simp only [Ledger.addVotes, Ledger.change_apply]
    by_cases hb : b = s
    · subst hb
      rw [if_pos rfl, if_pos rfl, hreg hr, Account.addVoteBalance_zero,
        Account.addVoteBalance_zero]
    · rw [if_neg hb, if_neg hb]
  · split
    · refine Ledger.change_addVotes (·.setResigned) (fun w δ => ?_) s ps L
      obtain ⟨b, n, vote, ms, v⟩ := w
      cases v with
      | none => rfl
      | some v => rfl
    · split
      · split
        · exact Ledger.change_addVotes _ (by intro _ _; rfl) _ ps L
        · rfl
      · rfl

end Shape

/-! ## 7. Taking a transaction back -/

section Back

variable {env : Services} {L : Ledger} {t : Transaction} {s : Address}

/-- What a transaction finds before it changes its one thing, so that the way back restores it.
    The checks of the handlers make sure of it. -/
structure Reversible (env : Services) (L : Ledger) (sender : Address) (t : Transaction) : Prop where
  nonce : (L sender).nonce + 1 = nonceOf t
  vote : t.data.type = TransactionType.vote →
    (L sender).vote = (t.data.unvotes.getD []).head?
  registration : t.data.type = TransactionType.validatorRegistration →
    (L sender).validator = none
  resignation : t.data.type = TransactionType.validatorResignation →
    (L sender).isValidator = true ∧ (L sender).isResigned = false
  multiSignature : t.data.type = TransactionType.multiSignature →
    ∀ asset k, t.data.multiSignature = some asset →
      env.publicKeyFromMultiSignatureAsset asset = .ok k →
      (L (env.addressFromPublicKey k)).multiSignature = none

theorem forgetResigned_setResigned {w : Account} (hv : w.isValidator = true)
    (hr : w.isResigned = false) : w.setResigned.forgetResigned = w := by
  obtain ⟨b, n, vote, ms, v⟩ := w
  cases v with
  | none => cases hv
  | some v =>
    have hres : v.resigned = false := hr
    simp [Account.setResigned, Account.forgetResigned, Account.setValidator,
      Account.validatorObject]
    rw [← hres]

/-- The one thing, changed and changed back, on accounts whose balances may differ. -/
theorem unshape_shape (hv : t.data.type ≠ TransactionType.vote) (h : Reversible env L s t)
    {X : Ledger} (hval : (X s).isValidator = (L s).isValidator)
    (hres : (X s).isResigned = (L s).isResigned)
    (hms : ∀ a, (X a).multiSignature = (L a).multiSignature) :
    unshape env t.data s (shape env t.data s X) = X := by
  unfold unshape shape
  simp only [if_neg hv]
  by_cases h₁ : t.data.type = TransactionType.validatorRegistration
  · simp only [if_pos h₁]
    refine Ledger.change_back ?_
    have hnone : (X s).validator = none := by
      have hfalse : (X s).isValidator = false := by
        rw [hval, Account.isValidator, h.registration h₁]
        rfl
      simpa [Account.isValidator] using hfalse
    show (X s).setValidator none = X s
    rw [Account.setValidator, ← hnone]
  simp only [if_neg h₁]
  by_cases h₂ : t.data.type = TransactionType.validatorResignation
  · simp only [if_pos h₂]
    refine Ledger.change_back (forgetResigned_setResigned ?_ ?_)
    · rw [hval]
      exact (h.resignation h₂).1
    · rw [hres]
      exact (h.resignation h₂).2
  simp only [if_neg h₂]
  by_cases h₃ : t.data.type = TransactionType.multiSignature
  · simp only [if_pos h₃]
    cases hasset : t.data.multiSignature with
    | none => rfl
    | some asset =>
      simp only [Option.map_some]
      cases hk : env.publicKeyFromMultiSignatureAsset asset with
      | error e => rfl
      | ok k =>
        refine Ledger.change_back ?_
        have hnone := (hms _).trans (h.multiSignature h₃ asset k hasset hk)
        show (X (env.addressFromPublicKey k)).setMultiSignature none = _
        rw [Account.setMultiSignature, ← hnone]
  · simp only [if_neg h₃]

/-- **Reverting a transaction takes applying it back.** -/
theorem Ledger.revert_apply (h : Reversible env L s t) :
    (L.apply env t s).revert env t s = L := by
  have hback : (L.bump s (nonceOf t)).bump s (nonceOf t - 1) = L := by
    refine bump_bump s ?_
    have hn := h.nonce
    omega
  unfold Ledger.apply Ledger.revert
  by_cases hv : t.data.type = TransactionType.vote
  · simp only [if_pos hv]
    rw [← bump_redelegate, ← bump_move, hback]
    have hvote : (t.data.unvotes.getD []).head? =
        ((L.move env (entries t.data s)) s).vote := (h.vote hv).symm
    rw [hvote, redelegate_back, move_negated]
  · simp only [if_neg hv]
    rw [shape_bump hv, ← bump_move, hback, unshape_shape hv h, move_negated]
    · exact Account.addVoteBalance_isValidator _ _
    · exact Account.addVoteBalance_isResigned _ _
    · exact fun _ => rfl

end Back

/-! ## 8. What happened since may be taken back later -/

section Since

variable {env : Services} {t : Transaction} {s : Address}

theorem unshape_addVotes (hv : t.data.type ≠ TransactionType.vote) (ps : List (Address × Int))
    (L : Ledger) : (unshape env t.data s L).addVotes ps = unshape env t.data s (L.addVotes ps) := by
  unfold unshape
  rw [if_neg hv, if_neg hv]
  split
  · exact Ledger.change_addVotes _ (by intro _ _; rfl) s ps L
  · split
    · refine Ledger.change_addVotes (·.forgetResigned) (fun w δ => ?_) s ps L
      obtain ⟨b, n, vote, ms, v⟩ := w
      cases v with
      | none => rfl
      | some v => rfl
    · split
      · split
        · exact Ledger.change_addVotes _ (by intro _ _; rfl) _ ps L
        · rfl
      · rfl

/-- **Reverting and moving commute.** -/
theorem Ledger.revert_move (ps : List (Address × Int)) (L : Ledger) :
    (L.move env ps).revert env t s = (L.revert env t s).move env ps := by
  unfold Ledger.revert
  by_cases hv : t.data.type = TransactionType.vote
  · simp only [if_pos hv]
    rw [← bump_move, redelegate_move, move_comm]
  · simp only [if_neg hv]
    have hun : unshape env t.data s ((L.move env ps).bump s (nonceOf t - 1)) =
        (unshape env t.data s (L.bump s (nonceOf t - 1))).move env ps := by
      have hdel := @unshape_delegate env t s hv (L.bump s (nonceOf t - 1))
      rw [← bump_move]
      unfold move
      rw [hdel, ← unshape_addVotes hv, ← unshape_post hv]
    rw [hun, move_comm]

end Since

end CoreEx
