/-
  File:      CoreEx/State/VoteBalances.lean
  Subject:   `core-state/source/block-state.ts`, lines 164 to 262: `#updateVoteBalances`.

  The vote balances are kept by hand, after the handler has changed balances and votes, with
  separate formulas for votes and for everything else and for either direction. `voteChanges` is
  what they add up to.

  * `addToVoteBalance`, `updateVoteBalances` -- the code;
  * `Votable` -- who is voted for has a vote balance;
  * **`updateVoteBalances_always`** -- the code adds `voteChanges` and never throws.
-/
import CoreEx.Transactions.Effect

namespace CoreEx

open WalletRepository Base

/-! ## 1. The code -/

/-- Read a vote balance with the default `BigNumber.ZERO`, add to it and write it back. -/
def addToVoteBalance (validator : Address) (change : Int) : RepositoryProg Unit := do
  let w ← account validator
  update validator (·.setVoteBalance (w.voteBalance + change))

/-- `addToVoteBalance` on the validator behind a key, if there is a key. -/
def addToValidator (env : Services) (vote : Option PublicKey) (change : Int) :
    RepositoryProg Unit :=
  match vote with
  | some vote => do
    let validator ← findByPublicKey env vote
    addToVoteBalance validator change
  | none => pure ()

/-- `addToVoteBalance` on the validator a wallet has voted for. -/
def addToValidatorOf (env : Services) (wallet : Address) (change : Int) : RepositoryProg Unit := do
  let w ← account wallet
  addToValidator env w.vote change

/-- `plus` when applying, `minus` when reverting. -/
def direction (revert : Bool) : Int := if revert then -1 else 1

/-- `unvotes.length`, with nothing asserted. -/
def readUnvotes (unvotes : Option (List PublicKey)) : RepositoryProg (List PublicKey) :=
  match unvotes with
  | some unvotes => pure unvotes
  | none => Prog.throw (.typeError "Cannot read properties of undefined (reading 'length')")

/-- The branch of `#updateVoteBalances` for a vote. -/
def updateVoteBalancesOfVote (env : Services) (sender : Address) (d : TransactionData)
    (revert : Bool) : RepositoryProg Unit := do
  let votes ← assertDefined d.votes
  let s ← account sender
  let unvotes ← readUnvotes d.unvotes
  -- the balance already includes the reverted fee
  let amount := s.balance - if revert then d.fee else 0
  addToValidator env unvotes.head? ((amount + d.fee) * -direction revert)
  addToValidator env votes.head? (amount * direction revert)

/-- The amount the sender's validator loses, without the fee. -/
def outgoing (d : TransactionData) : RepositoryProg Int :=
  if d.isCore TransactionType.multiPayment then do
    let payments ← assertDefined d.payments
    pure (totalPayments payments)
  else pure d.amount

/-- The sender's part of `#updateVoteBalances`. -/
def updateVoteBalancesOfSender (env : Services) (sender : Address) (d : TransactionData)
    (revert : Bool) : RepositoryProg Unit := do
  let s ← account sender
  match s.vote with
  | some vote => do
    let validator ← findByPublicKey env vote
    let amount ← outgoing d
    addToVoteBalance validator (-direction revert * (amount + d.fee))
  | none => pure ()

/-- The part of `#updateVoteBalances` for the payments of a multi-payment. -/
def updateVoteBalancesOfPayments (env : Services) (d : TransactionData) (revert : Bool) :
    RepositoryProg Unit :=
  Prog.when (d.isCore TransactionType.multiPayment) do
    let payments ← assertDefined d.payments
    Prog.forEach (fun payment => do
      let recipientWallet ← findByAddress payment.recipientId
      addToValidatorOf env recipientWallet (direction revert * payment.amount)) payments

/-- The part of `#updateVoteBalances` for the recipient. -/
def updateVoteBalancesOfRecipient (env : Services) (recipient : Option Address)
    (d : TransactionData) (revert : Bool) : RepositoryProg Unit :=
  match recipient with
  | some recipient => addToValidatorOf env recipient (direction revert * d.amount)
  | none => pure ()

/-- `#updateVoteBalances`. -/
def updateVoteBalances (env : Services) (sender : Address) (recipient : Option Address)
    (d : TransactionData) (revert : Bool) : RepositoryProg Unit :=
  if d.isCore TransactionType.vote then updateVoteBalancesOfVote env sender d revert
  else do
    updateVoteBalancesOfSender env sender d revert
    updateVoteBalancesOfPayments env d revert
    updateVoteBalancesOfRecipient env recipient d revert

/-! ## 2. What the vote balances get -/

section Votes

variable {env : Services} {L : Ledger} {N : Names}

/-- A posting to the validator behind a key, if there is a key. -/
def postVote (env : Services) (k : Option PublicKey) (amount : Int) : List (Address × Int) :=
  k.toList.map fun k => (env.addressFromPublicKey k, amount)

/-- What the sender's validator loses, without the fee. -/
def outgoingAmount (d : TransactionData) : Int :=
  if d.type = TransactionType.multiPayment then totalPayments (d.payments.getD []) else d.amount

/-- The postings of the payments, for a multi-payment. -/
def paymentEntries (d : TransactionData) (revert : Bool) : List (Address × Int) :=
  if d.type = TransactionType.multiPayment then
    (d.payments.getD []).map fun p => (p.recipientId, direction revert * p.amount)
  else []

/-- The postings to accounts that the vote balances follow when it is no vote. -/
def followedEntries (d : TransactionData) (sender : Address) (revert : Bool) :
    List (Address × Int) :=
  [(sender, -direction revert * (outgoingAmount d + d.fee))] ++ (paymentEntries d revert ++
    d.recipientId.toList.map fun a => (a, direction revert * d.amount))

/-- What `#updateVoteBalances` adds to vote balances, on the accounts `L` it finds. -/
def voteChanges (env : Services) (L : Ledger) (sender : Address) (d : TransactionData)
    (revert : Bool) : List (Address × Int) :=
  let amount := (L sender).balance - if revert then d.fee else 0
  if d.type = TransactionType.vote then
    postVote env (d.unvotes.getD []).head? ((amount + d.fee) * -direction revert) ++
      postVote env (d.votes.getD []).head? (amount * direction revert)
  else followed (L.delegate env) (followedEntries d sender revert)

/-- Who is voted for has a vote balance to add to. -/
def Votable (env : Services) (L : Ledger) : Prop :=
  ∀ a b, L.delegate env a = some b → (L b).voteBalance?.isSome = true

theorem Votable.addVotes (h : Votable env L) (ps : List (Address × Int)) :
    Votable env (L.addVotes ps) := by
  intro a b hb
  have hsome := h a b hb
  simpa [Ledger.addVotes] using hsome

theorem addToVoteBalance_always {validator : Address} (h : (L validator).voteBalance?.isSome)
    (change : Int) :
    Prog.Always (Stands env) (L, N) (addToVoteBalance validator change) (fun _ => True)
      (L.addVotes [(validator, change)], N) := by
  unfold addToVoteBalance
  refine (account_always validator).bind fun w hw => ?_
  subst hw
  have heq : L.change validator (·.setVoteBalance ((L validator).voteBalance + change)) =
      L.addVotes [(validator, change)] := by
    rw [Ledger.addVotes_cons, Ledger.addVotes_nil]
    funext b
    rw [Ledger.change_apply, Ledger.change_apply]
    by_cases hb : b = validator
    · subst hb
      rw [if_pos rfl, if_pos rfl, Account.setVoteBalance_eq h]
    · rw [if_neg hb, if_neg hb]
  rw [← heq]
  exact update_always _ _

/-- A posting to the validator behind a key. -/
theorem addToValidator_always {k : Option PublicKey}
    (h : ∀ k', k = some k' → (L (env.addressFromPublicKey k')).voteBalance?.isSome = true)
    (change : Int) :
    Prog.Always (Stands env) (L, N) (addToValidator env k change) (fun _ => True)
      (L.addVotes (postVote env k change), N) := by
  cases k with
  | none =>
    have hnil : postVote env none change = [] := rfl
    rw [hnil, Ledger.addVotes_nil]
    exact Prog.Always.pure trivial
  | some k =>
    refine (findByPublicKey_always k).bind fun a ha => ?_
    subst ha
    exact addToVoteBalance_always (h k rfl) change

theorem postVote_vote (L : Ledger) (wallet : Address) (change : Int) :
    postVote env (L wallet).vote change = followed (L.delegate env) [(wallet, change)] := by
  cases hv : (L wallet).vote with
  | none => simp [postVote, followed, Ledger.delegate, hv]
  | some k => simp [postVote, followed, Ledger.delegate, hv]

/-- The vote balance behind a wallet gets what the wallet got. -/
theorem addToValidatorOf_always (h : Votable env L) (wallet : Address) (change : Int) :
    Prog.Always (Stands env) (L, N) (addToValidatorOf env wallet change) (fun _ => True)
      (L.addVotes (followed (L.delegate env) [(wallet, change)]), N) := by
  unfold addToValidatorOf
  refine (account_always wallet).bind fun w hw => ?_
  subst hw
  rw [← postVote_vote]
  refine addToValidator_always (fun k hk => h wallet _ ?_) change
  simp [Ledger.delegate, hk]

theorem updatePayments_always (h : Votable env L) (sign : Int)
    (payments : List MultiPaymentItem) :
    Prog.Always (Stands env) (L, N)
      (Prog.forEach (fun p : MultiPaymentItem => do
        let recipientWallet ← findByAddress p.recipientId
        addToValidatorOf env recipientWallet (sign * p.amount)) payments) (fun _ => True)
      (L.addVotes (followed (L.delegate env)
        (payments.map fun p => (p.recipientId, sign * p.amount))), N) := by
  induction payments generalizing L with
  | nil => exact (Ledger.addVotes_nil L).symm ▸ Prog.Always.pure trivial
  | cons p ps ih =>
    have hsplit : followed (L.delegate env)
        ((p :: ps).map fun p => (p.recipientId, sign * p.amount)) =
        followed (L.delegate env) [(p.recipientId, sign * p.amount)] ++
          followed (L.delegate env) (ps.map fun p => (p.recipientId, sign * p.amount)) := by
      rw [← followed_append]
      rfl
    rw [hsplit, Ledger.addVotes_append]
    refine Prog.Always.bind (P := fun _ => True) ?_ fun _ _ => ih (h.addVotes _)
    refine (findByAddress_always p.recipientId).bind fun a ha => ?_
    subst ha
    exact addToValidatorOf_always h _ _

theorem isCore_eq {d : TransactionData} (hd : d.SchemaValid) (n : Nat) :
    d.isCore n = decide (d.type = n) := by
  simp [TransactionData.isCore, hd.typeGroup]

theorem outgoing_always {d : TransactionData} (hd : d.SchemaValid)
    (hpay : d.type = TransactionType.multiPayment → d.payments.isSome) :
    Prog.Always (Stands env) (L, N) (outgoing d) (fun x => x = outgoingAmount d) (L, N) := by
  unfold outgoing outgoingAmount
  rw [isCore_eq hd]
  by_cases hm : d.type = TransactionType.multiPayment
  · simp only [hm, decide_true, if_true]
    obtain ⟨payments, hp⟩ := Option.isSome_iff_exists.1 (hpay hm)
    refine (assertDefined_some hp).bind fun ps hps => ?_
    subst hps
    rw [hp]
    exact Prog.Always.pure rfl
  · simp only [hm, decide_false, Bool.false_eq_true, if_false]
    exact Prog.Always.pure rfl

theorem updateVoteBalancesOfSender_always {d : TransactionData} (hd : d.SchemaValid)
    (h : Votable env L) (hpay : d.type = TransactionType.multiPayment → d.payments.isSome)
    (sender : Address) (revert : Bool) :
    Prog.Always (Stands env) (L, N) (updateVoteBalancesOfSender env sender d revert)
      (fun _ => True) (L.addVotes (followed (L.delegate env)
        [(sender, -direction revert * (outgoingAmount d + d.fee))]), N) := by
  unfold updateVoteBalancesOfSender
  refine (account_always sender).bind fun w hw => ?_
  subst hw
  cases hs : (L sender).vote with
  | none =>
    rw [← postVote_vote, hs]
    exact (Ledger.addVotes_nil L).symm ▸ Prog.Always.pure trivial
  | some k =>
    rw [← postVote_vote, hs]
    have hdel : L.delegate env sender = some (env.addressFromPublicKey k) := by
      simp [Ledger.delegate, hs]
    refine (findByPublicKey_always k).bind fun a ha => ?_
    subst ha
    refine (outgoing_always hd hpay).bind fun x hx => ?_
    subst hx
    exact addToVoteBalance_always (h _ _ hdel) _

theorem updateVoteBalancesOfPayments_always {d : TransactionData} (hd : d.SchemaValid)
    (h : Votable env L) (hpay : d.type = TransactionType.multiPayment → d.payments.isSome)
    (revert : Bool) :
    Prog.Always (Stands env) (L, N) (updateVoteBalancesOfPayments env d revert)
      (fun _ => True) (L.addVotes (followed (L.delegate env) (paymentEntries d revert)), N) := by
  unfold updateVoteBalancesOfPayments paymentEntries
  rw [isCore_eq hd]
  refine Prog.Always.when (fun hm => ?_) fun hm => ?_
  · have hm' : d.type = TransactionType.multiPayment := by simpa using hm
    obtain ⟨payments, hp⟩ := Option.isSome_iff_exists.1 (hpay hm')
    rw [if_pos hm', hp, Option.getD_some]
    refine (assertDefined_some rfl).bind fun ps hps => ?_
    subst hps
    exact updatePayments_always h _ _
  · have hm' : ¬ d.type = TransactionType.multiPayment := by simpa using hm
    rw [if_neg hm']
    exact Prod.ext (Ledger.addVotes_nil _) rfl

theorem updateVoteBalancesOfRecipient_always {d : TransactionData} (h : Votable env L)
    (revert : Bool) :
    Prog.Always (Stands env) (L, N) (updateVoteBalancesOfRecipient env d.recipientId d revert)
      (fun _ => True) (L.addVotes (followed (L.delegate env)
        (d.recipientId.toList.map fun a => (a, direction revert * d.amount))), N) := by
  unfold updateVoteBalancesOfRecipient
  cases d.recipientId with
  | none => exact (Ledger.addVotes_nil L).symm ▸ Prog.Always.pure trivial
  | some a => exact addToValidatorOf_always h a _

/-- **`#updateVoteBalances` adds `voteChanges`**, when the validators it reaches have a vote
    balance. -/
theorem updateVoteBalances_always {d : TransactionData} {sender : Address} (hd : d.SchemaValid)
    (h : d.type ≠ TransactionType.vote → Votable env L)
    (hlists : d.type = TransactionType.vote → d.votes.isSome ∧ d.unvotes.isSome)
    (hvote : d.type = TransactionType.vote → ∀ k, (d.votes.getD []).head? = some k ∨
      (d.unvotes.getD []).head? = some k →
        (L (env.addressFromPublicKey k)).voteBalance?.isSome = true)
    (hpay : d.type = TransactionType.multiPayment → d.payments.isSome) (revert : Bool) :
    Prog.Always (Stands env) (L, N) (updateVoteBalances env sender d.recipientId d revert)
      (fun _ => True) (L.addVotes (voteChanges env L sender d revert), N) := by
  unfold updateVoteBalances voteChanges
  rw [isCore_eq hd]
  by_cases hv : d.type = TransactionType.vote
  · simp only [hv, decide_true, if_true]
    obtain ⟨hvotes, hunvotes⟩ := hlists hv
    obtain ⟨votes, hvotes⟩ := Option.isSome_iff_exists.1 hvotes
    obtain ⟨unvotes, hunvotes⟩ := Option.isSome_iff_exists.1 hunvotes
    have htarget := hvote hv
    rw [hvotes, hunvotes, Option.getD_some, Option.getD_some] at htarget
    unfold updateVoteBalancesOfVote
    rw [hvotes, hunvotes, Option.getD_some, Option.getD_some, Ledger.addVotes_append]
    refine (assertDefined_some rfl).bind fun votes' hvotes' => ?_
    subst hvotes'
    refine (account_always sender).bind fun w hw => ?_
    subst hw
    have hread : Prog.Always (Stands env) (L, N) (readUnvotes (some unvotes))
        (fun us => us = unvotes) (L, N) := Prog.Always.pure rfl
    refine hread.bind fun us hus => ?_
    subst hus
    refine (addToValidator_always (fun k hk => htarget k (Or.inr hk)) _).bind fun _ _ => ?_
    refine addToValidator_always (fun k hk => ?_) _
    have hsome := htarget k (Or.inl hk)
    simpa [Ledger.addVotes] using hsome
  · simp only [hv, decide_false, Bool.false_eq_true, if_false]
    unfold followedEntries
    rw [followed_append, followed_append, Ledger.addVotes_append, Ledger.addVotes_append]
    have h := h hv
    refine (updateVoteBalancesOfSender_always hd h hpay sender revert).bind fun _ _ => ?_
    have h₁ := h.addVotes (followed (L.delegate env)
      [(sender, -direction revert * (outgoingAmount d + d.fee))])
    refine (updateVoteBalancesOfPayments_always hd h₁ hpay revert).bind fun _ _ => ?_
    exact updateVoteBalancesOfRecipient_always (h₁.addVotes _) revert

end Votes

/-! ## 3. What should follow -/

section Totals

variable {env : Services} {d : TransactionData} {s : Address}

theorem posted_postVote (k : Option PublicKey) (x : Int) (a : Address) :
    posted (postVote env k x) a =
      if k.map env.addressFromPublicKey = some a then x else 0 := by
  cases k with
  | none => rfl
  | some k => simp [postVote, posted_cons]

theorem posted_followed_one (delegate : Address → Option Address) (p : Address × Int)
    (a : Address) :
    posted (followed delegate [p]) a = if delegate p.1 = some a then p.2 else 0 := by
  rw [posted_followed_cons]
  exact add_zero _

theorem posted_followed_paid (delegate : Address → Option Address) (sign : Int)
    (payments : List MultiPaymentItem) (a : Address) :
    posted (followed delegate (payments.map fun p => (p.recipientId, sign * p.amount))) a =
      sign * posted (followed delegate (paid payments)) a := by
  induction payments with
  | nil => simp [followed, paid]
  | cons p ps ih =>
    have hpaid : paid (p :: ps) = (p.recipientId, p.amount) :: paid ps := rfl
    rw [List.map_cons, hpaid, posted_followed_cons, posted_followed_cons, ih, mul_add]
    congr 1
    split
    · rfl
    · exact (mul_zero sign).symm

/-- **Apart from votes, what `#updateVoteBalances` adds is what follows from the postings**, with
    the sign of the direction. -/
theorem posted_followedEntries (hd : d.SchemaValid) (delegate : Address → Option Address)
    (revert : Bool) (a : Address) :
    posted (followed delegate (followedEntries d s revert)) a =
      direction revert * posted (followed delegate (entries d s)) a := by
  have hzero : ¬ d.type = TransactionType.transfer →
      posted (followed delegate (d.recipientId.toList.map fun b =>
        (b, direction revert * d.amount))) a = 0 := by
    intro ht
    rw [hd.amount_zero ht, mul_zero]
    cases d.recipientId with
    | none => rfl
    | some b => exact (posted_followed_one delegate (b, 0) a).trans (by simp)
  unfold followedEntries entries transferred paymentEntries outgoingAmount
  rw [followed_append, posted_append, followed_append, posted_append, posted_followed_one,
    posted_followed_cons]
  by_cases ht : d.type = TransactionType.transfer
  · have hm : ¬ d.type = TransactionType.multiPayment := by
      rw [ht]
      decide
    rw [if_neg hm, if_neg hm, if_pos ht, mul_add]
    have hrec : posted (followed delegate (d.recipientId.toList.map fun b =>
        (b, direction revert * d.amount))) a =
        direction revert * posted (followed delegate (d.recipientId.toList.map fun b =>
          (b, d.amount))) a := by
      cases d.recipientId with
      | none => exact (mul_zero (direction revert)).symm
      | some b =>
        have hone : ∀ x : Int, posted (followed delegate ((some b).toList.map fun b =>
            (b, x))) a = if delegate b = some a then x else 0 :=
          fun x => posted_followed_one delegate (b, x) a
        rw [hone, hone]
        split
        · rfl
        · exact (mul_zero _).symm
    have hnil : posted (followed delegate ([] : List (Address × Int))) a = 0 := rfl
    rw [hrec, hnil, zero_add]
    split <;> ring
  · rw [hzero ht, if_neg ht, add_zero, hd.amount_zero ht]
    by_cases hm : d.type = TransactionType.multiPayment
    · rw [if_pos hm, if_pos hm, if_pos hm, posted_followed_paid, posted_followed_cons, ← add_assoc,
        mul_add]
      split
      · ring
      · simp
    · rw [if_neg hm, if_neg hm, if_neg hm]
      have hnil : posted (followed delegate ([] : List (Address × Int))) a = 0 := rfl
      rw [hnil, add_zero, add_zero]
      split
      · ring
      · exact (mul_zero _).symm

end Totals

end CoreEx
