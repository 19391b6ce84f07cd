/-
  File:      CoreEx/Transactions/Vote.lean
  Subject:   `core-crypto-transaction-vote/source/handlers/vote.ts`.

  A vote transaction carries a list of unvotes and a list of votes. `#checkAsset` lets at most one
  of each through, and the check lets an unvote through only for the wallet's present vote; so
  what it accepts always takes the present vote (`unvotes.head?`) to a new one (`votes.head?`).

  * `VoteTransactionHandler.handler`;
  * `VoteAllowed` -- what the check makes sure of;
  * **`vote_apply_decided`**, `vote_revert_always`.
-/
import CoreEx.Transactions.Effect

namespace CoreEx

open WalletRepository Base

namespace VoteTransactionHandler

/-! ## 1. The handler -/

/-- `#checkAsset`. -/
def checkAsset (votes unvotes : List PublicKey) : RepositoryProg Unit := do
  Prog.throwIf (votes.length > 1) .maxVotesExceeeded
  Prog.throwIf (unvotes.length > 1) .maxUnvotesExceeeded
  Prog.throwIf (votes.length + unvotes.length = 0) .emptyVote

/-- One unvote, with the vote the wallet still has at that point. -/
def checkUnvote (env : Services) (walletVote : Option PublicKey) (unvote : PublicKey) :
    RepositoryProg Unit := do
  let validatorWallet ← findByPublicKey env unvote
  match walletVote with
  | none => Prog.throw .noVote
  | some vote => Prog.throwIf (vote ≠ unvote) .unvoteMismatch
  let w ← account validatorWallet
  Prog.throwIf (!w.isValidator) (.votedForNonValidator unvote)

/-- The loop over the unvotes; it answers the vote the wallet has left. -/
def checkUnvotes (env : Services) :
    Option PublicKey → List PublicKey → RepositoryProg (Option PublicKey)
  | walletVote, [] => pure walletVote
  | walletVote, unvote :: unvotes => do
    checkUnvote env walletVote unvote
    checkUnvotes env none unvotes

/-- One vote. -/
def checkVote (env : Services) (walletVote : Option PublicKey) (vote : PublicKey) :
    RepositoryProg Unit := do
  let validatorWallet ← findByPublicKey env vote
  Prog.throwIf walletVote.isSome .alreadyVoted
  let w ← account validatorWallet
  Prog.throwIf (!w.isValidator) (.votedForNonValidator vote)
  Prog.throwIf w.isResigned (.votedForResignedValidator vote)

def throwIfCannotBeApplied (env : Services) (t : Transaction) (wallet : Address) :
    RepositoryProg Unit := do
  let votes ← assertDefined t.data.votes
  let unvotes ← assertDefined t.data.unvotes
  checkAsset votes unvotes
  let w ← account wallet
  let walletVote ← checkUnvotes env w.vote unvotes
  Prog.forEach (checkVote env walletVote) votes
  Base.throwIfCannotBeApplied env t wallet

def applyToSender (env : Services) (t : Transaction) : RepositoryProg Unit := do
  Base.applyToSender throwIfCannotBeApplied env t
  let publicKey ← assertDefined t.data.senderPublicKey
  let sender ← findByPublicKey env publicKey
  let votes ← assertDefined t.data.votes
  let unvotes ← assertDefined t.data.unvotes
  Prog.when (unvotes.length > 0) (update sender (·.setVote none))
  Prog.forEach (fun vote => update sender (·.setVote (some vote))) votes

def revertForSender (env : Services) (t : Transaction) : RepositoryProg Unit := do
  Base.revertForSender env t
  let publicKey ← assertDefined t.data.senderPublicKey
  let sender ← findByPublicKey env publicKey
  let votes ← assertDefined t.data.votes
  let unvotes ← assertDefined t.data.unvotes
  Prog.when (votes.length > 0) (update sender (·.setVote none))
  Prog.forEach (fun unvote => update sender (·.setVote (some unvote))) unvotes

/-- One unvote of `bootstrap`. -/
def bootstrapUnvote (wallet : Address) (unvote : PublicKey) : RepositoryProg Unit := do
  let w ← account wallet
  match w.vote with
  | none => Prog.throw .noVote
  | some vote => Prog.throwIf (vote ≠ unvote) .unvoteMismatch
  update wallet (·.setVote none)

/-- One vote of `bootstrap`; nobody asks whether it is for a validator. -/
def bootstrapVote (wallet : Address) (vote : PublicKey) : RepositoryProg Unit := do
  let w ← account wallet
  Prog.throwIf w.hasVoted .alreadyVoted
  update wallet (·.setVote (some vote))

def bootstrap (env : Services) (transactions : List Transaction) : RepositoryProg Unit :=
  Prog.forEach (fun data => do
    let publicKey ← assertDefined data.senderPublicKey
    let votes ← assertDefined data.votes
    let unvotes ← assertDefined data.unvotes
    checkAsset votes unvotes
    let wallet ← findByPublicKey env publicKey
    Prog.forEach (bootstrapUnvote wallet) unvotes
    Prog.forEach (bootstrapVote wallet) votes)
    (allTransactions TransactionType.vote transactions)

def handler : TransactionHandler where
  key := "vote"
  type := TransactionType.vote
  version := 1
  throwIfCannotBeApplied := throwIfCannotBeApplied
  applyToSender := applyToSender
  applyToRecipient := noRecipient
  revertForSender := revertForSender
  revertForRecipient := noRecipient
  bootstrap := bootstrap

/-! ## 2. What it does to the books -/

variable {env : Services} {L : Ledger} {N : Names} {t : Transaction} {k : PublicKey}
  {votes unvotes : List PublicKey}

/-- What the check makes sure of: the transaction takes the present vote to another, and the
    votes are for validators. -/
structure VoteAllowed (env : Services) (L : Ledger) (sender : Address) (d : TransactionData) :
    Prop where
  lists : ∃ votes unvotes, d.votes = some votes ∧ d.unvotes = some unvotes ∧
    votes.length ≤ 1 ∧ unvotes.length ≤ 1 ∧ 1 ≤ votes.length + unvotes.length
  present : (L sender).vote = (d.unvotes.getD []).head?
  validators : ∀ k, (d.votes.getD []).head? = some k ∨ (d.unvotes.getD []).head? = some k →
    (L (env.addressFromPublicKey k)).isValidator = true

theorem checkUnvote_atomic (walletVote : Option PublicKey) (unvote : PublicKey) :
    Prog.Atomic (Stands env) (L, N) (checkUnvote env walletVote unvote)
      (fun _ => walletVote = some unvote ∧
        (L (env.addressFromPublicKey unvote)).isValidator = true) (L, N) := by
  unfold checkUnvote
  refine (findByPublicKey_always unvote).atomic.check fun a ha => ?_
  subst ha
  cases walletVote with
  | none => exact Prog.Atomic.check (P := fun _ => False) Prog.Atomic.throw fun _ hf => hf.elim
  | some vote =>
    refine Prog.Atomic.throwIf.check fun _ hne => ?_
    refine (account_always _).atomic.check fun w hw => ?_
    subst hw
    refine Prog.Atomic.throwIf.mono fun _ hv => ⟨?_, by simpa using hv⟩
    have heq : vote = unvote := Classical.byContradiction hne
    rw [heq]

theorem checkVote_atomic (walletVote : Option PublicKey) (vote : PublicKey) :
    Prog.Atomic (Stands env) (L, N) (checkVote env walletVote vote)
      (fun _ => walletVote = none ∧
        (L (env.addressFromPublicKey vote)).isValidator = true) (L, N) := by
  unfold checkVote
  refine (findByPublicKey_always vote).atomic.check fun a ha => ?_
  subst ha
  refine Prog.Atomic.throwIf.check fun _ hnone => ?_
  refine (account_always _).atomic.check fun w hw => ?_
  subst hw
  refine Prog.Atomic.throwIf.check fun _ hv => ?_
  exact Prog.Atomic.throwIf.mono fun _ _ => ⟨by simpa using hnone, by simpa using hv⟩

/-- The loop over at most one unvote. -/
theorem checkUnvotes_atomic (walletVote : Option PublicKey) (h : unvotes.length ≤ 1) :
    Prog.Atomic (Stands env) (L, N) (checkUnvotes env walletVote unvotes)
      (fun left => (unvotes = [] → left = walletVote) ∧
        (unvotes ≠ [] → walletVote = unvotes.head? ∧ left = none) ∧
        ∀ k ∈ unvotes, (L (env.addressFromPublicKey k)).isValidator = true) (L, N) := by
  match unvotes, h with
  | [], _ =>
    have hpure : Prog.Always (Stands env) (L, N)
        (pure walletVote : RepositoryProg (Option PublicKey)) (fun left => left = walletVote)
        (L, N) := Prog.Always.pure rfl
    exact hpure.atomic.mono fun left hl => ⟨fun _ => hl, fun hne => absurd rfl hne, by simp⟩
  | [u], _ =>
    refine (checkUnvote_atomic walletVote u).check fun _ hu => ?_
    have hpure : Prog.Always (Stands env) (L, N)
        (pure none : RepositoryProg (Option PublicKey)) (fun left => left = none) (L, N) :=
      Prog.Always.pure rfl
    refine hpure.atomic.mono fun left hl => ⟨fun he => (nomatch he), fun _ => ⟨hu.1, hl⟩, ?_⟩
    intro k hk
    obtain rfl : k = u := List.mem_singleton.1 hk
    exact hu.2

theorem checkAsset_atomic (votes unvotes : List PublicKey) :
    Prog.Atomic (Stands env) (L, N) (checkAsset votes unvotes)
      (fun _ => votes.length ≤ 1 ∧ unvotes.length ≤ 1 ∧ 1 ≤ votes.length + unvotes.length)
      (L, N) := by
  unfold checkAsset
  refine Prog.Atomic.throwIf.check fun _ hv => ?_
  refine Prog.Atomic.throwIf.check fun _ hu => ?_
  exact Prog.Atomic.throwIf.mono fun _ he => ⟨by omega, by omega, by omega⟩

theorem throwIfCannotBeApplied_atomic (t : Transaction) (s : Address) :
    Prog.Atomic (Stands env) (L, N) (throwIfCannotBeApplied env t s)
      (fun _ => Spendable L s t ∧ VoteAllowed env L s t.data) (L, N) := by
  unfold throwIfCannotBeApplied
  refine (assertDefined_atomic _).check fun votes hvotes => ?_
  refine (assertDefined_atomic _).check fun unvotes hunvotes => ?_
  refine (checkAsset_atomic votes unvotes).check fun _ hlen => ?_
  refine (account_always s).atomic.check fun w hw => ?_
  subst hw
  refine (checkUnvotes_atomic _ hlen.2.1).check fun left hleft => ?_
  refine (Prog.Atomic.forEach (fun vote => checkVote_atomic left vote) votes).check
    fun _ hall => ?_
  refine (Base.throwIfCannotBeApplied_atomic t s).mono fun _ hs => ⟨hs, ?_⟩
  refine ⟨⟨votes, unvotes, hvotes, hunvotes, hlen⟩, ?_, ?_⟩
  · rw [hunvotes, Option.getD_some]
    by_cases hu : unvotes = []
    · subst hu
      obtain ⟨v, hv⟩ : ∃ v, v ∈ votes := by
        refine List.exists_mem_of_length_pos ?_
        simpa [Nat.one_le_iff_ne_zero, Nat.pos_iff_ne_zero] using hlen.2.2
      rw [← hleft.1 rfl, (hall v hv).1]
      rfl
    · exact (hleft.2.1 hu).1
  · intro k hk
    rw [hvotes, hunvotes, Option.getD_some, Option.getD_some] at hk
    rcases hk with hk | hk
    · exact (hall k (List.mem_of_head? hk)).2
    · exact hleft.2.2 k (List.mem_of_head? hk)

/-- Forget the vote if there is something to replace, then set the new one: together that is one
    change, as long as the lists are short and not both empty. -/
theorem setVotes_always (s : Address) {before after : List PublicKey} (ha : after.length ≤ 1)
    (hne : 1 ≤ before.length + after.length) :
    Prog.Always (Stands env) (L, N)
      (Prog.when (before.length > 0) (update s (·.setVote none)) >>= fun _ =>
        Prog.forEach (fun vote => update s (·.setVote (some vote))) after)
      (fun _ => True) (L.change s (·.setVote after.head?), N) := by
  have hwhen : Prog.Always (Stands env) (L, N)
      (Prog.when (before.length > 0) (update s (·.setVote none))) (fun _ => True)
      (if before.length > 0 then L.change s (·.setVote none) else L, N) := by
    refine Prog.Always.when (fun hb => ?_) fun hb => by rw [if_neg hb]
    rw [if_pos hb]
    exact update_always _ _
  refine hwhen.bind fun _ _ => ?_
  match after, ha with
  | [], _ =>
    have hb : before.length > 0 := by
      rw [List.length_nil] at hne
      omega
    rw [if_pos hb]
    exact Prog.Always.pure trivial
  | [v], _ =>
    refine (update_always s (·.setVote (some v))).bind fun _ _ => ?_
    have heq : (if before.length > 0 then L.change s (·.setVote none) else L).change s
        (·.setVote (some v)) = L.change s (·.setVote (some v)) := by
      split
      · rw [Ledger.change_change]
        rfl
      · rfl
    rw [heq]
    exact Prog.Always.pure trivial

theorem handled_eq (ht : t.data.type = TransactionType.vote)
    (hv : t.data.votes = some votes) (s : Address) (b : Books) : handled env t s b =
      ((b.1.change s (charge t)).change s (·.setVote votes.head?), b.2) := by
  have hre : ¬ reindexes t.data := by simp [reindexes, ht, TransactionType.vote,
    TransactionType.validatorRegistration, TransactionType.validatorResignation]
  simp only [handled, if_neg hre]
  rw [change_charge]
  simp [shape, entries, transferred, ht, hv, Ledger.post_cons, TransactionType.transfer,
    TransactionType.vote, TransactionType.multiPayment]

theorem unhandled_eq (ht : t.data.type = TransactionType.vote)
    (hu : t.data.unvotes = some unvotes) {s : Address} {b : Books}
    (hn : (b.1 s).nonce = nonceOf t) : unhandled env t s b =
      ((b.1.change s (refund t)).change s (·.setVote unvotes.head?), b.2) := by
  have hre : ¬ reindexes t.data := by simp [reindexes, ht, TransactionType.vote,
    TransactionType.validatorRegistration, TransactionType.validatorResignation]
  simp only [unhandled, if_neg hre]
  rw [change_refund hn]
  simp [unshape, entries, transferred, ht, hu, negated, Ledger.post_cons,
    TransactionType.transfer, TransactionType.vote, TransactionType.multiPayment, add_comm]

/-- **A vote is applied as a whole or not at all.** -/
theorem vote_apply_decided (ht : t.data.type = TransactionType.vote)
    (hn : t.data.nonce.isSome)
    (hk : t.data.senderPublicKey = some k) :
    Prog.Decided (Stands env) (L, N) (handler.apply env t)
      (fun _ => Spendable L (env.addressFromPublicKey k) t ∧
        VoteAllowed env L (env.addressFromPublicKey k) t.data)
      (handled env t (env.addressFromPublicKey k) (L, N))
      fun r => ((checked throwIfCannotBeApplied env t k).run r).isDone = true := by
  cases hv : t.data.votes with
  | none =>
    have hcheck : Prog.Atomic (Stands env) (L, N)
        (throwIfCannotBeApplied env t (env.addressFromPublicKey k)) (fun _ => False) (L, N) := by
      unfold throwIfCannotBeApplied
      rw [hv]
      exact (assertDefined_atomic none).check fun a ha => nomatch ha
    exact (applyToSender_refused hn hk hcheck).refuse.refuse
  | some votes =>
    rw [handled_eq ht hv]
    refine Prog.Decided.andAlways (P := fun _ => Spendable L (env.addressFromPublicKey k) t ∧
      VoteAllowed env L (env.addressFromPublicKey k) t.data) ?_ fun _ hq => Prog.Always.pure hq
    refine (applyToSender_decided hn hk (throwIfCannotBeApplied_atomic t _) And.left).andAlways
      fun _ hq => ?_
    obtain ⟨votes', unvotes, hvotes, hunvotes, hlen⟩ := hq.2.lists
    obtain rfl : votes = votes' := Option.some.inj (hv.symm.trans hvotes)
    refine (assertDefined_some hk).bind fun k' hk' => ?_
    subst hk'
    refine (findByPublicKey_always k').bind fun a ha => ?_
    subst ha
    refine (assertDefined_some hvotes).bind fun vs hvs => ?_
    subst hvs
    refine (assertDefined_some hunvotes).bind fun us hus => ?_
    subst hus
    exact (setVotes_always _ hlen.1 (by omega)).mono fun _ _ => hq

theorem vote_revert_always (ht : t.data.type = TransactionType.vote)
    (hk : t.data.senderPublicKey = some k) (hv : t.data.votes = some votes)
    (hu : t.data.unvotes = some unvotes) (hlen : unvotes.length ≤ 1)
    (hne : 1 ≤ votes.length + unvotes.length)
    (hn : (L (env.addressFromPublicKey k)).nonce = nonceOf t) :
    Prog.Always (Stands env) (L, N) (handler.revert env t) (fun _ => True)
      (unhandled env t (env.addressFromPublicKey k) (L, N)) := by
  rw [unhandled_eq ht hu hn]
  refine Prog.Always.bind (P := fun _ => True) ?_ fun _ _ => Prog.Always.pure trivial
  refine (revertForSender_always hk hn).bind fun _ _ => ?_
  refine (assertDefined_some hk).bind fun k' hk' => ?_
  subst hk'
  refine (findByPublicKey_always k').bind fun a ha => ?_
  subst ha
  refine (assertDefined_some hv).bind fun vs hvs => ?_
  subst hvs
  refine (assertDefined_some hu).bind fun us hus => ?_
  subst hus
  exact setVotes_always _ hlen hne

end VoteTransactionHandler

end CoreEx
