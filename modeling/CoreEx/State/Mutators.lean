/-
  File:      CoreEx/State/Mutators.lean
  Subject:   `core-state/source/mutators/attribute.ts` and `balance.ts`: what a block does to its
             forger.

  Both read an attribute without a default: the attribute mutator wants a validator, the balance
  mutator a vote balance on whoever the forger votes for.

  * `AttributeMutator`, `BalanceMutator` -- the code, in both directions;
  * `earned` -- reward and fees, as postings;
  * **`BalanceMutator.apply_always`** -- a move of the ledger, on consistent accounts;
  * **`AttributeMutator.setLastBlock_atomic`** -- it needs a validator and changes one attribute;
  * `revert_setLastBlock` -- which no transaction's way back looks at.
-/
import CoreEx.State.Transactions

namespace CoreEx

open WalletRepository Base

/-! ## 1. The code -/

namespace AttributeMutator

/-- `getAttribute("validator").lastBlock = lastBlock`. -/
def setLastBlock (wallet : Address) (lastBlock : Option BlockData) : RepositoryProg Unit := do
  let w ← account wallet
  let _ ← assertDefined w.validator
  update wallet (·.setLastBlock lastBlock)

def apply (wallet : Address) (block : BlockData) : RepositoryProg Unit :=
  setLastBlock wallet (some block)

def revert (wallet : Address) (_ : BlockData) : RepositoryProg Unit := setLastBlock wallet none

end AttributeMutator

namespace BalanceMutator

/-- `getAttribute("validator.voteBalance")` of the wallet behind a vote, changed. -/
def changeVoteBalance (env : Services) (vote : Option PublicKey) (change : Int) :
    RepositoryProg Unit :=
  match vote with
  | some vote => do
    let validatorWallet ← findByPublicKey env vote
    let v ← account validatorWallet
    let voteBalance ← assertDefined v.voteBalance?
    update validatorWallet (·.setVoteBalance (voteBalance + change))
  | none => pure ()

/-- `const amount = block.reward.plus(block.totalFee)`. -/
def amount (block : BlockData) : Int := block.reward + block.totalFee

def apply (env : Services) (wallet : Address) (block : BlockData) : RepositoryProg Unit := do
  let w ← account wallet
  changeVoteBalance env w.vote (amount block)
  update wallet (·.increaseBalance (amount block))

def revert (env : Services) (wallet : Address) (block : BlockData) : RepositoryProg Unit := do
  let w ← account wallet
  changeVoteBalance env w.vote (-amount block)
  update wallet (·.decreaseBalance (amount block))

end BalanceMutator

/-! ## 2. What it does to the books -/

/-- What the forger gets. -/
def earned (forger : Address) (block : BlockData) : List (Address × Int) :=
  [(forger, BalanceMutator.amount block)]

section Effects

variable {env : Services} {L : Ledger} {N : Names}

namespace BalanceMutator

/-- Vote balances first, then the balance: together a move. -/
theorem change_always (hL : L.Consistent env) (wallet : Address) (x : Int) :
    Prog.Always (Stands env) (L, N) (do
      let w ← account wallet
      changeVoteBalance env w.vote x
      update wallet (·.increaseBalance x)) (fun _ => True) (L.move env [(wallet, x)], N) := by
  refine (account_always wallet).bind fun w hw => ?_
  subst hw
  have hvotes : Prog.Always (Stands env) (L, N) (changeVoteBalance env (L wallet).vote x)
      (fun _ => True) (L.addVotes (followed (L.delegate env) [(wallet, x)]), N) := by
    cases hv : (L wallet).vote with
    | none =>
      have hnil : followed (L.delegate env) [(wallet, x)] = [] := by
        simp [followed, Ledger.delegate, hv]
      rw [hnil, Ledger.addVotes_nil]
      exact Prog.Always.pure trivial
    | some k =>
      have hdel : L.delegate env wallet = some (env.addressFromPublicKey k) := by
        simp [Ledger.delegate, hv]
      have hone : followed (L.delegate env) [(wallet, x)] = [(env.addressFromPublicKey k, x)] := by
        simp [followed, hdel]
      have hsome := hL.voteBalance _ (hL.votes _ _ hdel)
      obtain ⟨vb, hvb⟩ := Option.isSome_iff_exists.1 hsome
      rw [hone, Ledger.addVotes_cons, Ledger.addVotes_nil]
      refine (findByPublicKey_always k).bind fun a ha => ?_
      subst ha
      refine (account_always _).bind fun v hv' => ?_
      subst hv'
      refine (assertDefined_some hvb).bind fun y hy => ?_
      subst hy
      have hset : L.change (env.addressFromPublicKey k) (·.setVoteBalance (y + x)) =
          L.change (env.addressFromPublicKey k) (·.addVoteBalance x) := by
        have hy : (L (env.addressFromPublicKey k)).voteBalance = y := by
          rw [Account.voteBalance, hvb]
          rfl
        unfold Ledger.change
        have hadd := Account.setVoteBalance_eq hsome x
        rw [hy] at hadd
        simp only [hadd]
      rw [← hset]
      exact update_always _ _
  refine hvotes.bind fun _ _ => ?_
  have hmove : L.move env [(wallet, x)] = (L.addVotes (followed (L.delegate env)
      [(wallet, x)])).change wallet (·.increaseBalance x) := by
    have hpost : L.move env [(wallet, x)] =
        (L.addVotes (followed (L.delegate env) [(wallet, x)])).post [(wallet, x)] := rfl
    rw [hpost, Ledger.post_cons, Ledger.post_nil]
  rw [hmove]
  exact update_always _ _

/-- **The forger gets reward and fees, the vote balance follows.** -/
theorem apply_always (hL : L.Consistent env) (wallet : Address) (block : BlockData) :
    Prog.Always (Stands env) (L, N) (apply env wallet block) (fun _ => True)
      (L.move env (earned wallet block), N) :=
  change_always hL wallet (amount block)

theorem revert_always (hL : L.Consistent env) (wallet : Address) (block : BlockData) :
    Prog.Always (Stands env) (L, N) (revert env wallet block) (fun _ => True)
      (L.move env (negated (earned wallet block)), N) :=
  change_always hL wallet (-amount block)

end BalanceMutator

namespace AttributeMutator

/-- **It throws unless the wallet is a validator.** -/
theorem setLastBlock_atomic (wallet : Address) (lastBlock : Option BlockData) :
    Prog.Atomic (Stands env) (L, N) (setLastBlock wallet lastBlock)
      (fun _ => (L wallet).isValidator = true) (L.change wallet (·.setLastBlock lastBlock), N) := by
  unfold setLastBlock
  refine (account_always wallet).atomic.check fun w hw => ?_
  subst hw
  refine (assertDefined_atomic _).check fun v hv => ?_
  refine (update_always _ _).atomic.mono fun _ _ => ?_
  rw [Account.isValidator, hv]
  rfl

theorem setLastBlock_always {wallet : Address} (h : (L wallet).isValidator = true)
    (lastBlock : Option BlockData) :
    Prog.Always (Stands env) (L, N) (setLastBlock wallet lastBlock) (fun _ => True)
      (L.change wallet (·.setLastBlock lastBlock), N) := by
  unfold setLastBlock
  refine (account_always wallet).bind fun w hw => ?_
  subst hw
  obtain ⟨v, hv⟩ := Option.isSome_iff_exists.1 h
  refine (assertDefined_some hv).bind fun _ _ => ?_
  exact update_always _ _

end AttributeMutator

/-! ## 3. The attribute `lastBlock` is no part of the bookkeeping -/

variable (wallet : Address) (lastBlock : Option BlockData)

@[simp] theorem Account.setLastBlock_isValidator (w : Account) :
    (w.setLastBlock lastBlock).isValidator = w.isValidator := by
  simp [Account.setLastBlock, Account.setValidator, Account.isValidator]

@[simp] theorem Account.setLastBlock_username (w : Account) :
    (w.setLastBlock lastBlock).username = w.username := by
  simp only [Account.setLastBlock, Account.setValidator, Account.username]
  cases w.validator <;> rfl

@[simp] theorem Account.setLastBlock_isResigned (w : Account) :
    (w.setLastBlock lastBlock).isResigned = w.isResigned := by
  simp only [Account.setLastBlock, Account.setValidator, Account.isResigned]
  cases w.validator <;> rfl

@[simp] theorem Account.setLastBlock_voteBalance? (w : Account) :
    (w.setLastBlock lastBlock).voteBalance? = w.voteBalance? := by
  simp only [Account.setLastBlock, Account.setValidator, Account.voteBalance?]
  cases w.validator <;> rfl

theorem Account.setLastBlock_addVoteBalance (w : Account) (δ : Int) :
    (w.addVoteBalance δ).setLastBlock lastBlock = (w.setLastBlock lastBlock).addVoteBalance δ := by
  obtain ⟨b, n, vote, ms, v⟩ := w
  cases v with
  | none => rfl
  | some v => rfl

theorem setLastBlock_move (ps : List (Address × Int)) (L : Ledger) :
    (L.change wallet (·.setLastBlock lastBlock)).move env ps =
      (L.move env ps).change wallet (·.setLastBlock lastBlock) :=
  Ledger.change_move _ (by intro _; rfl) (by intro _ _; rfl)
    (Account.setLastBlock_addVoteBalance lastBlock) env wallet ps L

/-- Books stay good under moves and under changes of `lastBlock`. -/
theorem Books.Good.move (hb : Books.Good env (L, N)) (ps : List (Address × Int)) :
    Books.Good env (L.move env ps, N) :=
  ⟨hb.consistent.move ps, hb.agrees.congr (fun a => Ledger.move_username env ps L a) fun a =>
    Ledger.move_isResigned env ps L a⟩

theorem Books.Good.setLastBlock (hb : Books.Good env (L, N)) :
    Books.Good env (L.change wallet (·.setLastBlock lastBlock), N) := by
  refine ⟨hb.consistent.change rfl (Account.setLastBlock_isValidator _ _)
    (Account.setLastBlock_username _ _) (Account.setLastBlock_voteBalance? _ _),
    hb.agrees.congr (fun a => ?_) fun a => ?_⟩
  · simp only [Ledger.change_apply]
    split
    · exact Account.setLastBlock_username _ _
    · rfl
  · simp only [Ledger.change_apply]
    split
    · exact Account.setLastBlock_isResigned _ _
    · rfl

/-- **Reverting a transaction and setting `lastBlock` commute**; on a wallet that is no validator,
    there is nothing to set. -/
theorem revert_setLastBlock {t : Transaction} {s : Address} (L : Ledger) :
    (L.change wallet (·.setLastBlock lastBlock)).revert env t s =
      (L.revert env t s).change wallet (·.setLastBlock lastBlock) := by
  have hbump : ∀ n, (L.change wallet (·.setLastBlock lastBlock)).bump s n =
      (L.bump s n).change wallet (·.setLastBlock lastBlock) :=
    fun n => Ledger.change_comm (·.setLastBlock lastBlock) (·.setNonce n) (by intro _; rfl) _ _ _
  unfold Ledger.revert
  rw [hbump]
  generalize L.bump s (nonceOf t - 1) = X
  by_cases hv : t.data.type = TransactionType.vote
  · simp only [if_pos hv]
    have hred : (X.change wallet (·.setLastBlock lastBlock)).redelegate env s
        (t.data.unvotes.getD []).head? = (X.redelegate env s
          (t.data.unvotes.getD []).head?).change wallet (·.setLastBlock lastBlock) := by
      have hbal : ((X.change wallet (·.setLastBlock lastBlock)) s).balance = (X s).balance := by
        rw [Ledger.change_apply]
        split <;> rfl
      unfold Ledger.redelegate
      rw [hbal, Ledger.delegate_change (·.setLastBlock lastBlock) (by intro _; rfl),
        Ledger.change_comm (·.setLastBlock lastBlock)
          (·.setVote (t.data.unvotes.getD []).head?) (by intro _; rfl),
        Ledger.change_addVotes (·.setLastBlock lastBlock)
          (Account.setLastBlock_addVoteBalance lastBlock)]
    rw [hred, setLastBlock_move]
  · simp only [if_neg hv]
    have hun : unshape env t.data s (X.change wallet (·.setLastBlock lastBlock)) =
        (unshape env t.data s X).change wallet (·.setLastBlock lastBlock) := by
      unfold unshape
      rw [if_neg hv, if_neg hv]
      split
      · exact Ledger.change_comm _ _ (by intro _; rfl) _ _ _
      · split
        · refine Ledger.change_comm (·.setLastBlock lastBlock) (·.forgetResigned) (fun w => ?_) _ _ _
          obtain ⟨b, n, vote, ms, v⟩ := w
          cases v with
          | none => rfl
          | some v => rfl
        · split
          · split
            · exact Ledger.change_comm _ _ (by intro _; rfl) _ _ _
            · rfl
          · rfl
    rw [hun, setLastBlock_move]

theorem Revertible.setLastBlock {t : Transaction} {s : Address} (h : Revertible env L s t) :
    Revertible env (L.change wallet (·.setLastBlock lastBlock)) s t := by
  have hdel : (L.change wallet (·.setLastBlock lastBlock)).delegate env = L.delegate env :=
    Ledger.delegate_change _ (by intro _; rfl) env wallet L
  have hsame : ∀ a, (L.change wallet (·.setLastBlock lastBlock) a).nonce = (L a).nonce ∧
      (L.change wallet (·.setLastBlock lastBlock) a).vote = (L a).vote ∧
      (L.change wallet (·.setLastBlock lastBlock) a).isValidator = (L a).isValidator := by
    intro a
    rw [Ledger.change_apply]
    split
    · exact ⟨rfl, rfl, Account.setLastBlock_isValidator _ _⟩
    · exact ⟨rfl, rfl, rfl⟩
  refine ⟨h.known, (hsame s).1.trans h.nonce, h.lists, fun hv => (hsame s).2.1.trans (h.vote hv),
    fun hv k hk => (hsame _).2.2.trans (h.validators hv k hk), ?_, h.multiSignature,
    h.multiPayment⟩
  rw [hdel]
  exact h.registration

end Effects

end CoreEx
