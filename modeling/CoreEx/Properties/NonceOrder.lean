/-
  File:      CoreEx/Properties/NonceOrder.lean
  Subject:   Whether the processor finds the blocks whose nonces are out of order.

  It ends the loop at the first transaction of an old version, and every version the registry knows
  is an old one; so such a block passes unseen. At any other transaction it does not wait for the
  nonce of the sender, and throws.

  * `InOrder` -- the nonces of every sender go on from that of its wallet;
  * `FindsDisorder` -- the property of the check;
  * `blockContainsOutOfOrderNonce_cases` -- what the check does;
  * **`findsDisorder_iff`** -- for which blocks it answers rightly;
  * **`skippedNonce_not`** -- a transfer of version 1 with a nonce that is too great.
-/
import CoreEx.Blocks.BlockProcessor
import CoreEx.Properties.VoteBalances

namespace CoreEx

open WalletRepository BlockProcessor

/-! ## 1. The property -/

/-- The nonce of a sender's wallet, 0 if it is unknown. -/
def walletNonce (env : Services) (r : WalletRepository) (sender : PublicKey) : Int :=
  match (getNonce env sender).run r with
  | .done nonce _ => nonce
  | .thrown _ _ => 0

/-- The nonces of a sender's transactions, in the order of the block. -/
def noncesOf (sender : PublicKey) (transactions : List Transaction) : List (Option Int) :=
  (transactions.filter fun t => t.data.senderPublicKey = some sender).map (·.data.nonce)

/-- The nonces of every sender are those that follow the nonce of its wallet. -/
def InOrder (env : Services) (r : WalletRepository) (transactions : List Transaction) : Prop :=
  ∀ sender, noncesOf sender transactions =
    (List.range (noncesOf sender transactions).length).map
      fun i : Nat => some (walletNonce env r sender + 1 + i)

/-- The check returns, with whether a sender's nonces are not in order. -/
def FindsDisorder (env : Services) (r : WalletRepository) (block : Block) : Prop :=
  ∃ outOfOrder, blockContainsOutOfOrderNonce block.transactions = .ok outOfOrder ∧
    (outOfOrder = true ↔ ¬InOrder env r block.transactions)

/-! ## 2. What the check does -/

/-- The nonce of a wallet is that of its account. -/
theorem walletNonce_eq {env : Services} {r : WalletRepository} {sender : PublicKey} :
    walletNonce env r sender =
      match r.publicKeys.get sender with
      | some a => (r.accounts a).nonce
      | none => 0 := by
  unfold walletNonce getNonce findByPublicKey
  cases hknown : r.publicKeys.get sender with
  | none => simp [Prog.run_bind, hknown]
  | some a => simp [Prog.run_bind, Prog.when, assertDefined, account, hknown]

/-- The check passes a block that is empty or begins with a transaction of an old version, and
    throws at any other. -/
theorem blockContainsOutOfOrderNonce_cases (transactions : List Transaction) :
    (∀ t ∈ transactions.head?, isLegacy t.data = true) ∧
        blockContainsOutOfOrderNonce transactions = .ok false ∨
      (∃ t ∈ transactions.head?, isLegacy t.data = false) ∧
        ∃ e, blockContainsOutOfOrderNonce transactions = .error e := by
  cases transactions with
  | nil => exact Or.inl ⟨fun t h => (nomatch h), rfl⟩
  | cons t rest =>
    unfold blockContainsOutOfOrderNonce
    dsimp only
    cases hlegacy : isLegacy t.data with
    | true =>
      refine Or.inl ⟨fun t' h => ?_, if_pos rfl⟩
      cases h
      exact hlegacy
    | false =>
      refine Or.inr ⟨⟨t, rfl, hlegacy⟩, ?_⟩
      cases t.data.senderPublicKey with
      | none => exact ⟨_, rfl⟩
      | some sender =>
        cases t.data.nonce with
        | none => exact ⟨_, rfl⟩
        | some nonce => exact ⟨_, rfl⟩

/-! ## 3. When it answers rightly -/

/-- **The check answers rightly for the blocks in order that are empty or begin with a transaction
    of an old version, and for no other.** -/
theorem findsDisorder_iff (env : Services) (r : WalletRepository) (block : Block) :
    FindsDisorder env r block ↔
      (∀ t ∈ block.transactions.head?, isLegacy t.data = true) ∧
        InOrder env r block.transactions := by
  unfold FindsDisorder
  rcases blockContainsOutOfOrderNonce_cases block.transactions with ⟨hlegacy, hrun⟩ | ⟨hnew, e, hrun⟩
  · rw [hrun]
    constructor
    · rintro ⟨outOfOrder, hout, hiff⟩
      obtain rfl := Except.ok.inj hout
      refine ⟨hlegacy, ?_⟩
      by_contra hdisorder
      exact Bool.false_ne_true (hiff.2 hdisorder)
    · intro h
      exact ⟨false, rfl, fun hfalse => (nomatch hfalse), fun hdisorder => absurd h.2 hdisorder⟩
  · rw [hrun]
    constructor
    · rintro ⟨outOfOrder, hout, -⟩
      cases hout
    · intro h
      obtain ⟨t, ht, hfalse⟩ := hnew
      rw [h.1 t ht] at hfalse
      cases hfalse

/-! ## 4. A nonce that is too great -/

namespace Sample

/-- A block with the third transfer of a sender that sent nothing yet. -/
def skippedNonce : Block := ⟨header 2 0 0, [transfer]⟩

end Sample

/-- **The third transaction of an unknown sender passes.** -/
theorem skippedNonce_not : ¬FindsDisorder Services.simple .empty Sample.skippedNonce := by
  rintro ⟨outOfOrder, hrun, hiff⟩
  have hpasses : blockContainsOutOfOrderNonce Sample.skippedNonce.transactions = .ok false := rfl
  obtain rfl := Except.ok.inj (hpasses.symm.trans hrun)
  refine absurd (hiff.2 fun horder => ?_) Bool.false_ne_true
  have hsender := horder Sample.alice
  have hnonces : noncesOf Sample.alice Sample.skippedNonce.transactions = [some 3] := by decide
  rw [walletNonce_eq, hnonces] at hsender
  revert hsender
  decide

end CoreEx
