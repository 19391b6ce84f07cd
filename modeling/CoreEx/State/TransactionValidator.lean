/-
  File:      CoreEx/State/TransactionValidator.lean
  Subject:   `core-state/source/transaction-validator.ts`: a transaction tried on a repository of
             its own.

  The container gives each validator the handlers of a request, whose repository is a clone of the
  chain's. A clone copies every wallet before its first change, so the validator is modelled on a
  repository that stands for the same books.

  * `TransactionValidator.validate` -- the code;
  * `handled_nonce`, `handled_consistent` -- what the handlers leave behind;
  * **`validate_atomic`** -- the handler applies the transaction, or the books stay as they are.
-/
import CoreEx.Codec.Signer
import CoreEx.Codec.TransactionFactory
import CoreEx.State.Transactions

namespace CoreEx

open WalletRepository Base

/-! ## 1. The code -/

namespace TransactionValidator

/-- What `strictEqual(a, b)` of Node throws; its text shows both values. -/
def notStrictlyEqual : Exception := .error "Expected values to be strictly equal"

/-- `validate(transaction)`. -/
def validate (env : CodecServices) (base : Services) (t : Transaction) : RepositoryProg Unit := do
  let deserialized ← Prog.ofExcept (TransactionFactory.fromBytes env (ofHex t.serialized) none)
  Prog.throwIf (t.data.id ≠ deserialized.data.id) notStrictlyEqual
  let handler ← Prog.ofExcept (getActivatedHandlerForData handlers t.data)
  handler.apply (env.services base) t

end TransactionValidator

/-! ## 2. What the handlers leave behind -/

section Handled

variable {env : Services} {L : Ledger} {N : Names} {t : Transaction} {s : Address}

/-- The one thing a type changes is no nonce. -/
theorem shape_nonce (L : Ledger) (a : Address) :
    (shape env t.data s L a).nonce = (L a).nonce := by
  by_cases hv : t.data.type = TransactionType.vote
  · unfold shape
    rw [if_pos hv, Ledger.change_apply]
    split
    · rfl
    · rfl
  · obtain ⟨b, f, hf, hshape⟩ := @shape_inert env t s hv
    rw [hshape, Ledger.change_apply]
    split
    · exact hf.nonce _
    · rfl

/-- **The sender has the nonce of the transaction, everybody else the one he had.** -/
theorem handled_nonce (a : Address) : ((handled env t s (L, N)).1 a).nonce =
    if a = s then nonceOf t else (L a).nonce := by
  have hpost : ∀ M : Ledger, ∀ ps, (M.post ps a).nonce = (M a).nonce := fun _ _ => rfl
  show (shape env t.data s _ a).nonce = _
  rw [shape_nonce, hpost, Ledger.bump, Ledger.change_apply]
  split
  · rfl
  · rfl

theorem handled_consistent (hd : t.data.SchemaValid) (hL : L.Consistent env)
    (h : Admitted env L N s t) : (handled env t s (L, N)).1.Consistent env := by
  have happly := h.consistent hL
  rw [← addVotes_handled hd hL h] at happly
  exact happly.of_addVotes

end Handled

/-! ## 3. What validating does to the books -/

namespace TransactionValidator

variable {env : CodecServices} {base : Services} {L : Ledger} {N : Names} {t : Transaction}
  {k : PublicKey}

/-- **A transaction is applied by its handler, or the books stay as they are.** -/
theorem validate_atomic (hd : t.data.SchemaValid) (hL : L.Consistent (env.services base))
    (hk : t.data.senderPublicKey = some k) :
    Prog.Atomic (Stands (env.services base)) (L, N) (validate env base t)
      (fun _ => Admitted (env.services base) L N ((env.services base).addressFromPublicKey k) t)
      (handled (env.services base) t ((env.services base).addressFromPublicKey k) (L, N)) := by
  unfold validate
  refine Prog.Atomic.ofExcept.check fun deserialized _ => ?_
  refine Prog.Atomic.throwIf.check fun _ _ => ?_
  refine Prog.Atomic.ofExcept.check fun x hx => ?_
  exact (handler_apply_decided hd hL hk hx).atomic.mono fun _ hq => hq.1

end TransactionValidator

end CoreEx
