/-
  File:      CoreEx/State/Bookkeeping.lean
  Subject:   Accounts up to rank, round and last block.

  Three attributes of a validator are notes that no transaction looks at: `rank` and `round`, which
  the ranking of the validators writes, and `lastBlock`, which the attribute mutator writes. What
  the rest of an account becomes depends on the rest alone, so a block that was applied can be
  reverted whatever has been noted since.

  * `Account.core`, `Ledger.core`, `Books.core` -- without the notes;
  * `Ledger.core_revert`, `Books.core_revert` -- reverting a transaction acts on what is left;
  * `Ledger.apply_lastBlock`, `Ledger.revert_lastBlock` -- what transactions do
    to that note;
  * `AppliedBlock` -- a block leads from some books to others, up to notes;
  * **`BlockState.revertBlock_notes`** -- it can be reverted from any books that differ in notes,
    and the last blocks that stay.
-/
import CoreEx.State.BlockState
import CoreEx.State.LastBlocks

namespace CoreEx

open WalletRepository Base

/-! ## 1. Accounts -/

namespace Account

/-- The account without its notes. -/
def core (w : Account) : Account :=
  w.setValidator (w.validator.map fun v =>
    { v with rank := none, round := none, lastBlock := none })

variable (w : Account)

@[simp] theorem core_balance : w.core.balance = w.balance := rfl

@[simp] theorem core_nonce : w.core.nonce = w.nonce := rfl

@[simp] theorem core_vote : w.core.vote = w.vote := rfl

@[simp] theorem core_multiSignature : w.core.multiSignature = w.multiSignature := rfl

@[simp] theorem core_isValidator : w.core.isValidator = w.isValidator := by
  simp [core, isValidator, setValidator]

@[simp] theorem core_username : w.core.username = w.username := by
  simp only [core, username, setValidator]
  cases w.validator <;> rfl

@[simp] theorem core_isResigned : w.core.isResigned = w.isResigned := by
  simp only [core, isResigned, setValidator]
  cases w.validator <;> rfl

@[simp] theorem core_voteBalance? : w.core.voteBalance? = w.voteBalance? := by
  simp only [core, voteBalance?, setValidator]
  cases w.validator <;> rfl

theorem core_addVoteBalance (δ : Int) :
    (w.addVoteBalance δ).core = w.core.addVoteBalance δ := by
  obtain ⟨b, n, vote, ms, v⟩ := w
  cases v <;> rfl

theorem core_forgetResigned : w.forgetResigned.core = w.core.forgetResigned := by
  obtain ⟨b, n, vote, ms, v⟩ := w
  cases v <;> rfl

/-- The three notes. -/
theorem core_setRank (rank : Option Nat) : (w.setRank rank).core = w.core := by
  obtain ⟨b, n, vote, ms, v⟩ := w
  cases v <;> rfl

theorem core_setRound (round : Option Int) : (w.setRound round).core = w.core := by
  obtain ⟨b, n, vote, ms, v⟩ := w
  cases v <;> rfl

theorem core_setLastBlock (lastBlock : Option BlockData) :
    (w.setLastBlock lastBlock).core = w.core := by
  obtain ⟨b, n, vote, ms, v⟩ := w
  cases v <;> rfl

end Account

/-! ## 2. Ledgers -/

namespace Ledger

/-- The accounts without their notes. -/
def core (L : Ledger) : Ledger := fun a => (L a).core

variable {env : Services} {t : Transaction} {s : Address}

@[simp] theorem core_apply_self (L : Ledger) (a : Address) : L.core a = (L a).core := rfl

theorem core_change {f : Account → Account} (hf : ∀ w, (f w).core = f w.core) (a : Address)
    (L : Ledger) : (L.change a f).core = L.core.change a f := by
  funext b
  simp only [core_apply_self, change_apply]
  split
  · exact hf _
  · rfl

/-- Writing a note. -/
theorem core_note {f : Account → Account} (hf : ∀ w, (f w).core = w.core) (a : Address)
    (L : Ledger) : (L.change a f).core = L.core := by
  funext b
  simp only [core_apply_self, change_apply]
  split
  · exact hf _
  · rfl

@[simp] theorem delegate_core (L : Ledger) : L.core.delegate env = L.delegate env := rfl

theorem core_post (ps : List (Address × Int)) (L : Ledger) :
    (L.post ps).core = L.core.post ps := rfl

theorem core_addVotes (ps : List (Address × Int)) (L : Ledger) :
    (L.addVotes ps).core = L.core.addVotes ps :=
  funext fun _ => Account.core_addVoteBalance _ _

theorem core_move (ps : List (Address × Int)) (L : Ledger) :
    (L.move env ps).core = L.core.move env ps := by
  unfold move
  rw [core_addVotes, core_post, delegate_core]

theorem core_redelegate (a : Address) (vote : Option PublicKey) (L : Ledger) :
    (L.redelegate env a vote).core = L.core.redelegate env a vote := by
  unfold redelegate
  rw [core_addVotes, core_change (by intro _; rfl), delegate_core]
  rfl

theorem core_bump (a : Address) (n : Int) (L : Ledger) : (L.bump a n).core = L.core.bump a n :=
  core_change (by intro _; rfl) a L

theorem core_unshape (L : Ledger) :
    (unshape env t.data s L).core = unshape env t.data s L.core := by
  unfold unshape
  split
  · exact core_change (by intro _; rfl) s L
  split
  · exact core_change (by intro _; rfl) s L
  split
  · exact core_change Account.core_forgetResigned s L
  split
  · split
    · exact core_change (by intro _; rfl) _ L
    · rfl
  · rfl

/-- **Reverting a transaction does not look at the notes.** -/
theorem core_revert (L : Ledger) : (L.revert env t s).core = L.core.revert env t s := by
  unfold Ledger.revert
  by_cases hv : t.data.type = TransactionType.vote
  · simp only [if_pos hv]
    rw [core_move, core_redelegate, core_bump]
  · simp only [if_neg hv]
    rw [core_move, core_unshape, core_bump]

theorem consistent_core {L : Ledger} : L.core.Consistent env ↔ L.Consistent env := by
  refine ⟨fun h => ⟨fun a ha => ?_, fun a ha => ?_, fun a b hb => ?_⟩,
    fun h => ⟨fun a ha => ?_, fun a ha => ?_, fun a b hb => ?_⟩⟩
  · simpa using h.username a (by simpa using ha)
  · simpa using h.voteBalance a (by simpa using ha)
  · simpa using h.votes a b hb
  · simpa using h.username a (by simpa using ha)
  · simpa using h.voteBalance a (by simpa using ha)
  · simpa using h.votes a b hb

theorem revertible_core {L : Ledger} : Revertible env L.core s t ↔ Revertible env L s t := by
  refine ⟨fun h => ⟨h.known, h.nonce, h.lists, h.vote, fun hv k hk => ?_, h.registration,
    h.multiSignature, h.multiPayment⟩, fun h => ⟨h.known, h.nonce, h.lists, h.vote,
    fun hv k hk => ?_, h.registration, h.multiSignature, h.multiPayment⟩⟩
  · simpa using h.validators hv k hk
  · simpa using h.validators hv k hk

end Ledger

/-! ## 3. Books -/

namespace Books

/-- The books without notes. -/
def core (b : Books) : Books := (b.1.core, b.2)

variable {env : Services} {t : Transaction} {s : Address} {b c : Books}

theorem good_core : Books.Good env b.core ↔ Books.Good env b := by
  refine ⟨fun h => ⟨Ledger.consistent_core.1 h.consistent, h.agrees.congr (fun a => ?_)
    fun a => ?_⟩, fun h => ⟨Ledger.consistent_core.2 h.consistent, h.agrees.congr (fun a => ?_)
    fun a => ?_⟩⟩
  · exact (Account.core_username _).symm
  · exact (Account.core_isResigned _).symm
  · exact Account.core_username _
  · exact Account.core_isResigned _

/-- Good books stay good when notes are written. -/
theorem Good.congr (hb : Books.Good env b) (h : c.core = b.core) : Books.Good env c := by
  rw [← good_core, h]
  exact good_core.2 hb

theorem core_revert : (Books.revert env t s b).core = Books.revert env t s b.core := by
  unfold Books.revert core
  simp only [← Ledger.core_revert]
  refine Prod.ext rfl ?_
  show (if reindexes t.data then _ else _) = if reindexes t.data then _ else _
  rw [Ledger.core_apply_self, Names.reindex_congr (Account.core_username _)
    (Account.core_isResigned _)]

/-- Names are no notes. -/
theorem names_eq (h : c.core = b.core) : c.2 = b.2 := by
  have hsnd := congrArg Prod.snd h
  exact hsnd

theorem accounts_eq (h : c.core = b.core) : c.1.core = b.1.core := by
  have hfst := congrArg Prod.fst h
  exact hfst

/-- Books with the same core agree on what the core shows. -/
theorem read_eq {β : Type} (h : c.core = b.core) (a : Address) (read : Account → β)
    (hread : ∀ w, read w.core = read w) : read (c.1 a) = read (b.1 a) := by
  rw [← hread (c.1 a), ← hread (b.1 a)]
  exact congrArg (fun x : Books => read (x.1 a)) h

end Books

/-! ## 4. Last blocks -/

namespace Account

variable (w : Account)

theorem lastBlock_addVoteBalance (δ : Int) : (w.addVoteBalance δ).lastBlock = w.lastBlock := by
  obtain ⟨b, n, vote, ms, v⟩ := w
  cases v <;> rfl

theorem lastBlock_setResigned : w.setResigned.lastBlock = w.lastBlock := by
  obtain ⟨b, n, vote, ms, v⟩ := w
  cases v <;> rfl

theorem lastBlock_forgetResigned : w.forgetResigned.lastBlock = w.lastBlock := by
  obtain ⟨b, n, vote, ms, v⟩ := w
  cases v <;> rfl

theorem lastBlock_setLastBlock {w : Account} (hw : w.isValidator = true)
    (lastBlock : Option BlockData) : (w.setLastBlock lastBlock).lastBlock = lastBlock := by
  obtain ⟨b, n, vote, ms, v⟩ := w
  cases v with
  | none => cases hw
  | some v => rfl

theorem lastBlock_forgetLastBlock : (w.setLastBlock none).lastBlock = none := by
  obtain ⟨b, n, vote, ms, v⟩ := w
  cases v <;> rfl

/-- Who is no validator has no last block. -/
theorem lastBlock_eq_none {w : Account} (hw : w.isValidator = false) : w.lastBlock = none := by
  obtain ⟨b, n, vote, ms, v⟩ := w
  cases v with
  | none => rfl
  | some v => cases hw

end Account

namespace Ledger

variable {env : Services} {L : Ledger} {N : Names} {t : Transaction} {s : Address}

theorem move_lastBlock (ps : List (Address × Int)) (L : Ledger) (a : Address) :
    (L.move env ps a).lastBlock = (L a).lastBlock :=
  move_read (·.lastBlock) (fun _ _ => rfl) Account.lastBlock_addVoteBalance env ps L a

theorem redelegate_lastBlock (vote : Option PublicKey) (L : Ledger) (a : Address) :
    (L.redelegate env s vote a).lastBlock = (L a).lastBlock :=
  redelegate_read (·.lastBlock) (fun _ _ => rfl) Account.lastBlock_addVoteBalance env s vote L a

theorem change_lastBlock {f : Account → Account} (hf : ∀ w, (f w).lastBlock = w.lastBlock)
    (L : Ledger) (a b : Address) : (L.change b f a).lastBlock = (L a).lastBlock := by
  rw [change_apply]
  split
  · exact hf _
  · rfl

/-- **A transaction that is admitted leaves every last block.** -/
theorem apply_lastBlock (h : Admitted env L N s t) (a : Address) :
    (L.apply env t s a).lastBlock = (L a).lastBlock := by
  have hmoved : (moved env t s L a).lastBlock = (L a).lastBlock :=
    moved_read (·.lastBlock) (fun _ _ => rfl) (fun _ _ => rfl) Account.lastBlock_addVoteBalance a
  unfold Ledger.apply shape
  by_cases hv : t.data.type = TransactionType.vote
  · simp only [if_pos hv]
    rw [redelegate_lastBlock]
    exact hmoved
  simp only [if_neg hv]
  by_cases h₁ : t.data.type = TransactionType.validatorRegistration
  · simp only [if_pos h₁]
    rw [change_apply]
    split
    · -- the sender was no validator, and begins without a last block
      rename_i hs
      subst hs
      exact (Account.lastBlock_eq_none (h.registration h₁).fresh).symm
    · exact hmoved
  simp only [if_neg h₁]
  by_cases h₂ : t.data.type = TransactionType.validatorResignation
  · simp only [if_pos h₂]
    rw [change_lastBlock Account.lastBlock_setResigned]
    exact hmoved
  simp only [if_neg h₂]
  by_cases h₃ : t.data.type = TransactionType.multiSignature
  · simp only [if_pos h₃]
    rcases t.data.multiSignature.map env.publicKeyFromMultiSignatureAsset with _ | _ | k
    · exact hmoved
    · exact hmoved
    · show (Ledger.change (env.addressFromPublicKey k) (·.setMultiSignature _) _ a).lastBlock = _
      rw [change_lastBlock (by intro _; rfl)]
      exact hmoved
  · simp only [if_neg h₃]
    exact hmoved

/-- A validator stays one. -/
theorem apply_isValidator {a : Address} (h : (L a).isValidator = true) :
    (L.apply env t s a).isValidator = true := by
  have hmoved : (moved env t s L a).isValidator = true := (moved_isValidator a).trans h
  unfold Ledger.apply
  by_cases hv : t.data.type = TransactionType.vote
  · simp only [if_pos hv]
    rw [redelegate_read (·.isValidator) (fun _ _ => rfl) Account.addVoteBalance_isValidator]
    exact hmoved
  · simp only [if_neg hv]
    unfold shape
    simp only [if_neg hv]
    split
    · rw [change_apply]
      split
      · rfl
      · exact hmoved
    split
    · rw [change_apply]
      split
      · rfl
      · exact hmoved
    split
    · rcases t.data.multiSignature.map env.publicKeyFromMultiSignatureAsset with _ | _ | k
      · exact hmoved
      · exact hmoved
      · simp only [change_apply]
        split
        · exact hmoved
        · exact hmoved
    · exact hmoved

/-- Nobody but the sender becomes one. -/
theorem apply_isValidator_of_ne {a : Address} (ha : a ≠ s) :
    (L.apply env t s a).isValidator = (L a).isValidator := by
  have hmoved : (moved env t s L a).isValidator = (L a).isValidator := moved_isValidator a
  unfold Ledger.apply
  by_cases hv : t.data.type = TransactionType.vote
  · simp only [if_pos hv]
    rw [redelegate_read (·.isValidator) (fun _ _ => rfl) Account.addVoteBalance_isValidator]
    exact hmoved
  · simp only [if_neg hv]
    unfold shape
    simp only [if_neg hv]
    split
    · rw [change_of_ne ha]
      exact hmoved
    split
    · rw [change_of_ne ha]
      exact hmoved
    split
    · rcases t.data.multiSignature.map env.publicKeyFromMultiSignatureAsset with _ | _ | k
      · exact hmoved
      · exact hmoved
      · simp only [change_apply]
        split
        · exact hmoved
        · exact hmoved
    · exact hmoved

/-- **Reverting a transaction leaves them too**, but for that of somebody who registered with
    it. -/
theorem revert_lastBlock {a : Address}
    (h : ¬(t.data.type = TransactionType.validatorRegistration ∧ a = s)) (L : Ledger) :
    (L.revert env t s a).lastBlock = (L a).lastBlock := by
  have hbump : ∀ n, (L.bump s n a).lastBlock = (L a).lastBlock := fun n =>
    bump_read (·.lastBlock) (fun _ _ => rfl) n a
  unfold Ledger.revert
  rw [move_lastBlock]
  by_cases hv : t.data.type = TransactionType.vote
  · rw [if_pos hv, redelegate_lastBlock]
    exact hbump _
  rw [if_neg hv]
  unfold unshape
  rw [if_neg hv]
  by_cases h₁ : t.data.type = TransactionType.validatorRegistration
  · rw [if_pos h₁, change_of_ne fun e => h ⟨h₁, e⟩]
    exact hbump _
  rw [if_neg h₁]
  by_cases h₂ : t.data.type = TransactionType.validatorResignation
  · rw [if_pos h₂, change_lastBlock Account.lastBlock_forgetResigned]
    exact hbump _
  rw [if_neg h₂]
  split
  · rcases t.data.multiSignature.map env.publicKeyFromMultiSignatureAsset with _ | _ | k
    · exact hbump _
    · exact hbump _
    · show (Ledger.change (env.addressFromPublicKey k) (·.setMultiSignature _) _ a).lastBlock = _
      rw [change_lastBlock (by intro _; rfl)]
      exact hbump _
  · exact hbump _

end Ledger

/-! ## 5. Blocks -/

/-- The block leads from the books `b` to books that are `b'` up to notes: its transactions are
    admitted one after the other, and its forger is a validator. -/
def AppliedBlock (env : Services) (b : Books) (block : Block) (b' : Books) : Prop :=
  ∃ c, Applied env b block.transactions c ∧
    (c.1 (env.addressFromPublicKey block.data.generatorPublicKey)).isValidator = true ∧
    b'.core = Books.core (c.1.move env
      (earned (env.addressFromPublicKey block.data.generatorPublicKey) block.data), c.2)

section Validators

variable {env : Services} {b b' : Books} {ts : List Transaction} {block : Block} {a : Address}

/-- Validators stay validators. -/
theorem Applied.isValidator (h : Applied env b ts b') (ha : (b.1 a).isValidator = true) :
    (b'.1 a).isValidator = true := by
  induction h with
  | nil b => exact ha
  | cons k _ admitted _ _ ih => exact ih (Ledger.apply_isValidator ha)

theorem AppliedBlock.isValidator (h : AppliedBlock env b block b')
    (ha : (b.1 a).isValidator = true) : (b'.1 a).isValidator = true := by
  obtain ⟨c, happlied, -, hcore⟩ := h
  have heq : (b'.1 a).isValidator = (c.1.move env (earned (env.addressFromPublicKey
      block.data.generatorPublicKey) block.data) a).isValidator :=
    Books.read_eq hcore a Account.isValidator Account.core_isValidator
  rw [heq, Ledger.move_isValidator]
  exact happlied.isValidator ha

end Validators

namespace BlockState

variable {env : Services} {b b' c : Books} {st : StateStore} {s : NodeState} {block : Block}
  {ts : List Transaction}

theorem core_forged (a : Address) (d : BlockData) (L : Ledger) :
    (forged env a d L).core = (L.move env (earned a d)).core :=
  Ledger.core_note (Account.core_setLastBlock · _) a _

theorem forged_isValidator (a c : Address) (d : BlockData) (L : Ledger) :
    (forged env a d L c).isValidator = (L c).isValidator := by
  unfold forged
  rw [Ledger.change_apply]
  split
  · rw [Account.setLastBlock_isValidator, Ledger.move_isValidator]
  · exact Ledger.move_isValidator _ _ _ _

/-- A loop that reverts what was applied, from books that differ in notes. Who was a validator
    before keeps its last block. -/
theorem revertAll_notes (hts : ∀ t ∈ ts, t.data.SchemaValid) (hb : Books.Good env b)
    (h : Applied env b ts b') (hc : c.core = b'.core) (hs : NodeStands env (c, st) s) :
    ∃ s' c', (Prog.forEach (revertTransaction env) ts.reverse).run s = .done () s' ∧
      NodeStands env (c', st) s' ∧ c'.core = b.core ∧
      ∀ a, (b.1 a).isValidator = true → (c'.1 a).lastBlock = (c.1 a).lastBlock := by
  induction h with
  | nil b => exact ⟨s, c, rfl, hs, hc, fun _ _ => rfl⟩
  | cons k sender admitted covered rest ih =>
    rename_i b b' t ts
    have hd := hts t List.mem_cons_self
    have happly := Books.Good.apply hb admitted
    obtain ⟨s₁, c₁, hloop, hs₁, hc₁, hkept₁⟩ :=
      ih (fun t' ht' => hts t' (List.mem_cons_of_mem _ ht')) happly hc
    have hgood : Books.Good env c₁ := happly.congr hc₁
    have hrevertible : Revertible env c₁.1 (env.addressFromPublicKey k) t := by
      have hledger : c₁.1.core = (Books.apply env t (env.addressFromPublicKey k) b).1.core :=
        congrArg Prod.fst hc₁
      rw [← Ledger.revertible_core, hledger, Ledger.revertible_core]
      exact admitted.revertible hb.consistent
    have hback : Prog.Always (NodeStands env) (c₁, st) (revertTransaction env t) (fun _ => True)
        (Books.revert env t (env.addressFromPublicKey k) c₁, st) :=
      revertTransaction_always hd hgood.consistent hrevertible sender
    obtain ⟨_, s₂, hlast, hs₂, -⟩ := hback.run hs₁
    refine ⟨s₂, Books.revert env t (env.addressFromPublicKey k) c₁, ?_, hs₂, ?_, fun a ha => ?_⟩
    · rw [List.reverse_cons, Prog.forEach_append, Prog.run_bind_of_done hloop,
        Prog.forEach_cons, Prog.run_bind_of_done hlast]
      rfl
    · rw [Books.core_revert, hc₁, ← Books.core_revert, Books.revert_apply hb admitted]
    · rw [← hkept₁ a (Ledger.apply_isValidator ha)]
      refine Ledger.revert_lastBlock (fun hregistered => ?_) c₁.1
      obtain ⟨htype, rfl⟩ := hregistered
      have hfresh := (admitted.registration htype).fresh
      rw [ha] at hfresh
      cases hfresh

/-- **A block that led to these books can be reverted from any that differ in notes.** Its forger
    has no last block then, and the others who were validators before keep theirs. -/
theorem revertBlock_notes (hblock : block.SchemaValid) (hb : Books.Good env b)
    (h : AppliedBlock env b block b') (hc : c.core = b'.core) (hs : NodeStands env (c, st) s) :
    ∃ s' c', (revertBlock env block).run s = .done () s' ∧ NodeStands env (c', st) s' ∧
      c'.core = b.core ∧ ∀ a, (b.1 a).isValidator = true → (c'.1 a).lastBlock =
        if a = env.addressFromPublicKey block.data.generatorPublicKey then none
        else (c.1 a).lastBlock := by
  obtain ⟨b₁, happlied, hval, hb'⟩ := h
  have hgood₁ := happlied.good hb
  have hcore : c.core = Books.core (b₁.1.move env
      (earned (env.addressFromPublicKey block.data.generatorPublicKey) block.data), b₁.2) :=
    hc.trans hb'
  have hledger : c.1.core = (b₁.1.move env
      (earned (env.addressFromPublicKey block.data.generatorPublicKey) block.data)).core :=
    Books.accounts_eq hcore
  have hcons : c.1.Consistent env := by
    rw [← Ledger.consistent_core, hledger, Ledger.consistent_core]
    exact hgood₁.consistent.move _
  have hforger : (c.1 (env.addressFromPublicKey
      block.data.generatorPublicKey)).isValidator = true := by
    have hread := congrArg (fun L : Ledger => (L (env.addressFromPublicKey
      block.data.generatorPublicKey)).isValidator) hledger
    simp only [Ledger.core_apply_self, Account.core_isValidator, Ledger.move_isValidator] at hread
    rw [hread]
    exact hval
  obtain ⟨a, s₁, hfind, hs₁, rfl⟩ := (onRepository_always (b := c) st
    (findByPublicKey_always (L := c.1) (N := c.2) block.data.generatorPublicKey)).run hs
  obtain ⟨_, s₂, hpay, hs₂, -⟩ := (onRepository_always st
    (revertBlockFromForger_always (N := c.2) hcons hforger block.data)).run hs₁
  have hback : Books.core (unforged env (env.addressFromPublicKey block.data.generatorPublicKey)
      block.data c.1, c.2) = b₁.core := by
    have hnames : c.core.2 = b₁.2 := by rw [hcore]; rfl
    refine Prod.ext ?_ hnames
    show (unforged env _ block.data c.1).core = b₁.1.core
    unfold unforged
    rw [Ledger.core_move, Ledger.core_note (Account.core_setLastBlock · _), hledger,
      ← Ledger.core_move, Ledger.move_negated]
  obtain ⟨s₃, c₃, hloop, hs₃, hc₃, hkept⟩ := revertAll_notes hblock hb happlied hback hs₂
  refine ⟨s₃, c₃, ?_, hs₃, hc₃, fun a ha => ?_⟩
  rotate_left
  · rw [hkept a ha]
    show (unforged env _ block.data c.1 a).lastBlock = _
    unfold unforged
    rw [Ledger.move_lastBlock, Ledger.change_apply]
    split
    · exact Account.lastBlock_forgetLastBlock _
    · rfl
  have htry : (tryRevert env (env.addressFromPublicKey block.data.generatorPublicKey) block).run
      (s₁, []) = .done () (s₃, [] ++ block.transactions.reverse) := by
    unfold tryRevert
    have hout : (Prog.outer (onRepository (revertBlockFromForger env
        (env.addressFromPublicKey block.data.generatorPublicKey) block.data)) :
          Prog (NodeState × List Transaction) Exception Unit).run (s₁, []) =
        .done () (s₂, []) := by
      rw [Prog.run_outer, hpay]
    rw [Prog.run_bind_of_done hout]
    exact Prog.recordEach_done [] hloop
  unfold revertBlock
  rw [Prog.run_bind_of_done hfind, Prog.run_withLocal, Prog.run_tryCatch, htry]

end BlockState

end CoreEx
