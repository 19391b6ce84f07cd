/-
  File:      CoreEx/State/BlockState.lean
  Subject:   `core-state/source/block-state.ts`, lines 30 to 89: a block applied or reverted.

  Both methods try a list of steps and, when one throws, take back the transactions they have
  finished. What the mutators did to the forger stays: in `applyBlock` only `setLastBlock` comes
  after them, in `revertBlock` everything does.

  * `NodeState`, `applyBlock`, `revertBlock` -- the code;
  * `Applied` -- a list of transactions applied one after the other;
  * `Later` -- what may happen to the accounts between applying and reverting;
  * **`revertAll_always`** -- what was applied can be reverted, in the opposite order;
  * **`applyBlock_spec`** -- `Accepted`, or `Refused` with everything as it was, or `Late`;
  * **`revertBlock_accepted`**, `revertBlock_thrown`, `revertBlock_late` -- the way back.
-/
import CoreEx.State.Mutators
import CoreEx.State.StateStore

namespace CoreEx

open WalletRepository Base

/-! ## 1. The code -/

/-- What a block works on: the wallets and the store. -/
structure NodeState where
  repository : WalletRepository
  store : StateStore

/-- Code that works on both and may throw. -/
abbrev BlockProg : Type → Type := Prog NodeState Exception

namespace BlockState

def onRepository {α : Type} (x : RepositoryProg α) : BlockProg α :=
  Prog.zoom NodeState.repository (fun r s => { s with repository := r }) x

def onStore {α : Type} (x : StoreProg α) : BlockProg α :=
  Prog.zoom NodeState.store (fun st s => { s with store := st }) x

/-- Code for which the milestone of the configured height is in force. -/
def atHeight {α : Type} (env : Services) (x : Services → RepositoryProg α) : BlockProg α := do
  let height ← Prog.gets fun s => s.store.height
  onRepository (x (env.atHeight height))

/-- `#initGenesisForgerWallet`. What is injected as `addressFactory` is the block factory, which
    has no `fromPublicKey`. -/
def initGenesisForgerWallet (forgerPublicKey : PublicKey) : RepositoryProg Unit := do
  let known ← Prog.gets fun r => r.hasByPublicKey forgerPublicKey
  Prog.throwIf (!known) (.typeError "this.addressFactory.fromPublicKey is not a function")

/-- `#applyBlockToForger`: the mutators in the order they are bound. -/
def applyBlockToForger (env : Services) (forgerWallet : Address) (blockData : BlockData) :
    RepositoryProg Unit := do
  AttributeMutator.apply forgerWallet blockData
  BalanceMutator.apply env forgerWallet blockData

/-- `#revertBlockFromForger`. -/
def revertBlockFromForger (env : Services) (forgerWallet : Address) (blockData : BlockData) :
    RepositoryProg Unit := do
  AttributeMutator.revert forgerWallet blockData
  BalanceMutator.revert env forgerWallet blockData

def applyTransaction (env : Services) (t : Transaction) : BlockProg Unit :=
  atHeight env fun env => CoreEx.applyTransaction env t

def revertTransaction (env : Services) (t : Transaction) : BlockProg Unit :=
  atHeight env fun env => CoreEx.revertTransaction env t

/-- The `try` block of `applyBlock`; the local variable is `appliedTransactions`. -/
def tryApply (env : Services) (forgerWallet : Address) (block : Block) :
    Prog (NodeState × List Transaction) Exception Unit := do
  Prog.recordEach (applyTransaction env) block.transactions
  Prog.outer do
    onRepository (applyBlockToForger env forgerWallet block.data)
    onStore (StateStore.setLastBlock block)

/-- Its `catch` block. -/
def undoApply (env : Services) (previousBlock : Block) (error : Exception) :
    Prog (NodeState × List Transaction) Exception Unit := do
  let appliedTransactions ← Prog.gets Prod.snd
  Prog.outer do
    Prog.forEach (revertTransaction env) appliedTransactions.reverse
    onStore (StateStore.setLastBlock previousBlock)
    Prog.throw error

/-- `applyBlock`. -/
def applyBlock (env : Services) (block : Block) : BlockProg Unit := do
  Prog.when (block.data.height = 1)
    (onRepository (initGenesisForgerWallet block.data.generatorPublicKey))
  let previousBlock ← onStore StateStore.getLastBlock
  let forgerWallet ← onRepository (findByPublicKey env block.data.generatorPublicKey)
  Prog.withLocal [] (Prog.tryCatch (tryApply env forgerWallet block)
    (undoApply env previousBlock))

/-- The `try` block of `revertBlock`; the local variable is `revertedTransactions`. -/
def tryRevert (env : Services) (forgerWallet : Address) (block : Block) :
    Prog (NodeState × List Transaction) Exception Unit := do
  Prog.outer (onRepository (revertBlockFromForger env forgerWallet block.data))
  Prog.recordEach (revertTransaction env) block.transactions.reverse

/-- Its `catch` block. -/
def undoRevert (env : Services) (error : Exception) :
    Prog (NodeState × List Transaction) Exception Unit := do
  let revertedTransactions ← Prog.gets Prod.snd
  Prog.outer do
    Prog.forEach (applyTransaction env) revertedTransactions.reverse
    Prog.throw error

/-- `revertBlock`. -/
def revertBlock (env : Services) (block : Block) : BlockProg Unit := do
  let forgerWallet ← onRepository (findByPublicKey env block.data.generatorPublicKey)
  Prog.withLocal [] (Prog.tryCatch (tryRevert env forgerWallet block) (undoRevert env))

end BlockState

/-! ## 2. The height plays no part in the books -/

section Height

variable {env : Services} {height : Nat} {b : Books} {L : Ledger} {N : Names} {s : Address}
  {t : Transaction}

theorem stands_atHeight {r : WalletRepository} :
    Stands (env.atHeight height) b r ↔ Stands env b r :=
  ⟨fun h => ⟨⟨h.sound.keys, h.sound.attached, h.sound.own⟩, h.accounts, h.names⟩,
    fun h => ⟨⟨h.sound.keys, h.sound.attached, h.sound.own⟩, h.accounts, h.names⟩⟩

theorem consistent_atHeight : L.Consistent (env.atHeight height) ↔ L.Consistent env :=
  ⟨fun h => ⟨h.username, h.voteBalance, h.votes⟩, fun h => ⟨h.username, h.voteBalance, h.votes⟩⟩

theorem admitted_atHeight : Admitted (env.atHeight height) L N s t ↔ Admitted env L N s t := by
  refine ⟨fun h => ?_, fun h => ?_⟩
  all_goals
    refine ⟨h.known, h.nonce, fun hv => ?_, h.registration, h.resignation, fun hm => ?_,
      h.multiPayment⟩
    · exact ⟨(h.vote hv).lists, (h.vote hv).present, (h.vote hv).validators⟩
    · exact ⟨(h.multiSignature hm).fresh⟩

theorem revertible_atHeight : Revertible (env.atHeight height) L s t ↔ Revertible env L s t :=
  ⟨fun h => ⟨h.known, h.nonce, h.lists, h.vote, h.validators, h.registration, h.multiSignature,
      h.multiPayment⟩,
    fun h => ⟨h.known, h.nonce, h.lists, h.vote, h.validators, h.registration, h.multiSignature,
      h.multiPayment⟩⟩

end Height

/-! ## 3. One step of a block -/

/-- The node has these books and this store. -/
def NodeStands (env : Services) (x : Books × StateStore) (s : NodeState) : Prop :=
  Stands env x.1 s.repository ∧ s.store = x.2

/-- A node with a consistent repository and an ordered store. -/
structure ConsistentNode (env : Services) where
  repository : ConsistentRepository env
  store : StateStore
  ordered : store.Ordered

namespace ConsistentNode

variable {env : Services}

/-- What the code works on. -/
def state (n : ConsistentNode env) : NodeState := ⟨n.repository.toWalletRepository, n.store⟩

theorem stands (n : ConsistentNode env) : NodeStands env (n.repository.books, n.store) n.state :=
  ⟨n.repository.stands, rfl⟩

end ConsistentNode

theorem NodeStands.eta {env : Services} {b : Books} {st : StateStore} {s : NodeState}
    (h : NodeStands env (b, st) s) : ({ s with store := st } : NodeState) = s := by
  have hstore : s.store = st := h.2
  rw [← hstore]

namespace BlockState

variable {env : Services} {b b' : Books} {L : Ledger} {N : Names} {st st' : StateStore}
  {t : Transaction} {k : PublicKey} {α : Type} {P : α → Prop}

theorem onRepository_always {x : RepositoryProg α} (st : StateStore)
    (h : Prog.Always (Stands env) b x P b') :
    Prog.Always (NodeStands env) (b, st) (onRepository x) P (b', st) :=
  Prog.Always.zoom h (fun _ ht => ht.1) fun _ _ ht hs => ⟨hs, ht.2⟩

theorem onRepository_atomic {x : RepositoryProg α} (st : StateStore)
    (h : Prog.Atomic (Stands env) b x P b') :
    Prog.Atomic (NodeStands env) (b, st) (onRepository x) P (b', st) :=
  Prog.Atomic.zoom h (fun _ ht => ht.1) (fun _ _ ht hs => ⟨hs, ht.2⟩)
    fun _ _ ht hs => ⟨hs, ht.2⟩

theorem height_always (st : StateStore) :
    Prog.Always (NodeStands env) (b, st) (Prog.gets fun s => s.store.height : BlockProg Nat)
      (fun h => h = st.height) (b, st) :=
  Prog.Always.gets fun _ hs => congrArg StateStore.height hs.2

/-- **One transaction of a block, applied or refused.** -/
theorem applyTransaction_atomic (hd : t.data.SchemaValid) (hL : L.Consistent env)
    (hk : t.data.senderPublicKey = some k) :
    Prog.Atomic (NodeStands env) ((L, N), st) (applyTransaction env t)
      (fun _ => Admitted env L N (env.addressFromPublicKey k) t ∧
        Covered L (env.addressFromPublicKey k) t)
      (Books.apply env t (env.addressFromPublicKey k) (L, N), st) := by
  unfold applyTransaction atHeight
  refine (height_always st).atomic.check fun height hh => ?_
  subst hh
  have h := CoreEx.applyTransaction_atomic (N := N) hd
    (show L.Consistent (env.atHeight st.height) from consistent_atHeight.2 hL) hk
  refine onRepository_atomic st fun r hr => ?_
  refine (h r (stands_atHeight.2 hr)).mono (fun _ r' hq => ?_) fun _ r' he => stands_atHeight.1 he
  exact ⟨stands_atHeight.1 hq.1, admitted_atHeight.1 hq.2.1, hq.2.2⟩

/-- **One transaction of a block, reverted.** -/
theorem revertTransaction_always (hd : t.data.SchemaValid) (hL : L.Consistent env)
    (h : Revertible env L (env.addressFromPublicKey k) t) (hk : t.data.senderPublicKey = some k) :
    Prog.Always (NodeStands env) ((L, N), st) (revertTransaction env t) (fun _ => True)
      (Books.revert env t (env.addressFromPublicKey k) (L, N), st) := by
  unfold revertTransaction atHeight
  refine (height_always st).bind fun height hh => ?_
  subst hh
  have hback := CoreEx.revertTransaction_always (N := N) hd
    (show L.Consistent (env.atHeight st.height) from consistent_atHeight.2 hL)
    (revertible_atHeight.2 h) hk
  refine onRepository_always st fun r hr => ?_
  refine (hback r (stands_atHeight.2 hr)).mono (fun _ r' hq => ?_) fun _ r' he => he
  exact ⟨stands_atHeight.1 hq.1, trivial⟩

end BlockState

/-! ## 4. Lists of transactions -/

/-- The list leads from some books to others, every transaction admitted and covered where it
    stands. -/
inductive Applied (env : Services) : Books → List Transaction → Books → Prop where
  | nil (b : Books) : Applied env b [] b
  | cons {b b' : Books} {t : Transaction} {ts : List Transaction} (k : PublicKey)
    (sender : t.data.senderPublicKey = some k)
    (admitted : Admitted env b.1 b.2 (env.addressFromPublicKey k) t)
    (covered : Covered b.1 (env.addressFromPublicKey k) t)
    (rest : Applied env (Books.apply env t (env.addressFromPublicKey k) b) ts b') :
    Applied env b (t :: ts) b'

theorem Applied.good {env : Services} {b b' : Books} {ts : List Transaction}
    (h : Applied env b ts b') (hb : Books.Good env b) : Books.Good env b' := by
  induction h with
  | nil b => exact hb
  | cons k _ admitted _ _ ih => exact ih (Books.Good.apply hb admitted)

/-- What may happen to the accounts between applying and reverting: it stays out of the way. -/
structure Later (env : Services) (G : Ledger → Ledger) : Prop where
  revert : ∀ t s L, (G L).revert env t s = G (L.revert env t s)
  revertible : ∀ {t s L}, Revertible env L s t → Revertible env (G L) s t
  consistent : ∀ {L}, L.Consistent env → (G L).Consistent env
  username : ∀ L a, (G L a).username = (L a).username
  isResigned : ∀ L a, (G L a).isResigned = (L a).isResigned

namespace Later

variable {env : Services} {G H : Ledger → Ledger}

theorem id : Later env fun L => L :=
  ⟨fun _ _ _ => rfl, fun h => h, fun h => h, fun _ _ => rfl, fun _ _ => rfl⟩

theorem move (ps : List (Address × Int)) : Later env (Ledger.move env ps) :=
  ⟨fun _ _ L => Ledger.revert_move ps L, fun h => h.move ps, fun h => h.move ps,
    Ledger.move_username env ps, Ledger.move_isResigned env ps⟩

theorem setLastBlock (a : Address) (lastBlock : Option BlockData) :
    Later env (Ledger.change a (·.setLastBlock lastBlock)) := by
  refine ⟨fun _ _ L => revert_setLastBlock a lastBlock L, fun h => h.setLastBlock a lastBlock,
    fun h => h.change rfl (Account.setLastBlock_isValidator _ _)
      (Account.setLastBlock_username _ _) (Account.setLastBlock_voteBalance? _ _),
    fun L c => ?_, fun L c => ?_⟩
  · rw [Ledger.change_apply]
    split
    · exact Account.setLastBlock_username _ _
    · rfl
  · rw [Ledger.change_apply]
    split
    · exact Account.setLastBlock_isResigned _ _
    · rfl

theorem comp (hG : Later env G) (hH : Later env H) : Later env fun L => G (H L) := by
  refine ⟨fun t s L => ?_, fun h => hG.revertible (hH.revertible h),
    fun h => hG.consistent (hH.consistent h), fun L a => ?_, fun L a => ?_⟩
  · rw [hG.revert, hH.revert]
  · rw [hG.username, hH.username]
  · rw [hG.isResigned, hH.isResigned]

/-- Reverting what was applied, with something in between. -/
theorem books_revert (hG : Later env G) {L : Ledger} {N : Names} {t : Transaction} {s : Address}
    (hb : Books.Good env (L, N)) (h : Admitted env L N s t) :
    Books.revert env t s (G (Books.apply env t s (L, N)).1, (Books.apply env t s (L, N)).2) =
      (G L, N) := by
  have hback := Books.revert_apply (s := s) hb h
  have hfst : (Books.apply env t s (L, N)).1.revert env t s = L := congrArg Prod.fst hback
  have hsnd : (Books.revert env t s (Books.apply env t s (L, N))).2 = N := congrArg Prod.snd hback
  have hgfst : (G (Books.apply env t s (L, N)).1).revert env t s = G L := by
    rw [hG.revert, hfst]
  refine Prod.ext hgfst ?_
  unfold Books.revert at hsnd ⊢
  simp only [hfst] at hsnd
  simp only [hgfst]
  rw [Names.reindex_congr (hG.username L s) (hG.isResigned L s)]
  exact hsnd

end Later

namespace BlockState

variable {env : Services} {b b' : Books} {st : StateStore} {ts : List Transaction}
  {G : Ledger → Ledger}

/-- **What was applied can be reverted, in the opposite order, whatever happened in between.** -/
theorem revertAll_always (hts : ∀ t ∈ ts, t.data.SchemaValid) (hG : Later env G)
    (hb : Books.Good env b) (h : Applied env b ts b') :
    Prog.Always (NodeStands env) ((G b'.1, b'.2), st)
      (Prog.forEach (revertTransaction env) ts.reverse) (fun _ => True) ((G b.1, b.2), st) := by
  induction h with
  | nil b => exact Prog.Always.pure trivial
  | cons k sender admitted covered rest ih =>
    rename_i b b' t ts
    obtain ⟨L, N⟩ := b
    have hd := hts t List.mem_cons_self
    have ih := ih (fun t' ht' => hts t' (List.mem_cons_of_mem _ ht')) (Books.Good.apply hb admitted)
    rw [List.reverse_cons, Prog.forEach_append]
    refine ih.bind fun _ _ => ?_
    rw [← hG.books_revert hb admitted]
    refine Prog.Always.bind (P := fun _ => True) ?_ fun _ _ => Prog.Always.pure trivial
    exact revertTransaction_always hd
      (hG.consistent (admitted.consistent hb.consistent))
      (hG.revertible (admitted.revertible hb.consistent)) sender

/-- The loop over the transactions of a block, when it returns. -/
theorem applyAll_done (hts : ∀ t ∈ ts, t.data.SchemaValid) (hb : Books.Good env b)
    {s s' : NodeState} (hs : NodeStands env (b, st) s)
    (hr : (Prog.forEach (applyTransaction env) ts).run s = .done () s') :
    ∃ b', Applied env b ts b' ∧ NodeStands env (b', st) s' := by
  induction ts generalizing b s with
  | nil =>
    obtain rfl : s = s' := by simpa using hr
    exact ⟨b, .nil b, hs⟩
  | cons t ts ih =>
    obtain ⟨L, N⟩ := b
    have hd := hts t List.mem_cons_self
    obtain ⟨k, hk⟩ := Option.isSome_iff_exists.1 hd.senderPublicKey
    rw [Prog.forEach_cons, Prog.run_bind_done] at hr
    obtain ⟨_, s₁, ht, hrest⟩ := hr
    obtain ⟨hs₁, hadmitted, hcovered⟩ :=
      (applyTransaction_atomic hd hb.consistent hk).of_done hs ht
    obtain ⟨b', happlied, hs'⟩ := ih (fun t' ht' => hts t' (List.mem_cons_of_mem _ ht'))
      (Books.Good.apply hb hadmitted) hs₁ hrest
    exact ⟨b', .cons k hk hadmitted hcovered happlied, hs'⟩

end BlockState

/-! ## 5. A block applied -/

/-- The accounts after the forger got its due: the mutators' part of a block. -/
def forged (env : Services) (a : Address) (d : BlockData) (L : Ledger) : Ledger :=
  (L.move env (earned a d)).change a (·.setLastBlock (some d))

namespace BlockState

variable {env : Services} {b b' : Books} {st : StateStore} {s s' : NodeState} {block : Block}

theorem later_forged (a : Address) (d : BlockData) : Later env (forged env a d) :=
  (Later.setLastBlock a (some d)).comp (Later.move (earned a d))

/-- The forger is paid, or it is no validator and nothing happened. -/
theorem applyBlockToForger_atomic {L : Ledger} {N : Names} (hL : L.Consistent env) (a : Address)
    (d : BlockData) :
    Prog.Atomic (Stands env) (L, N) (applyBlockToForger env a d)
      (fun _ => (L a).isValidator = true) (forged env a d L, N) := by
  unfold applyBlockToForger AttributeMutator.apply forged
  refine (AttributeMutator.setLastBlock_atomic a (some d)).andAlways fun _ hval => ?_
  rw [← setLastBlock_move]
  have hcons : (L.change a (·.setLastBlock (some d))).Consistent env :=
    (Later.setLastBlock a (some d)).consistent hL
  exact (BalanceMutator.apply_always hcons a d).mono fun _ _ => hval

/-- Everything of `applyBlock` before the store: the transactions and the mutators. -/
def beforeStore (env : Services) (block : Block) : BlockProg Unit := do
  let forgerWallet ← onRepository (findByPublicKey env block.data.generatorPublicKey)
  Prog.forEach (applyTransaction env) block.transactions
  onRepository (applyBlockToForger env forgerWallet block.data)

/-- The block gets past its transactions and its forger and is then refused by the store: it is
    more than one above the last block. -/
def Late (env : Services) (block : Block) (s : NodeState) : Prop :=
  (∃ s', (beforeStore env block).run s = .done () s') ∧
    ∃ last, s.store.lastBlock? = some last ∧ last.data.height + 1 < block.data.height

/-- The catch block takes back what was recorded and sets the last block again. -/
theorem undoApply_run {ts : List Transaction} (hts : ∀ t ∈ ts, t.data.SchemaValid)
    {G : Ledger → Ledger} (hG : Later env G) (hb : Books.Good env b) (hst : st.Ordered)
    {prev : Block} (hprev : st.lastBlock? = some prev) (h : Applied env b ts b')
    (hs : NodeStands env ((G b'.1, b'.2), st) s) (e : Exception) :
    ∃ s' st', (undoApply env prev e).run (s, ts) = .thrown e (s', ts) ∧
      NodeStands env ((G b.1, b.2), st') s' ∧ st'.Ordered ∧ st'.lastBlock? = some prev := by
  obtain ⟨_, s₁, hrun, hs₁, -⟩ := (revertAll_always hts hG hb h).run hs
  obtain ⟨st', hset, hord, hlast, -⟩ := StateStore.setLastBlock_done hst prev
    fun last hl => by
      rw [hprev] at hl
      cases hl
      omega
  have hstore : (onStore (StateStore.setLastBlock prev)).run s₁ =
      .done () { s₁ with store := st' } := by
    unfold onStore
    rw [Prog.run_zoom, hs₁.2, hset]
  refine ⟨{ s₁ with store := st' }, st', ?_, ⟨hs₁.1, rfl⟩, hord, hlast⟩
  unfold undoApply
  rw [Prog.run_bind_of_done (Prog.run_gets _ _), Prog.run_outer]
  rw [Prog.run_bind_of_done hrun, Prog.run_bind_of_done hstore]
  rfl

/-- What `applyBlock` promises when it returns. -/
def Accepted (env : Services) (block : Block) (b : Books) (s' : NodeState) : Prop :=
  ∃ b' st', Applied env b block.transactions b' ∧
    (b'.1 (env.addressFromPublicKey block.data.generatorPublicKey)).isValidator = true ∧
    NodeStands env ((forged env (env.addressFromPublicKey block.data.generatorPublicKey)
      block.data b'.1, b'.2), st') s' ∧
    st'.Ordered ∧ st'.lastBlock? = some block ∧ st'.height = block.data.height

/-- What it leaves when it throws: everything as it was, unless it throws late; then the forger
    keeps what it got. -/
def Refused (env : Services) (block : Block) (b : Books) (st : StateStore) (late : Prop)
    (s' : NodeState) : Prop :=
  ∃ b'' st', NodeStands env (b'', st') s' ∧ st'.Ordered ∧ st'.lastBlock? = st.lastBlock? ∧
    ((¬ late ∧ b'' = b) ∨ (late ∧ b'' = (forged env
      (env.addressFromPublicKey block.data.generatorPublicKey) block.data b.1, b.2)))

/-- `try` and `catch` of `applyBlock`. -/
theorem tryApply_spec (hblock : block.SchemaValid) (hb : Books.Good env b) (hst : st.Ordered)
    {prev : Block} (hprev : st.lastBlock? = some prev) (hs : NodeStands env (b, st) s)
    {a : Address} (ha : a = env.addressFromPublicKey block.data.generatorPublicKey) :
    (Prog.withLocal [] (Prog.tryCatch (tryApply env a block) (undoApply env prev)) :
      BlockProg Unit).Spec s (fun _ s' => Accepted env block b s' ∧
        ¬ prev.data.height + 1 < block.data.height)
      fun _ s' => Refused env block b st
        ((∃ s₁, (Prog.forEach (applyTransaction env) block.transactions >>= fun _ =>
          onRepository (applyBlockToForger env a block.data)).run s = .done () s₁) ∧
            prev.data.height + 1 < block.data.height) s' := by
  subst ha
  unfold Prog.Spec
  rw [Prog.run_withLocal, Prog.run_tryCatch]
  cases hloop : (Prog.forEach (applyTransaction env) block.transactions).run s with
  | thrown e s₂ =>
    -- a transaction threw: it left the books alone, and what came before it is taken back
    obtain ⟨ts₁, t, ts₂, s₁, hsplit, hpre, hthrow, hrec⟩ := Prog.recordEach_thrown [] hloop
    have htry : (tryApply env (env.addressFromPublicKey block.data.generatorPublicKey)
        block).run (s, []) = .thrown e (s₂, ts₁) := by
      unfold tryApply
      exact Prog.run_bind_of_thrown hrec
    have hts₁ : ∀ t ∈ ts₁, t.data.SchemaValid := fun t' ht' =>
      hblock t' (by rw [hsplit]; exact List.mem_append_left _ ht')
    have hd : t.data.SchemaValid := hblock t (by rw [hsplit]; simp)
    obtain ⟨b₁, happlied, hs₁⟩ := applyAll_done hts₁ hb hs hpre
    obtain ⟨k, hk⟩ := Option.isSome_iff_exists.1 hd.senderPublicKey
    have hs₂ : NodeStands env (b₁, st) s₂ :=
      (applyTransaction_atomic hd (happlied.good hb).consistent hk).of_thrown hs₁ hthrow
    obtain ⟨s', st', hundo, hstands, hord, hlast⟩ :=
      undoApply_run hts₁ Later.id hb hst hprev happlied hs₂ e
    rw [htry]
    simp only [hundo]
    refine ⟨b, st', hstands, hord, hlast.trans hprev.symm, Or.inl ⟨fun hlate => ?_, rfl⟩⟩
    obtain ⟨s₃, hs₃⟩ := hlate.1
    rw [Prog.run_bind_of_thrown hloop] at hs₃
    cases hs₃
  | done u s₂ =>
    have hrec := Prog.recordEach_done [] hloop
    obtain ⟨b₁, happlied, hs₂⟩ := applyAll_done hblock hb hs hloop
    have hcons := (happlied.good hb).consistent
    have hforger := onRepository_atomic st (applyBlockToForger_atomic (N := b₁.2) hcons
      (env.addressFromPublicKey block.data.generatorPublicKey) block.data)
    cases hpay : (onRepository (applyBlockToForger env
        (env.addressFromPublicKey block.data.generatorPublicKey) block.data)).run s₂ with
    | thrown e s₃ =>
      -- the forger is no validator
      have hs₃ : NodeStands env (b₁, st) s₃ := hforger.of_thrown hs₂ hpay
      have htry : (tryApply env (env.addressFromPublicKey block.data.generatorPublicKey)
          block).run (s, []) = .thrown e (s₃, block.transactions) := by
        unfold tryApply
        rw [Prog.run_bind_of_done hrec, Prog.run_outer, Prog.run_bind_of_thrown hpay]
        rfl
      obtain ⟨s', st', hundo, hstands, hord, hlast⟩ :=
        undoApply_run hblock Later.id hb hst hprev happlied hs₃ e
      rw [htry]
      simp only [hundo]
      refine ⟨b, st', hstands, hord, hlast.trans hprev.symm, Or.inl ⟨fun hlate => ?_, rfl⟩⟩
      obtain ⟨s₄, hs₄⟩ := hlate.1
      rw [Prog.run_bind_of_done hloop, hpay] at hs₄
      cases hs₄
    | done u' s₃ =>
      obtain ⟨hs₃, hval⟩ := hforger.of_done hs₂ hpay
      by_cases hnext : prev.data.height + 1 < block.data.height
      · -- the store refuses the block when everything else is done
        have hset : (onStore (StateStore.setLastBlock block)).run s₃ =
            .thrown .assertionError s₃ := by
          unfold onStore
          rw [Prog.run_zoom, hs₃.2, StateStore.setLastBlock_thrown hprev hnext]
          exact congrArg _ hs₃.eta
        have htry : (tryApply env (env.addressFromPublicKey block.data.generatorPublicKey)
            block).run (s, []) = .thrown .assertionError (s₃, block.transactions) := by
          unfold tryApply
          rw [Prog.run_bind_of_done hrec, Prog.run_outer, Prog.run_bind_of_done hpay, hset]
          rfl
        obtain ⟨s', st', hundo, hstands, hord, hlast⟩ := undoApply_run hblock
          (later_forged (env.addressFromPublicKey block.data.generatorPublicKey) block.data) hb hst
          hprev happlied hs₃ .assertionError
        rw [htry]
        simp only [hundo]
        refine ⟨_, st', hstands, hord, hlast.trans hprev.symm, Or.inr ⟨⟨⟨s₃, ?_⟩, hnext⟩, rfl⟩⟩
        rw [Prog.run_bind_of_done hloop, hpay]
      · obtain ⟨st', hset, hord, hlast, hheight⟩ := StateStore.setLastBlock_done hst block
          fun last hl => by
            rw [hprev] at hl
            cases hl
            omega
        have hstore : (onStore (StateStore.setLastBlock block)).run s₃ =
            .done () { s₃ with store := st' } := by
          unfold onStore
          rw [Prog.run_zoom, hs₃.2, hset]
        have htry : (tryApply env (env.addressFromPublicKey block.data.generatorPublicKey)
            block).run (s, []) = .done () ({ s₃ with store := st' }, block.transactions) := by
          unfold tryApply
          rw [Prog.run_bind_of_done hrec, Prog.run_outer, Prog.run_bind_of_done hpay, hstore]
          rfl
        rw [htry]
        exact ⟨⟨b₁, st', happlied, hval, ⟨hs₃.1, rfl⟩, hord, hlast, hheight⟩, hnext⟩

theorem initGenesisForgerWallet_atomic {L : Ledger} {N : Names} (k : PublicKey) :
    Prog.Atomic (Stands env) (L, N) (initGenesisForgerWallet k) (fun _ => True) (L, N) := by
  unfold initGenesisForgerWallet
  refine (gets_always _).atomic.check fun known _ => ?_
  exact Prog.Atomic.throwIf.mono fun _ _ => trivial

/-- **`applyBlock` accepts the block, or leaves everything as it was, or is late.** -/
theorem applyBlock_spec (hblock : block.SchemaValid) (hb : Books.Good env b) (hst : st.Ordered)
    (hs : NodeStands env (b, st) s) :
    (applyBlock env block).Spec s (fun _ s' => Accepted env block b s' ∧ ¬ Late env block s)
      fun _ s' => Refused env block b st (Late env block s) s' := by
  have hsame : ∀ {s' : NodeState} {late : Prop}, NodeStands env (b, st) s' → ¬ late →
      Refused env block b st late s' :=
    fun hs' hl => ⟨b, st, hs', hst, rfl, Or.inl ⟨hl, rfl⟩⟩
  unfold applyBlock
  refine Prog.Spec.bind (Q := fun _ s₀ => NodeStands env (b, st) s₀ ∧
    (block.data.height ≠ 1 → s₀ = s)) ?_ ?_
  · refine Prog.Spec.when (fun h1 => ?_) fun h1 => ⟨hs, fun _ => rfl⟩
    have hinit : Prog.Atomic (NodeStands env) (b, st)
        (onRepository (initGenesisForgerWallet block.data.generatorPublicKey)) (fun _ => True)
        (b, st) :=
      onRepository_atomic st (initGenesisForgerWallet_atomic block.data.generatorPublicKey)
    refine (hinit s hs).mono (fun _ s₀ hq => ⟨hq.1, fun hne => absurd h1 hne⟩) fun _ s₀ he => ?_
    refine hsame he fun hlate => ?_
    obtain ⟨last, -, hlt⟩ := hlate.2
    omega
  · intro _ s₀ hs₀
    obtain ⟨hs₀, heq⟩ := hs₀
    refine Prog.Spec.bind (Q := fun prev s₁ => s₁ = s₀ ∧ st.lastBlock? = some prev) ?_ ?_
    · unfold Prog.Spec onStore StateStore.getLastBlock
      rw [Prog.run_zoom, hs₀.2, Prog.run_bind_of_done (Prog.run_gets _ _)]
      have hback : ({ s₀ with store := st } : NodeState) = s₀ := hs₀.eta
      cases hlast : st.lastBlock? with
      | none =>
        show Refused env block b st (Late env block s) { s₀ with store := st }
        rw [hback]
        refine hsame hs₀ fun hlate => ?_
        obtain ⟨last, hl, -⟩ := hlate.2
        rw [hs.2, hlast] at hl
        cases hl
      | some prev => exact ⟨hback, rfl⟩
    · intro prev s₁ hprev
      obtain ⟨rfl, hprev⟩ := hprev
      obtain ⟨a, s₂, hfind, hs₂, ha⟩ := (onRepository_always st
        (findByPublicKey_always (L := b.1) (N := b.2)
          block.data.generatorPublicKey)).run hs₀
      have hlate : Late env block s ↔ (∃ s₃, (Prog.forEach (applyTransaction env)
          block.transactions >>= fun _ => onRepository
            (applyBlockToForger env a block.data)).run s₂ = .done () s₃) ∧
            prev.data.height + 1 < block.data.height := by
        have hbefore : s₁ = s → (beforeStore env block).run s =
            (Prog.forEach (applyTransaction env) block.transactions >>= fun _ => onRepository
              (applyBlockToForger env a block.data)).run s₂ := by
          rintro rfl
          unfold beforeStore
          rw [Prog.run_bind_of_done hfind]
        constructor
        · intro hl
          obtain ⟨hrun, last, hlast, hlt⟩ := hl
          rw [hs.2, hprev] at hlast
          cases hlast
          rw [← hbefore (heq (by omega))]
          exact ⟨hrun, hlt⟩
        · intro hl
          obtain ⟨hrun, hlt⟩ := hl
          refine ⟨?_, prev, ?_, hlt⟩
          · rw [hbefore (heq (by omega))]
            exact hrun
          · rw [hs.2]
            exact hprev
      unfold Prog.Spec
      rw [Prog.run_bind_of_done hfind]
      refine (tryApply_spec hblock hb hst hprev hs₂ ha).mono (fun _ s' hq => ⟨hq.1, ?_⟩)
        fun _ s' he => ?_
      · rw [hlate]
        exact fun hl => hq.2 hl.2
      · rw [hlate]
        exact he

end BlockState

/-! ## 6. A block reverted -/

/-- The accounts after the mutators took their part back. -/
def unforged (env : Services) (a : Address) (d : BlockData) (L : Ledger) : Ledger :=
  (L.change a (·.setLastBlock none)).move env (negated (earned a d))

/-- What the forger got is taken back, but for `lastBlock`. -/
theorem unforged_forged (env : Services) (a : Address) (d : BlockData) (L : Ledger) :
    unforged env a d (forged env a d L) = L.change a (·.setLastBlock none) := by
  have hset : ((L.move env (earned a d)).change a (·.setLastBlock (some d))).change a
      (·.setLastBlock none) = (L.move env (earned a d)).change a (·.setLastBlock none) := by
    rw [Ledger.change_change]
    refine congrArg (fun f => (L.move env (earned a d)).change a f) (funext fun w => ?_)
    obtain ⟨b, n, vote, ms, v⟩ := w
    cases v with
    | none => rfl
    | some v => rfl
  unfold unforged forged
  rw [hset, setLastBlock_move, Ledger.move_negated]

namespace BlockState

variable {env : Services} {b b' : Books} {st : StateStore} {s s' : NodeState} {block : Block}

theorem revertBlockFromForger_atomic {L : Ledger} {N : Names} (hL : L.Consistent env)
    (a : Address) (d : BlockData) :
    Prog.Atomic (Stands env) (L, N) (revertBlockFromForger env a d)
      (fun _ => (L a).isValidator = true) (unforged env a d L, N) := by
  unfold revertBlockFromForger AttributeMutator.revert unforged
  refine (AttributeMutator.setLastBlock_atomic a none).andAlways fun _ hval => ?_
  have hcons : (L.change a (·.setLastBlock none)).Consistent env :=
    (Later.setLastBlock a none).consistent hL
  exact (BalanceMutator.revert_always hcons a d).mono fun _ _ => hval

theorem revertBlockFromForger_always {L : Ledger} {N : Names} (hL : L.Consistent env)
    {a : Address} (ha : (L a).isValidator = true) (d : BlockData) :
    Prog.Always (Stands env) (L, N) (revertBlockFromForger env a d) (fun _ => True)
      (unforged env a d L, N) := by
  unfold revertBlockFromForger AttributeMutator.revert unforged
  refine (AttributeMutator.setLastBlock_always ha none).bind fun _ _ => ?_
  have hcons : (L.change a (·.setLastBlock none)).Consistent env :=
    (Later.setLastBlock a none).consistent hL
  exact BalanceMutator.revert_always hcons a d

/-- **A block that was applied can be reverted**, whatever height is configured by then. -/
theorem revertBlock_accepted (hblock : block.SchemaValid) (hb : Books.Good env b)
    (h : Accepted env block b s) :
    ∃ s' st, (revertBlock env block).run s = .done () s' ∧
      NodeStands env ((b.1.change (env.addressFromPublicKey block.data.generatorPublicKey)
        (·.setLastBlock none), b.2), st) s' := by
  obtain ⟨b₁, st, happlied, hval, hs, -⟩ := h
  obtain ⟨a, s₁, hfind, hs₁, rfl⟩ := (onRepository_always st
    (findByPublicKey_always block.data.generatorPublicKey)).run hs
  have hgood := happlied.good hb
  have hval' : (forged env (env.addressFromPublicKey block.data.generatorPublicKey) block.data
      b₁.1 (env.addressFromPublicKey block.data.generatorPublicKey)).isValidator = true := by
    unfold forged
    rw [Ledger.change_self, Account.setLastBlock_isValidator, Ledger.move_isValidator]
    exact hval
  obtain ⟨_, s₂, hpay, hs₂, -⟩ := (onRepository_always st
    (revertBlockFromForger_always (N := b₁.2)
      ((later_forged _ block.data).consistent hgood.consistent) hval' block.data)).run hs₁
  rw [unforged_forged] at hs₂
  obtain ⟨_, s₃, hloop, hs₃, -⟩ := (revertAll_always hblock
    (Later.setLastBlock (env.addressFromPublicKey block.data.generatorPublicKey) none) hb
      happlied).run hs₂
  have htry : (tryRevert env (env.addressFromPublicKey block.data.generatorPublicKey) block).run
      (s₁, []) = .done () (s₃, [] ++ block.transactions.reverse) := by
    unfold tryRevert
    have hout : (Prog.outer (onRepository (revertBlockFromForger env
        (env.addressFromPublicKey block.data.generatorPublicKey) block.data)) :
          Prog (NodeState × List Transaction) Exception Unit).run (s₁, []) =
        .done () (s₂, []) := by
      rw [Prog.run_outer, hpay]
    rw [Prog.run_bind_of_done hout]
    exact Prog.recordEach_done [] hloop
  refine ⟨s₃, st, ?_, hs₃⟩
  unfold revertBlock
  rw [Prog.run_bind_of_done hfind, Prog.run_withLocal, Prog.run_tryCatch, htry]

/-- The forger's part of `revertBlock`. -/
def forgerReverted (env : Services) (block : Block) : BlockProg Unit := do
  let forgerWallet ← onRepository (findByPublicKey env block.data.generatorPublicKey)
  onRepository (revertBlockFromForger env forgerWallet block.data)

/-- The forger has given back what it got, and then a transaction cannot be reverted. -/
def RevertLate (env : Services) (block : Block) (s : NodeState) : Prop :=
  ∃ s₁ e s₂, (forgerReverted env block).run s = .done () s₁ ∧
    (Prog.forEach (revertTransaction env) block.transactions.reverse).run s₁ = .thrown e s₂

/-- **`revertBlock` that throws, but not late, leaves everything as it was.** -/
theorem revertBlock_thrown (hb : Books.Good env b) (hs : NodeStands env (b, st) s)
    {e : Exception} (hr : (revertBlock env block).run s = .thrown e s')
    (hlate : ¬ RevertLate env block s) : NodeStands env (b, st) s' := by
  obtain ⟨a, s₁, hfind, hs₁, ha⟩ := (onRepository_always st
    (findByPublicKey_always (L := b.1) (N := b.2)
      block.data.generatorPublicKey)).run hs
  have hforger := onRepository_atomic st
    (revertBlockFromForger_atomic (N := b.2) hb.consistent a block.data)
  unfold revertBlock at hr
  rw [Prog.run_bind_of_done hfind, Prog.run_withLocal, Prog.run_tryCatch] at hr
  cases hpay : (onRepository (revertBlockFromForger env a block.data)).run s₁ with
  | thrown e₁ s₂ =>
    have hs₂ : NodeStands env (b, st) s₂ := hforger.of_thrown hs₁ hpay
    have htry : (tryRevert env a block).run (s₁, []) = .thrown e₁ (s₂, []) := by
      unfold tryRevert
      refine Prog.run_bind_of_thrown ?_
      rw [Prog.run_outer, hpay]
    have hundo : (undoRevert env e₁).run (s₂, []) = .thrown e₁ (s₂, []) := rfl
    rw [htry] at hr
    simp only [hundo] at hr
    cases hr
    exact hs₂
  | done u s₂ =>
    have hout : (Prog.outer (onRepository (revertBlockFromForger env a block.data)) :
        Prog (NodeState × List Transaction) Exception Unit).run (s₁, []) = .done u (s₂, []) := by
      rw [Prog.run_outer, hpay]
    cases hloop : (Prog.forEach (revertTransaction env) block.transactions.reverse).run s₂ with
    | thrown e₁ s₃ =>
      refine absurd ⟨s₂, e₁, s₃, ?_, hloop⟩ hlate
      unfold forgerReverted
      rw [Prog.run_bind_of_done hfind, hpay]
    | done u' s₃ =>
      have htry : (tryRevert env a block).run (s₁, []) =
          .done () (s₃, [] ++ block.transactions.reverse) := by
        unfold tryRevert
        rw [Prog.run_bind_of_done hout]
        exact Prog.recordEach_done [] hloop
      rw [htry] at hr
      cases hr

/-- **`revertBlock` that is late throws**, after the forger has paid and some transactions were
    reverted and applied again. -/
theorem revertBlock_late (h : RevertLate env block s) :
    ∃ s₁ ts₁ s₂ e s', (forgerReverted env block).run s = .done () s₁ ∧
      (∃ e₂, (Prog.forEach (revertTransaction env) block.transactions.reverse).run s₁ =
        .thrown e₂ s₂) ∧
      ((Prog.forEach (applyTransaction env) ts₁).run s₂).state = s' ∧
      (revertBlock env block).run s = .thrown e s' := by
  obtain ⟨s₁, e, s₂, hforger, hloop⟩ := h
  have hstart := hforger
  unfold forgerReverted at hforger
  rw [Prog.run_bind_done] at hforger
  obtain ⟨a, s₀, hfind, hpay⟩ := hforger
  obtain ⟨ts₁, t, ts₂, s₃, -, -, -, hrec⟩ := Prog.recordEach_thrown [] hloop
  have htry : (tryRevert env a block).run (s₀, []) = .thrown e (s₂, [] ++ ts₁) := by
    unfold tryRevert
    have hout : (Prog.outer (onRepository (revertBlockFromForger env a block.data)) :
        Prog (NodeState × List Transaction) Exception Unit).run (s₀, []) = .done () (s₁, []) := by
      rw [Prog.run_outer, hpay]
    rw [Prog.run_bind_of_done hout]
    exact hrec
  have hrun : ∀ {e' : Exception} {s' : NodeState},
      (undoRevert env e).run (s₂, [] ++ ts₁) = .thrown e' (s', ts₁) →
      (revertBlock env block).run s = .thrown e' s' := by
    intro e' s' hundo
    unfold revertBlock
    rw [Prog.run_bind_of_done hfind, Prog.run_withLocal, Prog.run_tryCatch, htry]
    simp only [hundo]
  have hundo : (undoRevert env e).run (s₂, [] ++ ts₁) =
      match (Prog.forEach (applyTransaction env) ts₁.reverse).run s₂ with
      | .done _ s' => .thrown e (s', ts₁)
      | .thrown e' s' => .thrown e' (s', ts₁) := by
    unfold undoRevert
    rw [Prog.run_bind_of_done (Prog.run_gets _ _), Prog.run_outer, Prog.run_bind]
    rw [List.nil_append]
    cases (Prog.forEach (applyTransaction env) ts₁.reverse).run s₂ <;> rfl
  cases hagain : (Prog.forEach (applyTransaction env) ts₁.reverse).run s₂ with
  | done u s' =>
    rw [hagain] at hundo
    exact ⟨s₁, ts₁.reverse, s₂, e, s', hstart, ⟨e, hloop⟩, by rw [hagain]; rfl, hrun hundo⟩
  | thrown e' s' =>
    rw [hagain] at hundo
    exact ⟨s₁, ts₁.reverse, s₂, e', s', hstart, ⟨e, hloop⟩, by rw [hagain]; rfl, hrun hundo⟩

end BlockState

end CoreEx
