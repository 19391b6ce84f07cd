/-
  File:      CoreEx/State/ValidatorKeys.lean
  Subject:   Every validator has its public key.

  A wallet becomes a validator in one way: it sends a registration. A sender is looked up by its
  key, and the look-up attaches it. So the keys that `buildValidatorRanking` compares by are there
  on every node that blocks lead to.

  * `ValidatorsKeyed` -- the invariant;
  * `applyTransaction_keysSender` -- the sender of a transaction that is applied has its key;
  * **`BlockState.applyBlock_keyed`**, **`BlockState.revertBlock_keyed`** -- blocks keep the
    invariant.
-/
import CoreEx.State.Bookkeeping
import CoreEx.State.PublicKeys

namespace CoreEx

open WalletRepository

/-- Every validator has its public key. -/
def ValidatorsKeyed (r : WalletRepository) : Prop :=
  ∀ a, (r.accounts a).isValidator = true → (r.wallet a).publicKey.isSome = true

/-- Nobody loses a key; it matters who becomes a validator. -/
theorem ValidatorsKeyed.kept {r r' : WalletRepository} (h : ValidatorsKeyed r)
    (hkept : WalletsKeep StillKeyed r r')
    (hval : ∀ a, (r'.accounts a).isValidator = true → (r.accounts a).isValidator = true ∨
      (r'.wallet a).publicKey.isSome = true) : ValidatorsKeyed r' :=
  fun a ha => (hval a ha).elim (fun hold => hkept a (h a hold)) id

section Senders

variable {env : Services} {L : Ledger} {N : Names} {r r' : WalletRepository} {t : Transaction}
  {k : PublicKey}

/-- The wallet that is found by a key has one. -/
theorem findByPublicKey_attached {a : Address} (hs : Stands env (L, N) r)
    (h : (findByPublicKey env k).run r = .done a r') :
    a = env.addressFromPublicKey k ∧ (r'.wallet a).publicKey.isSome = true := by
  obtain ⟨hs', ha⟩ := (findByPublicKey_always k r hs).of_done h
  refine ⟨ha, hs'.sound.attached k a ?_⟩
  unfold findByPublicKey at h
  rw [Prog.run_bind_done] at h
  obtain ⟨_, _, -, h⟩ := h
  rw [Prog.run_bind_done] at h
  obtain ⟨_, r₁, -, h⟩ := h
  cases hfound : r₁.publicKeys.get k with
  | none =>
    rw [Prog.run_bind_of_done (congrArg (Outcome.done · r₁) hfound)] at h
    cases h
  | some b =>
    rw [Prog.run_bind_of_done (congrArg (Outcome.done · r₁) hfound)] at h
    cases h
    exact hfound

/-- **The sender of a transaction that is applied has its key.** -/
theorem applyTransaction_keysSender (hd : t.data.SchemaValid) (hL : L.Consistent env)
    (hk : t.data.senderPublicKey = some k) (hs : Stands env (L, N) r)
    (h : (applyTransaction env t).run r = .done () r') :
    (r'.wallet (env.addressFromPublicKey k)).publicKey.isSome = true := by
  unfold applyTransaction at h
  rw [Prog.run_bind_done] at h
  obtain ⟨x, r₁, hfound, h⟩ := h
  obtain ⟨hs₁, hx⟩ := (Prog.Atomic.ofExcept (b := (L, N))).of_done hs hfound
  rw [Prog.run_bind_done] at h
  obtain ⟨_, r₂, happly, h⟩ := h
  have hs₂ := ((handler_apply_decided hd hL hk hx).atomic.of_done hs₁ happly).1
  rw [hk, Prog.run_bind_of_done rfl, Prog.run_bind_done] at h
  obtain ⟨a, r₃, hfind, h⟩ := h
  obtain ⟨rfl, hkeyed⟩ := findByPublicKey_attached hs₂ hfind
  -- what follows takes no key away
  have hrest := Prog.Keeps.of_done ((RepositoryKeeps.findRecipient (R := WalletsKeep StillKeyed)
    t.data).bind fun _ => RepositoryKeeps.updateVoteBalances _ _ _ _) h
  exact hrest _ hkeyed

end Senders

namespace BlockState

variable {env : Services} {b : Books} {st : StateStore} {s s' : NodeState} {t : Transaction}
  {block : Block} {k : PublicKey}

/-- One transaction of a block. -/
theorem applyTransaction_keyed (hd : t.data.SchemaValid) (hL : b.1.Consistent env)
    (hs : NodeStands env (b, st) s) (hkeyed : ValidatorsKeyed s.repository)
    (h : (applyTransaction env t).run s = .done () s') : ValidatorsKeyed s'.repository := by
  obtain ⟨k, hk⟩ := Option.isSome_iff_exists.1 hd.senderPublicKey
  have hstands := ((applyTransaction_atomic (N := b.2) hd hL hk).of_done hs h).1
  refine hkeyed.kept ((applyTransaction_framed t).of_done h) fun a ha => ?_
  by_cases hsender : a = env.addressFromPublicKey k
  · subst hsender
    refine Or.inr ?_
    unfold applyTransaction atHeight at h
    rw [Prog.run_bind_of_done (congrArg (Outcome.done · s) (rfl : _ = s.store.height))] at h
    unfold onRepository at h
    rw [Prog.run_zoom] at h
    cases hrun : (CoreEx.applyTransaction (env.atHeight s.store.height) t).run s.repository with
    | thrown e r =>
      rw [hrun] at h
      cases h
    | done u r =>
      rw [hrun] at h
      cases h
      have hsender := applyTransaction_keysSender hd
        (show b.1.Consistent (env.atHeight s.store.height) from consistent_atHeight.2 hL) hk
        (stands_atHeight.2 hs.1) hrun
      exact hsender
  · refine Or.inl ?_
    rw [hstands.1.accounts] at ha
    rw [hs.1.accounts, ← Ledger.apply_isValidator_of_ne hsender]
    exact ha

/-- The transactions of a block, one after the other. -/
theorem applyAll_keyed {ts : List Transaction} (hts : ∀ t ∈ ts, t.data.SchemaValid)
    (hb : Books.Good env b) (hs : NodeStands env (b, st) s) (hkeyed : ValidatorsKeyed s.repository)
    (h : (Prog.forEach (applyTransaction env) ts).run s = .done () s') :
    ValidatorsKeyed s'.repository := by
  induction ts generalizing b s with
  | nil =>
    obtain rfl : s = s' := by simpa using h
    exact hkeyed
  | cons t ts ih =>
    have hd := hts t List.mem_cons_self
    obtain ⟨k, hk⟩ := Option.isSome_iff_exists.1 hd.senderPublicKey
    rw [Prog.forEach_cons, Prog.run_bind_done] at h
    obtain ⟨_, s₁, ht, hrest⟩ := h
    obtain ⟨hs₁, hadmitted, -⟩ :=
      (applyTransaction_atomic (N := b.2) hd hb.consistent hk).of_done hs ht
    exact ih (fun t' ht' => hts t' (List.mem_cons_of_mem _ ht')) (Books.Good.apply hb hadmitted) hs₁
      (applyTransaction_keyed hd hb.consistent hs hkeyed ht) hrest

/-- A program that leaves the books alone. -/
theorem onRepository_keyed {α : Type} {x : RepositoryProg α} {P : α → Prop}
    (hx : Prog.Atomic (Stands env) b x P b) (hkeeps : Framed StillKeyed x)
    (hs : NodeStands env (b, st) s) (hkeyed : ValidatorsKeyed s.repository) :
    (onRepository x).Spec s
      (fun _ s' => NodeStands env (b, st) s' ∧ ValidatorsKeyed s'.repository) fun _ _ => True := by
  refine Prog.Spec.of_run (fun _ s' hrun => ?_) fun _ _ _ => trivial
  have hs' := ((onRepository_atomic st hx s hs).of_done hrun).1
  refine ⟨hs', hkeyed.kept ((onRepository_keeps hkeeps).of_done hrun) fun a ha => Or.inl ?_⟩
  rw [hs.1.accounts, ← hs'.1.accounts]
  exact ha

/-- The `catch` block of `applyBlock` never returns. -/
theorem undoApply_throws (prev : Block) (e : Exception) (p : NodeState × List Transaction) :
    (undoApply env prev e).Spec p (fun _ _ => False) fun _ _ => True := by
  have hall : ∀ {α : Type} (x : BlockProg α) (s : NodeState),
      x.Spec s (fun _ _ => True) fun _ _ => True :=
    fun x s => Prog.Spec.of_run (fun _ _ _ => trivial) fun _ _ _ => trivial
  have hthrows : (Prog.forEach (revertTransaction env) p.2.reverse >>= fun _ =>
      onStore (StateStore.setLastBlock prev) >>= fun _ => Prog.throw e : BlockProg Unit).Spec p.1
        (fun _ _ => False) fun _ _ => True :=
    (hall _ _).bind fun _ _ _ => (hall _ _).bind fun _ _ _ => Prog.Spec.throw trivial
  refine Prog.Spec.bind (Q := fun ts q => ts = p.2 ∧ q = p) (Prog.Spec.gets ⟨rfl, rfl⟩)
    fun ts q h => ?_
  obtain ⟨rfl, rfl⟩ := h
  exact Prog.Spec.zoom hthrows

/-- The forger is paid and the block becomes the last one. -/
theorem finishApply_keyed (hb : Books.Good env b) (hs : NodeStands env (b, st) s)
    (hkeyed : ValidatorsKeyed s.repository) (a : Address) :
    (onRepository (applyBlockToForger env a block.data) >>= fun _ =>
      onStore (StateStore.setLastBlock block) : BlockProg Unit).Spec s
        (fun _ s' => ValidatorsKeyed s'.repository) fun _ _ => True := by
  refine Prog.Spec.bind (Q := fun _ s' => ValidatorsKeyed s'.repository)
    (Prog.Spec.of_run (fun _ s' hrun => ?_) fun _ _ _ => trivial) fun _ s' h => ?_
  · have hpaid := (onRepository_atomic st (applyBlockToForger_atomic (N := b.2) hb.consistent a
      block.data)).of_done hs hrun
    refine hkeyed.kept ((onRepository_keeps (Framed.applyBlockToForger a _)).of_done hrun)
      fun c hc => Or.inl ?_
    rw [hpaid.1.1.accounts] at hc
    rw [hs.1.accounts, ← forged_isValidator a c block.data]
    exact hc
  · exact Prog.Spec.zoom (Prog.Spec.of_run (fun _ _ _ => h) fun _ _ _ => trivial)

/-- `try` and `catch` of `applyBlock`. -/
theorem tryApply_keyed (hblock : block.SchemaValid) (hb : Books.Good env b)
    (hs : NodeStands env (b, st) s) (hkeyed : ValidatorsKeyed s.repository) (a : Address)
    (prev : Block) :
    (Prog.withLocal [] (Prog.tryCatch (tryApply env a block) (undoApply env prev)) :
      BlockProg Unit).Spec s (fun _ s' => ValidatorsKeyed s'.repository) fun _ _ => True := by
  have htry : (tryApply env a block).Spec (s, []) (fun _ p => ValidatorsKeyed p.1.repository)
      fun _ _ => True := by
    unfold tryApply
    refine Prog.Spec.bind (Q := fun _ p => ∃ b', Books.Good env b' ∧
      NodeStands env (b', st) p.1 ∧ ValidatorsKeyed p.1.repository) ?_ fun _ p h => ?_
    · unfold Prog.Spec
      cases hloop : (Prog.forEach (applyTransaction env) block.transactions).run s with
      | thrown e s₁ =>
        obtain ⟨_, _, _, _, -, -, -, hrec⟩ := Prog.recordEach_thrown [] hloop
        rw [hrec]
        trivial
      | done u s₁ =>
        rw [Prog.recordEach_done [] hloop]
        obtain ⟨b₁, happlied, hs₁⟩ := applyAll_done hblock hb hs hloop
        exact ⟨b₁, happlied.good hb, hs₁, applyAll_keyed hblock hb hs hkeyed hloop⟩
    · obtain ⟨b₁, hb₁, hs₁, hkeyed₁⟩ := h
      exact Prog.Spec.zoom (finishApply_keyed hb₁ hs₁ hkeyed₁ a)
  exact Prog.Spec.withLocal (htry.tryCatch fun e p _ => (undoApply_throws prev e p).mono
    (fun _ _ h => h.elim) fun _ _ h => h)

/-- **Applying a block keeps the invariant**, also where it throws. -/
theorem applyBlock_keyed (hblock : block.SchemaValid) (hb : Books.Good env b) (hst : st.Ordered)
    (hs : NodeStands env (b, st) s) (hkeyed : ValidatorsKeyed s.repository) :
    ValidatorsKeyed ((applyBlock env block).run s).state.repository := by
  have hlast : ∀ s : NodeState, (onStore StateStore.getLastBlock).Spec s (fun _ s' => s' = s)
      fun _ _ => True := by
    intro s
    unfold Prog.Spec onStore StateStore.getLastBlock
    rw [Prog.run_zoom, Prog.run_bind_of_done (Prog.run_gets _ _)]
    cases s.store.lastBlock? with
    | none => trivial
    | some prev => rfl
  have hreturns : (applyBlock env block).Spec s (fun _ s' => ValidatorsKeyed s'.repository)
      fun _ _ => True := by
    unfold applyBlock
    refine Prog.Spec.bind (Q := fun _ s₀ => NodeStands env (b, st) s₀ ∧
      ValidatorsKeyed s₀.repository) (Prog.Spec.when (fun _ => onRepository_keyed
        (initGenesisForgerWallet_atomic _) ((Framed.gets _).bind fun _ => Framed.throwIf _ _)
        hs hkeyed) fun _ => ⟨hs, hkeyed⟩) fun _ s₀ h₀ => ?_
    refine (hlast s₀).bind fun prev s₁ h₁ => ?_
    subst h₁
    refine (onRepository_keyed (findByPublicKey_always (L := b.1) (N := b.2) _).atomic
      (Framed.findByPublicKey _) h₀.1 h₀.2).bind fun a s₂ h₂ => ?_
    exact tryApply_keyed hblock hb h₂.1 h₂.2 a prev
  refine Prog.Spec.state_iff.1 (Prog.Spec.of_run (fun _ s' hrun => hreturns.of_done hrun)
    fun _ s' hrun => ?_)
  -- what a block leaves that is refused has the validators there were before
  obtain ⟨b'', st', hs', -, -, hbooks⟩ := (applyBlock_spec hblock hb hst hs).of_thrown hrun
  refine hkeyed.kept ((applyBlock_keysKept block).of_thrown hrun) fun a ha => Or.inl ?_
  rw [hs'.1.accounts] at ha
  rw [hs.1.accounts]
  rcases hbooks with ⟨-, rfl⟩ | ⟨-, rfl⟩
  · exact ha
  · rw [forged_isValidator] at ha
    exact ha

/-- **Reverting the last block keeps the invariant.** -/
theorem revertBlock_keyed {b' : Books} (hblock : block.SchemaValid) (hb : Books.Good env b)
    (hled : AppliedBlock env b block b') (hs : NodeStands env (b', st) s)
    (hkeyed : ValidatorsKeyed s.repository) (h : (revertBlock env block).run s = .done () s') :
    ValidatorsKeyed s'.repository := by
  obtain ⟨s₁, c, hrun, hs₁, hcore, -⟩ := revertBlock_notes hblock hb hled rfl hs
  obtain rfl : s₁ = s' := by
    rw [h] at hrun
    cases hrun
    rfl
  refine hkeyed.kept ((revertBlock_keysKept block).of_done h) fun a ha => Or.inl ?_
  rw [hs₁.1.accounts, Books.read_eq hcore a Account.isValidator Account.core_isValidator] at ha
  rw [hs.1.accounts]
  exact hled.isValidator ha

end BlockState

end CoreEx
