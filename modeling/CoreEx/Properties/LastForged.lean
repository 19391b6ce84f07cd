/-
  File:      CoreEx/Properties/LastForged.lean
  Subject:   Whether `lastBlock` of a validator is the last block it forged.

  The attribute has room for one block. Applying a block overwrites what was there, and reverting it
  leaves nothing, although the generator may have forged another block further down.

  * `latestBlock`, `LastForged` -- the last block of a generator on a chain, and the property;
  * `BlockRun` -- blocks applied, and the last of them reverted, in any order;
  * `Recorded`, `Standing`, `RunState` -- the invariant: every block on the chain was applied to
    books on which the generators below it were validators;
  * `RunState.apply`, `RunState.revert`, `revert_lastForged_iff` -- one step;
  * **`lastForged_of_run`** -- along runs that revert only blocks of generators without another;
  * **`secondBlock_not`** -- two blocks of one generator, and the second reverted.
-/
import CoreEx.Properties.Reversal
import CoreEx.State.Bookkeeping

namespace CoreEx

open WalletRepository BlockState

/-! ## 1. The property -/

/-- The wallet of the generator. -/
def generatorOf (env : Services) (block : Block) : Address :=
  env.addressFromPublicKey block.data.generatorPublicKey

/-- The most recent block of a generator; the last block of the chain comes first. -/
def latestBlock (env : Services) (a : Address) (chain : List Block) : Option BlockData :=
  (chain.find? fun block => generatorOf env block = a).map (·.data)

/-- Every validator has the most recent block it generated as its last block, and none if it
    generated none. -/
def LastForged (env : Services) (s : NodeState) (chain : List Block) : Prop :=
  ∀ a, (s.repository.accounts a).isValidator = true →
    (s.repository.accounts a).lastBlock = latestBlock env a chain

/-- A run from `start`, on top of the forged blocks `below`: the state, and the blocks that are
    applied. A block is reverted only where `may` allows it; between two steps somebody may write to
    the store. -/
inductive BlockRun (env : Services) (may : Block → List Block → Prop) (start : NodeState)
    (below : List Block) : NodeState → List Block → Prop
  | start : BlockRun env may start below start []
  | apply {s s' : NodeState} {applied : List Block} (block : Block)
    (before : BlockRun env may start below s applied) (valid : block.SchemaValid)
    (run : (applyBlock env block).run s = .done () s') :
    BlockRun env may start below s' (block :: applied)
  | revert {s s' : NodeState} {applied : List Block} (block : Block)
    (before : BlockRun env may start below s (block :: applied))
    (allowed : may block (applied ++ below))
    (run : (revertBlock env block).run s = .done () s') :
    BlockRun env may start below s' applied
  | store {s : NodeState} {applied : List Block} (st : StateStore)
    (before : BlockRun env may start below s applied) (ordered : st.Ordered) :
    BlockRun env may start below { s with store := st } applied

/-- The generator has no other block on the chain. -/
def OnlyBlock (env : Services) (block : Block) (chain : List Block) : Prop :=
  ∀ other ∈ chain, generatorOf env other ≠ generatorOf env block

/-! ## 2. Chains -/

section Chains

variable {env : Services} {block : Block} {chain : List Block} {a : Address}

theorem latestBlock_cons : latestBlock env a (block :: chain) =
    if generatorOf env block = a then some block.data else latestBlock env a chain := by
  unfold latestBlock
  rw [List.find?_cons]
  by_cases h : generatorOf env block = a
  · simp [h]
  · simp [h]

theorem latestBlock_eq_none :
    latestBlock env a chain = none ↔ ∀ block ∈ chain, generatorOf env block ≠ a := by
  unfold latestBlock
  simp

end Chains

/-! ## 3. The invariant -/

/-- The blocks led one after the other to these books, up to notes, and each was applied to books
    on which the generators of the blocks below were validators. -/
inductive Recorded (env : Services) (below : List Block) : Books → List Block → Prop
  | start {b : Books} (good : Books.Good env b) : Recorded env below b []
  | block {b b' : Books} {applied : List Block} {block : Block}
    (before : Recorded env below b applied) (valid : block.SchemaValid)
    (led : AppliedBlock env b block b') (good : Books.Good env b')
    (generators : ∀ x ∈ applied ++ below, (b.1 (generatorOf env x)).isValidator = true) :
    Recorded env below b' (block :: applied)

/-- What any run keeps. -/
structure Standing (env : Services) (below : List Block) (s : NodeState) (applied : List Block)
    (b : Books) (st : StateStore) : Prop where
  stands : NodeStands env (b, st) s
  ordered : st.Ordered
  recorded : Recorded env below b applied
  generators : ∀ x ∈ applied ++ below, (b.1 (generatorOf env x)).isValidator = true

/-- What a run keeps that reverts only where it may. -/
structure RunState (env : Services) (below : List Block) (s : NodeState) (applied : List Block)
    (b : Books) (st : StateStore) : Prop extends Standing env below s applied b st where
  latest : ∀ a, (b.1 a).lastBlock = latestBlock env a (applied ++ below)

section Steps

variable {env : Services} {below applied : List Block} {b b' : Books} {st : StateStore}
  {s s' : NodeState} {block : Block}

theorem Recorded.good (h : Recorded env below b applied) : Books.Good env b := by
  cases h with
  | start good => exact good
  | block _ _ _ good _ => exact good

/-- Notes are not recorded. -/
theorem Recorded.congr (h : Recorded env below b applied) (hcore : b'.core = b.core) :
    Recorded env below b' applied := by
  cases h with
  | start good => exact .start (good.congr hcore)
  | block before valid led good generators =>
    obtain ⟨c, happlied, hval, hc⟩ := led
    exact .block before valid ⟨c, happlied, hval, hcore.trans hc⟩ (good.congr hcore) generators

/-- Transactions leave last blocks. -/
theorem Applied.lastBlock {ts : List Transaction} (h : Applied env b ts b') (a : Address) :
    (b'.1 a).lastBlock = (b.1 a).lastBlock := by
  induction h with
  | nil b => rfl
  | cons k _ admitted _ _ ih => exact ih.trans (Ledger.apply_lastBlock admitted a)

/-- The last blocks of a state are those of its books. -/
theorem RunState.lastForged (h : RunState env below s applied b st) :
    LastForged env s (applied ++ below) := by
  intro a _
  rw [h.stands.1.accounts]
  exact h.latest a

/-- A block applied is recorded. -/
theorem Standing.apply (h : Standing env below s applied b st) (hvalid : block.SchemaValid)
    (hrun : (applyBlock env block).run s = .done () s') :
    ∃ c st', Applied env b block.transactions c ∧
      (c.1 (generatorOf env block)).isValidator = true ∧
      Standing env below s' (block :: applied)
        (forged env (generatorOf env block) block.data c.1, c.2) st' := by
  have hgood := h.recorded.good
  obtain ⟨haccepted, -⟩ := (applyBlock_spec hvalid hgood h.ordered h.stands).of_done hrun
  obtain ⟨c, st', happlied, hval, hs', hordered, -, -⟩ := haccepted
  have hgood' : Books.Good env (forged env (generatorOf env block) block.data c.1, c.2) :=
    Books.Good.setLastBlock _ _ ((happlied.good hgood).move _)
  refine ⟨c, st', happlied, hval, hs', hordered, .block h.recorded hvalid ⟨c, happlied, hval, ?_⟩
    hgood' h.generators, fun x hx => ?_⟩
  · exact Prod.ext (core_forged _ _ _) rfl
  · rw [forged_isValidator]
    rcases List.mem_cons.1 hx with rfl | hx
    · exact hval
    · exact happlied.isValidator (h.generators x hx)

/-- **A block applied** becomes the last block of its generator. -/
theorem RunState.apply (h : RunState env below s applied b st) (hvalid : block.SchemaValid)
    (hrun : (applyBlock env block).run s = .done () s') :
    ∃ b' st', RunState env below s' (block :: applied) b' st' := by
  obtain ⟨c, st', happlied, hval, hstanding⟩ := h.toStanding.apply hvalid hrun
  refine ⟨_, st', hstanding, fun a => ?_⟩
  show (forged env (generatorOf env block) block.data c.1 a).lastBlock = _
  rw [List.cons_append, latestBlock_cons, ← h.latest a, ← happlied.lastBlock a]
  unfold forged
  rw [Ledger.change_apply]
  by_cases ha : a = generatorOf env block
  · rw [if_pos ha, if_pos ha.symm, Account.lastBlock_setLastBlock]
    rw [Ledger.move_isValidator, ha]
    exact hval
  · rw [if_neg ha, if_neg fun e => ha e.symm, Ledger.move_lastBlock]

/-- The last block was applied to books that are recorded. -/
theorem Standing.last (h : Standing env below s (block :: applied) b st) :
    ∃ b₀, Recorded env below b₀ applied ∧ block.SchemaValid ∧ AppliedBlock env b₀ block b ∧
      ∀ x ∈ applied ++ below, (b₀.1 (generatorOf env x)).isValidator = true := by
  cases h.recorded with
  | block before valid led good generators => exact ⟨_, before, valid, led, generators⟩

/-- What reverting the last block leaves: the books it was applied to, up to notes. -/
theorem Standing.revert (h : Standing env below s (block :: applied) b st)
    (hrun : (revertBlock env block).run s = .done () s') :
    ∃ b₀ c : Books, c.core = b₀.core ∧ Standing env below s' applied c st ∧
      ∀ a, (b₀.1 a).isValidator = true →
        (c.1 a).lastBlock = if a = generatorOf env block then none else (b.1 a).lastBlock := by
  obtain ⟨b₀, hbefore, hvalid, hled, hgenerators⟩ := h.last
  obtain ⟨s₁, c, hrun', hs', hcore, hkept⟩ :=
    revertBlock_notes hvalid hbefore.good hled rfl h.stands
  obtain rfl : s₁ = s' := by
    rw [hrun] at hrun'
    cases hrun'
    rfl
  refine ⟨b₀, c, hcore, ⟨hs', h.ordered, hbefore.congr hcore, fun x hx => ?_⟩, hkept⟩
  rw [Books.read_eq hcore _ Account.isValidator Account.core_isValidator]
  exact hgenerators x hx

/-- The last blocks it leaves. -/
theorem RunState.reverted (h : RunState env below s (block :: applied) b st)
    (hrun : (revertBlock env block).run s = .done () s') :
    ∃ c, Standing env below s' applied c st ∧ ∀ a, (c.1 a).lastBlock =
      if a = generatorOf env block then none else latestBlock env a (applied ++ below) := by
  obtain ⟨b₀, c, hcore, hstanding, hkept⟩ := h.toStanding.revert hrun
  have hvalidator : ∀ a, (c.1 a).isValidator = (b₀.1 a).isValidator := fun a =>
    Books.read_eq hcore a Account.isValidator Account.core_isValidator
  refine ⟨c, hstanding, fun a => ?_⟩
  cases ha : (b₀.1 a).isValidator with
  | true =>
    rw [hkept a ha, h.latest a, List.cons_append, latestBlock_cons]
    show (if a = generatorOf env block then none else if generatorOf env block = a then
      some block.data else latestBlock env a (applied ++ below)) = _
    by_cases hforger : a = generatorOf env block
    · rw [if_pos hforger, if_pos hforger]
    · rw [if_neg hforger, if_neg fun e => hforger e.symm, if_neg hforger]
  | false =>
    -- who was no validator before the block generated none of those below it
    have hnone : latestBlock env a (applied ++ below) = none := by
      refine latestBlock_eq_none.2 fun x hx heq => ?_
      have hx' := hstanding.generators x hx
      rw [heq, hvalidator, ha] at hx'
      cases hx'
    rw [Account.lastBlock_eq_none ((hvalidator a).trans ha), hnone, ite_self]

/-- **The last block reverted**, when its generator has no other one. -/
theorem RunState.revert (h : RunState env below s (block :: applied) b st)
    (honly : OnlyBlock env block (applied ++ below))
    (hrun : (revertBlock env block).run s = .done () s') :
    ∃ b' st', RunState env below s' applied b' st' := by
  obtain ⟨c, hstanding, hlatest⟩ := h.reverted hrun
  refine ⟨c, st, hstanding, fun a => ?_⟩
  rw [hlatest a]
  split
  · rename_i ha
    rw [ha]
    exact (latestBlock_eq_none.2 honly).symm
  · rfl

/-- **Reverting keeps the property exactly when the generator has no other block.** -/
theorem revert_lastForged_iff (h : RunState env below s (block :: applied) b st)
    (hrun : (revertBlock env block).run s = .done () s') :
    LastForged env s' (applied ++ below) ↔ OnlyBlock env block (applied ++ below) := by
  constructor
  · intro hproperty other hother heq
    obtain ⟨c, hstanding, hlatest⟩ := h.reverted hrun
    have hvalidator := hstanding.generators other hother
    rw [heq] at hvalidator
    have haccounts := hstanding.stands.1.accounts
    have hlast := hproperty (generatorOf env block) (by rw [haccounts]; exact hvalidator)
    rw [haccounts] at hlast
    have hnone := (hlatest (generatorOf env block)).symm.trans hlast
    rw [if_pos rfl] at hnone
    exact latestBlock_eq_none.1 hnone.symm other hother heq
  · intro honly
    obtain ⟨b', st', h'⟩ := h.revert honly hrun
    exact h'.lastForged

end Steps

/-! ## 4. Runs -/

section Runs

variable {env : Services} {below applied : List Block} {s : NodeState}

/-- The invariant holds at the start. -/
theorem runState_start (n : ConsistentNode env) (hstart : LastForged env n.state below)
    (hgenerators : ∀ x ∈ below,
      (n.repository.accounts (generatorOf env x)).isValidator = true) :
    RunState env below n.state [] n.repository.books n.store := by
  refine ⟨⟨n.stands, n.ordered, .start n.repository.good, hgenerators⟩, fun a => ?_⟩
  cases ha : (n.repository.accounts a).isValidator with
  | true => exact hstart a ha
  | false =>
    refine (Account.lastBlock_eq_none ha).trans (latestBlock_eq_none.2 fun x hx heq => ?_).symm
    have hx' := hgenerators x hx
    rw [heq, ha] at hx'
    cases hx'

/-- **Along a run, every state has the invariant**, when no block is reverted while another one of
    its generator is on the chain. -/
theorem runState_of_run (n : ConsistentNode env) (hstart : LastForged env n.state below)
    (hgenerators : ∀ x ∈ below, (n.repository.accounts (generatorOf env x)).isValidator = true)
    (hrun : BlockRun env (OnlyBlock env) n.state below s applied) :
    ∃ b st, RunState env below s applied b st := by
  induction hrun with
  | start => exact ⟨_, _, runState_start n hstart hgenerators⟩
  | apply block _ valid run ih =>
    obtain ⟨b, st, h⟩ := ih
    exact h.apply valid run
  | revert block _ allowed run ih =>
    obtain ⟨b, st, h⟩ := ih
    exact h.revert allowed run
  | store st _ ordered ih =>
    obtain ⟨b, _, h⟩ := ih
    exact ⟨b, st, ⟨⟨h.stands.1, rfl⟩, ordered, h.recorded, h.generators⟩, h.latest⟩

/-- **In every state of a run that reverts only blocks of generators without another one, the last
    blocks are right; and a further block may be reverted exactly on that condition.** -/
theorem lastForged_of_run (n : ConsistentNode env) (hstart : LastForged env n.state below)
    (hgenerators : ∀ x ∈ below, (n.repository.accounts (generatorOf env x)).isValidator = true)
    (hrun : BlockRun env (OnlyBlock env) n.state below s applied) :
    LastForged env s (applied ++ below) ∧
      ∀ block rest s', applied = block :: rest → (revertBlock env block).run s = .done () s' →
        (LastForged env s' (rest ++ below) ↔ OnlyBlock env block (rest ++ below)) := by
  obtain ⟨b, st, h⟩ := runState_of_run n hstart hgenerators hrun
  refine ⟨h.lastForged, fun block rest s' happlied hrevert => ?_⟩
  subst happlied
  exact revert_lastForged_iff h hrevert

end Runs

namespace Sample

/-- A node that knows only a block nobody forged. -/
def genesisNode : ConsistentNode Services.simple where
  repository := repository
  store := ⟨⟨[(1, ⟨{ header 1 0 0 with generatorPublicKey := ⟨"genesis", by decide⟩ }, []⟩)],
    by decide⟩, 1, 1, 0, 0⟩
  ordered := ⟨by decide, by decide, by decide⟩

/-- Nobody on it has a last block. -/
theorem genesisNode_lastForged : LastForged Services.simple genesisNode.state [] := by
  intro a _
  by_cases ha : a ∈ repository.addresses.keys
  · exact (by decide : ∀ a ∈ repository.addresses.keys, (repository.accounts a).lastBlock = none)
      a ha
  · show (repository.wallet a).toAccount.lastBlock = none
    rw [wallet_of_notMem ha]
    rfl

/-- Two blocks of `alice`. -/
def firstBlock : Block := ⟨header 2 0 0, []⟩

def secondBlock : Block := ⟨header 3 0 0, []⟩

theorem noTransactions_valid {data : BlockData} : Block.SchemaValid ⟨data, []⟩ :=
  fun _ h => (nomatch h)

/-- The state with the first block, and the one with both. -/
def firstState : NodeState := ((applyBlock Services.simple firstBlock).run genesisNode.state).state

def secondState : NodeState := ((applyBlock Services.simple secondBlock).run firstState).state

theorem firstBlock_run (may : Block → List Block → Prop) :
    BlockRun Services.simple may genesisNode.state [] firstState [firstBlock] :=
  .apply firstBlock .start noTransactions_valid (Outcome.eq_done (by decide))

theorem secondBlock_run (may : Block → List Block → Prop) :
    BlockRun Services.simple may genesisNode.state [] secondState [secondBlock, firstBlock] :=
  .apply secondBlock (firstBlock_run may) noTransactions_valid (Outcome.eq_done (by decide))

/-- The first block reverted, and applied once more. -/
def revertedState : NodeState := ((revertBlock Services.simple firstBlock).run firstState).state

def againState : NodeState := ((applyBlock Services.simple firstBlock).run revertedState).state

theorem revertedBlock_run : BlockRun Services.simple (OnlyBlock Services.simple) genesisNode.state []
    revertedState [] :=
  .revert firstBlock (firstBlock_run _) (fun _ h => (nomatch h)) (Outcome.eq_done (by decide))

theorem againBlock_run : BlockRun Services.simple (OnlyBlock Services.simple) genesisNode.state []
    againState [firstBlock] :=
  .apply firstBlock revertedBlock_run noTransactions_valid (Outcome.eq_done (by decide))

end Sample

/-- Two blocks of `alice` applied and the second reverted: the first is still on the chain, but
    `alice` has no last block. -/
theorem secondBlock_not :
    ¬ ∀ (env : Services) (n : ConsistentNode env) (below applied : List Block) (s : NodeState),
        LastForged env n.state below → BlockRun env (fun _ _ => True) n.state below s applied →
        LastForged env s (applied ++ below) := by
  intro h
  have hreverted : BlockRun Services.simple (fun _ _ => True) Sample.genesisNode.state []
      ((revertBlock Services.simple Sample.secondBlock).run Sample.secondState).state
      [Sample.firstBlock] :=
    .revert Sample.secondBlock (Sample.secondBlock_run _) trivial (Outcome.eq_done (by decide))
  have hlast := h _ _ _ _ _ Sample.genesisNode_lastForged hreverted ⟨"alice", by decide⟩
    (by decide)
  exact absurd hlast (by decide)

/-- The theorem after a block that was applied, reverted and applied again, and after two blocks of
    `alice`. -/
theorem lastForged_of_run_sample :
    LastForged Services.simple Sample.revertedState [] ∧
      LastForged Services.simple Sample.againState [Sample.firstBlock] ∧
      ∀ s', (revertBlock Services.simple Sample.secondBlock).run Sample.secondState = .done () s' →
        ¬ LastForged Services.simple s' [Sample.firstBlock] := by
  have hstart := Sample.genesisNode_lastForged
  refine ⟨(lastForged_of_run Sample.genesisNode hstart (fun _ h => (nomatch h))
    Sample.revertedBlock_run).1, (lastForged_of_run Sample.genesisNode hstart
    (fun _ h => (nomatch h)) Sample.againBlock_run).1, fun s' hrun hproperty => ?_⟩
  have honly := ((lastForged_of_run Sample.genesisNode hstart (fun _ h => (nomatch h))
    (Sample.secondBlock_run _)).2 Sample.secondBlock [Sample.firstBlock] s' rfl hrun).1 hproperty
  exact honly Sample.firstBlock (List.mem_cons_self ..) rfl

end CoreEx
