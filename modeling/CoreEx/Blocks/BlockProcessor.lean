/-
  File:      CoreEx/Blocks/BlockProcessor.lean
  Subject:   `core-blockchain/source/processor/block-processor.ts`: which handler gets a block.

  A block goes through a row of checks, and the first that fails decides on its handler. Only a
  block that passes all of them reaches `AcceptBlockHandler`.

  * `Node`, `BlockHandler` -- what the processor reads, and its answers;
  * `verifyBlock`, `blockContainsOutOfOrderNonce`, `validateGenerator`, `process` -- the code;
  * `Acceptable`, `MayForge` -- all the checks but the one of the generator, and that one;
  * **`verifyBlock_always`** -- the first check; **`process_accepts_iff`** -- all of them.
-/
import CoreEx.Blocks.BlockVerifier
import CoreEx.Rounds.ForgingInfo
import CoreEx.Rounds.RoundState
import CoreEx.State.StateStore
import CoreEx.State.Transactions

namespace CoreEx

open WalletRepository

/-- What the processor reads beside the wallets. -/
structure Node where
  store : StateStore
  /-- `stateStore.getLastStoredBlockHeight()`. -/
  lastStoredBlockHeight : Nat
  /-- `#forgingValidators` of the round state. -/
  forgingValidators : List ForgingValidator
  database : Database

/-- The handlers a block can be given to. -/
inductive BlockHandler where
  | verificationFailed
  | incompatibleTransactions
  | nonceOutOfOrder
  | unchained (isValidGenerator : Bool)
  | invalidGenerator
  | alreadyForged
  | acceptBlock
  deriving DecidableEq, Repr

/-- What the slots read. -/
def Node.time (env : BlockServices) (node : Node) : TimeServices :=
  ⟨env.configuration, node.store.height, node.database.findBlockTimestampByHeight, none⟩

namespace BlockProcessor

/-! ## 1. Transactions -/

/-- One pass of the loop of `#verifyBlock`; the answer of the handler is not used. -/
def verifyTransaction (env : Services) (t : Transaction) : RepositoryProg Unit := do
  let _ ← Prog.ofExcept (getActivatedHandlerForData handlers t.data)
  let _ ← Base.verify env t
  pure ()

/-- The `try` block of `#verifyBlock`. -/
def verifyAgain (env : BlockServices) (later : Int) (block : Block) :
    RepositoryProg BlockVerification := do
  Prog.forEach (verifyTransaction env.toServices) block.transactions
  pure (BlockVerifier.verify env later block)

/-- The variable `verification` as `#verifyBlock` leaves it. -/
def lastVerification (env : BlockServices) (later : Int) (block : Block)
    (first : BlockVerification) : RepositoryProg BlockVerification :=
  if first.containsMultiSignatures then
    Prog.tryCatch (verifyAgain env later block) fun _ => pure first
  else
    pure first

/-- `#verifyBlock`; the time is `now` at the first verification and `later` at the second. -/
def verifyBlock (env : BlockServices) (now later : Int) (block : Block) :
    RepositoryProg Bool := do
  let verification ← lastVerification env later block (BlockVerifier.verify env now block)
  pure verification.verified

/-- `#blockContainsIncompatibleTransactions`. -/
def blockContainsIncompatibleTransactions (block : Block) : Bool :=
  match block.transactions with
  | [] => false
  | first :: rest => rest.any fun t => t.data.version ≠ first.data.version

/-- `data.version && data.version < 2`. -/
def isLegacy (data : TransactionData) : Bool :=
  Base.hasVersion data && data.version.getD 0 < 2

/-- `#blockContainsOutOfOrderNonce`. The loop ends at the first transaction of an old version. At
    any other `getNonce` is not awaited, and a promise has no method `plus`. -/
def blockContainsOutOfOrderNonce : List Transaction → Except Exception Bool
  | [] => .ok false
  | t :: _ =>
    if isLegacy t.data then .ok false
    else
      match t.data.senderPublicKey, t.data.nonce with
      | some _, some _ =>
        .error (.typeError "nonceBySender[sender].plus is not a function")
      | _, _ => .error .notDefined

/-! ## 2. The generator -/

/-- The end of `#validateGenerator`, for a generator that is a validator. -/
def allowsGenerator (env : Services) (block : Block) (forgingValidator : Option ForgingValidator) :
    RepositoryProg Bool :=
  match forgingValidator with
  | none => pure true
  | some validator =>
    if validator.publicKey = some block.data.generatorPublicKey then
      pure true
    else do
      let publicKey ← assertDefined validator.publicKey
      let forgingWallet ← findByPublicKey env publicKey
      let w ← account forgingWallet
      let _ ← assertDefined w.username
      pure false

/-- `#validateGenerator`. -/
def validateGenerator (env : BlockServices) (node : Node) (block : Block) :
    RepositoryProg Bool := do
  let roundInfo ← Prog.ofExcept
    (RoundCalculator.calculateRound block.data.height env.configuration)
  let validators ← RoundState.getActiveValidators env.toServices env.sha256 node.database
    node.forgingValidators roundInfo
  let forgingInfo ← (ForgingInfo.calculateForgingInfo (node.time env)
    (.int block.data.timestamp) block.data.height).await
  let generatorWallet ← findByPublicKey env.toServices block.data.generatorPublicKey
  let w ← account generatorWallet
  match w.username with
  | none => pure false
  | some _ =>
    allowsGenerator env.toServices block (Number.index validators forgingInfo.currentForger)

/-! ## 3. The chain -/

/-- `isBlockChained(previousBlock, nextBlock, slots)`; the slots are those of the configured
    height. -/
def isBlockChained (env : TimeServices) (previousBlock nextBlock : BlockData) :
    Except Exception Bool :=
  match (Slots.getSlotNumber env (.int previousBlock.timestamp) 0).settled,
      (Slots.getSlotNumber env (.int nextBlock.timestamp) 0).settled with
  | .ok previousSlot, .ok nextSlot =>
    .ok (nextBlock.previousBlock = previousBlock.id &&
      nextBlock.height = previousBlock.height + 1 && previousSlot.lt nextSlot)
  | .error e, _ => .error e
  | _, .error e => .error e

/-- The ids of transactions, all of them asserted to be there. -/
def definedIds : List Transaction → Except Exception (List String)
  | [] => .ok []
  | t :: ts =>
    match t.data.id, definedIds ts with
    | none, _ => .error .notDefined
    | _, .error e => .error e
    | some id, .ok ids => .ok (id :: ids)

/-- The ids in blocks that were not stored yet, as far as they are among `transactionIds`. -/
def recentIds (node : Node) (last : Block) (transactionIds : List String) :
    Except Exception (List String) :=
  if last.data.height ≠ node.lastStoredBlockHeight then
    match definedIds ((node.store.lastBlocks.values.filter fun b =>
        b.data.height > node.lastStoredBlockHeight).flatMap Block.transactions) with
    | .error e => .error e
    | .ok ids => .ok (ids.filter (· ∈ transactionIds))
  else .ok []

/-- `#checkBlockContainsForgedTransactions`. -/
def checkBlockContainsForgedTransactions (node : Node) (last : Block) (block : Block) :
    Except Exception Bool :=
  if block.transactions.length > 0 then
    match definedIds block.transactions with
    | .error e => .error e
    | .ok transactionIds =>
      match recentIds node last transactionIds with
      | .error e => .error e
      | .ok recent =>
        .ok ((node.database.getForgedTransactionsIds transactionIds ++ recent).length > 0)
  else .ok false

/-! ## 4. The checks in their order -/

/-- `process`, from the generator on. -/
def processGenerator (env : BlockServices) (node : Node) (block : Block) :
    RepositoryProg BlockHandler := do
  let isValidGenerator ← validateGenerator env node block
  let last ← assertDefined node.store.lastBlock?
  let isChained ← Prog.ofExcept (isBlockChained (node.time env) last.data block.data)
  if !isChained then
    pure (.unchained isValidGenerator)
  else if !isValidGenerator then
    pure .invalidGenerator
  else do
    let containsForgedTransactions ← Prog.ofExcept
      (checkBlockContainsForgedTransactions node last block)
    pure (if containsForgedTransactions then .alreadyForged else .acceptBlock)

/-- `process`, from the nonces on. -/
def processNonces (env : BlockServices) (node : Node) (block : Block) :
    RepositoryProg BlockHandler := do
  let outOfOrder ← Prog.ofExcept (blockContainsOutOfOrderNonce block.transactions)
  if outOfOrder then pure .nonceOutOfOrder else processGenerator env node block

/-- `process`: the handler the block is given to. -/
def process (env : BlockServices) (node : Node) (now later : Int) (block : Block) :
    RepositoryProg BlockHandler := do
  let verified ← verifyBlock env now later block
  if !verified then
    pure .verificationFailed
  else if blockContainsIncompatibleTransactions block then
    pure .incompatibleTransactions
  else
    processNonces env node block

/-! ## 5. The first check -/

variable {env : BlockServices} {node : Node} {now later : Int} {block : Block} {L : Ledger}
  {N : Names}

theorem verify_atomic (env : Services) (t : Transaction) :
    Prog.Atomic (Stands env) (L, N) (Base.verify env t) (fun _ => True) (L, N) := by
  unfold Base.verify
  refine (assertDefined_atomic _).check fun k _ => ?_
  refine (findByPublicKey_always k).atomic.check fun a _ => ?_
  refine (account_always a).atomic.check fun w _ => ?_
  exact Prog.Atomic.ite (fun _ => Prog.Atomic.ofExcept.mono fun _ _ => trivial)
    fun _ => Prog.Atomic.ofExcept.mono fun _ _ => trivial

theorem verifyTransaction_atomic (env : Services) (t : Transaction) :
    Prog.Atomic (Stands env) (L, N) (verifyTransaction env t) (fun _ => True) (L, N) := by
  unfold verifyTransaction
  refine Prog.Atomic.ofExcept.check fun _ _ => ?_
  exact (verify_atomic env t).check fun _ _ => (Prog.Always.pure trivial).atomic

/-- **The verdict of the verifier, at the first of the two times.** The second verification, if
    there is one, fails like the first: what the handlers say about the transactions is lost. -/
theorem verifyBlock_always : Prog.Always (Stands env.toServices) (L, N)
    (verifyBlock env now later block)
    (fun verified => verified = (BlockVerifier.verify env now block).verified) (L, N) := by
  have hlast : Prog.Always (Stands env.toServices) (L, N)
      (lastVerification env later block (BlockVerifier.verify env now block))
      (fun v => v.verified = (BlockVerifier.verify env now block).verified) (L, N) := by
    unfold lastVerification
    by_cases hmulti : (BlockVerifier.verify env now block).containsMultiSignatures = true
    · have hsigned := BlockVerifier.not_signed_of_containsMultiSignatures hmulti
      have hfails : ∀ time, (BlockVerifier.verify env time block).verified = false := by
        intro time
        rw [← Bool.not_eq_true, BlockVerifier.verified_iff]
        exact fun h => hsigned h.2
      rw [if_pos hmulti]
      refine Prog.Atomic.tryCatch ?_ fun _ => Prog.Always.pure rfl
      refine (Prog.Atomic.forEach (P := fun _ => True) (verifyTransaction_atomic env.toServices)
        block.transactions).check fun _ _ => (Prog.Always.pure ?_).atomic
      rw [hfails, hfails]
    · rw [if_neg hmulti]
      exact Prog.Always.pure rfl
  unfold verifyBlock
  refine hlast.bind fun v hv => ?_
  exact Prog.Always.pure (P := fun verified => verified = _) hv

/-! ## 6. All checks -/

/-- What `allowsGenerator` answers. -/
def allowed (env : Services) (L : Ledger) (block : Block) :
    Option ForgingValidator → Option Bool
  | none => some true
  | some validator =>
    if validator.publicKey = some block.data.generatorPublicKey then some true
    else validator.publicKey.bind fun k => (L (env.addressFromPublicKey k)).username.bind
      fun _ => some false

/-- The validator the code thinks has the turn, when nothing is thrown on the way; it may be
    undefined. -/
def forgingValidator (env : BlockServices) (node : Node) (L : Ledger) (block : Block) :
    Option (Option ForgingValidator) :=
  (RoundCalculator.calculateRound block.data.height env.configuration).toOption.bind fun roundInfo =>
    (RoundState.forgingOrder env.toServices env.sha256 node.database node.forgingValidators L
      roundInfo.round).bind fun validators =>
      (ForgingInfo.calculateForgingInfo (node.time env) (.int block.data.timestamp)
        block.data.height).settled.toOption.bind fun forgingInfo =>
          some (Number.index validators forgingInfo.currentForger)

/-- What `validateGenerator` answers. -/
def generatorValid (env : BlockServices) (node : Node) (L : Ledger) (block : Block) : Option Bool :=
  (forgingValidator env node L block).bind fun validator =>
    match (L (env.addressFromPublicKey block.data.generatorPublicKey)).username with
    | none => some false
    | some _ => allowed env.toServices L block validator

/-- The handler `processGenerator` chooses. -/
def chainHandler (env : BlockServices) (node : Node) (block : Block) (valid : Bool) :
    Option BlockHandler :=
  node.store.lastBlock?.bind fun last =>
    (isBlockChained (node.time env) last.data block.data).toOption.bind fun isChained =>
      if !isChained then some (.unchained valid)
      else if !valid then some .invalidGenerator
      else (checkBlockContainsForgedTransactions node last block).toOption.bind fun forged =>
        some (if forged then .alreadyForged else .acceptBlock)

theorem allowsGenerator_evaluates (validator : Option ForgingValidator) :
    Prog.Evaluates (Stands env.toServices) (L, N) (allowsGenerator env.toServices block validator)
      (allowed env.toServices L block validator) := by
  cases validator with
  | none => exact Prog.Evaluates.pure true
  | some validator =>
    refine Prog.Evaluates.ite (Prog.Evaluates.pure true) ?_
    exact (assertDefined_evaluates _).bind fun k => (findByPublicKey_always k).andEvaluates <|
      (account_always _).andEvaluates <| (assertDefined_evaluates _).bind
        fun _ => Prog.Evaluates.pure false

theorem validateGenerator_evaluates : Prog.Evaluates (Stands env.toServices) (L, N)
    (validateGenerator env node block) (generatorValid env node L block) := by
  have hgenerator : ∀ validator : Option ForgingValidator,
      Prog.Evaluates (Stands env.toServices) (L, N) (do
        let generatorWallet ← findByPublicKey env.toServices block.data.generatorPublicKey
        let w ← account generatorWallet
        match w.username with
        | none => pure false
        | some _ => allowsGenerator env.toServices block validator)
      (match (L (env.addressFromPublicKey block.data.generatorPublicKey)).username with
        | none => some false
        | some _ => allowed env.toServices L block validator) := by
    intro validator
    refine (findByPublicKey_always _).andEvaluates <| (account_always _).andEvaluates ?_
    cases (L (env.addressFromPublicKey block.data.generatorPublicKey)).username with
    | none => exact Prog.Evaluates.pure false
    | some _ => exact allowsGenerator_evaluates validator
  unfold validateGenerator generatorValid forgingValidator
  simp only [Option.bind_assoc, Option.bind_some]
  exact (Prog.Evaluates.ofExcept _).bind fun roundInfo =>
    (RoundState.getActiveValidators_evaluates _ _).bind fun validators =>
    (Prog.Evaluates.ofExcept _).bind fun forgingInfo => hgenerator _

/-- Every check but the one of the generator, for accounts `L`. -/
structure Acceptable (env : BlockServices) (node : Node) (L : Ledger) (now : Int) (block : Block) :
    Prop where
  header : BlockVerifier.HeaderAgrees env now block
  signed : BlockVerifier.TransactionsSigned env.toServices block.transactions
  compatible : blockContainsIncompatibleTransactions block = false
  ordered : blockContainsOutOfOrderNonce block.transactions = .ok false
  validator : (L (env.addressFromPublicKey block.data.generatorPublicKey)).username.isSome = true
  chained : ∃ last, node.store.lastBlock? = some last ∧
    isBlockChained (node.time env) last.data block.data = .ok true ∧
    checkBlockContainsForgedTransactions node last block = .ok false

/-- The check of the generator: the validator whose turn it seems to be, if there is one, is the
    generator. -/
def MayForge (env : BlockServices) (node : Node) (L : Ledger) (block : Block) : Prop :=
  ∃ validator, forgingValidator env node L block = some validator ∧
    ∀ v, validator = some v → v.publicKey = some block.data.generatorPublicKey

theorem allowed_eq_true {validator : Option ForgingValidator} :
    allowed env.toServices L block validator = some true ↔
      ∀ v, validator = some v → v.publicKey = some block.data.generatorPublicKey := by
  cases validator with
  | none => exact ⟨fun _ _ h => (nomatch h), fun _ => rfl⟩
  | some v =>
    unfold allowed
    by_cases hv : v.publicKey = some block.data.generatorPublicKey
    · simp [hv]
    · simp only [if_neg hv]
      constructor
      · intro h
        obtain ⟨k, -, h⟩ := Option.bind_eq_some_iff.1 h
        obtain ⟨u, -, h⟩ := Option.bind_eq_some_iff.1 h
        cases h
      · intro h
        exact absurd (h v rfl) hv

theorem generatorValid_eq_true : generatorValid env node L block = some true ↔
    (L (env.addressFromPublicKey block.data.generatorPublicKey)).username.isSome = true ∧
      MayForge env node L block := by
  unfold generatorValid MayForge
  rw [Option.bind_eq_some_iff]
  cases (L (env.addressFromPublicKey block.data.generatorPublicKey)).username with
  | none => simp
  | some u => simp [allowed_eq_true]

theorem toOption_eq_some {α : Type} {r : Except Exception α} {a : α} :
    r.toOption = some a ↔ r = .ok a := by
  cases r with
  | ok b => exact ⟨fun h => congrArg Except.ok (Option.some.inj h), fun h => by cases h; rfl⟩
  | error e => exact ⟨fun h => (nomatch h), fun h => (nomatch h)⟩

theorem chainHandler_eq_accept {valid : Bool} :
    chainHandler env node block valid = some .acceptBlock ↔
      valid = true ∧ ∃ last, node.store.lastBlock? = some last ∧
        isBlockChained (node.time env) last.data block.data = .ok true ∧
        checkBlockContainsForgedTransactions node last block = .ok false := by
  unfold chainHandler
  rw [Option.bind_eq_some_iff]
  constructor
  · intro h
    obtain ⟨last, hlast, h⟩ := h
    obtain ⟨isChained, hchained, h⟩ := Option.bind_eq_some_iff.1 h
    cases isChained with
    | false => cases h
    | true =>
      cases valid with
      | false => cases h
      | true =>
        obtain ⟨forged, hforged, h⟩ := Option.bind_eq_some_iff.1 h
        cases forged with
        | true => cases h
        | false =>
          exact ⟨rfl, last, hlast, toOption_eq_some.1 hchained, toOption_eq_some.1 hforged⟩
  · intro h
    obtain ⟨hvalid, last, hlast, hchained, hforged⟩ := h
    refine ⟨last, hlast, ?_⟩
    rw [hchained, hforged, hvalid]
    rfl

/-- **A block reaches `AcceptBlockHandler` exactly when it passes all checks.** -/
theorem process_accepts_iff {r : WalletRepository} (hr : Stands env.toServices (L, N) r) :
    (∃ r', (process env node now later block).run r = .done .acceptBlock r') ↔
      Acceptable env node L now block ∧ MayForge env node L block := by
  have hchain : ∀ valid : Bool, Prog.Evaluates (Stands env.toServices) (L, N) (do
      let last ← assertDefined node.store.lastBlock?
      let isChained ← Prog.ofExcept (isBlockChained (node.time env) last.data block.data)
      if !isChained then
        pure (.unchained valid)
      else if !valid then
        pure .invalidGenerator
      else do
        let containsForgedTransactions ← Prog.ofExcept
          (checkBlockContainsForgedTransactions node last block)
        pure (if containsForgedTransactions then .alreadyForged else .acceptBlock))
      (chainHandler env node block valid) := by
    intro valid
    refine (assertDefined_evaluates _).bind fun last => (Prog.Evaluates.ofExcept _).bind
      fun isChained => Prog.Evaluates.ite (Prog.Evaluates.pure _) (Prog.Evaluates.ite
        (Prog.Evaluates.pure _) ((Prog.Evaluates.ofExcept _).bind fun _ => Prog.Evaluates.pure _))
  have hprocess : Prog.Evaluates (Stands env.toServices) (L, N) (process env node now later block)
      (if !(BlockVerifier.verify env now block).verified then some .verificationFailed
      else if blockContainsIncompatibleTransactions block then some .incompatibleTransactions
      else (blockContainsOutOfOrderNonce block.transactions).toOption.bind fun outOfOrder =>
        if outOfOrder then some .nonceOutOfOrder
        else (generatorValid env node L block).bind (chainHandler env node block)) :=
    verifyBlock_always.andEvaluates <| Prog.Evaluates.ite (Prog.Evaluates.pure _) <|
      Prog.Evaluates.ite (Prog.Evaluates.pure _) <| (Prog.Evaluates.ofExcept _).bind fun _ =>
        Prog.Evaluates.ite (Prog.Evaluates.pure _) <| validateGenerator_evaluates.bind hchain
  rw [hprocess.done_iff hr]
  constructor
  · intro h
    cases hverified : (BlockVerifier.verify env now block).verified with
    | false =>
      rw [hverified] at h
      cases h
    | true =>
      obtain ⟨hheader, hsigned⟩ := BlockVerifier.verified_iff.1 hverified
      rw [hverified] at h
      cases hcompatible : blockContainsIncompatibleTransactions block with
      | true =>
        rw [hcompatible] at h
        cases h
      | false =>
        rw [hcompatible] at h
        obtain ⟨outOfOrder, hordered, h⟩ := Option.bind_eq_some_iff.1 h
        cases outOfOrder with
        | true => cases h
        | false =>
          obtain ⟨valid, hvalid, h⟩ := Option.bind_eq_some_iff.1 h
          obtain ⟨rfl, hchained⟩ := chainHandler_eq_accept.1 h
          obtain ⟨hvalidator, hforge⟩ := generatorValid_eq_true.1 hvalid
          exact ⟨⟨hheader, hsigned, hcompatible, toOption_eq_some.1 hordered, hvalidator,
            hchained⟩, hforge⟩
  · intro h
    obtain ⟨hok, hforge⟩ := h
    have hverified := BlockVerifier.verified_iff.2 ⟨hok.header, hok.signed⟩
    have hvalid := generatorValid_eq_true.2 ⟨hok.validator, hforge⟩
    rw [hverified, hok.compatible, hok.ordered, hvalid]
    exact chainHandler_eq_accept.2 ⟨rfl, hok.chained⟩

end BlockProcessor

end CoreEx
