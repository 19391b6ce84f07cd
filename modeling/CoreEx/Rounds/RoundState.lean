/-
  File:      CoreEx/Rounds/RoundState.lean
  Subject:   `core-state/source/round-state.ts`: the validators of a round in the order they forge,
             and which of them are said to have missed a block.

  The order is the one the state remembers, or it is made from the stored round: its validators by
  public key, shuffled with the hash of the round's number.

  * `ForgingValidator`, `shuffleValidators`, `getActiveValidators` -- the code;
  * `forgingOrder` -- the same without reading wallets;
  * **`getActiveValidators_evaluates`** -- the validators are in that order;
  * `detectMissedBlocks`, **`detectMissedBlocks_run`** -- the slots between two blocks, and who is
    reported for them.
-/
import CoreEx.Crypto.TransactionVerifier
import CoreEx.Database.DatabaseService
import CoreEx.Rounds.RoundCalculator
import CoreEx.State.Ledger
import CoreEx.State.StateStore
import CoreEx.Time.Slots

namespace CoreEx

open WalletRepository

/-- What is read of a wallet in `#forgingValidators`. -/
structure ForgingValidator where
  publicKey : Option PublicKey
  round : Int
  username : String
  voteBalance : Int
  deriving DecidableEq, Repr

namespace RoundState

/-! ## 1. The code -/

/-- `Buffer.from(text)` of a text in ASCII, in hexadecimal. -/
def textToHex (text : String) : String :=
  String.ofList (text.toList.flatMap fun c => [(c.toNat / 16).digitChar, (c.toNat % 16).digitChar])

/-- `seed[x]` of a digest in hexadecimal; a digest has more than four bytes. -/
def seedByte (seed : String) (x : Nat) : Nat :=
  (hexPrefix ((seed.toList.drop (2 * x)).take 2)).getD 0

/-- Exchange two elements. -/
def swap {α : Type} (values : List α) (i j : Nat) : List α :=
  match values[i]?, values[j]? with
  | some a, some b => (values.set j a).set i b
  | _, _ => values

/-- The inner loop of `#shuffleValidators`: up to four exchanges, and the index it stops at. -/
def shuffleBlock {α : Type} (delCount : Nat) (seed : String) :
    List Nat → Nat → List α → Nat × List α
  | [], index, validators => (index, validators)
  | x :: xs, index, validators =>
    if index < delCount then
      shuffleBlock delCount seed xs (index + 1)
        (swap validators index (seedByte seed x % delCount))
    else (index, validators)

/-- The outer loop, which adds one to the index too; `fuel` bounds its passes. -/
def shuffleFrom {α : Type} (sha256 : List String → String) (delCount : Nat) :
    Nat → String → Nat → List α → List α
  | 0, _, _, validators => validators
  | fuel + 1, seed, index, validators =>
    if index < delCount then
      let block := shuffleBlock delCount seed [0, 1, 2, 3] index validators
      shuffleFrom sha256 delCount fuel (sha256 [seed]) (block.1 + 1) block.2
    else validators

/-- `#shuffleValidators(roundInfo, validators)`. -/
def shuffleValidators {α : Type} (sha256 : List String → String) (round : Int)
    (validators : List α) : List α :=
  shuffleFrom sha256 validators.length validators.length
    (sha256 [textToHex (toString round)]) 0 validators

/-- An exchange loses nobody. -/
theorem perm_swap {α : Type} (values : List α) (i j : Nat) : (swap values i j).Perm values := by
  unfold swap
  split
  · rename_i a b ha hb
    obtain ⟨hi, rfl⟩ := List.getElem?_eq_some_iff.1 ha
    obtain ⟨hj, rfl⟩ := List.getElem?_eq_some_iff.1 hb
    exact List.set_set_perm hj hi
  · exact List.Perm.refl _

theorem perm_shuffleBlock {α : Type} (delCount : Nat) (seed : String) (xs : List Nat)
    (index : Nat) (validators : List α) :
    (shuffleBlock delCount seed xs index validators).2.Perm validators := by
  induction xs generalizing index validators with
  | nil => exact List.Perm.refl _
  | cons x xs ih =>
    unfold shuffleBlock
    split
    · exact (ih _ _).trans (perm_swap _ _ _)
    · exact List.Perm.refl _

theorem perm_shuffleFrom {α : Type} (sha256 : List String → String) (delCount fuel : Nat)
    (seed : String) (index : Nat) (validators : List α) :
    (shuffleFrom sha256 delCount fuel seed index validators).Perm validators := by
  induction fuel generalizing seed index validators with
  | zero => exact List.Perm.refl _
  | succ fuel ih =>
    unfold shuffleFrom
    split
    · exact (ih _ _ _).trans (perm_shuffleBlock _ _ _ _ _)
    · exact List.Perm.refl _

/-- **The shuffle is a permutation**, whatever the hash function. -/
theorem perm_shuffleValidators {α : Type} (sha256 : List String → String) (round : Int)
    (validators : List α) : (shuffleValidators sha256 round validators).Perm validators :=
  perm_shuffleFrom _ _ _ _ _ _

/-- The wallet `getActiveValidators` makes of an entry of a stored round. -/
def createValidator (env : Services) (round : Int) (entry : Round) :
    RepositoryProg ForgingValidator := do
  let wallet ← findByPublicKey env entry.publicKey
  let w ← account wallet
  let username ← assertDefined w.username
  pure ⟨some entry.publicKey, round, username, entry.balance⟩

/-- The loop over a stored round. -/
def createValidators (env : Services) (round : Int) :
    List Round → RepositoryProg (List ForgingValidator)
  | [] => pure []
  | entry :: entries => do
    let validator ← createValidator env round entry
    let validators ← createValidators env round entries
    pure (validator :: validators)

/-- `#forgingValidators.length > 0 && #forgingValidators[0]` is of the round. -/
def isCurrent (forgingValidators : List ForgingValidator) (round : Int) : Bool :=
  match forgingValidators with
  | [] => false
  | first :: _ => first.round = round

/-- `getActiveValidators(roundInfo)`. -/
def getActiveValidators (env : Services) (sha256 : List String → String) (db : Database)
    (forgingValidators : List ForgingValidator) (roundInfo : RoundInfo) :
    RepositoryProg (List ForgingValidator) :=
  if isCurrent forgingValidators roundInfo.round then
    pure forgingValidators
  else do
    let validators ← createValidators env roundInfo.round (db.getRound roundInfo.round)
    pure (shuffleValidators sha256 roundInfo.round validators)

/-! ## 2. What it returns -/

/-- The wallets of a stored round; there are none when one of them is no validator. -/
def storedValidators (env : Services) (L : Ledger) (round : Int) :
    List Round → Option (List ForgingValidator)
  | [] => some []
  | entry :: entries =>
    (L (env.addressFromPublicKey entry.publicKey)).username.bind fun username =>
      (storedValidators env L round entries).bind fun validators =>
        some (⟨some entry.publicKey, round, username, entry.balance⟩ :: validators)

/-- The validators of a round in forging order. -/
def forgingOrder (env : Services) (sha256 : List String → String) (db : Database)
    (forgingValidators : List ForgingValidator) (L : Ledger) (round : Int) :
    Option (List ForgingValidator) :=
  if isCurrent forgingValidators round then some forgingValidators
  else (storedValidators env L round (db.getRound round)).bind fun validators =>
    some (shuffleValidators sha256 round validators)

variable {env : Services} {sha256 : List String → String} {db : Database} {L : Ledger} {N : Names}

theorem createValidator_evaluates (round : Int) (entry : Round) :
    Prog.Evaluates (Stands env) (L, N) (createValidator env round entry)
      ((L (env.addressFromPublicKey entry.publicKey)).username.bind fun username =>
        some ⟨some entry.publicKey, round, username, entry.balance⟩) :=
  (findByPublicKey_always entry.publicKey).andEvaluates <|
    (account_always (env.addressFromPublicKey entry.publicKey)).andEvaluates <|
    (assertDefined_evaluates _).bind fun _ => Prog.Evaluates.pure _

theorem createValidators_evaluates (round : Int) (entries : List Round) :
    Prog.Evaluates (Stands env) (L, N) (createValidators env round entries)
      (storedValidators env L round entries) := by
  induction entries with
  | nil => exact Prog.Evaluates.pure _
  | cons entry entries ih =>
    have h := (createValidator_evaluates (L := L) (N := N) round entry).bind fun validator =>
      ih.bind fun validators => Prog.Evaluates.pure (validator :: validators)
    rw [Option.bind_assoc] at h
    exact h

/-- **The active validators are those of the round, in forging order.** -/
theorem getActiveValidators_evaluates (forgingValidators : List ForgingValidator)
    (roundInfo : RoundInfo) :
    Prog.Evaluates (Stands env) (L, N)
      (getActiveValidators env sha256 db forgingValidators roundInfo)
      (forgingOrder env sha256 db forgingValidators L roundInfo.round) :=
  Prog.Evaluates.ite (Prog.Evaluates.pure _)
    ((createValidators_evaluates _ _).bind fun _ => Prog.Evaluates.pure _)

/-! ## 3. Missed blocks -/

/-- Code that dispatches `ForgerEvent.Missing`, with the validators it was dispatched for. -/
abbrev MissingProg : Type → Type := Prog (List ForgingValidator) Exception

/-- One pass of the loop of `detectMissedBlocks`. -/
def reportMissed (forgingValidators : List ForgingValidator) (missedSlot : Number) :
    MissingProg Unit :=
  match Number.index forgingValidators (missedSlot.rem (.int forgingValidators.length)) with
  | some validator => Prog.modify (· ++ [validator])
  | none => Prog.throw (.typeError "Cannot read properties of undefined (reading 'getAttribute')")

/-- `detectMissedBlocks(block)`. -/
def detectMissedBlocks (env : TimeServices) (store : StateStore)
    (forgingValidators : List ForgingValidator) (block : Block) : MissingProg Unit := do
  let lastBlock ← assertDefined store.lastBlock?
  Prog.when (lastBlock.data.height ≠ 1) do
    let lastSlot ← (Slots.getSlotNumber env (.int lastBlock.data.timestamp) 0).await
    let currentSlot ← (Slots.getSlotNumber env (.int block.data.timestamp) 0).await
    let missedSlots := (currentSlot - lastSlot - .int 1).min (.int forgingValidators.length)
    Prog.forEach (fun index : Nat =>
      reportMissed forgingValidators (lastSlot + .int index + .int 1)) missedSlots.range

/-- The last block of the store, at whose height the configuration stands. -/
structure AtLastBlock (env : TimeServices) (store : StateStore) (last : Block) : Prop where
  lastBlock : store.lastBlock? = some last
  height : env.height = last.data.height

/-- `setLastBlock` sets both. -/
theorem atLastBlock_of_setLastBlock {env : TimeServices} {s : StateStore} (h : s.Ordered)
    {last : Block} {store : StateStore}
    (hset : (StateStore.setLastBlock last).run s = .done () store)
    (henv : env.height = store.height) : AtLastBlock env store last := by
  have hok : ∀ before, s.lastBlock? = some before →
      last.data.height ≤ before.data.height + 1 := by
    intro before hbefore
    by_contra hgap
    have hthrown : (StateStore.setLastBlock last).run s = .thrown .assertionError s :=
      StateStore.setLastBlock_thrown hbefore (by omega)
    rw [hset] at hthrown
    cases hthrown
  obtain ⟨store', hset', -, hlast, hheight⟩ := StateStore.setLastBlock_done h last hok
  rw [hset] at hset'
  cases hset'
  exact ⟨hlast, henv.trans hheight⟩

/-- Nobody is reported after the genesis block. -/
theorem detectMissedBlocks_genesis {env : TimeServices} {store : StateStore} {last : Block}
    (hlast : store.lastBlock? = some last) (hgenesis : last.data.height = 1)
    (forgingValidators : List ForgingValidator) (block : Block)
    (reported : List ForgingValidator) :
    (detectMissedBlocks env store forgingValidators block).run reported = .done () reported := by
  unfold detectMissedBlocks
  rw [hlast]
  show (Prog.when (last.data.height ≠ 1) _).run reported = _
  rw [hgenesis]
  rfl

/-- **After any other block** each empty slot is charged to a position of its own, until one of them
    is no position in the round. -/
theorem detectMissedBlocks_run {env : TimeServices} {store : StateStore} {last block : Block}
    (hlast : store.lastBlock? = some last) (hgenesis : last.data.height ≠ 1)
    (forgingValidators : List ForgingValidator) {lastSlot currentSlot : Int}
    (hlastSlot : (Slots.getSlotNumber env (.int last.data.timestamp) 0).settled =
      .ok (.int lastSlot))
    (hcurrentSlot : (Slots.getSlotNumber env (.int block.data.timestamp) 0).settled =
      .ok (.int currentSlot)) (reported : List ForgingValidator) :
    (detectMissedBlocks env store forgingValidators block).run reported =
      (Prog.forEach (fun index : Nat =>
        reportMissed forgingValidators (.int (lastSlot + 1 + index)))
        (List.range (min (currentSlot - lastSlot - 1) forgingValidators.length).toNat)).run
          reported := by
  have hslot : ∀ index : Nat,
      Number.int lastSlot + .int index + .int 1 = .int (lastSlot + 1 + index) := by
    intro index
    rw [Number.int_add, Number.int_add]
    congr 1
    omega
  unfold detectMissedBlocks Promise.await
  rw [hlast]
  show (Prog.when (last.data.height ≠ 1) _).run reported = _
  rw [Prog.when, if_pos hgenesis, hlastSlot, hcurrentSlot]
  show (Prog.forEach (fun index : Nat => reportMissed forgingValidators
    (.int lastSlot + .int index + .int 1)) _).run reported = _
  simp only [hslot]
  rfl

end RoundState

end CoreEx
