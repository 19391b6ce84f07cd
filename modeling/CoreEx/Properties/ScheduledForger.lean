/-
  File:      CoreEx/Properties/ScheduledForger.lean
  Subject:   Whether a block that is accepted was forged by the validator whose turn it was.

  `#validateGenerator` compares the generator with the validator it finds in the schedule, and when
  it finds none it has nothing against the block.

  * `scheduledForger`, `OnlyScheduled` -- the validator of the slot, and that nobody else forges it;
  * `TurnOpen` -- nobody is found: the number of validators has changed before, the slot number is
    negative, or the round is too short;
  * `forgingValidator_some`, `forgingValidator_none` -- what is found, and when nothing is;
  * **`onlyScheduled_iff`** -- for which blocks the check is enough;
  * **`openTurn_not`** -- a block out of turn after a change.
-/
import CoreEx.Blocks.BlockProcessor
import CoreEx.Properties.BlockVerification
import CoreEx.Properties.ForgingSchedule
import CoreEx.Properties.MultiSignature
import CoreEx.Properties.Reversal

namespace CoreEx

open BlockProcessor ForgingInfo

/-! ## 1. The schedule of a block -/

/-- The validator whose turn the slot of the block is. -/
def scheduledForger (env : BlockServices) (node : Node) (L : Ledger) (block : Block) :
    Option ForgingValidator :=
  (RoundCalculator.calculateRound block.data.height env.configuration).toOption.bind fun roundInfo =>
    (RoundState.forgingOrder env.toServices env.sha256 node.database node.forgingValidators L
      roundInfo.round).bind fun validators =>
      (scheduledIndex (node.time env) block.data.timestamp block.data.height).bind fun i =>
        validators[i]?

/-- The generator is that validator. -/
def InTurn (env : BlockServices) (node : Node) (L : Ledger) (block : Block) : Prop :=
  ∃ validator, scheduledForger env node L block = some validator ∧
    validator.publicKey = some block.data.generatorPublicKey

/-- A block that is given to `AcceptBlockHandler` is forged in turn. -/
def OnlyScheduled (env : BlockServices) (node : Node) (r : WalletRepository) (now later : Int)
    (block : Block) : Prop :=
  (∃ r', (process env node now later block).run r = .done .acceptBlock r') →
    InTurn env node r.accounts block

/-- Nothing is thrown on the way, but there is nobody to compare the generator with. -/
def TurnOpen (env : BlockServices) (node : Node) (L : Ledger) (block : Block) : Prop :=
  ∃ roundInfo validators info slot,
    RoundCalculator.calculateRound block.data.height env.configuration = .ok roundInfo ∧
    RoundState.forgingOrder env.toServices env.sha256 node.database node.forgingValidators L
      roundInfo.round = some validators ∧
    (calculateForgingInfo (node.time env) (.int block.data.timestamp) block.data.height).settled =
      .ok info ∧
    slotAt (node.time env) block.data.timestamp block.data.height = some slot ∧
    ((inForce env.configuration block.data.height).isSome = true ∨
      activeValidators env.configuration block.data.height = 0 ∨
      slot < 0 ∧ slot % activeValidators env.configuration block.data.height ≠ 0 ∨
      validators[(slot % activeValidators env.configuration block.data.height).toNat]? = none)

/-! ## 2. Who is found -/

variable {env : BlockServices} {node : Node} {L : Ledger} {block : Block}

/-- What is looked up, taken apart. -/
theorem forgingValidator_eq_some {found : Option ForgingValidator} :
    forgingValidator env node L block = some found ↔ ∃ roundInfo validators info,
      RoundCalculator.calculateRound block.data.height env.configuration = .ok roundInfo ∧
      RoundState.forgingOrder env.toServices env.sha256 node.database node.forgingValidators L
        roundInfo.round = some validators ∧
      (calculateForgingInfo (node.time env) (.int block.data.timestamp) block.data.height).settled =
        .ok info ∧ found = Number.index validators info.currentForger := by
  unfold forgingValidator
  simp only [Option.bind_eq_some_iff, toOption_eq_some, Option.some.injEq]
  constructor
  · rintro ⟨roundInfo, hround, validators, hvalidators, info, hinfo, rfl⟩
    exact ⟨roundInfo, validators, info, hround, hvalidators, hinfo, rfl⟩
  · rintro ⟨roundInfo, validators, info, hround, hvalidators, hinfo, rfl⟩
    exact ⟨roundInfo, hround, validators, hvalidators, info, hinfo, rfl⟩

/-- The element at the forger's number: the scheduled one, when the turn is not open. -/
theorem index_currentForger (validators : List ForgingValidator) {info : ForgingInfo}
    (hinfo : (calculateForgingInfo (node.time env) (.int block.data.timestamp)
      block.data.height).settled = .ok info) :
    ∃ slot, slotAt (node.time env) block.data.timestamp block.data.height = some slot ∧
      Number.index validators info.currentForger =
        if (inForce env.configuration block.data.height).isSome = true ∨
            activeValidators env.configuration block.data.height = 0 ∨
            slot < 0 ∧ slot % activeValidators env.configuration block.data.height ≠ 0 then none
        else validators[(slot % activeValidators env.configuration
          block.data.height).toNat]? := by
  obtain ⟨slot, hslot, hforger⟩ := currentForger_eq hinfo
  refine ⟨slot, hslot, ?_⟩
  change info.currentForger = if (inForce env.configuration block.data.height).isSome then .nan
    else Number.rem (.int slot)
      (.int (activeValidators env.configuration block.data.height)) at hforger
  rw [hforger]
  by_cases hchanged : (inForce env.configuration block.data.height).isSome = true
  · rw [if_pos hchanged, if_pos (Or.inl hchanged)]
    rfl
  · rw [if_neg hchanged]
    generalize activeValidators env.configuration block.data.height = n
    by_cases hn : n = 0
    · subst hn
      rw [if_pos (Or.inr (Or.inl rfl))]
      rfl
    · rw [Number.index_rem validators slot hn]
      simp only [hchanged, hn, false_or, Bool.false_eq_true]

/-- **Nobody is found** when the turn is open. -/
theorem forgingValidator_none :
    forgingValidator env node L block = some none ↔ TurnOpen env node L block := by
  rw [forgingValidator_eq_some]
  unfold TurnOpen
  constructor
  · rintro ⟨roundInfo, validators, info, hround, hvalidators, hinfo, hnone⟩
    obtain ⟨slot, hslot, hindex⟩ := index_currentForger validators hinfo
    refine ⟨roundInfo, validators, info, slot, hround, hvalidators, hinfo, hslot, ?_⟩
    rw [hindex] at hnone
    split at hnone
    · rename_i h
      rcases h with h | h | h
      · exact Or.inl h
      · exact Or.inr (Or.inl h)
      · exact Or.inr (Or.inr (Or.inl h))
    · exact Or.inr (Or.inr (Or.inr hnone.symm))
  · rintro ⟨roundInfo, validators, info, slot, hround, hvalidators, hinfo, hslot, hopen⟩
    obtain ⟨slot', hslot', hindex⟩ := index_currentForger validators hinfo
    obtain rfl := Option.some.inj (hslot.symm.trans hslot')
    refine ⟨roundInfo, validators, info, hround, hvalidators, hinfo, ?_⟩
    rw [hindex]
    rcases hopen with h | h | h | h
    · rw [if_pos (Or.inl h)]
    · rw [if_pos (Or.inr (Or.inl h))]
    · rw [if_pos (Or.inr (Or.inr h))]
    · rw [h, ite_self]

/-- **Who is found** is the validator the schedule names. -/
theorem forgingValidator_some {validator : ForgingValidator}
    (h : forgingValidator env node L block = some (some validator)) :
    scheduledForger env node L block = some validator := by
  obtain ⟨roundInfo, validators, info, hround, hvalidators, hinfo, hfound⟩ :=
    forgingValidator_eq_some.1 h
  obtain ⟨slot, hslot, hindex⟩ := index_currentForger validators hinfo
  rw [hindex] at hfound
  split at hfound
  · cases hfound
  · rename_i hturn
    obtain ⟨hsame, -⟩ := not_or.1 hturn
    have hnone : inForce (node.time env).configuration block.data.height = none := by
      cases hin : inForce env.configuration block.data.height with
      | none => exact hin
      | some next =>
        rw [hin] at hsame
        exact absurd rfl hsame
    have hindex' : scheduledIndex (node.time env) block.data.timestamp block.data.height =
        some (slot % activeValidators env.configuration block.data.height).toNat := by
      unfold scheduledIndex spanStart
      rw [hslot, hnone]
      show some ((slot - 0) % _).toNat = _
      rw [Int.sub_zero]
      rfl
    unfold scheduledForger
    rw [toOption_eq_some.2 hround, Option.bind_some, hvalidators, Option.bind_some, hindex',
      Option.bind_some]
    exact hfound.symm

/-! ## 3. When nobody else forges -/

/-- **Only the scheduled validator forges, unless its turn is open**: then whoever passes the other
    checks does. -/
theorem onlyScheduled_iff (r : ConsistentRepository env.toServices) (now later : Int) :
    OnlyScheduled env node r.toWalletRepository now later block ↔
      (TurnOpen env node r.accounts block → Acceptable env node r.accounts now block →
        InTurn env node r.accounts block) := by
  unfold OnlyScheduled
  rw [process_accepts_iff r.stands]
  constructor
  · intro h hopen hok
    refine h ⟨hok, none, forgingValidator_none.2 hopen, fun v hv => ?_⟩
    cases hv
  · rintro h ⟨hok, found, hfound, hgenerator⟩
    cases found with
    | none => exact h (forgingValidator_none.1 hfound) hok
    | some validator =>
      exact ⟨validator, forgingValidator_some hfound, hgenerator validator rfl⟩

/-! ## 4. An open turn -/

namespace Sample

/-- One validator at height 1, two from height 2 on. -/
def changedServices : BlockServices := { blockServices with configuration := changedValidators }

/-- A node at height 1, where `carol` forges first in the round that follows, and `alice` second. -/
def openNode : Node where
  store := Sample.node.store
  lastStoredBlockHeight := 1
  forgingValidators := [⟨some carol, 2, "carol", 0⟩, ⟨some alice, 2, "alice", 0⟩]
  database :=
    { Database.empty with
      blockStorage := Storage.empty.put "block" ⟨header 1 0 0, []⟩
      blockStorageById := Storage.empty.put 1 "block" }

/-- The next block, by `alice`. -/
def openBlock : Block where
  data :=
    { header 2 0 0 with
      previousBlock := some "block"
      timestamp := 8
      blockSignature := some "blockalice" }
  transactions := []

end Sample

/-- **A block out of turn** after the number of validators has changed: `alice` forges the slot of
    `carol`. -/
theorem openTurn_not : ¬OnlyScheduled Sample.changedServices Sample.openNode
    Sample.repository.toWalletRepository 8 8 Sample.openBlock := by
  intro h
  have haccepted : ((process Sample.changedServices Sample.openNode 8 8 Sample.openBlock).run
      Sample.repository.toWalletRepository).value? = some .acceptBlock := by decide
  obtain ⟨validator, hvalidator, hkey⟩ := h ⟨_, Outcome.eq_done_of_value haccepted⟩
  have hcarol : (scheduledForger Sample.changedServices Sample.openNode
      Sample.repository.accounts Sample.openBlock).map (·.publicKey) = some (some Sample.carol) := by
    decide
  rw [hvalidator] at hcarol
  rw [Option.map_some, hkey] at hcarol
  exact absurd (Option.some.inj (Option.some.inj hcarol)) (by decide)

end CoreEx
