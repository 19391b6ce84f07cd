/-
  File:      CoreEx/Rounds/AppliedRound.lean
  Subject:   `#applyRound` of `core-state/source/round-state.ts`: a round begins, and is saved.

  The validators that have been ranked are shuffled as they are; what is saved of them is sorted by
  public key when it is read again.

  * `RoundNode` -- the wallets, the database and the forging validators;
  * `setForgingValidatorsOfRound`, `saveRound`, `applyRound` -- the code;
  * `shuffleValidators_map`, **`shuffleValidators_injective`** -- the shuffle looks at places only;
  * **`sortRounds_keys`** -- what is read of a stored round.
-/
import CoreEx.Rounds.DposState
import CoreEx.Rounds.RoundState
import Mathlib.Data.List.FinRange
import Mathlib.Data.List.Sort

namespace CoreEx

open WalletRepository

/-! ## 1. The code -/

/-- What `#applyRound` works on. -/
structure RoundNode where
  dpos : DposNode
  database : Database
  forgingValidators : List ForgingValidator

/-- Code that works on it and may throw. -/
abbrev RoundProg : Type → Type := Prog RoundNode Exception

/-- What is read of a clone of a validator's wallet among `#forgingValidators`. -/
def ForgingValidator.ofWallet (w : Wallet) : ForgingValidator :=
  ⟨w.publicKey, (Account.round w.toAccount).getD 0, w.username.getD "", w.voteBalance⟩

namespace RoundState

def onDpos {α : Type} (x : DposProg α) : RoundProg α :=
  Prog.zoom RoundNode.dpos (fun d s => { s with dpos := d }) x

def onDatabase {α : Type} (x : DatabaseProg α) : RoundProg α :=
  Prog.zoom RoundNode.database (fun d s => { s with database := d }) x

/-- `dposState.getRoundValidators()`. -/
def roundWallets (s : RoundNode) : List Wallet :=
  s.dpos.dposState.roundValidators.map s.dpos.node.repository.wallet

/-- `#setForgingValidatorsOfRound(roundInfo, validators)`. -/
def setForgingValidatorsOfRound (sha256 : List String → String) (roundInfo : RoundInfo)
    (validators : List Wallet) : RoundProg Unit :=
  Prog.modify fun s => { s with
    forgingValidators :=
      if isCurrent s.forgingValidators roundInfo.round then s.forgingValidators
      else shuffleValidators sha256 roundInfo.round (validators.map ForgingValidator.ofWallet) }

/-- What `saveRound` puts of a validator; a wallet that has become a validator has its key. -/
def storedEntry (w : Wallet) : Except Exception Round :=
  match w.voteBalance?, w.publicKey, Account.round w.toAccount with
  | some balance, some publicKey, some round => .ok ⟨balance, publicKey, round⟩
  | _, _, _ => .error .notDefined

/-- `databaseService.saveRound(validators)`. -/
def saveRound (validators : List Wallet) : RoundProg Unit := do
  let entries ← Prog.ofExcept (validators.mapM storedEntry)
  onDatabase (Database.saveRound entries)

/-- The round begins. -/
def startRound (localeCompare : String → String → Int) (sha256 : List String → String)
    (roundInfo : RoundInfo) : RoundProg Unit := do
  onDpos (DposState.buildValidatorRanking localeCompare)
  onDpos (DposState.setValidatorsRound roundInfo)
  let validators ← Prog.gets roundWallets
  setForgingValidatorsOfRound sha256 roundInfo validators
  saveRound validators

/-- `#applyRound(height)`; who has missed the last round is only reported. -/
def applyRound (localeCompare : String → String → Int) (sha256 : List String → String)
    (configuration : MilestoneList) (height : Nat) : RoundProg Unit :=
  if height = 1 ∨ RoundCalculator.isNewRound (height + 1) configuration = true then do
    let roundInfo ← Prog.ofExcept (RoundCalculator.calculateRound (height + 1) configuration)
    startRound localeCompare sha256 roundInfo
  else pure ()

/-! ## 2. The shuffle -/

section Shuffle

variable {α β : Type} (f : α → β)

theorem swap_map (values : List α) (i j : Nat) :
    swap (values.map f) i j = (swap values i j).map f := by
  unfold swap
  rw [List.getElem?_map, List.getElem?_map]
  cases values[i]? with
  | none => rfl
  | some a =>
    cases values[j]? with
    | none => rfl
    | some b =>
      dsimp only [Option.map_some]
      rw [List.map_set, List.map_set]

theorem shuffleBlock_map (delCount : Nat) (seed : String) (xs : List Nat) (index : Nat)
    (validators : List α) : shuffleBlock delCount seed xs index (validators.map f) =
      ((shuffleBlock delCount seed xs index validators).1,
        (shuffleBlock delCount seed xs index validators).2.map f) := by
  induction xs generalizing index validators with
  | nil => rfl
  | cons x xs ih =>
    unfold shuffleBlock
    split
    · rw [swap_map, ih]
    · rfl

theorem shuffleFrom_map (sha256 : List String → String) (delCount fuel : Nat) (seed : String)
    (index : Nat) (validators : List α) :
    shuffleFrom sha256 delCount fuel seed index (validators.map f) =
      (shuffleFrom sha256 delCount fuel seed index validators).map f := by
  induction fuel generalizing seed index validators with
  | zero => rfl
  | succ fuel ih =>
    unfold shuffleFrom
    split
    · dsimp only
      rw [shuffleBlock_map, ih]
    · rfl

/-- The shuffle does not look at what it moves. -/
theorem shuffleValidators_map (sha256 : List String → String) (round : Int)
    (validators : List α) : shuffleValidators sha256 round (validators.map f) =
      (shuffleValidators sha256 round validators).map f := by
  unfold shuffleValidators
  rw [List.length_map, shuffleFrom_map]

end Shuffle

/-- **Lists of one length that are shuffled alike** are the same. -/
theorem shuffleValidators_injective {α : Type} (sha256 : List String → String) (round : Int)
    {xs ys : List α} (hlength : xs.length = ys.length)
    (h : shuffleValidators sha256 round xs = shuffleValidators sha256 round ys) : xs = ys := by
  -- both are read off their places, which are shuffled in one way
  have hxs : xs = (List.finRange xs.length).map fun i => xs.get i := List.ext_get
    (by rw [List.length_map, List.length_finRange]) fun n h₁ h₂ => by simp
  have hys : ys = (List.finRange xs.length).map fun i => ys.get (i.cast hlength) := List.ext_get
    (by rw [List.length_map, List.length_finRange, hlength]) fun n h₁ h₂ => by simp
  have hplaces : (shuffleValidators sha256 round (List.finRange xs.length)).map
      (fun i => xs.get i) = (shuffleValidators sha256 round (List.finRange xs.length)).map
        fun i => ys.get (i.cast hlength) := by
    rw [← shuffleValidators_map, ← shuffleValidators_map, ← hxs, ← hys]
    exact h
  have hall := List.map_inj_left.1 hplaces
  refine List.ext_get hlength fun n h₁ h₂ => ?_
  exact hall ⟨n, h₁⟩ ((perm_shuffleValidators sha256 round _).mem_iff.2 (List.mem_finRange _))

/-! ## 3. What is stored -/

/-- The keys of a stored round when it is read: sorted. -/
theorem sortRounds_keys (rounds : List Round) :
    (Database.sortRounds rounds).Perm rounds ∧
      (Database.sortRounds rounds).Pairwise fun a b => a.publicKey.text ≤ b.publicKey.text := by
  refine ⟨?_, ?_⟩
  · exact (List.mergeSort_perm _ _).trans (List.mergeSort_perm _ _)
  · have hsorted : (Database.sortRounds rounds).Pairwise fun a b =>
        decide (a.publicKey.text ≤ b.publicKey.text) = true := by
      refine List.pairwise_mergeSort (fun a b c hab hbc => ?_) (fun a b => ?_) _
      · exact decide_eq_true (le_trans (of_decide_eq_true hab) (of_decide_eq_true hbc))
      · rcases le_total a.publicKey.text b.publicKey.text with hle | hle
        · simp [hle]
        · simp [hle]
    exact hsorted.imp fun h => of_decide_eq_true h

end RoundState

end CoreEx
