/-
  File:      CoreEx/P2P/NetworkHealth.lean
  Subject:   `core-p2p/source/network-monitor.ts`: whether the node is on a fork, and how many
             blocks it is to roll back.

  * `checkNetworkHealth` -- the code, from where the peers have been verified; the heights at which
    peers forked are sorted by their texts;
  * `IsFork` -- a height at which enough peers forked;
  * **`checkNetworkHealth_eq`** -- the height it finds is the one with the greatest text.
-/
import CoreEx.P2P.PeerVerifier
import Mathlib.Data.List.Sort
import Mathlib.Data.String.Basic

namespace CoreEx

/-! ## 1. The code -/

/-- `forked`. -/
def PeerVerificationResult.forked (result : PeerVerificationResult) : Bool :=
  result.highestCommonHeight ≠ result.myHeight && result.highestCommonHeight ≠ result.hisHeight

/-- `NetworkStatus`. -/
structure NetworkStatus where
  forked : Bool
  blocksToRollback : Option Int
  deriving DecidableEq, Repr

namespace NetworkMonitor

/-- `verificationResults`: the peers that have one. -/
def verificationResults (peers : List (Option PeerVerificationResult)) :
    List PeerVerificationResult := peers.filterMap id

/-- `forkVerificationResults`. -/
def forkVerificationResults (results : List PeerVerificationResult) :
    List PeerVerificationResult := results.filter (·.forked)

/-- `sort()` compares numbers as texts. -/
def textLe (a b : Nat) : Bool := toString a ≤ toString b

/-- `forkHeights`. -/
def forkHeights (results : List PeerVerificationResult) : List Nat :=
  ((((forkVerificationResults results).map (·.highestCommonHeight)).eraseDups).mergeSort
    textLe).reverse

/-- `forkPeerCount`. -/
def forkPeerCount (results : List PeerVerificationResult) (forkHeight : Nat) : Nat :=
  ((forkVerificationResults results).filter (·.highestCommonHeight = forkHeight)).length

/-- `ourPeerCount`. -/
def ourPeerCount (results : List PeerVerificationResult) (forkHeight : Nat) : Nat :=
  (results.filter (·.highestCommonHeight > forkHeight)).length + 1

/-- What is returned for a fork at a height. -/
def rollBack (lastBlock : Block) (forkHeight : Nat) : NetworkStatus :=
  let blocksToRollback : Int := lastBlock.data.height - forkHeight
  if blocksToRollback > 5000 then ⟨true, some 5000⟩ else ⟨true, some blocksToRollback⟩

/-- The loop over the heights. -/
def findFork (results : List PeerVerificationResult) (lastBlock : Block) :
    List Nat → NetworkStatus
  | [] => ⟨false, none⟩
  | forkHeight :: heights =>
    if forkPeerCount results forkHeight > ourPeerCount results forkHeight then
      rollBack lastBlock forkHeight
    else findFork results lastBlock heights

/-- `checkNetworkHealth()`, after it has discovered and verified peers. -/
def checkNetworkHealth (peers : List (Option PeerVerificationResult)) (lastBlock : Block) :
    NetworkStatus :=
  let results := verificationResults peers
  if results.length = 0 then ⟨false, none⟩
  else findFork results lastBlock (forkHeights results)

/-! ## 2. The height it finds -/

/-- A height at which peers forked, and more of them than there are peers that follow us further,
    and us. -/
structure IsFork (results : List PeerVerificationResult) (height : Nat) : Prop where
  forked : ∃ result ∈ results, result.forked = true ∧ result.highestCommonHeight = height
  outnumbered : ourPeerCount results height < forkPeerCount results height

variable {results : List PeerVerificationResult} {height : Nat}

theorem textLe_iff {a b : Nat} : textLe a b = true ↔ toString a ≤ toString b := by
  unfold textLe
  exact decide_eq_true_iff

theorem mem_forkHeights : height ∈ forkHeights results ↔
    ∃ result ∈ results, result.forked = true ∧ result.highestCommonHeight = height := by
  unfold forkHeights forkVerificationResults
  rw [List.mem_reverse, List.mem_mergeSort, List.mem_eraseDups, List.mem_map]
  simp only [List.mem_filter, and_assoc]

/-- The heights stand in the order of their texts, the greatest first. -/
theorem pairwise_forkHeights (results : List PeerVerificationResult) :
    (forkHeights results).Pairwise fun a b => toString b ≤ toString a := by
  unfold forkHeights
  refine List.pairwise_reverse.2 ((List.pairwise_mergeSort ?_ ?_ _).imp textLe_iff.1)
  · intro a b c hab hbc
    exact textLe_iff.2 ((textLe_iff.1 hab).trans (textLe_iff.1 hbc))
  · intro a b
    rw [Bool.or_eq_true, textLe_iff, textLe_iff]
    exact le_total _ _

/-- The loop stops at the first height at which enough peers forked. -/
theorem findFork_eq (results : List PeerVerificationResult) (lastBlock : Block)
    (heights : List Nat) :
    (findFork results lastBlock heights = ⟨false, none⟩ ∧
      ∀ height ∈ heights, ¬ ourPeerCount results height < forkPeerCount results height) ∨
    ∃ before forkHeight after, heights = before ++ forkHeight :: after ∧
      (∀ height ∈ before, ¬ ourPeerCount results height < forkPeerCount results height) ∧
      ourPeerCount results forkHeight < forkPeerCount results forkHeight ∧
      findFork results lastBlock heights = rollBack lastBlock forkHeight := by
  induction heights with
  | nil => exact Or.inl ⟨rfl, fun _ h => (nomatch h)⟩
  | cons forkHeight heights ih =>
    unfold findFork
    by_cases hfork : forkPeerCount results forkHeight > ourPeerCount results forkHeight
    · rw [if_pos hfork]
      exact Or.inr ⟨[], forkHeight, heights, rfl, fun _ h => (nomatch h), hfork, rfl⟩
    · rw [if_neg hfork]
      rcases ih with ⟨hnone, hall⟩ | ⟨before, found, after, hsplit, hbefore, hfound, hstatus⟩
      · refine Or.inl ⟨hnone, fun height hmem => ?_⟩
        rcases List.mem_cons.1 hmem with rfl | hmem
        · exact hfork
        · exact hall height hmem
      · refine Or.inr ⟨forkHeight :: before, found, after, ?_, fun height hmem => ?_, hfound, hstatus⟩
        · rw [hsplit]
          rfl
        · rcases List.mem_cons.1 hmem with rfl | hmem
          · exact hfork
          · exact hbefore height hmem

/-- **The height that is found** has the greatest text of all at which enough peers forked. -/
theorem checkNetworkHealth_eq (peers : List (Option PeerVerificationResult)) (lastBlock : Block) :
    (checkNetworkHealth peers lastBlock = ⟨false, none⟩ ∧
      ∀ height, ¬ IsFork (verificationResults peers) height) ∨
    ∃ forkHeight, IsFork (verificationResults peers) forkHeight ∧
      (∀ height, IsFork (verificationResults peers) height →
        toString height ≤ toString forkHeight) ∧
      checkNetworkHealth peers lastBlock = rollBack lastBlock forkHeight := by
  unfold checkNetworkHealth
  generalize verificationResults peers = results
  dsimp only
  by_cases hempty : results.length = 0
  · rw [if_pos hempty]
    refine Or.inl ⟨rfl, fun height hfork => ?_⟩
    obtain ⟨result, hmem, -⟩ := hfork.forked
    rw [List.eq_nil_of_length_eq_zero hempty] at hmem
    cases hmem
  · rw [if_neg hempty]
    rcases findFork_eq results lastBlock (forkHeights results) with
      ⟨hnone, hall⟩ | ⟨before, forkHeight, after, hsplit, hbefore, hfound, hstatus⟩
    · refine Or.inl ⟨hnone, fun height hfork => ?_⟩
      exact hall height (mem_forkHeights.2 hfork.forked) hfork.outnumbered
    · have hmem : forkHeight ∈ forkHeights results := by
        rw [hsplit]
        exact List.mem_append_right _ List.mem_cons_self
      have hsorted := pairwise_forkHeights results
      rw [hsplit] at hsorted
      have hafter := (List.pairwise_cons.1 (List.pairwise_append.1 hsorted).2.1).1
      refine Or.inr ⟨forkHeight, ⟨mem_forkHeights.1 hmem, hfound⟩, fun height hfork => ?_, hstatus⟩
      have hheight := mem_forkHeights.2 hfork.forked
      rw [hsplit] at hheight
      rcases List.mem_append.1 hheight with hheight | hheight
      · exact absurd hfork.outnumbered (hbefore height hheight)
      · rcases List.mem_cons.1 hheight with rfl | hheight
        · exact le_refl _
        · exact hafter height hheight

end NetworkMonitor

end CoreEx
