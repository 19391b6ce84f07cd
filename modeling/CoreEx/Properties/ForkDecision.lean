/-
  File:      CoreEx/Properties/ForkDecision.lean
  Subject:   To which height the node rolls back when peers forked.

  Several heights may have enough peers. The highest of them is wanted; the code takes the one with
  the greatest text, and 9 comes after 10 in this order.

  * `DecidesForks` -- what is promised of a status;
  * **`NetworkMonitor.decidesForks_iff`** -- when the status is right;
  * **`NetworkMonitor.decidesForks_not`** -- forks at the heights 9 and 10.
-/
import CoreEx.P2P.NetworkHealth
import CoreEx.Properties.KeptBlocks
import Mathlib

namespace CoreEx

namespace NetworkMonitor

/-- The status says whether there is a fork, and rolls back to the highest one, by 5000 blocks at
    most. -/
structure DecidesForks (results : List PeerVerificationResult) (lastBlock : Block)
    (status : NetworkStatus) : Prop where
  forked : status.forked = true ↔ ∃ height, IsFork results height
  highest : ∀ height, IsGreatest {h | IsFork results h} height →
    status.blocksToRollback = some (min ((lastBlock.data.height : Int) - height) 5000)

/-- The highest fork is the one with the greatest text, or so far below the last block that no more
    than 5000 blocks are rolled back anyway. -/
def HighestByText (results : List PeerVerificationResult) (lastBlock : Block) : Prop :=
  ∀ height, IsGreatest {h | IsFork results h} height →
    (∀ h, IsFork results h → toString h ≤ toString height) ∨
      5000 ≤ (lastBlock.data.height : Int) - height

variable {results : List PeerVerificationResult} {lastBlock : Block} {height : Nat}

theorem rollBack_eq (lastBlock : Block) (forkHeight : Nat) :
    rollBack lastBlock forkHeight =
      ⟨true, some (min ((lastBlock.data.height : Int) - forkHeight) 5000)⟩ := by
  unfold rollBack
  dsimp only
  split
  · rw [min_eq_right (by omega)]
  · rw [min_eq_left (by omega)]

/-- **The status is right exactly when** the highest fork has the greatest text of all forks, or lies
    so far below the last block that the rollback is capped. -/
theorem decidesForks_iff (peers : List (Option PeerVerificationResult)) (lastBlock : Block) :
    DecidesForks (verificationResults peers) lastBlock (checkNetworkHealth peers lastBlock) ↔
      HighestByText (verificationResults peers) lastBlock := by
  rcases checkNetworkHealth_eq peers lastBlock with ⟨hstatus, hnone⟩ | ⟨found, hfound, htext, hstatus⟩
  · rw [hstatus]
    refine ⟨fun _ height hheight => absurd hheight.1 (hnone height), fun _ => ⟨?_, ?_⟩⟩
    · exact ⟨fun h => (nomatch h), fun ⟨height, h⟩ => absurd h (hnone height)⟩
    · exact fun height hheight => absurd hheight.1 (hnone height)
  · rw [hstatus, rollBack_eq]
    refine ⟨fun hdecides height hheight => ?_, fun hhighest => ⟨?_, fun height hheight => ?_⟩⟩
    · have hblocks := Option.some.inj (hdecides.highest height hheight)
      have hle : found ≤ height := hheight.2 hfound
      by_cases hfar : 5000 ≤ (lastBlock.data.height : Int) - height
      · exact Or.inr hfar
      · obtain rfl : found = height := by omega
        exact Or.inl htext
    · exact ⟨fun _ => ⟨found, hfound⟩, fun _ => rfl⟩
    · have hle : found ≤ height := hheight.2 hfound
      show some (min _ _) = some (min _ _)
      rcases hhighest height hheight with hgreatest | hfar
      · have hsame : toString found = toString height :=
          le_antisymm (hgreatest found hfound) (htext height hheight.1)
        obtain rfl : found = height := Nat.repr_inj.1 hsame
        rfl
      · rw [min_eq_right hfar, min_eq_right (by omega)]

/-- Two peers that forked at height 10, and four at height 9. -/
def forkedPeers : List (Option PeerVerificationResult) :=
  [some ⟨12, 12, 10⟩, some ⟨12, 12, 10⟩, some ⟨12, 13, 9⟩, some ⟨12, 13, 9⟩, some ⟨12, 13, 9⟩,
    some ⟨12, 13, 9⟩]

theorem isFork_nine : IsFork (verificationResults forkedPeers) 9 :=
  ⟨⟨⟨12, 13, 9⟩, by decide, rfl, rfl⟩, by decide⟩

theorem isFork_ten : IsFork (verificationResults forkedPeers) 10 :=
  ⟨⟨⟨12, 12, 10⟩, by decide, rfl, rfl⟩, by decide⟩

theorem eq_of_isFork (h : IsFork (verificationResults forkedPeers) height) :
    height = 9 ∨ height = 10 := by
  have hall : ∀ result ∈ verificationResults forkedPeers,
      result.highestCommonHeight = 9 ∨ result.highestCommonHeight = 10 := by decide
  obtain ⟨result, hmem, -, rfl⟩ := h.forked
  exact hall result hmem

/-- **Of the forks at 9 and 10** the lower one is taken: "9" is the greater text. -/
theorem decidesForks_not :
    ¬ ∀ (peers : List (Option PeerVerificationResult)) (lastBlock : Block),
      DecidesForks (verificationResults peers) lastBlock (checkNetworkHealth peers lastBlock) := by
  intro h
  let lastBlock : Block := ⟨Sample.header 12 0 0, []⟩
  have hgreatest : IsGreatest {h | IsFork (verificationResults forkedPeers) h} 10 := by
    refine ⟨isFork_ten, fun k hk => ?_⟩
    rcases eq_of_isFork hk with rfl | rfl
    · decide
    · exact le_refl _
  have hblocks := (h forkedPeers lastBlock).highest 10 hgreatest
  rcases checkNetworkHealth_eq forkedPeers lastBlock with
    ⟨-, hnone⟩ | ⟨found, hfound, htext, hstatus⟩
  · exact hnone 9 isFork_nine
  · rcases eq_of_isFork hfound with rfl | rfl
    · rw [hstatus, rollBack_eq] at hblocks
      exact absurd hblocks (by decide)
    · exact absurd (htext 9 isFork_nine) (by decide)

end NetworkMonitor

end CoreEx
