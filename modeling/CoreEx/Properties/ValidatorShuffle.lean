/-
  File:      CoreEx/Properties/ValidatorShuffle.lean
  Subject:   The shuffle of a round's validators loses nobody.

  `#shuffleValidators` exchanges elements of an array of its own, at places it takes from digests.

  * **`RoundState.shuffleArray_permutes`** -- it ends without an access outside the array or a
    digest, in a permutation of copies of the wallets it was given, and leaves these as they were.
-/
import CoreEx.Rounds.Shuffle
import Mathlib.Data.List.Range

namespace CoreEx

namespace RoundState

open Memory

/-- References behind the wallets that were there lead to the wallets that were added. -/
theorem map_getElem?_range' {ω : Type} (wallets copies : List ω) :
    (List.range' wallets.length copies.length).map ((wallets ++ copies)[·]?) =
      copies.map some := by
  refine List.ext_getElem? fun n => ?_
  rw [List.getElem?_map, List.getElem?_map]
  by_cases hn : n < copies.length
  · rw [List.getElem?_range' hn, Option.map_some, Nat.one_mul,
      List.getElem?_append_right (Nat.le_add_right _ _), Nat.add_sub_cancel_left,
      List.getElem?_eq_getElem hn]
    rfl
  · have hrange : (List.range' wallets.length copies.length)[n]? = none :=
      List.getElem?_eq_none (by rw [List.length_range']; omega)
    rw [hrange, List.getElem?_eq_none (by omega)]
    rfl

/-- **The shuffle is a permutation of copies**, for every round, list and hash function with
    digests of four bytes: a loop with a pass for each validator ends, and an access outside the
    array or a digest would end the run with `Stuck.outside`. -/
theorem shuffleArray_permutes {ω : Type} (clone : ω → ω) {sha256 : Bytes → Bytes}
    (hsha : ∀ bytes, 4 ≤ (sha256 bytes).length) (round : Int) {m : Memory ω} {validators : Ref}
    (harray : m.IsArray validators) {passes : Nat}
    (hpasses : (m.array validators).length ≤ passes) :
    ∃ (shuffled : Ref) (m' : Memory ω),
      (shuffleArray clone sha256 passes round validators).run m = .done shuffled m' ∧
      (m'.walletsOf shuffled).Perm ((m.walletsOf validators).map (Option.map clone)) ∧
      (m'.array shuffled).Nodup ∧
      (∀ wallet ∈ m'.array shuffled, m.wallets.length ≤ wallet) ∧
      m'.array validators = m.array validators ∧
      m'.walletsOf validators = m.walletsOf validators ∧
      m.arrays <+: m'.arrays ∧ m.wallets <+: m'.wallets := by
  obtain ⟨copies, hcopies, hrun⟩ := shuffleArray_run clone hsha round harray hpasses
  have hperm := perm_shuffleValidators (hexHash sha256) round
    (List.range' m.wallets.length copies.length)
  generalize shuffleValidators (hexHash sha256) round
    (List.range' m.wallets.length copies.length) = elements at hrun hperm
  let m' : Memory ω := { wallets := m.wallets ++ copies, arrays := m.arrays ++ [elements] }
  have hshuffled : m'.array m.arrays.length = elements := by
    show (m.arrays ++ [elements]).getD m.arrays.length [] = _
    rw [List.getD_eq_getElem?_getD, List.getElem?_concat_length, Option.getD_some]
  have hinput : m'.array validators = m.array validators := by
    show (m.arrays ++ [elements]).getD validators [] = m.arrays.getD validators []
    rw [List.getD_eq_getElem?_getD, List.getElem?_append_left harray.1, List.getD_eq_getElem?_getD]
  refine ⟨m.arrays.length, m', hrun, ?_, ?_, ?_, hinput, ?_, List.prefix_append _ _,
    List.prefix_append _ _⟩
  · unfold walletsOf at hcopies ⊢
    rw [hshuffled, ← hcopies, ← map_getElem?_range']
    exact hperm.map _
  · rw [hshuffled]
    exact hperm.nodup_iff.2 List.nodup_range'
  · intro wallet hwallet
    rw [hshuffled] at hwallet
    exact (List.mem_range'_1.1 (hperm.mem_iff.1 hwallet)).1
  · unfold walletsOf
    rw [hinput]
    exact List.map_congr_left fun wallet hwallet =>
      List.getElem?_append_left (harray.2 wallet hwallet)

/-- The last four bytes of a text, the bytes of a fixed word where it is shorter. -/
def lastBytes (bytes : Bytes) : Bytes := ([9, 4, 7, 2] ++ bytes).reverse.take 4

/-- Five validators, one of them listed before the others. -/
def fiveValidators : Memory String := ⟨["a", "b", "c", "d", "e"], [[4, 0, 1, 2, 3]]⟩

/-- The shuffle of round 3 where the copies are new texts. -/
theorem shuffleArray_permutes_sample :
    ∃ (shuffled : Ref) (m' : Memory String),
      (shuffleArray (· ++ "'") lastBytes 5 3 0).run fiveValidators = .done shuffled m' ∧
      (m'.walletsOf shuffled).Perm [some "e'", some "a'", some "b'", some "c'", some "d'"] ∧
      m'.walletsOf 0 = [some "e", some "a", some "b", some "c", some "d"] := by
  have hsha : ∀ bytes, 4 ≤ (lastBytes bytes).length := by
    intro bytes
    unfold lastBytes
    rw [List.length_take, List.length_reverse, List.length_append]
    exact Nat.le_min.2 ⟨Nat.le_refl _, Nat.le_add_right _ _⟩
  obtain ⟨shuffled, m', hrun, hperm, -, -, -, hinput, -, -⟩ :=
    shuffleArray_permutes (· ++ "'") hsha 3 (show fiveValidators.IsArray 0 by
      refine ⟨by decide, ?_⟩
      decide) (Nat.le_refl 5)
  exact ⟨shuffled, m', hrun, hperm, hinput⟩

end RoundState

end CoreEx
