/-
  File:      CoreEx/Properties/BlockVerification.lean
  Subject:   What a verified block is known to satisfy.

  Everything about the block is made sure of except its own signature: the verifier asks for it,
  does not wait for the answer and negates the promise. So a block that passes the rest is
  verified whoever signed it.

  * `VerifierSound` -- what verification should mean for a block;
  * **`verifierSound_iff`** -- for which blocks it does.
-/
import CoreEx.Blocks.BlockVerifier
import CoreEx.Properties.Reversal

namespace CoreEx

open BlockVerifier

/-- A verified block carries the generator's signature, agrees with the milestone in force and
    with its transactions, and these are signed. -/
def VerifierSound (env : BlockServices) (now : Int) (block : Block) : Prop :=
  (verify env now block).verified = true →
    (verifySignature env block).settled = .ok true ∧ HeaderAgrees env now block ∧
      TransactionsSigned env.toServices block.transactions

/-- **Verification means what it should exactly for the blocks that fail some other check or carry
    the right signature.** -/
theorem verifierSound_iff (env : BlockServices) (now : Int) (block : Block) :
    VerifierSound env now block ↔
      (HeaderAgrees env now block → TransactionsSigned env.toServices block.transactions →
        (verifySignature env block).settled = .ok true) := by
  unfold VerifierSound
  rw [verified_iff]
  constructor
  · intro h hheader hsigned
    exact (h ⟨hheader, hsigned⟩).1
  · intro h hverified
    obtain ⟨hheader, hsigned⟩ := hverified
    exact ⟨h hheader hsigned, hheader, hsigned⟩

/-! ## A block with a wrong signature -/

namespace Sample

/-- A network that never changes: one validator, eight seconds a block. -/
def configuration : Configuration := .of ⟨1, 1, ⟨1000, 10, 0⟩, 8, 0, 100⟩ [] (by decide)

/-- A header is serialized to its id, and a hash is what was hashed. -/
def blockServices : BlockServices :=
  { Services.simple with
    configuration := configuration
    serialize := fun data _ => .ok (data.id.getD "")
    sha256 := fun buffers => buffers.foldl (· ++ ·) "" }

/-- A block of one transfer in the name of `alice`, signed by somebody else. -/
def forged : Block where
  data :=
    { header 2 1 5 with
      previousBlock := some "genesis"
      totalAmount := 7
      payloadHash := "id"
      blockSignature := some "blockmallory" }
  transactions := [transfer]

/-- The same block with the signature of `alice`. -/
def signed : Block :=
  { forged with data := { forged.data with blockSignature := some "blockalice" } }

end Sample

/-- The block somebody else signed is verified. -/
theorem verifierSound_fails : ¬ VerifierSound Sample.blockServices 0 Sample.forged := by
  intro h
  have hsound := h (by decide)
  exact absurd hsound.1 (by decide)

/-- Of the block `alice` signed, verification says the truth. -/
example : VerifierSound Sample.blockServices 0 Sample.signed :=
  fun h => ⟨by decide, verified_iff.1 h⟩

end CoreEx
