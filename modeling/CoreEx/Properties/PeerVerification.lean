/-
  File:      CoreEx/Properties/PeerVerification.lean
  Subject:   Whether a peer that passes the verification has shown what it claims.

  The search for a common block, the requests and the checks of a header at or above our height are
  awaited. The check of a single block is not: below our height a header passes unseen, and of the
  blocks of the peer it only matters that there are some.

  * `HeaderSound`, `BlocksSound`, `SoundVerdict` -- what a result should mean;
  * `LetThrough` -- what the awaited checks say; `checkState_eq_some_iff` -- it decides the result;
  * `Unawaited` -- what the checks would say that nobody waits for;
  * **`soundVerdict_iff`** -- a result means what it should exactly when they would pass;
  * **`unsignedHeader_not`** -- a header below our height that its generator did not sign.
-/
import CoreEx.P2P.PeerVerifier
import CoreEx.Properties.BlockVerification

namespace CoreEx

open PeerVerifier RoundCalculator

section

variable (env : VerifierServices) (node : VerifierNode) (peer : PeerAnswers)
  (claimedState : PeerState) (deadline : Int)

/-! ## 1. What a result should mean -/

/-- The round of a height is known, with its validators. -/
def RoundKnown (height : Nat) (roundInfo : RoundInfo) (validators : List PublicKey) : Prop :=
  calculateRound height env.configuration = .ok roundInfo ∧
    getValidatorsByRound env node roundInfo = .ok validators

/-- The claimed header is ours, or it is signed, below our height by a validator of its round. -/
def HeaderSound (ours : Nat) : Prop :=
  isOwnHeader env node claimedState.header = true ∨
    ∃ block, SignedBlock env claimedState.header block ∧ (claimedState.header.height < ours →
      block.data.height = claimedState.header.height ∧ ∃ roundInfo validators,
        RoundKnown env node claimedState.header.height roundInfo validators ∧
        block.data.generatorPublicKey ∈ validators)

/-- Every height behind the common one, up to the claimed one or the end of the round, was answered
    with a signed block of the height by a validator of the round. -/
def BlocksSound (common : Nat) : Prop :=
  ∃ roundInfo validators, RoundKnown env node (common + 1) roundInfo validators ∧
    ∀ height : Nat, common + 1 ≤ height →
      (height : Int) ≤ endHeight roundInfo claimedState.header.height →
      ∃ blockData, AnsweredBlock peer deadline (endHeight roundInfo claimedState.header.height)
          (common + 1) height blockData ∧ VerifiedAt env blockData height validators

/-- A result means that the header is sound and, when the highest block of the peer is not ours,
    the blocks behind the common one. -/
def SoundVerdict : Prop :=
  ∀ result, checkState env node peer claimedState deadline = .ok (some result) →
    HeaderSound env node claimedState result.myHeight ∧
      (weHavePeersHighestBlock node claimedState result.myHeight = .ok false →
        BlocksSound env node peer claimedState deadline result.highestCommonHeight)

/-! ## 2. The condition -/

/-- The header passes what is awaited of `#checkStateHeader`. -/
def HeaderPasses (ours : Nat) : Prop :=
  claimedState.header.height = claimedState.height ∧
    (isOwnHeader env node claimedState.header = true ∨
      (claimedState.header.height < ours ∧ ∃ roundInfo validators,
        RoundKnown env node claimedState.header.height roundInfo validators) ∨
      (ours ≤ claimedState.header.height ∧ ∃ block, SignedBlock env claimedState.header block))

/-- Every height behind the common one that is asked for was answered with some block. -/
def BlocksAnswered (common : Nat) : Prop :=
  ∃ roundInfo validators, RoundKnown env node (common + 1) roundInfo validators ∧
    ∀ height : Nat, common + 1 ≤ height →
      (height : Int) ≤ endHeight roundInfo claimedState.header.height →
      ∃ blockData, AnsweredBlock peer deadline (endHeight roundInfo claimedState.header.height)
        (common + 1) height blockData

/-- The peer passes everything that is awaited, with this result. -/
def LetThrough (result : PeerVerificationResult) : Prop :=
  ourHeight node = .ok result.myHeight ∧
    result.hisHeight = claimedState.header.height ∧
    HeaderPasses env node claimedState result.myHeight ∧
    (weHavePeersHighestBlock node claimedState result.myHeight = .ok true ∧
        result.highestCommonHeight = claimedState.header.height ∨
      weHavePeersHighestBlock node claimedState result.myHeight = .ok false ∧
        findHighestCommonBlockHeight node peer deadline claimedState.header.height
          result.myHeight = .ok (some result.highestCommonHeight) ∧
        BlocksAnswered env node peer claimedState deadline result.highestCommonHeight)

/-- `#verifyPeerBlock`, where nobody waits for it, would say yes: of a header below our height that
    is not ours, and of every block got behind the common one. -/
def Unawaited (ours common : Nat) : Prop :=
  (isOwnHeader env node claimedState.header = false → claimedState.header.height < ours →
    ∀ roundInfo validators, RoundKnown env node claimedState.header.height roundInfo validators →
      (verifyPeerBlock env claimedState.header claimedState.header.height validators).settled =
        .ok true) ∧
  (weHavePeersHighestBlock node claimedState ours = .ok false →
    ∀ roundInfo validators, RoundKnown env node (common + 1) roundInfo validators →
      ∀ (height : Nat) blockData, common + 1 ≤ height →
        (height : Int) ≤ endHeight roundInfo claimedState.header.height →
        AnsweredBlock peer deadline (endHeight roundInfo claimedState.header.height) (common + 1)
          height
          blockData →
        (verifyPeerBlock env blockData height validators).settled = .ok true)

end

/-! ## 3. When there is a result -/

variable {env : VerifierServices} {node : VerifierNode} {peer : PeerAnswers}
  {claimedState : PeerState} {deadline : Int} {ours : Nat}

/-- **The header passes exactly when what is awaited passes.** -/
theorem checkStateHeader_iff (hours : ourHeight node = .ok ours) :
    checkStateHeader env node claimedState = true ↔ HeaderPasses env node claimedState ours := by
  unfold checkStateHeader HeaderPasses checkClaimedHeader
  by_cases hagree : claimedState.header.height = claimedState.height
  · rw [if_neg (not_not.2 hagree), and_iff_right hagree]
    cases hown : isOwnHeader env node claimedState.header with
    | true => simp [pure, Except.pure]
    | false =>
      by_cases hbelow : claimedState.header.height < ours
      · have hnot : ¬ ours ≤ claimedState.header.height := not_le.2 hbelow
        cases hround : calculateRound claimedState.header.height env.configuration with
        | error e => simp [hours, hbelow, hnot, hround, RoundKnown, bind, Except.bind]
        | ok roundInfo =>
          cases hvalidators : getValidatorsByRound env node roundInfo with
          | error e =>
            simp [hours, hbelow, hnot, hround, hvalidators, RoundKnown, bind, Except.bind]
          | ok validators =>
            simp [hours, hbelow, hnot, hround, hvalidators, RoundKnown, bind, Except.bind, pure,
              Except.pure]
      · have hle : ours ≤ claimedState.header.height := not_lt.1 hbelow
        cases hdata : env.fromData claimedState.header with
        | error e => simp [hours, hbelow, hle, hdata, SignedBlock, bind, Except.bind]
        | ok block? =>
          cases block? with
          | none =>
            simp [hours, hbelow, hle, hdata, SignedBlock, bind, Except.bind, pure, Except.pure]
          | some block =>
            cases hsigned : (BlockVerifier.verifySignature env.toBlockServices block).settled with
            | error e => simp [hours, hbelow, hle, hdata, hsigned, SignedBlock, bind, Except.bind]
            | ok signed =>
              cases signed with
              | false => simp [hours, hbelow, hle, hdata, hsigned, SignedBlock, bind, Except.bind]
              | true => simp [hours, hbelow, hle, hdata, hsigned, SignedBlock, bind, Except.bind]
  · rw [if_pos hagree]
    simp [hagree]

/-- **The blocks pass exactly when every height was answered.** -/
theorem verifyPeerBlocks_iff {common : Nat} :
    verifyPeerBlocks env node peer deadline (common + 1) claimedState.header.height = .ok true ↔
      BlocksAnswered env node peer claimedState deadline common := by
  unfold verifyPeerBlocks BlocksAnswered RoundKnown
  cases hround : calculateRound (common + 1) env.configuration with
  | error e => simp [bind, Except.bind]
  | ok roundInfo =>
    cases hvalidators : getValidatorsByRound env node roundInfo with
    | error e => simp [hvalidators, bind, Except.bind]
    | ok validators =>
      have hstart : Known peer deadline (endHeight roundInfo claimedState.header.height)
          (common + 1) (common + 1) (common + 1) fun _ => none :=
        ⟨Nat.le_refl _, fun k hk hlt => absurd hlt (not_lt.2 hk), fun _ _ => rfl,
          fun _ => Relation.ReflTransGen.refl⟩
      simp only [hvalidators, bind, Except.bind]
      rw [verifyFrom_eq_true_iff _ hstart rfl]
      refine ⟨fun h => ⟨roundInfo, validators, ⟨rfl, hvalidators⟩, h⟩, fun h => ?_⟩
      obtain ⟨roundInfo', validators', ⟨hround', hvalidators'⟩, hall⟩ := h
      obtain rfl := Except.ok.inj hround'
      exact hall

/-- Behind the header. -/
theorem checkChain_eq_some_iff {result : PeerVerificationResult} :
    checkChain env node peer claimedState deadline ours = .ok (some result) ↔
      result.myHeight = ours ∧ result.hisHeight = claimedState.header.height ∧
      (weHavePeersHighestBlock node claimedState ours = .ok true ∧
          result.highestCommonHeight = claimedState.header.height ∨
        weHavePeersHighestBlock node claimedState ours = .ok false ∧
          findHighestCommonBlockHeight node peer deadline claimedState.header.height ours =
            .ok (some result.highestCommonHeight) ∧
          verifyPeerBlocks env node peer deadline (result.highestCommonHeight + 1)
            claimedState.header.height = .ok true) := by
  obtain ⟨myHeight, hisHeight, highestCommonHeight⟩ := result
  unfold checkChain
  cases hhave : weHavePeersHighestBlock node claimedState ours with
  | error e => simp [bind, Except.bind]
  | ok known =>
    cases known with
    | true => simp [bind, Except.bind, pure, Except.pure, eq_comm]
    | false =>
      cases hcommon : findHighestCommonBlockHeight node peer deadline
          claimedState.header.height ours with
      | error e => simp [hcommon, bind, Except.bind]
      | ok common? =>
        cases common? with
        | none => simp [hcommon, bind, Except.bind, pure, Except.pure]
        | some common =>
          by_cases hsame : highestCommonHeight = common
          · subst hsame
            cases hblocks : verifyPeerBlocks env node peer deadline (highestCommonHeight + 1)
                claimedState.header.height with
            | error e => simp [hcommon, hblocks, bind, Except.bind]
            | ok passed =>
              cases passed with
              | false => simp [hcommon, hblocks, bind, Except.bind, pure, Except.pure]
              | true => simp [hcommon, hblocks, bind, Except.bind, pure, Except.pure, eq_comm]
          · have hne : ¬ common = highestCommonHeight := fun e => hsame e.symm
            cases hblocks : verifyPeerBlocks env node peer deadline (common + 1)
                claimedState.header.height with
            | error e => simp [hcommon, hblocks, hne, bind, Except.bind]
            | ok passed =>
              cases passed with
              | false => simp [hcommon, hblocks, hne, bind, Except.bind, pure, Except.pure]
              | true => simp [hcommon, hblocks, hne, bind, Except.bind, pure, Except.pure]

/-- **There is a result exactly when the peer is let through with it.** -/
theorem checkState_eq_some_iff {result : PeerVerificationResult} :
    checkState env node peer claimedState deadline = .ok (some result) ↔
      LetThrough env node peer claimedState deadline result := by
  unfold checkState LetThrough
  cases hours : ourHeight node with
  | error e =>
    cases hheader : checkStateHeader env node claimedState with
    | false => simp
    | true => simp [bind, Except.bind]
  | ok ours =>
    have hheader : checkStateHeader env node claimedState = true ↔
        HeaderPasses env node claimedState ours := checkStateHeader_iff hours
    rw [← verifyPeerBlocks_iff]
    cases hpassed : checkStateHeader env node claimedState with
    | false =>
      rw [hpassed] at hheader
      refine ⟨fun h => by simp at h, fun h => ?_⟩
      obtain ⟨hmine, -, hpasses, -⟩ := h
      rw [← Except.ok.inj hmine] at hpasses
      exact absurd (hheader.2 hpasses) Bool.false_ne_true
    | true =>
      rw [hpassed] at hheader
      show checkChain env node peer claimedState deadline ours = _ ↔ _
      rw [checkChain_eq_some_iff]
      refine ⟨fun h => ?_, fun h => ?_⟩
      · obtain ⟨hmine, hhis, hcases⟩ := h
        rw [hmine]
        exact ⟨rfl, hhis, hheader.1 rfl, hcases⟩
      · obtain ⟨hmine, hhis, -, hcases⟩ := h
        rw [← Except.ok.inj hmine] at hcases
        exact ⟨(Except.ok.inj hmine).symm, hhis, hcases⟩

/-! ## 4. What a result means -/

/-- A header that passes is sound when the promise nobody waits for would say yes. -/
theorem headerSound_iff (hpasses : HeaderPasses env node claimedState ours) :
    HeaderSound env node claimedState ours ↔
      (isOwnHeader env node claimedState.header = false → claimedState.header.height < ours →
        ∀ roundInfo validators,
          RoundKnown env node claimedState.header.height roundInfo validators →
          (verifyPeerBlock env claimedState.header claimedState.header.height
            validators).settled = .ok true) := by
  refine ⟨fun h hown hbelow roundInfo validators hround => ?_, fun h => ?_⟩
  · rcases h with hours | hsigned
    · rw [hown] at hours
      cases hours
    · obtain ⟨block, hblock, hvalidator⟩ := hsigned
      obtain ⟨hheight, roundInfo', validators', hround', hmem⟩ := hvalidator hbelow
      obtain rfl := Except.ok.inj (hround.1.symm.trans hround'.1)
      obtain rfl := Except.ok.inj (hround.2.symm.trans hround'.2)
      exact verifyPeerBlock_settled_iff.2 ⟨block, hblock, hheight, hmem⟩
  · cases hown : isOwnHeader env node claimedState.header with
    | true => exact Or.inl hown
    | false =>
      rcases hpasses.2 with hours | hbelow | habove
      · rw [hown] at hours
        cases hours
      · obtain ⟨hlt, roundInfo, validators, hround⟩ := hbelow
        obtain ⟨block, hblock, hheight, hmem⟩ :=
          verifyPeerBlock_settled_iff.1 (h hown hlt roundInfo validators hround)
        exact Or.inr ⟨block, hblock, fun _ => ⟨hheight, roundInfo, validators, hround, hmem⟩⟩
      · obtain ⟨hle, block, hblock⟩ := habove
        exact Or.inr ⟨block, hblock, fun hlt => absurd hlt (not_lt.2 hle)⟩

/-- Blocks that were answered are sound when each of them would pass. -/
theorem blocksSound_iff {common : Nat}
    (hanswered : BlocksAnswered env node peer claimedState deadline common) :
    BlocksSound env node peer claimedState deadline common ↔
      ∀ roundInfo validators, RoundKnown env node (common + 1) roundInfo validators →
        ∀ (height : Nat) blockData, common + 1 ≤ height →
          (height : Int) ≤ endHeight roundInfo claimedState.header.height →
          AnsweredBlock peer deadline (endHeight roundInfo claimedState.header.height) (common + 1)
            height blockData →
          (verifyPeerBlock env blockData height validators).settled = .ok true := by
  refine ⟨fun h roundInfo validators hround height blockData hlow hhigh hgot => ?_, fun h => ?_⟩
  · obtain ⟨roundInfo', validators', hround', hall⟩ := h
    obtain rfl := Except.ok.inj (hround.1.symm.trans hround'.1)
    obtain rfl := Except.ok.inj (hround.2.symm.trans hround'.2)
    obtain ⟨blockData', hgot', hverified⟩ := hall height hlow hhigh
    obtain rfl := hgot.unique hgot'
    exact verifyPeerBlock_settled_iff.2 hverified
  · obtain ⟨roundInfo, validators, hround, hall⟩ := hanswered
    refine ⟨roundInfo, validators, hround, fun height hlow hhigh => ?_⟩
    obtain ⟨blockData, hgot⟩ := hall height hlow hhigh
    exact ⟨blockData, hgot, verifyPeerBlock_settled_iff.1
      (h roundInfo validators hround height blockData hlow hhigh hgot)⟩

/-- **A result means what it should exactly when, of a peer that is let through, the checks nobody
    waits for would say yes.** -/
theorem soundVerdict_iff (env : VerifierServices) (node : VerifierNode) (peer : PeerAnswers)
    (claimedState : PeerState) (deadline : Int) :
    SoundVerdict env node peer claimedState deadline ↔
      ∀ result, LetThrough env node peer claimedState deadline result →
        Unawaited env node peer claimedState deadline result.myHeight
          result.highestCommonHeight := by
  refine forall_congr' fun result => ?_
  rw [checkState_eq_some_iff]
  refine imp_congr_right fun hlet => ?_
  obtain ⟨-, -, hpasses, hcases⟩ := hlet
  refine and_congr (headerSound_iff hpasses) (imp_congr_right fun hnot => blocksSound_iff ?_)
  rcases hcases with hhave | hsearch
  · rw [hnot] at hhave
    cases hhave.1
  · exact hsearch.2.2

/-! ## 5. A header its generator did not sign -/

namespace Sample

/-- The sample services; a header makes a block without transactions. -/
def verifierServices : VerifierServices :=
  { blockServices with
    stringify := fun data => data.payloadHash
    fromData := fun data => .ok (some ⟨data, []⟩) }

/-- A node at the second height, in the first round, with `alice` to forge. -/
def verifierNode : VerifierNode where
  stateStore := ⟨OrderedMap.empty.set 2 ⟨header 2 0 0, []⟩, 100, 2, 0, 0⟩
  database :=
    { Database.empty with
      blockStorage := Storage.empty.put "genesis" ⟨{ header 1 0 0 with id := some "genesis" }, []⟩
      blockStorageById := Storage.empty.put 1 "genesis" }
  repository := .empty
  forgingValidators := [⟨some alice, 1, "alice", 0⟩]
  dposState := .new

/-- A state with the id of our first block, signed by somebody else. -/
def unsignedState : PeerState where
  height := 1
  header :=
    { header 1 0 0 with
      id := some "genesis"
      reward := 1000
      blockSignature := some "genesismallory" }

/-- The promise nobody waits for would say no. -/
example : (verifyPeerBlock verifierServices unsignedState.header 1 [alice]).settled =
    .ok false := by
  decide

/-- A peer that does not answer. -/
def silentPeer : PeerAnswers where
  hasCommonBlocks := fun _ _ => .error (.error "timeout")
  getPeerBlocks := fun _ => .error (.error "timeout")
  nowAtPass := fun _ => 0
  nowAtHeight := fun _ => 0

end Sample

/-- The header passes, although it is neither ours nor signed. -/
theorem unsignedHeader_not : ¬ SoundVerdict Sample.verifierServices Sample.verifierNode
    Sample.silentPeer Sample.unsignedState 1 := by
  intro h
  have hresult : checkState Sample.verifierServices Sample.verifierNode Sample.silentPeer
      Sample.unsignedState 1 = .ok (some ⟨2, 1, 1⟩) := by decide
  rcases (h ⟨2, 1, 1⟩ hresult).1 with hown | hsigned
  · exact absurd hown (by decide)
  · obtain ⟨block, ⟨hdata, hverified⟩, -⟩ := hsigned
    obtain rfl := Option.some.inj (Except.ok.inj hdata)
    exact absurd hverified (by decide)

end CoreEx
