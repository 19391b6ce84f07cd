/-
  File:      CoreEx/P2P/PeerVerifier.lean
  Subject:   `core-p2p/source/peer-verifier.ts`: whether the state a peer claims is believed.

  The peer answers what it likes; the node is taken as it is when the verification begins. The
  answer of `#verifyPeerBlock` is a promise, which both of its callers negate as it is.

  * `VerifierServices`, `VerifierNode`, `PeerAnswers` -- what is injected, the node, the peer;
  * `verifyPeerBlock`, `verifyPeerBlocks`, `checkStateHeader`, `checkState` -- the code;
  * `Requested`, `AnsweredBlock` -- the requests that are made, and the block got for a height;
  * **`verifyFrom_eq_true_iff`** -- the loop passes exactly when every height was answered.
-/
import CoreEx.Blocks.BlockVerifier
import CoreEx.Database.DatabaseService
import CoreEx.P2P.NetworkMonitor
import CoreEx.Rounds.DposState
import CoreEx.Rounds.RoundState
import CoreEx.State.StateStore
import CoreEx.Utils.NSect
import Mathlib.Logic.Relation

namespace CoreEx

/-! ## 1. What is given -/

/-- What is injected beyond `BlockServices`. -/
structure VerifierServices extends BlockServices where
  /-- `JSON.stringify(header)`. -/
  stringify : BlockData → String
  /-- `blockFactory.fromData(data)`. -/
  fromData : BlockData → Except Exception (Option Block)

/-- The node a verification reads. -/
structure VerifierNode where
  stateStore : StateStore
  database : Database
  repository : WalletRepository
  forgingValidators : List ForgingValidator
  dposState : DposState

/-- `Contracts.P2P.PeerState`. -/
structure PeerState where
  height : Nat
  header : BlockData

/-- A reply to `hasCommonBlocks`. -/
structure CommonBlock where
  id : String
  height : Nat

/-- What the peer answers, and the time at each request. A search asks for common blocks once a
    pass; blocks are asked for once from a height. -/
structure PeerAnswers where
  hasCommonBlocks : Nat → List String → Except Exception (Option CommonBlock)
  getPeerBlocks : BlocksRequest → Except Exception (List BlockData)
  nowAtPass : Nat → Int
  nowAtHeight : Nat → Int

/-- `PeerVerificationResult`. -/
structure PeerVerificationResult where
  myHeight : Nat
  hisHeight : Nat
  highestCommonHeight : Nat
  deriving DecidableEq, Repr

namespace PeerVerifier

open RoundCalculator

/-! ## 2. The node -/

/-- `getLastBlocks().find((block) => block.data.height === header.height)`; newest first. -/
def ownBlock (node : VerifierNode) (header : BlockData) : Option Block :=
  node.stateStore.lastBlocks.values.reverse.find? fun b => b.data.height = header.height

/-- Whether the header is that of our own block. -/
def isOwnHeader (env : VerifierServices) (node : VerifierNode) (header : BlockData) : Bool :=
  match ownBlock node header with
  | none => false
  | some block => env.stringify block.data = env.stringify header

/-- `#ourHeight()`. -/
def ourHeight (node : VerifierNode) : Except Exception Nat :=
  match node.stateStore.lastBlock? with
  | none => .error (.error "Couldn't derive our chain height: undefined")
  | some block => .ok block.data.height

/-- `triggers.call("getActiveValidators", { roundInfo })`: the keys of the validators. -/
def activeValidators (env : VerifierServices) (node : VerifierNode) (roundInfo : RoundInfo) :
    Except Exception (List (Option PublicKey)) :=
  match (RoundState.getActiveValidators env.toServices env.sha256 node.database
    node.forgingValidators roundInfo).run node.repository with
  | .done validators _ => .ok (validators.map (·.publicKey))
  | .thrown e _ => .error e

/-- The validators of the round that is not stored yet, when it is that of the state. -/
def currentValidators (node : VerifierNode) (roundInfo : RoundInfo) :
    Except Exception (List (Option PublicKey)) :=
  match node.dposState.roundInfo with
  | none => .error .notDefined
  | some dposRound =>
    if dposRound.round ≠ roundInfo.round ∨ dposRound.maxValidators ≠ roundInfo.maxValidators then
      .error .assertionError
    else .ok (node.dposState.roundValidators.map fun a => (node.repository.wallet a).publicKey)

/-- `validator.getPublicKey()` of all of them; each has to have one. -/
def definedKeys : List (Option PublicKey) → Except Exception (List PublicKey)
  | [] => .ok []
  | none :: _ => .error .notDefined
  | some key :: keys => (definedKeys keys).map (key :: ·)

/-- `#getValidatorsByRound(roundInfo)`: the keys of the record. -/
def getValidatorsByRound (env : VerifierServices) (node : VerifierNode) (roundInfo : RoundInfo) :
    Except Exception (List PublicKey) := do
  let validators ← activeValidators env node roundInfo
  let validators ← if validators = [] then currentValidators node roundInfo else .ok validators
  definedKeys validators

/-! ## 3. One block -/

/-- `#verifyPeerBlock(blockData, expectedHeight, validatorsByPublicKey)`. -/
def verifyPeerBlock (env : VerifierServices) (blockData : BlockData) (expectedHeight : Nat)
    (validatorsByPublicKey : List PublicKey) : Promise Exception Bool :=
  ⟨match env.fromData blockData with
    | .error e => .error e
    | .ok none => .error .notDefined
    | .ok (some block) =>
      match (BlockVerifier.verifySignature env.toBlockServices block).settled with
      | .error e => .error e
      | .ok false => .ok false
      | .ok true =>
        if block.data.height ≠ expectedHeight then .ok false
        else .ok (decide (block.data.generatorPublicKey ∈ validatorsByPublicKey))⟩

/-- The data make a block whose signature verifies. -/
def SignedBlock (env : VerifierServices) (blockData : BlockData) (block : Block) : Prop :=
  env.fromData blockData = .ok (some block) ∧
    (BlockVerifier.verifySignature env.toBlockServices block).settled = .ok true

/-- The data make a signed block of the height, generated by one of the validators. -/
def VerifiedAt (env : VerifierServices) (blockData : BlockData) (height : Nat)
    (validators : List PublicKey) : Prop :=
  ∃ block, SignedBlock env blockData block ∧ block.data.height = height ∧
    block.data.generatorPublicKey ∈ validators

/-- **What the promise would say.** -/
theorem verifyPeerBlock_settled_iff {env : VerifierServices} {blockData : BlockData}
    {height : Nat} {validators : List PublicKey} :
    (verifyPeerBlock env blockData height validators).settled = .ok true ↔
      VerifiedAt env blockData height validators := by
  unfold verifyPeerBlock VerifiedAt SignedBlock
  cases hdata : env.fromData blockData with
  | error e => simp
  | ok block? =>
    cases block? with
    | none => simp
    | some block =>
      cases hsigned : (BlockVerifier.verifySignature env.toBlockServices block).settled with
      | error e => simp [hsigned]
      | ok signed =>
        cases signed with
        | false => simp [hsigned]
        | true =>
          by_cases hheight : block.data.height = height
          · simp [hsigned, hheight]
          · simp [hsigned, hheight]

/-! ## 4. The header -/

/-- The part of `#checkStateHeader` whose exceptions are caught. -/
def checkClaimedHeader (env : VerifierServices) (node : VerifierNode) (header : BlockData) :
    Except Exception Bool := do
  if isOwnHeader env node header then
    return true
  else
    let ours ← ourHeight node
    if header.height < ours then
      let roundInfo ← calculateRound header.height env.configuration
      let validators ← getValidatorsByRound env node roundInfo
      -- the promise itself is the condition
      return (verifyPeerBlock env header header.height validators).truthy
    else
      match ← env.fromData header with
      | none => return false
      | some claimedBlock =>
        (BlockVerifier.verifySignature env.toBlockServices claimedBlock).settled

/-- `#checkStateHeader(claimedState)`. -/
def checkStateHeader (env : VerifierServices) (node : VerifierNode) (claimedState : PeerState) :
    Bool :=
  if claimedState.header.height ≠ claimedState.height then false
  else match checkClaimedHeader env node claimedState.header with
    | .ok verified => verified
    | .error _ => false

/-! ## 5. Common blocks -/

/-- `#weHavePeersHighestBlock(claimedState, ourHeight)`. -/
def weHavePeersHighestBlock (node : VerifierNode) (claimedState : PeerState) (ours : Nat) :
    Except Exception Bool :=
  if claimedState.header.height > ours then .ok false
  else do
    match ← node.database.findBlockByHeights [claimedState.header.height] with
    | [block] => return block.data.id = claimedState.header.id
    | _ => .error .assertionError

/-- `probesHeightById`, of blocks that all have an id. -/
def heightById : List Block → OrderedMap String Nat → Except Exception (OrderedMap String Nat)
  | [], byId => .ok byId
  | block :: blocks, byId =>
    match block.data.id with
    | none => .error .notDefined
    | some id => heightById blocks (byId.set id block.data.height)

/-- `probe(heightsToProbe)` in a pass of the search. -/
def probe (node : VerifierNode) (peer : PeerAnswers) (deadline : Int) (pass : Nat)
    (heightsToProbe : List Nat) : Except Exception (Option Nat) := do
  let ourBlocks ← node.database.findBlockByHeights heightsToProbe
  if ourBlocks.length ≠ heightsToProbe.length then .error .assertionError
  else
    let byId ← heightById ourBlocks .empty
    if ¬ heightsToProbe.all fun height => ourBlocks.any fun b => b.data.height = height then
      .error .assertionError
    else if deadline ≤ peer.nowAtPass pass then
      .error (.error "timeout elapsed before successful completion of the verification")
    else
      match ← peer.hasCommonBlocks pass byId.keys with
      | none => return none
      | some highestCommon =>
        match byId.get? highestCommon.id with
        | none => return none
        | some height =>
          if height = 0 ∨ height ≠ highestCommon.height then return none
          else return some highestCommon.height

/-- `#findHighestCommonBlockHeight(claimedHeight, ourHeight, deadline)`. -/
def findHighestCommonBlockHeight (node : VerifierNode) (peer : PeerAnswers) (deadline : Int)
    (claimedHeight ours : Nat) : Except Exception (Option Nat) :=
  NSect.find 8 (probe node peer deadline) none 0 1 (min claimedHeight ours)

/-! ## 6. The blocks of the peer -/

/-- The request from a height. -/
def blocksRequest (endHeight : Int) (height : Nat) : BlocksRequest :=
  ⟨(max (min (endHeight - height + 1) 400) 1).toNat, height - 1⟩

/-- The answer to it, when there is one before the deadline and it has a block. -/
def fetched (peer : PeerAnswers) (deadline endHeight : Int) (height : Nat) :
    Option (List BlockData) :=
  if deadline ≤ peer.nowAtHeight height then none
  else match peer.getPeerBlocks (blocksRequest endHeight height) with
    | .error _ => none
    | .ok [] => none
    | .ok (block :: blocks) => some (block :: blocks)

/-- `blocksByHeight[height + index] = element` for all elements. -/
def enter (blocksByHeight : Nat → Option BlockData) (height : Nat) (response : List BlockData) :
    Nat → Option BlockData :=
  fun k => if height ≤ k ∧ k < height + response.length then response[k - height]?
    else blocksByHeight k

/-- `#fetchBlocksFromHeight`; nothing when it returns false. -/
def fetchBlocksFromHeight (peer : PeerAnswers) (deadline endHeight : Int) (height : Nat)
    (blocksByHeight : Nat → Option BlockData) : Option (Nat → Option BlockData) :=
  (fetched peer deadline endHeight height).map (enter blocksByHeight height)

/-- The loop of `#verifyPeerBlocks`, for so many heights from a height on. -/
def verifyFrom (env : VerifierServices) (peer : PeerAnswers) (deadline endHeight : Int)
    (validators : List PublicKey) :
    Nat → Nat → (Nat → Option BlockData) → Except Exception Bool
  | 0, _, _ => .ok true
  | count + 1, height, hisBlocksByHeight =>
    let hisBlocksByHeight? := match hisBlocksByHeight height with
      | some _ => some hisBlocksByHeight
      | none => fetchBlocksFromHeight peer deadline endHeight height hisBlocksByHeight
    match hisBlocksByHeight? with
    | none => .ok false
    | some hisBlocksByHeight =>
      match hisBlocksByHeight height with
      | none => .error .assertionError
      | some blockData =>
        -- the promise itself is negated
        if !(verifyPeerBlock env blockData height validators).truthy then .ok false
        else verifyFrom env peer deadline endHeight validators count (height + 1)
          hisBlocksByHeight

/-- `endHeight`. -/
def endHeight (roundInfo : RoundInfo) (claimedHeight : Nat) : Int :=
  min (claimedHeight : Int) (roundInfo.roundHeight + roundInfo.maxValidators - 1)

/-- `#verifyPeerBlocks(startHeight, claimedHeight, deadline)`. -/
def verifyPeerBlocks (env : VerifierServices) (node : VerifierNode) (peer : PeerAnswers)
    (deadline : Int) (startHeight claimedHeight : Nat) : Except Exception Bool := do
  let roundInfo ← calculateRound startHeight env.configuration
  let validators ← getValidatorsByRound env node roundInfo
  let stop := endHeight roundInfo claimedHeight
  verifyFrom env peer deadline stop validators (stop + 1 - startHeight).toNat startHeight
    fun _ => none

/-- What `checkState` does behind the check of the header. -/
def checkChain (env : VerifierServices) (node : VerifierNode) (peer : PeerAnswers)
    (claimedState : PeerState) (deadline : Int) (ours : Nat) :
    Except Exception (Option PeerVerificationResult) := do
  let claimedHeight := claimedState.header.height
  if ← weHavePeersHighestBlock node claimedState ours then
    return some ⟨ours, claimedHeight, claimedHeight⟩
  else
    match ← findHighestCommonBlockHeight node peer deadline claimedHeight ours with
    | none => return none
    | some common =>
      if ← verifyPeerBlocks env node peer deadline (common + 1) claimedHeight then
        return some ⟨ours, claimedHeight, common⟩
      else return none

/-- `checkState(claimedState, deadline)`. -/
def checkState (env : VerifierServices) (node : VerifierNode) (peer : PeerAnswers)
    (claimedState : PeerState) (deadline : Int) :
    Except Exception (Option PeerVerificationResult) :=
  if !checkStateHeader env node claimedState then .ok none
  else do
    let ours ← ourHeight node
    checkChain env node peer claimedState deadline ours

/-! ## 7. The loop -/

section Loop

variable {peer : PeerAnswers} {deadline stop : Int} {start height : Nat} {blockData : BlockData}

/-- The next request lies behind an answer, when there is more to ask for. -/
def NextRequest (peer : PeerAnswers) (deadline stop : Int) (height height' : Nat) : Prop :=
  ∃ blocks, fetched peer deadline stop height = some blocks ∧
    height' = height + blocks.length ∧ (height' : Int) ≤ stop

/-- The heights blocks are asked from. -/
def Requested (peer : PeerAnswers) (deadline stop : Int) (start height : Nat) : Prop :=
  Relation.ReflTransGen (NextRequest peer deadline stop) start height

/-- The block got for a height. -/
def AnsweredBlock (peer : PeerAnswers) (deadline stop : Int) (start height : Nat)
    (blockData : BlockData) : Prop :=
  ∃ asked blocks, Requested peer deadline stop start asked ∧
    fetched peer deadline stop asked = some blocks ∧ asked ≤ height ∧
    blocks[height - asked]? = some blockData

theorem fetched_nonempty {blocks : List BlockData}
    (h : fetched peer deadline stop height = some blocks) : ∃ b bs, blocks = b :: bs := by
  unfold fetched at h
  split at h
  · cases h
  · split at h
    · cases h
    · cases h
    · exact ⟨_, _, (Option.some.inj h).symm⟩

/-- A request is the last one or its answer ends before the others. -/
theorem Requested.behind {height' : Nat} (h : Requested peer deadline stop height height') :
    height = height' ∨ ∃ blocks, fetched peer deadline stop height = some blocks ∧
      height + blocks.length ≤ height' := by
  have hle : ∀ a b, Requested peer deadline stop a b → a ≤ b := by
    intro a b hab
    induction hab with
    | refl => exact Nat.le_refl a
    | tail _ hstep ih =>
      obtain ⟨blocks, -, rfl, -⟩ := hstep
      exact Nat.le_add_right_of_le ih
  rcases Relation.ReflTransGen.cases_head h with rfl | hstep
  · exact Or.inl rfl
  · obtain ⟨_, ⟨blocks, hanswer, rfl, -⟩, hrest⟩ := hstep
    exact Or.inr ⟨blocks, hanswer, hle _ _ hrest⟩

/-- Of two requests one was made after the other. -/
theorem Requested.total {asked asked' : Nat} (h : Requested peer deadline stop start asked)
    (h' : Requested peer deadline stop start asked') :
    Requested peer deadline stop asked asked' ∨ Requested peer deadline stop asked' asked := by
  refine Relation.ReflTransGen.total_of_right_unique (fun a b c hab hac => ?_) h h'
  obtain ⟨blocks, hanswer, rfl, -⟩ := hab
  obtain ⟨blocks', hanswer', rfl, -⟩ := hac
  obtain rfl := Option.some.inj (hanswer.symm.trans hanswer')
  rfl

/-- A height is answered once. -/
theorem AnsweredBlock.unique {blockData' : BlockData}
    (h : AnsweredBlock peer deadline stop start height blockData)
    (h' : AnsweredBlock peer deadline stop start height blockData') : blockData = blockData' := by
  -- a later request lies behind the whole of an earlier answer
  have hsame : ∀ {asked asked' : Nat} {blocks : List BlockData} {b : BlockData},
      Requested peer deadline stop asked asked' → asked' ≤ height → asked ≤ height →
      fetched peer deadline stop asked = some blocks →
      blocks[height - asked]? = some b → asked = asked' := by
    intro asked asked' blocks b hreq hle' hle hanswer hget
    rcases hreq.behind with heq | hbehind
    · exact heq
    · obtain ⟨blocks₂, hanswer₂, hend⟩ := hbehind
      obtain rfl := Option.some.inj (hanswer.symm.trans hanswer₂)
      have hlt := (List.getElem?_eq_some_iff.1 hget).1
      omega
  obtain ⟨asked, blocks, hreq, hanswer, hle, hget⟩ := h
  obtain ⟨asked', blocks', hreq', hanswer', hle', hget'⟩ := h'
  obtain rfl : asked = asked' := by
    rcases hreq.total hreq' with hafter | hbefore
    · exact hsame hafter hle' hle hanswer hget
    · exact (hsame hbefore hle hle' hanswer' hget').symm
  obtain rfl := Option.some.inj (hanswer.symm.trans hanswer')
  exact Option.some.inj (hget.symm.trans hget')

/-- A height blocks are asked from is answered when this request is. -/
theorem AnsweredBlock.fetched_isSome (h : AnsweredBlock peer deadline stop start height blockData)
    (hreq : Requested peer deadline stop start height) :
    ∃ blocks, fetched peer deadline stop height = some blocks := by
  obtain ⟨asked, blocks, hasked, hanswer, hle, hget⟩ := h
  have hlt := (List.getElem?_eq_some_iff.1 hget).1
  rcases hasked.total hreq with hafter | hbefore
  · rcases hafter.behind with rfl | hbehind
    · exact ⟨blocks, hanswer⟩
    · obtain ⟨blocks', hanswer', hend⟩ := hbehind
      obtain rfl := Option.some.inj (hanswer.symm.trans hanswer')
      omega
  · rcases hbefore.behind with rfl | hbehind
    · exact ⟨blocks, hanswer⟩
    · obtain ⟨blocks', hanswer', -⟩ := hbehind
      exact ⟨blocks', hanswer'⟩

/-- The record of the loop: blocks up to a height, which is the next one to ask from. -/
structure Known (peer : PeerAnswers) (deadline stop : Int) (start height covered : Nat)
    (hisBlocksByHeight : Nat → Option BlockData) : Prop where
  le : height ≤ covered
  known : ∀ k, height ≤ k → k < covered → ∃ blockData, hisBlocksByHeight k = some blockData ∧
    AnsweredBlock peer deadline stop start k blockData
  unknown : ∀ k, covered ≤ k → hisBlocksByHeight k = none
  requested : (covered : Int) ≤ stop → Requested peer deadline stop start covered

variable {covered : Nat} {hisBlocksByHeight : Nat → Option BlockData}

/-- An answer is entered behind what is known. -/
theorem Known.enter {blocks : List BlockData}
    (h : Known peer deadline stop start height height hisBlocksByHeight)
    (hle : (height : Int) ≤ stop) (hanswer : fetched peer deadline stop height = some blocks) :
    Known peer deadline stop start height (height + blocks.length)
      (enter hisBlocksByHeight height blocks) := by
  have hreq := h.requested hle
  refine ⟨Nat.le_add_right _ _, fun k hk hlt => ?_, fun k hk => ?_, fun hstop => ?_⟩
  · have hget : blocks[k - height]? = some blocks[k - height] :=
      List.getElem?_eq_getElem (by omega)
    refine ⟨blocks[k - height], ?_, height, blocks, hreq, hanswer, hk, hget⟩
    unfold PeerVerifier.enter
    rw [if_pos ⟨hk, hlt⟩]
    exact hget
  · unfold PeerVerifier.enter
    rw [if_neg (by omega)]
    exact h.unknown k (by omega)
  · exact hreq.tail ⟨blocks, hanswer, rfl, hstop⟩

variable {env : VerifierServices} {validators : List PublicKey}

/-- **The loop passes exactly when every height was answered.** -/
theorem verifyFrom_eq_true_iff (count : Nat)
    (h : Known peer deadline stop start height covered hisBlocksByHeight)
    (hcount : count = (stop + 1 - height).toNat) :
    verifyFrom env peer deadline stop validators count height hisBlocksByHeight = .ok true ↔
      ∀ k, height ≤ k → (k : Int) ≤ stop → ∃ blockData,
        AnsweredBlock peer deadline stop start k blockData := by
  induction count generalizing height covered hisBlocksByHeight with
  | zero => exact ⟨fun _ k hk hstop => by omega, fun _ => rfl⟩
  | succ count ih =>
    -- a height whose block is there is passed, whatever the block is
    have hpass : ∀ {covered : Nat} {m : Nat → Option BlockData},
        Known peer deadline stop start height covered m → height < covered →
        ((∃ blockData, m height = some blockData ∧
          verifyFrom env peer deadline stop validators count (height + 1) m = .ok true) ↔
          ∀ k, height ≤ k → (k : Int) ≤ stop → ∃ blockData,
            AnsweredBlock peer deadline stop start k blockData) := by
      intro covered m hknown hlt
      obtain ⟨blockData, hget, hanswered⟩ := hknown.known height (Nat.le_refl _) hlt
      have hnext : Known peer deadline stop start (height + 1) covered m :=
        ⟨hlt, fun k hk => hknown.known k (by omega), hknown.unknown, hknown.requested⟩
      have hrest := ih hnext (by omega)
      refine ⟨fun hrun k hk hstop => ?_, fun hall => ⟨blockData, hget, hrest.2 fun k hk =>
        hall k (by omega)⟩⟩
      obtain ⟨_, _, hrun⟩ := hrun
      rcases Nat.eq_or_lt_of_le hk with rfl | hgt
      · exact ⟨blockData, hanswered⟩
      · exact hrest.1 hrun k hgt hstop
    have hstop : (height : Int) ≤ stop := by omega
    unfold verifyFrom
    cases hget : hisBlocksByHeight height with
    | some blockData =>
      have hlt : height < covered := by
        refine Nat.lt_of_not_le fun hle => ?_
        rw [h.unknown height hle] at hget
        cases hget
      rw [← hpass h hlt]
      simp only [hget, Promise.truthy_eq, Bool.not_true, Bool.false_eq_true, if_false]
      simp
    | none =>
      obtain rfl : height = covered := by
        refine Nat.le_antisymm h.le (Nat.le_of_not_lt fun hlt => ?_)
        obtain ⟨_, hsome, _⟩ := h.known height (Nat.le_refl _) hlt
        rw [hget] at hsome
        cases hsome
      unfold fetchBlocksFromHeight
      cases hanswer : fetched peer deadline stop height with
      | none =>
        refine ⟨fun hrun => ?_, fun hall => ?_⟩
        · simp at hrun
        · obtain ⟨blockData, hanswered⟩ := hall height (Nat.le_refl _) hstop
          obtain ⟨blocks, hsome⟩ := hanswered.fetched_isSome (h.requested hstop)
          rw [hanswer] at hsome
          cases hsome
      | some blocks =>
        obtain ⟨b, bs, rfl⟩ := fetched_nonempty hanswer
        have hlt : height < height + (b :: bs).length := by simp
        have hentered := h.enter hstop hanswer
        rw [← hpass hentered hlt]
        have hfirst : enter hisBlocksByHeight height (b :: bs) height = some b := by
          unfold enter
          rw [if_pos ⟨Nat.le_refl _, hlt⟩, Nat.sub_self]
          rfl
        simp only [Option.map_some, hfirst, Promise.truthy_eq, Bool.not_true, Bool.false_eq_true,
          if_false]
        simp

end Loop

end PeerVerifier

end CoreEx
