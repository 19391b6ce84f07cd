/-
  File:      CoreEx/Blocks/BlockVerifier.lean
  Subject:   `core-crypto-block/source/verifier.ts` and `Serializer.size`.

  The verdict is a list of errors; the block is verified when it is empty. Whatever is thrown on
  the way is one more error. The signature of the block is asked for without waiting, and the
  promise is negated: no answer of it becomes an error.

  * `BlockServices`, `BlockVerification` -- what it is given and what it returns;
  * `verifySignature`, `verify` -- the two methods;
  * `Judges` -- a part of the run adds no error if and only if a condition holds;
  * `HeaderAgrees`, `TransactionsSigned` -- the conditions;
  * **`verified_iff`** -- the verdict; `not_signed_of_containsMultiSignatures` -- the flag.
-/
import CoreEx.Crypto.Configuration
import CoreEx.Crypto.TransactionVerifier
import Mathlib.Algebra.Ring.Int.Defs
import Mathlib.Algebra.Ring.Nat

namespace CoreEx

/-! ## 1. The code -/

/-- What is injected beyond `Services`. -/
structure BlockServices extends Services where
  configuration : Configuration
  /-- `serializer.serialize(block, includeSignature)`. -/
  serialize : BlockData → Bool → Except Exception String
  /-- `hashFactory.sha256(buffers).toString("hex")`. -/
  sha256 : List String → String

/-- An entry of the list of errors: a text, or something that was thrown. -/
inductive VerificationError where
  | text (message : String)
  | thrown (error : Exception)
  deriving DecidableEq, Repr

/-- `IBlockVerification`, without the verdict. -/
structure VerificationResult where
  errors : List VerificationError
  containsMultiSignatures : Bool
  deriving DecidableEq, Repr

/-- `IBlockVerification`. -/
structure BlockVerification extends VerificationResult where
  verified : Bool
  deriving DecidableEq, Repr

/-- Code that adds to the result and may throw. -/
abbrev VerifierProg : Type → Type := Prog VerificationResult Exception

namespace BlockVerifier

/-- `result.errors.push(error)`. -/
def push (error : VerificationError) : VerifierProg Unit :=
  Prog.modify fun result => { result with errors := result.errors ++ [error] }

/-- `if (c) { result.errors.push(message) }`. -/
def pushIf (c : Prop) [Decidable c] (message : String) : VerifierProg Unit :=
  Prog.when c (push (.text message))

/-- `!value` of a text that may be missing. -/
def isMissing (value : Option String) : Bool := value.getD "" = ""

/-- Half the length of a hexadecimal text; in half bytes to stay with whole numbers. -/
def halfBytes (text : String) : Nat := text.length

/-- `Serializer.size`, in half bytes. The signature is read without asking whether there is one. -/
def size (block : Block) : Except Exception Nat :=
  match block.data.blockSignature with
  | none => .error (.typeError "Cannot read properties of undefined (reading 'length')")
  | some blockSignature =>
    .ok (2 * (4 + 4 + 4 + 32 + 4 + 8 + 8 + 8 + 4) + halfBytes block.data.payloadHash +
      halfBytes block.data.generatorPublicKey.text + halfBytes blockSignature +
      (block.transactions.map fun t => 2 * 4 + halfBytes t.serialized).sum)

/-- `verifySignature`. -/
def verifySignature (env : BlockServices) (block : Block) : Promise Exception Bool :=
  ⟨match env.serialize block.data false with
    | .error e => .error e
    | .ok bytes =>
      if isMissing block.data.blockSignature then .error (.error "")
      else env.verify (env.sha256 [bytes]) (block.data.blockSignature.getD "")
        block.data.generatorPublicKey.text⟩

/-- The loop that asks for the hash of every transaction; the ones that are not verified. -/
def findInvalid (env : BlockServices) : List Transaction → Except Exception (List Transaction)
  | [] => .ok []
  | t :: ts =>
    match (TransactionVerifier.verifyHash env.toServices t.data).settled with
    | .error e => .error e
    | .ok valid =>
      match findInvalid env ts with
      | .error e => .error e
      | .ok invalid => .ok (if valid then invalid else t :: invalid)

/-- What is said about transactions that are not verified. -/
def reportInvalid (invalidTransactions : List Transaction) : VerifierProg Unit := do
  push (.text "One or more transactions are not verified:")
  Prog.forEach (fun t : Transaction => push (.text s!"=> {t.serialized}")) invalidTransactions
  Prog.modify fun result => { result with
    containsMultiSignatures := invalidTransactions.any fun t => t.data.signatures.isSome }

/-- `transaction.id`; the empty text when there is none. -/
def idOf (t : Transaction) : String := t.data.id.getD ""

/-- The variables of the loop over the transactions. -/
structure Totals where
  ids : List String
  amount : Int
  fee : Int

/-- `transaction.data.expiration && expiration > 0 && expiration <= height`. -/
def isExpired (height : Nat) (t : Transaction) : Bool :=
  match t.data.expiration with
  | none => false
  | some expiration => 0 < expiration && expiration ≤ height

/-- One pass of that loop. -/
def addTransaction (t : Transaction) (totals : Totals) : Totals :=
  ⟨totals.ids ++ [idOf t], totals.amount + t.data.amount, totals.fee + t.data.fee⟩

def checkTransactions (height : Nat) : List Transaction → Totals → VerifierProg Totals
  | [], totals => pure totals
  | t :: ts, totals => do
    Prog.throwIf (isMissing t.data.id) (.error "")
    pushIf (idOf t ∈ totals.ids) s!"Encountered duplicate transaction: {idOf t}"
    pushIf (isExpired height t) s!"Encountered expired transaction: {idOf t}"
    checkTransactions height ts (addTransaction t totals)

/-- The checks of the header that come before the transactions. -/
def checkHeader (env : BlockServices) (now : Int) (block : Block) : VerifierProg Unit := do
  let constants := env.configuration.getMilestone block.data.height
  pushIf (block.data.height ≠ 1 ∧ isMissing block.data.previousBlock) "Invalid previous block"
  pushIf (block.data.reward ≠ constants.reward)
    s!"Invalid block reward: {block.data.reward} expected: {constants.reward}"
  -- the promise itself is negated, so this is never an error
  pushIf (!(verifySignature env block).truthy) "Failed to verify block signature"
  pushIf (block.data.version ≠ constants.block.version) "Invalid block version"
  pushIf (block.data.timestamp > now + constants.blockTime) "Invalid block timestamp"
  let size ← Prog.ofExcept (size block)
  pushIf (size > 2 * constants.block.maxPayload)
    s!"Payload is too large: {size / 2} > {constants.block.maxPayload}"

/-- The checks that come after them. -/
def checkTotals (env : BlockServices) (block : Block) : VerifierProg Unit := do
  let constants := env.configuration.getMilestone block.data.height
  pushIf (block.transactions.length ≠ block.data.numberOfTransactions)
    "Invalid number of transactions"
  pushIf (block.transactions.length > constants.block.maxTransactions ∧ block.data.height > 1)
    "Transactions length is too high"
  let totals ← checkTransactions block.data.height block.transactions ⟨[], 0, 0⟩
  pushIf (totals.amount ≠ block.data.totalAmount) "Invalid total amount"
  pushIf (totals.fee ≠ block.data.totalFee) "Invalid total fee"
  pushIf (env.sha256 totals.ids ≠ block.data.payloadHash) "Invalid payload hash"

/-- The `try` block of `verify`; `now` is `slots.getTime()`. -/
def tryVerify (env : BlockServices) (now : Int) (block : Block) : VerifierProg Unit := do
  checkHeader env now block
  let invalidTransactions ← Prog.ofExcept (findInvalid env block.transactions)
  Prog.when (invalidTransactions.length > 0) (reportInvalid invalidTransactions)
  checkTotals env block

/-- `verify`. -/
def verify (env : BlockServices) (now : Int) (block : Block) : BlockVerification :=
  let result := ((Prog.tryCatch (tryVerify env now block) fun error => push (.thrown error)).run
    ⟨[], false⟩).state
  { result with verified := result.errors.length = 0 }

/-! ## 2. Parts of the run -/

/-- From any result, the program returns a value with `P`, having added no error if and only if
    `C`; where it throws, `C` fails. -/
def Judges {α : Type} (x : VerifierProg α) (C : Prop) (P : α → Prop) : Prop :=
  ∀ s, x.Spec s (fun a s' => P a ∧ (s'.errors = [] ↔ s.errors = [] ∧ C)) fun _ _ => ¬ C

namespace Judges

variable {α β : Type} {x : VerifierProg α} {f : α → VerifierProg β} {C D : Prop} {P : α → Prop}
  {Q : β → Prop}

theorem congr (h : Judges x C P) (hC : C ↔ D) : Judges x D P := propext hC ▸ h

theorem pure {a : α} (h : P a) : Judges (Pure.pure a) True P :=
  fun _ => ⟨h, (and_iff_left trivial).symm⟩

theorem push (error : VerificationError) : Judges (push error) False fun _ => True :=
  fun s => ⟨trivial, by simp⟩

theorem pushIf (c : Prop) [Decidable c] (message : String) :
    Judges (pushIf c message) (¬ c) fun _ => True := by
  intro s
  refine Prog.Spec.when (fun hc => ?_) fun hc => ⟨trivial, by simp [hc]⟩
  exact ⟨trivial, by simp [hc]⟩

theorem throwIf (c : Prop) [Decidable c] (e : Exception) :
    Judges (Prog.throwIf c e : VerifierProg Unit) (¬ c) fun _ => True :=
  fun _ => Prog.Spec.throwIf (fun hc h => h hc) fun hc => ⟨trivial, by simp [hc]⟩

theorem ofExcept (r : Except Exception α) :
    Judges (Prog.ofExcept r) (∃ a, r = .ok a) fun a => r = .ok a := by
  cases r with
  | ok a => exact fun _ => ⟨rfl, by simp⟩
  | error e => exact fun _ h => h.elim fun _ ha => nomatch ha

/-- The rule of sequence. -/
theorem bind (hx : Judges x C P) (hf : ∀ a, P a → Judges (f a) D Q) :
    Judges (x >>= f) (C ∧ D) Q := by
  intro s
  have hspec := hx s
  unfold Prog.Spec at hspec ⊢
  rw [Prog.run_bind]
  cases hr : x.run s with
  | thrown e s' =>
    rw [hr] at hspec
    exact fun h => hspec h.1
  | done a s' =>
    rw [hr] at hspec
    refine (hf a hspec.1 s').mono (fun _ s'' hq => ⟨hq.1, ?_⟩) fun _ _ he h => he h.2
    rw [hq.2, hspec.2, and_assoc]

theorem when {c : Prop} [Decidable c] {x : VerifierProg Unit}
    (hx : c → Judges x C fun _ => True) : Judges (Prog.when c x) (c → C) fun _ => True := by
  by_cases hc : c
  · unfold Prog.when
    rw [if_pos hc]
    exact (hx hc).congr ⟨fun h _ => h, fun h => h hc⟩
  · unfold Prog.when
    rw [if_neg hc]
    exact (pure trivial).congr ⟨fun _ h => absurd h hc, fun _ => trivial⟩

/-- The loop rule. -/
theorem forEach {β : Type} {g : β → VerifierProg Unit} {K : β → Prop}
    (hg : ∀ b, Judges (g b) (K b) fun _ => True) (bs : List β) :
    Judges (Prog.forEach g bs) (∀ b ∈ bs, K b) fun _ => True := by
  induction bs with
  | nil => exact (pure trivial).congr ⟨fun _ _ hb => (nomatch hb), fun _ => trivial⟩
  | cons b bs ih => exact ((hg b).bind fun _ _ => ih).congr List.forall_mem_cons.symm

/-- The rest of the result is not looked at. -/
theorem modify {g : VerificationResult → VerificationResult} (hg : ∀ s, (g s).errors = s.errors) :
    Judges (Prog.modify g) True fun _ => True :=
  fun s => ⟨trivial, by simp [hg]⟩

end Judges

/-! ## 3. The conditions -/

/-- The ids of transactions. -/
def ids (ts : List Transaction) : List String := ts.map idOf

/-- The loop over the transactions adds no error. -/
structure TransactionsAgree (height : Nat) (ts : List Transaction) : Prop where
  present : ∀ t ∈ ts, isMissing t.data.id = false
  distinct : (ids ts).Nodup
  current : ∀ t ∈ ts, isExpired height t = false

/-- The header agrees with the milestone in force and with the transactions of the block. -/
structure HeaderAgrees (env : BlockServices) (now : Int) (block : Block) : Prop where
  previousBlock : block.data.height ≠ 1 → isMissing block.data.previousBlock = false
  reward : block.data.reward = (env.configuration.getMilestone block.data.height).reward
  version : block.data.version = (env.configuration.getMilestone block.data.height).block.version
  timestamp : block.data.timestamp ≤
    now + (env.configuration.getMilestone block.data.height).blockTime
  size : ∃ n, size block = .ok n ∧
    n ≤ 2 * (env.configuration.getMilestone block.data.height).block.maxPayload
  numberOfTransactions : block.transactions.length = block.data.numberOfTransactions
  maxTransactions : block.data.height > 1 → block.transactions.length ≤
    (env.configuration.getMilestone block.data.height).block.maxTransactions
  transactions : TransactionsAgree block.data.height block.transactions
  totalAmount : (block.transactions.map fun t => t.data.amount).sum = block.data.totalAmount
  totalFee : (block.transactions.map fun t => t.data.fee).sum = block.data.totalFee
  payloadHash : env.sha256 (ids block.transactions) = block.data.payloadHash

/-- Every transaction carries the signature of its sender's own key. -/
def TransactionsSigned (env : Services) (ts : List Transaction) : Prop :=
  ∀ t ∈ ts, (TransactionVerifier.verifyHash env t.data).settled = .ok true

section Verdict

variable {env : BlockServices} {now : Int} {block : Block}

/-- The loop finds nothing exactly when there is nothing to find. -/
theorem findInvalid_eq_nil (ts : List Transaction) :
    findInvalid env ts = .ok [] ↔ TransactionsSigned env.toServices ts := by
  induction ts with
  | nil => exact ⟨fun _ _ ht => (nomatch ht), fun _ => rfl⟩
  | cons t ts ih =>
    have hcons : TransactionsSigned env.toServices (t :: ts) ↔
        (TransactionVerifier.verifyHash env.toServices t.data).settled = .ok true ∧
          TransactionsSigned env.toServices ts := List.forall_mem_cons
    rw [hcons, ← ih]
    simp only [findInvalid]
    rcases (TransactionVerifier.verifyHash env.toServices t.data).settled with e | valid
    · simp
    · rcases findInvalid env ts with e | invalid
      · simp
      · cases valid <;> simp

theorem isMissing_eq {value : Option String} :
    isMissing value = false ↔ ¬ isMissing value = true := by simp

/-- The loop over the transactions. -/
theorem checkTransactions_judges (height : Nat) (ts : List Transaction) (totals : Totals) :
    Judges (checkTransactions height ts totals)
      (TransactionsAgree height ts ∧ ∀ id ∈ ids ts, id ∉ totals.ids)
      (fun a => a = ⟨totals.ids ++ ids ts, totals.amount + (ts.map fun t => t.data.amount).sum,
        totals.fee + (ts.map fun t => t.data.fee).sum⟩) := by
  induction ts generalizing totals with
  | nil =>
    refine (Judges.pure ?_).congr ⟨fun _ => ⟨⟨?_, List.nodup_nil, ?_⟩, ?_⟩, fun _ => trivial⟩
    · simp [ids]
    all_goals intro _ h; cases h
  | cons t ts ih =>
    have hrest := ih (addTransaction t totals)
    have htotals : (⟨(addTransaction t totals).ids ++ ids ts,
        (addTransaction t totals).amount + (ts.map fun t => t.data.amount).sum,
        (addTransaction t totals).fee + (ts.map fun t => t.data.fee).sum⟩ : Totals) =
        ⟨totals.ids ++ ids (t :: ts), totals.amount + ((t :: ts).map fun t => t.data.amount).sum,
          totals.fee + ((t :: ts).map fun t => t.data.fee).sum⟩ := by
      simp [addTransaction, ids, Int.add_assoc]
    rw [htotals] at hrest
    unfold checkTransactions
    refine ((Judges.throwIf _ _).bind fun _ _ => (Judges.pushIf _ _).bind fun _ _ =>
      (Judges.pushIf _ _).bind fun _ _ => hrest).congr ?_
    constructor
    · intro h
      obtain ⟨hid, hnew, hexp, ⟨hpresent, hdistinct, hcurrent⟩, hdisjoint⟩ := h
      have hdisjoint' : ∀ id ∈ ids ts, id ∉ totals.ids ∧ id ≠ idOf t := by
        intro id hmem
        have h := hdisjoint id hmem
        simpa [addTransaction] using h
      refine ⟨⟨?_, ?_, ?_⟩, ?_⟩
      · exact List.forall_mem_cons.2 ⟨isMissing_eq.2 hid, hpresent⟩
      · exact List.nodup_cons.2 ⟨fun hmem => (hdisjoint' _ hmem).2 rfl, hdistinct⟩
      · exact List.forall_mem_cons.2 ⟨by simpa using hexp, hcurrent⟩
      · exact List.forall_mem_cons.2 ⟨hnew, fun id hmem => (hdisjoint' id hmem).1⟩
    · intro h
      obtain ⟨⟨hpresent, hdistinct, hcurrent⟩, hdisjoint⟩ := h
      have hfresh : ∀ id ∈ idOf t :: ids ts, id ∉ totals.ids := hdisjoint
      obtain ⟨hnew, hdisjoint⟩ := List.forall_mem_cons.1 hfresh
      obtain ⟨hid, hpresent⟩ := List.forall_mem_cons.1 hpresent
      obtain ⟨hexp, hcurrent⟩ := List.forall_mem_cons.1 hcurrent
      obtain ⟨hnot, hdistinct⟩ := List.nodup_cons.1 hdistinct
      refine ⟨isMissing_eq.1 hid, hnew, by simpa using hexp, ⟨hpresent, hdistinct, hcurrent⟩, ?_⟩
      intro id hmem
      have hne : id ≠ idOf t := by
        rintro rfl
        exact hnot hmem
      simpa [addTransaction, hne] using hdisjoint id hmem

/-- The size is read, which fails without a signature, and compared. -/
theorem checkSize_judges {maximum : Nat} {message : Nat → String} :
    Judges (do
      let size ← Prog.ofExcept (size block)
      pushIf (size > 2 * maximum) (message size))
    (∃ n, size block = .ok n ∧ n ≤ 2 * maximum) fun _ => True := by
  cases hsize : size block with
  | ok n =>
    refine ((Judges.ofExcept _).bind fun a ha => ?_).congr (C := (∃ a, Except.ok n = .ok a) ∧
      n ≤ 2 * maximum) (by simp)
    cases ha
    exact (Judges.pushIf _ _).congr (by omega)
  | error e =>
    refine ((Judges.ofExcept (.error e)).bind (D := True) fun a ha => nomatch ha).congr ?_
    simp

/-- A report leaves an error behind. -/
theorem reportInvalid_judges (invalid : List Transaction) :
    Judges (reportInvalid invalid) False fun _ => True := by
  unfold reportInvalid
  refine ((Judges.push _).bind fun _ _ => (Judges.forEach (fun _ => Judges.push _) _).bind
    fun _ _ => Judges.modify (by intro _; rfl)).congr ?_
  exact ⟨fun h => h.1, fun h => h.elim⟩

/-- The checks of the header that come before the transactions. -/
theorem checkHeader_judges : Judges (checkHeader env now block)
    ((block.data.height ≠ 1 → isMissing block.data.previousBlock = false) ∧
      block.data.reward = (env.configuration.getMilestone block.data.height).reward ∧
      block.data.version = (env.configuration.getMilestone block.data.height).block.version ∧
      block.data.timestamp ≤ now + (env.configuration.getMilestone block.data.height).blockTime ∧
      ∃ n, size block = .ok n ∧
        n ≤ 2 * (env.configuration.getMilestone block.data.height).block.maxPayload)
    fun _ => True := by
  unfold checkHeader
  refine ((Judges.pushIf _ _).bind fun _ _ => (Judges.pushIf _ _).bind fun _ _ =>
    (Judges.pushIf _ _).bind fun _ _ => (Judges.pushIf _ _).bind fun _ _ =>
    (Judges.pushIf _ _).bind fun _ _ => checkSize_judges).congr ?_
  constructor
  · intro h
    obtain ⟨hprevious, hreward, -, hversion, htimestamp, hsize⟩ := h
    refine ⟨fun hheight => isMissing_eq.2 fun hmissing => hprevious ⟨hheight, hmissing⟩,
      not_not.1 hreward, not_not.1 hversion, ?_, hsize⟩
    omega
  · intro h
    obtain ⟨hprevious, hreward, hversion, htimestamp, hsize⟩ := h
    refine ⟨?_, not_not.2 hreward, by simp, not_not.2 hversion, by omega, hsize⟩
    intro hmissing
    exact isMissing_eq.1 (hprevious hmissing.1) hmissing.2

/-- The checks that come after the transactions were asked for their hashes. -/
theorem checkTotals_judges : Judges (checkTotals env block)
    (block.transactions.length = block.data.numberOfTransactions ∧
      (block.data.height > 1 → block.transactions.length ≤
        (env.configuration.getMilestone block.data.height).block.maxTransactions) ∧
      TransactionsAgree block.data.height block.transactions ∧
      (block.transactions.map fun t => t.data.amount).sum = block.data.totalAmount ∧
      (block.transactions.map fun t => t.data.fee).sum = block.data.totalFee ∧
      env.sha256 (ids block.transactions) = block.data.payloadHash)
    fun _ => True := by
  have hrest : ∀ totals : Totals, totals = ⟨[] ++ ids block.transactions,
      0 + (block.transactions.map fun t => t.data.amount).sum,
      0 + (block.transactions.map fun t => t.data.fee).sum⟩ →
      Judges (do
        pushIf (totals.amount ≠ block.data.totalAmount) "Invalid total amount"
        pushIf (totals.fee ≠ block.data.totalFee) "Invalid total fee"
        pushIf (env.sha256 totals.ids ≠ block.data.payloadHash) "Invalid payload hash")
      ((block.transactions.map fun t => t.data.amount).sum = block.data.totalAmount ∧
        (block.transactions.map fun t => t.data.fee).sum = block.data.totalFee ∧
        env.sha256 (ids block.transactions) = block.data.payloadHash) fun _ => True := by
    intro totals htotals
    subst htotals
    refine ((Judges.pushIf _ _).bind fun _ _ => (Judges.pushIf _ _).bind fun _ _ =>
      Judges.pushIf _ _).congr ?_
    simp
  unfold checkTotals
  refine ((Judges.pushIf _ _).bind fun _ _ => (Judges.pushIf _ _).bind fun _ _ =>
    (checkTransactions_judges _ _ _).bind hrest).congr ?_
  constructor
  · intro h
    obtain ⟨hnumber, hmax, ⟨htransactions, -⟩, htotals⟩ := h
    refine ⟨not_not.1 hnumber, fun hheight => ?_, htransactions, htotals⟩
    by_contra hlength
    exact hmax ⟨by omega, hheight⟩
  · intro h
    obtain ⟨hnumber, hmax, htransactions, htotals⟩ := h
    refine ⟨not_not.2 hnumber, fun hlength => ?_, ⟨htransactions, ?_⟩, htotals⟩
    · have hle := hmax hlength.2
      omega
    · intro id _ hmem
      cases hmem

/-- The whole `try` block. -/
theorem tryVerify_judges : Judges (tryVerify env now block)
    (HeaderAgrees env now block ∧ TransactionsSigned env.toServices block.transactions)
    fun _ => True := by
  have hreported : ∀ invalid : List Transaction,
      findInvalid env block.transactions = .ok invalid →
      Judges (Prog.when (invalid.length > 0) (reportInvalid invalid))
        (TransactionsSigned env.toServices block.transactions) fun _ => True := by
    intro invalid hinvalid
    refine (Judges.when fun _ => reportInvalid_judges invalid).congr ?_
    rw [← findInvalid_eq_nil, hinvalid]
    cases invalid <;> simp
  have hasked : (∃ invalid, findInvalid env block.transactions = .ok invalid) ∧
      TransactionsSigned env.toServices block.transactions ↔
      TransactionsSigned env.toServices block.transactions :=
    ⟨fun h => h.2, fun h => ⟨⟨[], findInvalid_eq_nil _ |>.2 h⟩, h⟩⟩
  unfold tryVerify
  refine (checkHeader_judges.bind fun _ _ => (Judges.ofExcept _).bind fun invalid hinvalid =>
    (hreported invalid hinvalid).bind fun _ _ => checkTotals_judges).congr ?_
  constructor
  · intro h
    obtain ⟨⟨hprevious, hreward, hversion, htimestamp, hsize⟩, hok, hsigned, hnumber, hmax,
      htransactions, hamount, hfee, hpayload⟩ := h
    exact ⟨⟨hprevious, hreward, hversion, htimestamp, hsize, hnumber, hmax, htransactions,
      hamount, hfee, hpayload⟩, hasked.1 ⟨hok, hsigned⟩⟩
  · intro h
    obtain ⟨hheader, hsigned⟩ := h
    obtain ⟨hok, -⟩ := hasked.2 hsigned
    exact ⟨⟨hheader.previousBlock, hheader.reward, hheader.version, hheader.timestamp,
      hheader.size⟩, hok, hsigned, hheader.numberOfTransactions, hheader.maxTransactions,
      hheader.transactions, hheader.totalAmount, hheader.totalFee, hheader.payloadHash⟩

/-- **The verdict**: the block is verified exactly when the header agrees with the milestone and
    the transactions, and the transactions are signed. -/
theorem verified_iff : (verify env now block).verified = true ↔
    HeaderAgrees env now block ∧ TransactionsSigned env.toServices block.transactions := by
  have hjudges := @tryVerify_judges env now block ⟨[], false⟩
  unfold Prog.Spec at hjudges
  unfold verify
  rw [Prog.run_tryCatch]
  cases hr : (tryVerify env now block).run ⟨[], false⟩ with
  | done a s =>
    rw [hr] at hjudges
    simpa using hjudges.2
  | thrown e s =>
    rw [hr] at hjudges
    refine ⟨fun h => ?_, fun h => absurd h hjudges⟩
    simp [push] at h

end Verdict

/-! ## 4. Multi-signatures -/

section Flag

variable {env : BlockServices} {now : Int} {block : Block}

/-- The two results have the same `containsMultiSignatures`. -/
def SameFlag (s s' : VerificationResult) : Prop :=
  s'.containsMultiSignatures = s.containsMultiSignatures

theorem SameFlag.refl (s : VerificationResult) : SameFlag s s := rfl

theorem SameFlag.trans (s t u : VerificationResult) (h : SameFlag s t) (h' : SameFlag t u) :
    SameFlag s u := Eq.trans h' h

/-- The run leaves `containsMultiSignatures` alone. -/
def KeepsFlag {α : Type} (x : VerifierProg α) : Prop := Prog.Keeps SameFlag x

theorem KeepsFlag.bind {α β : Type} {x : VerifierProg α} {f : α → VerifierProg β}
    (hx : KeepsFlag x) (hf : ∀ a, KeepsFlag (f a)) : KeepsFlag (x >>= f) :=
  Prog.Keeps.bind SameFlag.trans hx hf

theorem KeepsFlag.push (error : VerificationError) : KeepsFlag (push error) := fun _ => rfl

theorem KeepsFlag.pushIf (c : Prop) [Decidable c] (message : String) :
    KeepsFlag (pushIf c message) :=
  Prog.Keeps.when SameFlag.refl (KeepsFlag.push _)

theorem KeepsFlag.throwIf (c : Prop) [Decidable c] (e : Exception) :
    KeepsFlag (Prog.throwIf c e : VerifierProg Unit) :=
  Prog.Keeps.throwIf SameFlag.refl c e

theorem KeepsFlag.ofExcept {α : Type} (r : Except Exception α) :
    KeepsFlag (Prog.ofExcept r : VerifierProg α) :=
  Prog.Keeps.ofExcept SameFlag.refl r

theorem checkTransactions_keepsFlag (height : Nat) (ts : List Transaction) (totals : Totals) :
    KeepsFlag (checkTransactions height ts totals) := by
  induction ts generalizing totals with
  | nil => exact fun _ => rfl
  | cons t ts ih =>
    unfold checkTransactions
    exact (KeepsFlag.throwIf _ _).bind fun _ => (KeepsFlag.pushIf _ _).bind fun _ =>
      (KeepsFlag.pushIf _ _).bind fun _ => ih _

theorem checkHeader_keepsFlag : KeepsFlag (checkHeader env now block) := by
  unfold checkHeader
  exact (KeepsFlag.pushIf _ _).bind fun _ => (KeepsFlag.pushIf _ _).bind fun _ =>
    (KeepsFlag.pushIf _ _).bind fun _ => (KeepsFlag.pushIf _ _).bind fun _ =>
    (KeepsFlag.pushIf _ _).bind fun _ => (KeepsFlag.ofExcept _).bind fun _ =>
    KeepsFlag.pushIf _ _

theorem checkTotals_keepsFlag : KeepsFlag (checkTotals env block) := by
  unfold checkTotals
  refine (KeepsFlag.pushIf _ _).bind fun _ => (KeepsFlag.pushIf _ _).bind fun _ =>
    (checkTransactions_keepsFlag _ _ _).bind fun _ => ?_
  exact (KeepsFlag.pushIf _ _).bind fun _ => (KeepsFlag.pushIf _ _).bind fun _ =>
    KeepsFlag.pushIf _ _

/-- **Only a verification that failed speaks of multi-signatures.** -/
theorem not_signed_of_containsMultiSignatures
    (h : (verify env now block).containsMultiSignatures = true) :
    ¬ TransactionsSigned env.toServices block.transactions := by
  intro hsigned
  have hkeeps : KeepsFlag (tryVerify env now block) := by
    unfold tryVerify
    refine checkHeader_keepsFlag.bind fun _ => ?_
    rw [findInvalid_eq_nil _ |>.2 hsigned]
    exact checkTotals_keepsFlag
  have hall : KeepsFlag (Prog.tryCatch (tryVerify env now block) fun error =>
      push (.thrown error)) := by
    intro s
    have hs := hkeeps s
    rw [Prog.run_tryCatch]
    cases hr : (tryVerify env now block).run s with
    | done a s' =>
      rw [hr] at hs
      exact hs
    | thrown e s' =>
      rw [hr] at hs
      exact hs
  have hflag : (verify env now block).containsMultiSignatures = false := hall ⟨[], false⟩
  rw [hflag] at h
  cases h

end Flag

end BlockVerifier

end CoreEx
