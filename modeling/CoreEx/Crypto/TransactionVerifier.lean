/-
  File:      CoreEx/Crypto/TransactionVerifier.lean
  Subject:   `core-crypto-transaction/source/verifier.ts`: the signature of one sender, and the
             signatures of the participants of a multi-signature wallet.

  * `parseInt16` -- `Number.parseInt(text, 16)`, with `none` for `NaN`;
  * `verifySignatures`, `verifyHash` -- the two methods of the verifier;
  * `SignedBy`, `validParticipants` -- which participants signed, without the code's loop;
  * **`verifySignatures_sound`** -- when the loop says `true`, at least `min` different
    participants signed;
  * `EnoughTrue`; **`verifyLoop_eq_true`** -- the loop says `true` when the first checks return and
    `min` of them hold; **`verifySignatures_append`** -- further signatures do not matter then;
  * `accepted`; **`verifyLoop_eq_ok`** -- where every check returns, the loop says whether `min` of
    all hold; **`verifyLoop_passes`** -- how far it gets.
-/
import CoreEx.Crypto.Services
import CoreEx.Lib.Bytes
import CoreEx.Lib.Promise
import Mathlib.Data.Finset.Card

namespace CoreEx

/-! ## 1. The index of a participant -/

/-- The characters `parseInt` skips at the front. -/
def isStrWhiteSpace (c : Char) : Bool :=
  c.val ∈ [0x9, 0xA, 0xB, 0xC, 0xD, 0x20, 0xA0, 0x1680, 0x2000, 0x2001, 0x2002, 0x2003, 0x2004,
    0x2005, 0x2006, 0x2007, 0x2008, 0x2009, 0x200A, 0x2028, 0x2029, 0x202F, 0x205F, 0x3000, 0xFEFF]

/-- The digits at the front of a text; `none` when there is not one. -/
def hexPrefix (cs : List Char) : Option Nat :=
  match (cs.map hexDigit?).takeWhile Option.isSome with
  | [] => none
  | ds => some (ds.foldl (fun n d => 16 * n + d.getD 0) 0)

/-- `parseInt` strips `0x` in base 16. -/
def stripHexPrefix : List Char → List Char
  | '0' :: 'x' :: cs => cs
  | '0' :: 'X' :: cs => cs
  | cs => cs

/-- `Number.parseInt(text, 16)`. -/
def parseInt16 (cs : List Char) : Option Int :=
  match cs.dropWhile isStrWhiteSpace with
  | '-' :: cs => (hexPrefix (stripHexPrefix cs)).map fun n => -(n : Int)
  | '+' :: cs => (hexPrefix (stripHexPrefix cs)).map Int.ofNat
  | cs => (hexPrefix (stripHexPrefix cs)).map Int.ofNat

/-- `Number.parseInt(signature.slice(0, 2), 16)`. -/
def publicKeyIndex (signature : String) : Option Int := parseInt16 (signature.toList.take 2)

/-- `signature.slice(2, 130)`. -/
def partialSignature (signature : String) : String :=
  String.ofList ((signature.toList.take 130).drop 2)

/-- `publicKeys[index]`; `NaN`, negative and large indexes lead nowhere. -/
def publicKeyAt (publicKeys : List PublicKey) (index : Option Int) : Option PublicKey :=
  match index with
  | some (Int.ofNat n) => publicKeys[n]?
  | _ => none

example : publicKeyIndex "0fab" = some 15 := by decide

/-! ## 2. The verifier -/

namespace TransactionVerifier

/-- One pass through the loop's body from `signature.slice` on: whether this signature counts. -/
def verifyPartial (env : Services) (hash : String) (publicKeys : List PublicKey)
    (signature : String) : Except Exception Bool :=
  match publicKeyAt publicKeys (publicKeyIndex signature) with
  | none => .error (.typeError "The first argument must be of type string. Received undefined")
  | some k => env.verify hash (partialSignature signature) k.text

/-- The loop over the signatures from position `index` on, with the participants `seen` so far
    and the number `verifiedSignatures`; `total` is `signatures.length`. -/
def verifyLoop (env : Services) (hash : String) (publicKeys : List PublicKey) (min : Int)
    (total : Nat) : List String → Nat → List (Option Int) → Nat → Except Exception Bool
  | [], _, _, _ => .ok false
  | signature :: rest, index, seen, verifiedSignatures =>
    if publicKeyIndex signature ∈ seen then .error .duplicateParticipantInMultiSignature
    else
      match verifyPartial env hash publicKeys signature with
      | .error e => .error e
      | .ok valid =>
        let verifiedSignatures := if valid then verifiedSignatures + 1 else verifiedSignatures
        if (verifiedSignatures : Int) = min then .ok true
        else if (total : Int) - (index + 1 - verifiedSignatures) < min then .ok false
        else verifyLoop env hash publicKeys min total rest (index + 1)
          (publicKeyIndex signature :: seen) verifiedSignatures

/-- `verifySignatures`. -/
def verifySignatures (env : Services) (data : TransactionData)
    (multiSignature : Option MultiSignatureAsset) : Promise Exception Bool :=
  ⟨match multiSignature with
    | none => .error .invalidMultiSignatureAsset
    | some asset =>
      match env.toHash data ⟨true, true⟩ with
      | .error e => .error e
      | .ok hash =>
        let signatures := data.signatures.getD []
        verifyLoop env hash asset.publicKeys asset.min signatures.length signatures 0 [] 0⟩

/-- `verifyHash`. -/
def verifyHash (env : Services) (data : TransactionData) : Promise Exception Bool :=
  ⟨match data.signature, data.senderPublicKey with
    | some signature, some senderPublicKey =>
      if signature = "" then .ok false
      else
        match env.toHash data ⟨true, false⟩ with
        | .error e => .error e
        | .ok hash => env.verify hash signature senderPublicKey.text
    | _, _ => .ok false⟩

/-! ## 3. Who signed -/

/-- The participant at position `i` of the asset signed the data: one of the signatures carries
    that index and verifies under that key. -/
def SignedBy (env : Services) (data : TransactionData) (asset : MultiSignatureAsset) (i : Nat) :
    Prop :=
  ∃ hash, env.toHash data ⟨true, true⟩ = .ok hash ∧
    ∃ signature ∈ data.signatures.getD [], publicKeyIndex signature = some (i : Int) ∧
      verifyPartial env hash asset.publicKeys signature = .ok true

/-- At least `min` different participants signed. -/
def EnoughSigned (env : Services) (data : TransactionData) (asset : MultiSignatureAsset) : Prop :=
  ∃ signers : Finset Nat, asset.min ≤ signers.card ∧ ∀ i ∈ signers, SignedBy env data asset i

theorem publicKeyIndex_of_verifyPartial {env : Services} {hash : String}
    {publicKeys : List PublicKey} {signature : String} {b : Bool}
    (h : verifyPartial env hash publicKeys signature = .ok b) :
    ∃ i : Nat, publicKeyIndex signature = some (i : Int) := by
  unfold verifyPartial at h
  unfold publicKeyAt at h
  cases hi : publicKeyIndex signature with
  | none =>
    rw [hi] at h
    cases h
  | some i =>
    cases i with
    | ofNat n => exact ⟨n, rfl⟩
    | negSucc n =>
      rw [hi] at h
      cases h

/-- The loop's invariant: the participants counted so far are different ones, and each signed. -/
theorem verifyLoop_sound {env : Services} {hash : String} {publicKeys : List PublicKey}
    {min : Int} {total : Nat} (P : Nat → Prop) :
    ∀ (rest : List String) (index : Nat) (seen : List (Option Int)) (verified : Nat)
      (signers : Finset Nat),
      (∀ s ∈ rest, ∀ i : Nat, publicKeyIndex s = some (i : Int) →
        verifyPartial env hash publicKeys s = .ok true → P i) →
      signers.card = verified → (∀ i ∈ signers, some (i : Int) ∈ seen) → (∀ i ∈ signers, P i) →
      verifyLoop env hash publicKeys min total rest index seen verified = .ok true →
      ∃ signers : Finset Nat, min ≤ signers.card ∧ ∀ i ∈ signers, P i := by
  intro rest
  induction rest with
  | nil =>
    intro index seen verified signers _ _ _ _ h
    cases h
  | cons s rest ih =>
    intro index seen verified signers hP hcard hseen hsigned h
    unfold verifyLoop at h
    by_cases hdup : publicKeyIndex s ∈ seen
    · rw [if_pos hdup] at h
      cases h
    rw [if_neg hdup] at h
    cases hv : verifyPartial env hash publicKeys s with
    | error e =>
      rw [hv] at h
      cases h
    | ok valid =>
      rw [hv] at h
      have hP' : ∀ s ∈ rest, ∀ i : Nat, publicKeyIndex s = some (i : Int) →
          verifyPartial env hash publicKeys s = .ok true → P i :=
        fun s hs => hP s (List.mem_cons_of_mem _ hs)
      have hseen' : ∀ i ∈ signers, some (i : Int) ∈ publicKeyIndex s :: seen :=
        fun i hi => List.mem_cons_of_mem _ (hseen i hi)
      cases valid with
      | false =>
        simp only [Bool.false_eq_true, if_false] at h
        split at h
        · rename_i hmin
          exact ⟨signers, by omega, hsigned⟩
        · split at h
          · cases h
          · exact ih _ _ _ signers hP' hcard hseen' hsigned h
      | true =>
        obtain ⟨i, hi⟩ := publicKeyIndex_of_verifyPartial hv
        have hnew : i ∉ signers := fun hmem => hdup (hi ▸ hseen i hmem)
        have hcard' : (insert i signers).card = verified + 1 := by
          rw [Finset.card_insert_of_notMem hnew, hcard]
        have hsigned' : ∀ j ∈ insert i signers, P j := by
          intro j hj
          rcases Finset.mem_insert.1 hj with rfl | hj
          · exact hP s List.mem_cons_self j hi hv
          · exact hsigned j hj
        have hseen'' : ∀ j ∈ insert i signers, some (j : Int) ∈ publicKeyIndex s :: seen := by
          intro j hj
          rcases Finset.mem_insert.1 hj with rfl | hj
          · exact hi ▸ List.mem_cons_self
          · exact hseen' j hj
        simp only [if_true] at h
        split at h
        · rename_i hmin
          exact ⟨insert i signers, by omega, hsigned'⟩
        · split at h
          · cases h
          · exact ih _ _ _ (insert i signers) hP' hcard' hseen'' hsigned' h

/-- **When `verifySignatures` resolves to `true`, at least `min` different participants signed.** -/
theorem verifySignatures_sound {env : Services} {data : TransactionData}
    {asset : MultiSignatureAsset}
    (h : (verifySignatures env data (some asset)).settled = .ok true) :
    EnoughSigned env data asset := by
  unfold verifySignatures at h
  cases hh : env.toHash data ⟨true, true⟩ with
  | error e =>
    simp only [hh] at h
    cases h
  | ok hash =>
    simp only [hh] at h
    refine verifyLoop_sound (SignedBy env data asset) _ 0 [] 0 ∅ ?_ rfl ?_ ?_ h
    · intro s hs i hi hv
      exact ⟨hash, hh, s, hs, hi, hv⟩
    · intro i hi
      cases hi
    · intro i hi
      cases hi

/-! ## 4. Which checks decide -/

/-- The first of the checks return, and `n` of these are true. -/
def EnoughTrue (n : Int) (checks : List (Except Exception Bool)) : Prop :=
  ∃ (returned : List Bool) (more : List (Except Exception Bool)),
    checks = returned.map .ok ++ more ∧ (returned.count true : Int) = n

theorem enoughTrue_zero (checks : List (Except Exception Bool)) : EnoughTrue 0 checks :=
  ⟨[], checks, rfl, rfl⟩

theorem EnoughTrue.le {n : Int} {checks : List (Except Exception Bool)} (h : EnoughTrue n checks) :
    n ≤ checks.length := by
  obtain ⟨returned, more, rfl, hcount⟩ := h
  have hle := List.count_le_length (a := true) (l := returned)
  rw [List.length_append, List.length_map]
  omega

theorem not_enoughTrue_error {n : Int} (hn : 0 < n) {e : Exception}
    {checks : List (Except Exception Bool)} : ¬EnoughTrue n (.error e :: checks) := by
  rintro ⟨returned, more, heq, hcount⟩
  cases returned with
  | nil =>
    have hzero : ((List.count true ([] : List Bool) : Nat) : Int) = 0 := rfl
    omega
  | cons b returned => cases heq

theorem enoughTrue_ok {n : Int} (hn : 0 < n) {b : Bool} {checks : List (Except Exception Bool)} :
    EnoughTrue n (.ok b :: checks) ↔ EnoughTrue (n - if b then 1 else 0) checks := by
  have hcons : ∀ returned : List Bool, ((b :: returned).count true : Int) =
      returned.count true + if b then 1 else 0 := by
    intro returned
    cases b <;> simp
  constructor
  · rintro ⟨returned, more, heq, hcount⟩
    cases returned with
    | nil =>
      have hzero : ((List.count true ([] : List Bool) : Nat) : Int) = 0 := rfl
      omega
    | cons b' returned =>
      obtain ⟨hb, hrest⟩ := List.cons.inj heq
      cases hb
      rw [hcons] at hcount
      exact ⟨returned, more, hrest, by omega⟩
  · rintro ⟨returned, more, rfl, hcount⟩
    refine ⟨b :: returned, more, rfl, ?_⟩
    rw [hcons]
    omega

/-- **The loop over signatures of different participants says `true` exactly when the first checks
    return and as many as are missing hold: it breaks off only where they cannot any more.** -/
theorem verifyLoop_eq_true {env : Services} {hash : String} {publicKeys : List PublicKey}
    {min : Int} {total : Nat} {rest : List String} {index : Nat} {seen : List (Option Int)}
    {verified : Nat} (hnodup : (rest.map publicKeyIndex).Nodup)
    (hseen : ∀ s ∈ rest, publicKeyIndex s ∉ seen) (htotal : total = index + rest.length)
    (hmin : (verified : Int) < min) :
    verifyLoop env hash publicKeys min total rest index seen verified = .ok true ↔
      EnoughTrue (min - verified) (rest.map (verifyPartial env hash publicKeys)) := by
  induction rest generalizing index seen verified with
  | nil =>
    refine ⟨fun h => (nomatch h), fun h => ?_⟩
    have hle := h.le
    rw [List.map_nil, List.length_nil] at hle
    omega
  | cons s rest ih =>
    have hnew : publicKeyIndex s ∉ seen := hseen s List.mem_cons_self
    rw [List.map_cons, List.nodup_cons] at hnodup
    obtain ⟨hs, hnodup⟩ := hnodup
    unfold verifyLoop
    rw [if_neg hnew, List.map_cons]
    cases hv : verifyPartial env hash publicKeys s with
    | error e => exact ⟨fun h => (nomatch h), fun h => absurd h (not_enoughTrue_error (by omega))⟩
    | ok valid =>
      rw [enoughTrue_ok (by omega)]
      have hmissing : min - verified - (if valid then 1 else 0) =
          min - ((if valid then verified + 1 else verified : Nat) : Int) := by
        cases valid with
        | true => simp only [if_true]; omega
        | false => simp only [Bool.false_eq_true, if_false]; omega
      have hstill : ((if valid then verified + 1 else verified : Nat) : Int) ≤ min := by
        cases valid with
        | true => simp only [if_true]; omega
        | false => simp only [Bool.false_eq_true, if_false]; omega
      rw [hmissing]
      dsimp only
      generalize (if valid then verified + 1 else verified) = verified' at hstill ⊢
      rw [List.length_cons] at htotal
      by_cases hdone : (verified' : Int) = min
      · rw [if_pos hdone, hdone, Int.sub_self]
        exact ⟨fun _ => enoughTrue_zero _, fun _ => rfl⟩
      · rw [if_neg hdone]
        by_cases hbreak : (total : Int) - (index + 1 - verified') < min
        · rw [if_pos hbreak]
          refine ⟨fun h => (nomatch h), fun h => ?_⟩
          have hle := h.le
          rw [List.length_map] at hle
          omega
        · rw [if_neg hbreak]
          refine ih hnodup ?_ (by omega) (by omega)
          intro s' hs' hmem
          rcases List.mem_cons.1 hmem with heq | hmem
          · exact hs (List.mem_map.2 ⟨s', hs', heq⟩)
          · exact hseen s' (List.mem_cons_of_mem _ hs') hmem

/-- Signatures behind those that were enough do not change the verdict. -/
theorem verifyLoop_append {env : Services} {hash : String} {publicKeys : List PublicKey}
    {min : Int} {total total' : Nat} (hle : total ≤ total') (more : List String)
    {rest : List String} {index : Nat} {seen : List (Option Int)} {verified : Nat}
    (h : verifyLoop env hash publicKeys min total rest index seen verified = .ok true) :
    verifyLoop env hash publicKeys min total' (rest ++ more) index seen verified = .ok true := by
  induction rest generalizing index seen verified with
  | nil => cases h
  | cons s rest ih =>
    unfold verifyLoop at h
    rw [List.cons_append]
    unfold verifyLoop
    by_cases hdup : publicKeyIndex s ∈ seen
    · rw [if_pos hdup] at h
      cases h
    rw [if_neg hdup] at h ⊢
    cases hv : verifyPartial env hash publicKeys s with
    | error e =>
      rw [hv] at h
      cases h
    | ok valid =>
      rw [hv] at h
      dsimp only at h ⊢
      generalize (if valid then verified + 1 else verified) = verified' at h ⊢
      by_cases hdone : (verified' : Int) = min
      · rw [if_pos hdone]
      · rw [if_neg hdone] at h ⊢
        by_cases hbreak : (total : Int) - (index + 1 - verified') < min
        · rw [if_pos hbreak] at h
          cases h
        · rw [if_neg hbreak] at h
          rw [if_neg (by omega)]
          exact ih h

/-- **Data with the same hash and further signatures are still verified.** -/
theorem verifySignatures_append {env : Services} {data data' : TransactionData}
    {asset : MultiSignatureAsset} {more : List String}
    (hhash : env.toHash data' ⟨true, true⟩ = env.toHash data ⟨true, true⟩)
    (hsignatures : data'.signatures.getD [] = data.signatures.getD [] ++ more)
    (h : (verifySignatures env data (some asset)).settled = .ok true) :
    (verifySignatures env data' (some asset)).settled = .ok true := by
  unfold verifySignatures at h ⊢
  dsimp only at h ⊢
  rw [hhash]
  cases hh : env.toHash data ⟨true, true⟩ with
  | error e =>
    rw [hh] at h
    cases h
  | ok hash =>
    rw [hh] at h
    dsimp only at h ⊢
    rw [hsignatures]
    refine verifyLoop_append ?_ more h
    rw [List.length_append]
    omega

/-! ## 5. All signatures counted -/

variable {env : Services} {hash : String} {publicKeys : List PublicKey} {min : Int} {total : Nat}

/-- What the check of a signature says; one that throws says no. -/
def accepted (env : Services) (hash : String) (publicKeys : List PublicKey) (signature : String) :
    Bool :=
  match verifyPartial env hash publicKeys signature with
  | .ok valid => valid
  | .error _ => false

/-- The check of a signature returns. -/
def Checked (env : Services) (hash : String) (publicKeys : List PublicKey) (signature : String) :
    Prop :=
  verifyPartial env hash publicKeys signature = .ok (accepted env hash publicKeys signature)

/-- How many signatures the checks accept. -/
def acceptedCount (env : Services) (hash : String) (publicKeys : List PublicKey)
    (signatures : List String) : Nat :=
  signatures.countP (accepted env hash publicKeys)

theorem acceptedCount_cons (s : String) (rest : List String) :
    acceptedCount env hash publicKeys (s :: rest) = acceptedCount env hash publicKeys rest +
      if accepted env hash publicKeys s then 1 else 0 := List.countP_cons

theorem acceptedCount_le (signatures : List String) :
    acceptedCount env hash publicKeys signatures ≤ signatures.length := List.countP_le_length

/-- One pass over a signature of somebody new, whose check returns. -/
theorem verifyLoop_cons {s : String} {rest : List String} {index : Nat} {seen : List (Option Int)}
    {verified : Nat} (hchecked : Checked env hash publicKeys s) (hnew : publicKeyIndex s ∉ seen) :
    verifyLoop env hash publicKeys min total (s :: rest) index seen verified =
      if ((verified + if accepted env hash publicKeys s then 1 else 0 : Nat) : Int) = min then
        .ok true
      else if (total : Int) - (index + 1 -
          (verified + if accepted env hash publicKeys s then 1 else 0 : Nat)) < min then .ok false
      else verifyLoop env hash publicKeys min total rest (index + 1) (publicKeyIndex s :: seen)
        (verified + if accepted env hash publicKeys s then 1 else 0) := by
  conv_lhs => unfold verifyLoop
  rw [if_neg hnew, hchecked]
  dsimp only
  cases accepted env hash publicKeys s with
  | true => rfl
  | false => rfl

/-- **The loop gets past signatures that neither reach the threshold nor put it out of reach.** -/
theorem verifyLoop_passes {before rest : List String} {index : Nat} {seen : List (Option Int)}
    {verified : Nat} (hchecked : ∀ s ∈ before, Checked env hash publicKeys s)
    (hnodup : (before.map publicKeyIndex).Nodup) (hseen : ∀ s ∈ before, publicKeyIndex s ∉ seen)
    (hmissing : ((verified + acceptedCount env hash publicKeys before : Nat) : Int) < min)
    (hreach : min ≤ (total : Int) - ((index + before.length : Nat) -
      (verified + acceptedCount env hash publicKeys before : Nat))) :
    ∃ seen', (∀ k, k ∈ seen' ↔ k ∈ before.map publicKeyIndex ∨ k ∈ seen) ∧
      verifyLoop env hash publicKeys min total (before ++ rest) index seen verified =
        verifyLoop env hash publicKeys min total rest (index + before.length) seen'
          (verified + acceptedCount env hash publicKeys before) := by
  induction before generalizing index seen verified with
  | nil => exact ⟨seen, fun k => by simp, rfl⟩
  | cons s before ih =>
    rw [List.map_cons, List.nodup_cons] at hnodup
    obtain ⟨hs, hnodup⟩ := hnodup
    have hle : acceptedCount env hash publicKeys before ≤ before.length := acceptedCount_le before
    rw [acceptedCount_cons, List.length_cons] at *
    generalize hone : (if accepted env hash publicKeys s then 1 else 0 : Nat) = one at *
    have hone' : one ≤ 1 := by
      rw [← hone]
      split <;> omega
    obtain ⟨seen', hseen', hrun⟩ := @ih (index + 1) (publicKeyIndex s :: seen) (verified + one)
      (fun s' hs' => hchecked s' (List.mem_cons_of_mem _ hs')) hnodup
      (fun s' hs' hmem => by
        rcases List.mem_cons.1 hmem with heq | hmem
        · exact hs (List.mem_map.2 ⟨s', hs', heq⟩)
        · exact hseen s' (List.mem_cons_of_mem _ hs') hmem)
      (by omega) (by omega)
    refine ⟨seen', fun k => ?_, ?_⟩
    · rw [hseen', List.map_cons, List.mem_cons, List.mem_cons]
      tauto
    · rw [List.cons_append, verifyLoop_cons (hchecked s List.mem_cons_self)
        (hseen s List.mem_cons_self), hone, if_neg (by omega), if_neg (by omega), hrun]
      congr 1
      · omega
      · omega

/-- **Where every check returns and nobody signs twice, the loop says whether `min` of all the
    signatures are accepted**: neither of its two ways to stop early changes the answer. -/
theorem verifyLoop_eq_ok {rest : List String} {index : Nat} {seen : List (Option Int)}
    {verified : Nat} (hchecked : ∀ s ∈ rest, Checked env hash publicKeys s)
    (hnodup : (rest.map publicKeyIndex).Nodup) (hseen : ∀ s ∈ rest, publicKeyIndex s ∉ seen)
    (htotal : total = index + rest.length) (hmin : (verified : Int) < min) :
    verifyLoop env hash publicKeys min total rest index seen verified =
      .ok (decide (min ≤ (verified + acceptedCount env hash publicKeys rest : Nat))) := by
  induction rest generalizing index seen verified with
  | nil =>
    have hnot : ¬ min ≤ (verified + acceptedCount env hash publicKeys [] : Nat) := by
      show ¬ min ≤ (verified + 0 : Nat)
      omega
    rw [decide_eq_false hnot]
    rfl
  | cons s rest ih =>
    rw [List.map_cons, List.nodup_cons] at hnodup
    obtain ⟨hs, hnodup⟩ := hnodup
    have hle : acceptedCount env hash publicKeys rest ≤ rest.length := acceptedCount_le rest
    rw [verifyLoop_cons (hchecked s List.mem_cons_self) (hseen s List.mem_cons_self),
      acceptedCount_cons]
    rw [List.length_cons] at htotal
    generalize hone : (if accepted env hash publicKeys s then 1 else 0 : Nat) = one at *
    have hone' : one ≤ 1 := by
      rw [← hone]
      split <;> omega
    by_cases hdone : ((verified + one : Nat) : Int) = min
    · have henough : min ≤ (verified + (acceptedCount env hash publicKeys rest + one) : Nat) := by
        omega
      rw [if_pos hdone, decide_eq_true henough]
    · rw [if_neg hdone]
      by_cases hbreak : (total : Int) - (index + 1 - (verified + one : Nat)) < min
      · -- as many are left as would all have to be accepted, and one more
        have hfew : ¬ min ≤ (verified + (acceptedCount env hash publicKeys rest + one) : Nat) := by
          omega
        rw [if_pos hbreak, decide_eq_false hfew]
      · rw [if_neg hbreak, ih (fun s' hs' => hchecked s' (List.mem_cons_of_mem _ hs')) hnodup
          (fun s' hs' hmem => by
            rcases List.mem_cons.1 hmem with heq | hmem
            · exact hs (List.mem_map.2 ⟨s', hs', heq⟩)
            · exact hseen s' (List.mem_cons_of_mem _ hs') hmem) (by omega) (by omega)]
        congr 3
        omega

end TransactionVerifier

end CoreEx
