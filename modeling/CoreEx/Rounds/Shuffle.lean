/-
  File:      CoreEx/Rounds/Shuffle.lean
  Subject:   `#shuffleValidators` of `core-state/source/round-state.ts` once more, with the list of
             validators as an array that is written to and the wallets as objects.

  * `Memory`, `Stuck` -- the arrays and the wallets, and what a run must not come to: an access
    outside an array or a digest, and a loop that does not end;
  * `RoundState.shuffleArray` -- the code;
  * **`RoundState.shuffleArray_run`** -- it ends, in a new array that `shuffleValidators` says.
-/
import CoreEx.Lib.Unicode
import CoreEx.Rounds.RoundState
import CoreEx.State.WalletObjects

namespace CoreEx

/-! ## 1. Arrays of wallets -/

/-- The wallets, and arrays that hold references to them. -/
structure Memory (ω : Type) where
  wallets : List ω
  arrays : List (List Ref)
  deriving DecidableEq, Repr

/-- An array or a digest is accessed where it has no element, where the code would go on with
    `undefined`; or a loop makes more passes than it was given. -/
inductive Stuck where
  | outside
  | unfinished
  deriving DecidableEq, Repr

/-- Code that works on them. -/
abbrev MemoryProg (ω : Type) : Type → Type := Prog (Memory ω) Stuck

namespace Memory

variable {ω : Type}

/-- The elements of an array. -/
def array (m : Memory ω) (r : Ref) : List Ref := m.arrays.getD r []

/-- The memory with another array in its place. -/
def setArray (m : Memory ω) (r : Ref) (elements : List Ref) : Memory ω :=
  { m with arrays := m.arrays.set r elements }

/-- The wallets an array leads to. -/
def walletsOf (m : Memory ω) (r : Ref) : List (Option ω) := (m.array r).map (m.wallets[·]?)

/-- `array[index]`. -/
def elementAt (r : Ref) (index : Nat) : MemoryProg ω Ref :=
  ⟨fun m =>
    match (m.array r)[index]? with
    | some element => .done element m
    | none => .thrown .outside m⟩

/-- `array[index] = element`, where the array has an element already. -/
def setElement (r : Ref) (index : Nat) (element : Ref) : MemoryProg ω Unit :=
  ⟨fun m =>
    if index < (m.array r).length then .done () (m.setArray r ((m.array r).set index element))
    else .thrown .outside m⟩

/-- `wallet.clone()`; what a copy looks like is `clone`. -/
def cloneWallet (clone : ω → ω) (wallet : Ref) : MemoryProg ω Ref :=
  ⟨fun m =>
    match m.wallets[wallet]? with
    | some w => .done m.wallets.length { m with wallets := m.wallets ++ [clone w] }
    | none => .thrown .outside m⟩

/-- The callback of `map`, over the elements of an array. -/
def cloneWallets (clone : ω → ω) : List Ref → MemoryProg ω (List Ref)
  | [] => pure []
  | wallet :: wallets => do
    let copy ← cloneWallet clone wallet
    let copies ← cloneWallets clone wallets
    pure (copy :: copies)

/-- A new array. -/
def newArray (elements : List Ref) : MemoryProg ω Ref :=
  ⟨fun m => .done m.arrays.length { m with arrays := m.arrays ++ [elements] }⟩

@[simp] theorem wallets_setArray (m : Memory ω) (r : Ref) (elements : List Ref) :
    (m.setArray r elements).wallets = m.wallets := rfl

theorem array_setArray_self {m : Memory ω} {r : Ref} (h : r < m.arrays.length)
    (elements : List Ref) : (m.setArray r elements).array r = elements := by
  unfold setArray array
  rw [List.getD_eq_getElem?_getD, List.getElem?_set_self h]
  rfl

theorem setArray_setArray (m : Memory ω) (r : Ref) (elements elements' : List Ref) :
    (m.setArray r elements).setArray r elements' = m.setArray r elements' := by
  unfold setArray
  rw [List.set_set]

@[simp] theorem length_arrays_setArray (m : Memory ω) (r : Ref) (elements : List Ref) :
    (m.setArray r elements).arrays.length = m.arrays.length := List.length_set

theorem setArray_array {m : Memory ω} {r : Ref} (h : r < m.arrays.length) :
    m.setArray r (m.array r) = m := by
  unfold setArray array
  rw [List.getD_eq_getElem?_getD, List.getElem?_eq_getElem h, Option.getD_some,
    List.set_getElem_self]

/-- The reference leads to an array, and its elements to wallets. -/
def IsArray (m : Memory ω) (r : Ref) : Prop :=
  r < m.arrays.length ∧ ∀ wallet ∈ m.array r, wallet < m.wallets.length

theorem elementAt_run {m : Memory ω} {r : Ref} {index : Nat} (h : index < (m.array r).length) :
    (elementAt r index).run m = .done (m.array r)[index] m := by
  unfold elementAt
  dsimp only
  rw [List.getElem?_eq_getElem h]

theorem setElement_run {m : Memory ω} {r : Ref} {index : Nat} (h : index < (m.array r).length)
    (element : Ref) :
    (setElement r index element).run m =
      .done () (m.setArray r ((m.array r).set index element)) := by
  unfold setElement
  dsimp only
  rw [if_pos h]

/-- `map` leaves the wallets as they are and puts the copies behind them. -/
theorem cloneWallets_run (clone : ω → ω) (elements : List Ref) (m : Memory ω)
    (helements : ∀ wallet ∈ elements, wallet < m.wallets.length) :
    ∃ copies : List ω,
      copies.map some = (elements.map (m.wallets[·]?)).map (Option.map clone) ∧
      (cloneWallets clone elements).run m =
        .done (List.range' m.wallets.length copies.length)
          { m with wallets := m.wallets ++ copies } := by
  induction elements generalizing m with
  | nil =>
    refine ⟨[], rfl, ?_⟩
    show Outcome.done [] m = _
    rw [List.append_nil]
    rfl
  | cons wallet elements ih =>
    have hwallet : wallet < m.wallets.length := helements wallet List.mem_cons_self
    have hrest : ∀ w ∈ elements, w < m.wallets.length :=
      fun w hw => helements w (List.mem_cons_of_mem _ hw)
    have hclone : (cloneWallet clone wallet).run m =
        .done m.wallets.length { m with wallets := m.wallets ++ [clone m.wallets[wallet]] } := by
      unfold cloneWallet
      dsimp only
      rw [List.getElem?_eq_getElem hwallet]
    obtain ⟨copies, hcopies, hrun⟩ := ih { m with wallets := m.wallets ++ [clone m.wallets[wallet]] }
      (fun w hw => (hrest w hw).trans_le (by rw [List.length_append]; exact Nat.le_add_right _ _))
    have hsame : elements.map ((m.wallets ++ [clone m.wallets[wallet]])[·]?) =
        elements.map (m.wallets[·]?) :=
      List.map_congr_left fun w hw => List.getElem?_append_left (hrest w hw)
    refine ⟨clone m.wallets[wallet] :: copies, ?_, ?_⟩
    · rw [List.map_cons, List.map_cons, List.map_cons, List.getElem?_eq_getElem hwallet, hcopies,
        hsame]
      rfl
    · unfold cloneWallets
      rw [Prog.run_bind_of_done hclone, Prog.run_bind_of_done hrun, Prog.run_pure]
      rw [List.length_cons, List.range'_succ, List.length_append, List.append_assoc]
      rfl

end Memory

namespace RoundState

open Memory

variable {ω : Type}

/-! ## 2. The code -/

/-- `seed[x]`. -/
def digestByte (seed : Bytes) (x : Nat) : MemoryProg ω Nat :=
  match seed[x]? with
  | some byte => pure byte.toNat
  | none => Prog.throw .outside

/-- The exchange of `validators[newIndex]` and `validators[index]`. -/
def exchange (validators : Ref) (newIndex index : Nat) : MemoryProg ω Unit := do
  let b ← elementAt validators newIndex
  let a ← elementAt validators index
  setElement validators newIndex a
  setElement validators index b

/-- The inner loop, and the index it stops at. -/
def exchangeBlock (delCount : Nat) (validators : Ref) (currentSeed : Bytes) :
    List Nat → Nat → MemoryProg ω Nat
  | [], index => pure index
  | x :: xs, index =>
    if index < delCount then do
      let byte ← digestByte currentSeed x
      exchange validators (byte % delCount) index
      exchangeBlock delCount validators currentSeed xs (index + 1)
    else pure index

/-- The outer loop, with the passes it is given. -/
def exchangeFrom (sha256 : Bytes → Bytes) (delCount : Nat) (validators : Ref) :
    Nat → Bytes → Nat → MemoryProg ω Unit
  | passes, currentSeed, index =>
    if index < delCount then
      match passes with
      | 0 => Prog.throw .unfinished
      | passes + 1 => do
        let next ← exchangeBlock delCount validators currentSeed [0, 1, 2, 3] index
        exchangeFrom sha256 delCount validators passes (sha256 currentSeed) (next + 1)
    else pure ()

/-- `#shuffleValidators(roundInfo, validators)`. -/
def shuffleArray (clone : ω → ω) (sha256 : Bytes → Bytes) (passes : Nat) (round : Int)
    (validators : Ref) : MemoryProg ω Ref := do
  let currentSeed := sha256 (encodeUtf8 (toString round).toList)
  let elements ← Prog.gets fun m => m.array validators
  let copies ← cloneWallets clone elements
  let validators ← newArray copies
  exchangeFrom sha256 copies.length validators passes currentSeed 0
  pure validators

/-! ## 3. It ends, and what it leaves -/

/-- The hash function on texts in hexadecimal. -/
def hexHash (sha256 : Bytes → Bytes) (buffers : List String) : String :=
  toHex (sha256 (buffers.flatMap ofHex))

theorem hexHash_toHex (sha256 : Bytes → Bytes) (bytes : Bytes) :
    hexHash sha256 [toHex bytes] = toHex (sha256 bytes) := by
  unfold hexHash
  rw [List.flatMap_cons, List.flatMap_nil, List.append_nil, ofHex_toHex]

theorem seedByte_toHex {seed : Bytes} {x : Nat} (h : x < seed.length) :
    seedByte (toHex seed) x = seed[x].toNat := by
  have hdrop : ((toHex seed).toList.drop (2 * x)).take 2 = hexPair seed[x] := by
    unfold toHex
    rw [String.toList_ofList]
    induction seed generalizing x with
    | nil => exact absurd h (Nat.not_lt_zero _)
    | cons b seed ih =>
      cases x with
      | zero => rfl
      | succ x =>
        have hx : x < seed.length := Nat.lt_of_succ_lt_succ h
        exact ih hx
  have hlow : seed[x].toNat < 256 := UInt8.toNat_lt _
  unfold seedByte
  rw [hdrop]
  unfold hexPair hexPrefix
  rw [List.map_cons, List.map_cons, hexDigit?_hexDigit (by omega), hexDigit?_hexDigit (by omega)]
  show 16 * (16 * 0 + seed[x].toNat / 16) + seed[x].toNat % 16 = _
  omega

theorem length_swap {α : Type} (values : List α) (i j : Nat) :
    (swap values i j).length = values.length := (perm_swap values i j).length_eq

theorem exchange_run {m : Memory ω} {r : Ref} (hr : r < m.arrays.length) {newIndex index : Nat}
    (hnew : newIndex < (m.array r).length) (hindex : index < (m.array r).length) :
    (exchange r newIndex index).run m =
      .done () (m.setArray r (swap (m.array r) index newIndex)) := by
  have hset : (setElement r newIndex (m.array r)[index]).run m =
      .done () (m.setArray r ((m.array r).set newIndex (m.array r)[index])) := setElement_run hnew _
  unfold exchange swap
  rw [Prog.run_bind_of_done (elementAt_run hnew), Prog.run_bind_of_done (elementAt_run hindex),
    Prog.run_bind_of_done hset, setElement_run, array_setArray_self hr, setArray_setArray,
    List.getElem?_eq_getElem hnew, List.getElem?_eq_getElem hindex]
  rw [array_setArray_self hr, List.length_set]
  exact hindex

/-- The inner loop stays inside the array and the digest. -/
theorem exchangeBlock_run {delCount : Nat} {seed : Bytes} {xs : List Nat}
    (hxs : ∀ x ∈ xs, x < seed.length) {r : Ref} (index : Nat) {m : Memory ω}
    (hr : r < m.arrays.length) (hlength : (m.array r).length = delCount) :
    (exchangeBlock delCount r seed xs index).run m =
      .done (shuffleBlock delCount (toHex seed) xs index (m.array r)).1
        (m.setArray r (shuffleBlock delCount (toHex seed) xs index (m.array r)).2) := by
  induction xs generalizing index m with
  | nil =>
    show Outcome.done index m = _
    unfold shuffleBlock
    rw [setArray_array hr]
  | cons x xs ih =>
    have hx : x < seed.length := hxs x List.mem_cons_self
    have hbyte : (digestByte seed x : MemoryProg ω Nat) = pure seed[x].toNat := by
      unfold digestByte
      rw [List.getElem?_eq_getElem hx]
    unfold exchangeBlock shuffleBlock
    by_cases hindex : index < delCount
    · have hnew : seed[x].toNat % delCount < (m.array r).length := by
        rw [hlength]
        exact Nat.mod_lt _ (Nat.zero_lt_of_lt hindex)
      have hrun := exchange_run hr hnew (hlength.symm ▸ hindex)
      rw [if_pos hindex, if_pos hindex, hbyte, Prog.run_bind_of_done (Prog.run_pure _ _),
        Prog.run_bind_of_done hrun, ih (fun y hy => hxs y (List.mem_cons_of_mem _ hy)),
        array_setArray_self hr, setArray_setArray, seedByte_toHex hx]
      · rw [length_arrays_setArray]
        exact hr
      · rw [array_setArray_self hr, length_swap]
        exact hlength
    · rw [if_neg hindex, if_neg hindex, Prog.run_pure, setArray_array hr]

theorem le_shuffleBlock {α : Type} (delCount : Nat) (seed : String) (xs : List Nat) (index : Nat)
    (validators : List α) : index ≤ (shuffleBlock delCount seed xs index validators).1 := by
  induction xs generalizing index validators with
  | nil => exact Nat.le_refl _
  | cons x xs ih =>
    unfold shuffleBlock
    split
    · exact (Nat.le_succ index).trans (ih _ _)
    · exact Nat.le_refl _

/-- **The outer loop ends**: every pass takes the index further. -/
theorem exchangeFrom_run {sha256 : Bytes → Bytes} (hsha : ∀ bytes, 4 ≤ (sha256 bytes).length)
    {delCount : Nat} {r : Ref} {passes : Nat} {seed : Bytes} (hseed : 4 ≤ seed.length) {index : Nat}
    (hpasses : delCount ≤ index + passes) {m : Memory ω} (hr : r < m.arrays.length)
    (hlength : (m.array r).length = delCount) :
    (exchangeFrom sha256 delCount r passes seed index).run m =
      .done () (m.setArray r
        (shuffleFrom (hexHash sha256) delCount passes (toHex seed) index (m.array r))) := by
  induction passes generalizing seed index m with
  | zero =>
    unfold exchangeFrom shuffleFrom
    rw [if_neg (by omega), Prog.run_pure, setArray_array hr]
  | succ passes ih =>
    unfold exchangeFrom shuffleFrom
    by_cases hindex : index < delCount
    · have hxs : ∀ x ∈ [0, 1, 2, 3], x < seed.length := by
        intro x hx
        have hfour : x < 4 := List.mem_range.1 hx
        exact hfour.trans_le hseed
      have hblock := exchangeBlock_run hxs index hr hlength
      have hnext := le_shuffleBlock delCount (toHex seed) [0, 1, 2, 3] index (m.array r)
      rw [if_pos hindex, if_pos hindex]
      dsimp only
      rw [Prog.run_bind_of_done hblock, ih (hsha _) (by omega), array_setArray_self hr,
        setArray_setArray, hexHash_toHex]
      · rw [length_arrays_setArray]
        exact hr
      · rw [array_setArray_self hr]
        exact (perm_shuffleBlock _ _ _ _ _).length_eq.trans hlength
    · rw [if_neg hindex, if_neg hindex, Prog.run_pure, setArray_array hr]

/-- Passes that are left do nothing. -/
theorem shuffleFrom_passes {α : Type} (sha256 : List String → String) {delCount : Nat}
    {fuel fuel' : Nat} (seed : String) {index : Nat} (hfuel : delCount ≤ index + fuel)
    (hfuel' : delCount ≤ index + fuel') (validators : List α) :
    shuffleFrom sha256 delCount fuel seed index validators =
      shuffleFrom sha256 delCount fuel' seed index validators := by
  induction fuel generalizing fuel' seed index validators with
  | zero =>
    have hdone : ¬ index < delCount := by omega
    cases fuel' with
    | zero => rfl
    | succ fuel' =>
      unfold shuffleFrom
      rw [if_neg hdone]
  | succ fuel ih =>
    cases fuel' with
    | zero =>
      have hdone : ¬ index < delCount := by omega
      unfold shuffleFrom
      rw [if_neg hdone]
    | succ fuel' =>
      have hnext := le_shuffleBlock delCount seed [0, 1, 2, 3] index validators
      unfold shuffleFrom
      split
      · exact ih _ (by omega) (by omega) _
      · rfl

/-- The text of a number is in ASCII. -/
theorem lt_of_mem_toString {round : Int} {c : Char} (h : c ∈ (toString round).toList) :
    c.toNat < 128 := by
  have hdigits : ∀ n : Nat, c ∈ n.repr.toList → c.toNat < 128 := by
    intro n hn
    have hdigit : c.isDigit := Nat.isDigit_of_mem_toDigits (by decide) (by decide)
      (Nat.toList_repr ▸ hn)
    exact (Char.isDigit_iff_toNat.1 hdigit).2.trans_lt (by decide)
  rw [Int.toString_eq_repr, Int.repr_eq_if] at h
  split at h
  · exact hdigits _ h
  · rw [String.toList_append, List.mem_append] at h
    rcases h with h | h
    · obtain rfl : c = '-' := List.mem_singleton.1 h
      decide
    · exact hdigits _ h

theorem toHex_encodeUtf8 (round : Int) :
    toHex (encodeUtf8 (toString round).toList) = textToHex (toString round) := by
  have hall : ∀ n < 128,
      hexPair n.toUInt8 = [(n / 16).digitChar, (n % 16).digitChar] := by decide
  unfold toHex encodeUtf8 textToHex
  rw [List.flatMap_assoc]
  congr 1
  refine List.flatMap_congr fun c hc => ?_
  have hlt := lt_of_mem_toString hc
  have hval : c.val ≤ 127 := UInt32.le_iff_toNat_le.2 (Nat.le_of_lt_succ hlt)
  have hsize : c.utf8Size = 1 := Char.utf8Size_eq_one_iff.2 hval
  rw [String.utf8EncodeChar_eq_singleton hsize]
  exact hall _ hlt

/-! ## 4. The whole shuffle -/

/-- **The array that is returned** is a new one of new wallets; the others are as they were. -/
theorem shuffleArray_run (clone : ω → ω) {sha256 : Bytes → Bytes}
    (hsha : ∀ bytes, 4 ≤ (sha256 bytes).length) (round : Int) {m : Memory ω} {validators : Ref}
    (harray : m.IsArray validators) {passes : Nat} (hpasses : (m.array validators).length ≤ passes) :
    ∃ copies : List ω,
      copies.map some = (m.walletsOf validators).map (Option.map clone) ∧
      (shuffleArray clone sha256 passes round validators).run m =
        .done m.arrays.length
          { wallets := m.wallets ++ copies
            arrays := m.arrays ++ [shuffleValidators (hexHash sha256) round
              (List.range' m.wallets.length copies.length)] } := by
  obtain ⟨copies, hcopies, hclone⟩ := cloneWallets_run clone (m.array validators) m harray.2
  refine ⟨copies, hcopies, ?_⟩
  have hcount : copies.length = (m.array validators).length := by
    have h := congrArg List.length hcopies
    rwa [List.length_map, List.length_map, List.length_map] at h
  have hget : (Prog.gets fun m => m.array validators : MemoryProg ω (List Ref)).run m =
      .done (m.array validators) m := rfl
  let fresh : Memory ω :=
    { wallets := m.wallets ++ copies
      arrays := m.arrays ++ [List.range' m.wallets.length copies.length] }
  have hnew : (newArray (List.range' m.wallets.length copies.length)).run
      { m with wallets := m.wallets ++ copies } = .done m.arrays.length fresh := rfl
  have hfresh : fresh.array m.arrays.length = List.range' m.wallets.length copies.length := by
    show (m.arrays ++ [_]).getD m.arrays.length [] = _
    rw [List.getD_eq_getElem?_getD, List.getElem?_concat_length, Option.getD_some]
  have hlength : (fresh.array m.arrays.length).length = copies.length := by
    rw [hfresh, List.length_range']
  have hr : m.arrays.length < fresh.arrays.length := by
    show m.arrays.length < (m.arrays ++ [_]).length
    rw [List.length_append]
    exact Nat.lt_succ_self _
  have hloop : (exchangeFrom sha256 copies.length m.arrays.length passes
      (sha256 (encodeUtf8 (toString round).toList)) 0).run fresh =
      .done () (fresh.setArray m.arrays.length (shuffleFrom (hexHash sha256) copies.length passes
        (toHex (sha256 (encodeUtf8 (toString round).toList))) 0 (fresh.array m.arrays.length))) :=
    exchangeFrom_run hsha (hsha _) (by omega) hr hlength
  unfold shuffleArray
  rw [Prog.run_bind_of_done hget, Prog.run_bind_of_done hclone, Prog.run_bind_of_done hnew,
    List.length_range', Prog.run_bind_of_done hloop, Prog.run_pure, hfresh]
  have hsame : shuffleFrom (hexHash sha256) copies.length passes
        (toHex (sha256 (encodeUtf8 (toString round).toList))) 0
        (List.range' m.wallets.length copies.length) =
      shuffleValidators (hexHash sha256) round (List.range' m.wallets.length copies.length) := by
    unfold shuffleValidators
    rw [List.length_range', ← toHex_encodeUtf8, hexHash_toHex]
    exact shuffleFrom_passes _ _ (by omega) (by omega) _
  rw [hsame]
  show Outcome.done _ (Memory.mk _ ((m.arrays ++ [_]).set m.arrays.length _)) = _
  rw [List.set_append_right _ _ (Nat.le_refl _), Nat.sub_self]
  rfl

end RoundState

end CoreEx
