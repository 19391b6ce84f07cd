/-
  File:      CoreEx/State/WalletRepositoryCopyOnWrite.lean
  Subject:   `core-state/source/wallets/wallet-repository-copy-on-write.ts`: the repository the
             transaction pool works on.

  Three methods are overridden: `hasByIndex` copies what it finds on the chain, `findByAddress` asks
  the repository of the chain for a wallet it does not know, and `allByUsername` copies first.

  * `hasByIndex`, `findByAddress`, `allByUsername` -- the code; `exec` -- all operations;
  * `run_hasByIndex_own`, `run_hasByIndex_none`, `run_hasByIndex_chain` -- its three answers;
    `hasByIndex_spec` -- what holds after any of them;
  * `exec_safeAt` -- which invariants the operations keep: all those the creation of a wallet that
    `KnowsAddress` does not have keeps; `placed_of_run` -- references lead to objects.
-/
import CoreEx.State.Isolation

namespace CoreEx

namespace WalletRepositoryCopyOnWrite

open Prog Overlay

/-! ## 1. The code -/

/-- `hasByIndex(index, key)`. -/
def hasByIndex (i : WalletIndexes) (key : String) : OverlayProg Unit Bool := do
  let own ← Overlay.hasByIndex i key
  if own then pure true
  else do
    let known ← Prog.gets fun s => (s.blockchain i).has key
    if known = false then pure false
    else do
      let wallet ← blockchainFindByIndex i key
      let _ ← cloneWallet wallet
      pure true

/-- `findByIndex(index, key)`, inherited. -/
def findByIndex (i : WalletIndexes) (key : String) : OverlayProg Unit Ref :=
  Overlay.findByIndex hasByIndex i key

/-- What `findByAddress` does first for an address that is not empty. -/
def cloneByAddress (address : String) : OverlayProg Unit Unit := do
  let known ← hasByIndex .addresses address
  Prog.when (known = false) do
    let wallet ← blockchainFindByAddress address
    let _ ← cloneWallet wallet
    pure ()

/-- `findByAddress(address)`. -/
def findByAddress (address : String) : OverlayProg Unit Ref := do
  Prog.when (address ≠ "") (cloneByAddress address)
  findByIndex .addresses address

/-- `findByPublicKey(publicKey)`, inherited. -/
def findByPublicKey (fromPublicKey : String → Except Exception String) (publicKey : String) :
    OverlayProg Unit Ref :=
  Overlay.findByPublicKey fromPublicKey findByAddress publicKey

/-- One pass of the loop of `allByUsername`; `super.hasByAddress` calls `this.hasByIndex`. -/
def cloneByUsername (wallet : Ref) : OverlayProg Unit Unit := do
  let o ← Prog.gets fun s => s.object wallet
  let known ← hasByIndex .addresses o.address
  Prog.when (known = false) do
    let _ ← cloneWallet wallet
    pure ()

/-- `allByUsername()`. -/
def allByUsername : OverlayProg Unit (List Ref) := do
  let wallets ← Prog.gets fun s => (s.blockchain .usernames).values
  Prog.forEach cloneByUsername wallets
  Overlay.allByIndex .usernames

/-- `allByAddress()`, `allByPublicKey()`, `allByUsername()`. -/
def allByIndex : WalletIndexes → OverlayProg Unit (List Ref)
  | .usernames => allByUsername
  | i => Overlay.allByIndex i

/-- The operations, with the wallets they return. -/
def exec (fromPublicKey : String → Except Exception String) :
    Operation → OverlayProg Unit (List Ref)
  | .findByAddress address => do
    let wallet ← findByAddress address
    pure [wallet]
  | .findByPublicKey publicKey => do
    let wallet ← findByPublicKey fromPublicKey publicKey
    pure [wallet]
  | .findByIndex i key => do
    let wallet ← findByIndex i key
    pure [wallet]
  | .findByIndexes indexes key => do
    let wallet ← findByIndexes hasByIndex findByIndex indexes key
    pure [wallet]
  | .has key => do
    let _ ← Overlay.has key
    pure []
  | .hasByIndex i key => do
    let _ ← hasByIndex i key
    pure []
  | .getNonce publicKey => do
    let _ ← getNonce hasByIndex (findByPublicKey fromPublicKey) publicKey
    pure []
  | .allByIndex i => allByIndex i
  | .createWallet address => do
    let wallet ← createWallet address
    pure [wallet]
  | .index wallet => do
    indexWallet wallet
    pure []
  | .setOnIndex i key wallet => do
    setOnIndex i key wallet
    pure []
  | .forgetOnIndex i key => do
    forgetOnIndex i key
    pure []
  | .reset => do
    reset
    pure []
  | .change wallet contents => do
    change wallet contents
    pure []

/-! ## 2. The answers of `hasByIndex` -/

theorem run_hasByIndex_own {s : Overlay Unit} {i : WalletIndexes} {key : String}
    (hown : (s.indexes i).has key = true) : (hasByIndex i key).run s = .done true s := by
  unfold hasByIndex
  rw [@run_bind_of_done _ _ _ _ _ _ s s true (congrArg (Outcome.done · s) hown)]
  rfl

theorem run_hasByIndex_none {s : Overlay Unit} {i : WalletIndexes} {key : String}
    (hown : (s.indexes i).has key = false) (hchain : (s.blockchain i).get key = none) :
    (hasByIndex i key).run s = .done false s := by
  unfold hasByIndex
  rw [@run_bind_of_done _ _ _ _ _ _ s s false (congrArg (Outcome.done · s) hown)]
  have hknown : (s.blockchain i).has key = false := by rw [WalletIndex.has_eq, hchain]; rfl
  rw [if_neg Bool.false_ne_true, run_bind_of_done (congrArg (Outcome.done · s) hknown)]
  rfl

/-- A wallet that is found on the chain is copied. -/
theorem run_hasByIndex_chain {s : Overlay Unit} {i : WalletIndexes} {key : String} {wallet : Ref}
    (hown : (s.indexes i).has key = false) (hchain : (s.blockchain i).get key = some wallet) :
    (hasByIndex i key).run s = .done true (s.cloned wallet) := by
  have hknown : (s.blockchain i).has key = true := by rw [WalletIndex.has_eq, hchain]; rfl
  have hfind : (blockchainFindByIndex i key).run s = .done wallet s := by
    unfold blockchainFindByIndex
    rw [run_bind_of_done (congrArg (Outcome.done · s) hchain)]
    rfl
  unfold hasByIndex
  rw [run_bind_of_done (congrArg (Outcome.done · s) hown), if_neg Bool.false_ne_true,
    run_bind_of_done (congrArg (Outcome.done · s) hknown), if_neg (Ne.symm Bool.false_ne_true),
    run_bind_of_done hfind, run_bind_of_done (run_cloneWallet s wallet)]
  rfl

/-- Afterwards the key is an own one, unless neither repository has it. What holds before holds
    afterwards too if the copy of a wallet with a missing key does not matter. -/
theorem hasByIndex_spec {P : Overlay Unit → Prop} {s : Overlay Unit} (hs : P s)
    (i : WalletIndexes) (key : String)
    (hcopy : ∀ wallet, (s.blockchain i).get key = some wallet → (s.indexes i).has key = false →
      P (s.cloned wallet)) :
    (hasByIndex i key).Spec s
      (fun known s' => P s' ∧ (known = true → (s'.indexes i).has key = true) ∧
        (known = false →
          s' = s ∧ (s.indexes i).has key = false ∧ (s.blockchain i).has key = false))
      fun _ _ => False := by
  unfold Spec
  cases hown : (s.indexes i).has key with
  | true =>
    rw [run_hasByIndex_own hown]
    exact ⟨hs, fun _ => hown, nofun⟩
  | false =>
    cases hchain : (s.blockchain i).get key with
    | none =>
      rw [run_hasByIndex_none hown hchain]
      exact ⟨hs, nofun, fun _ => ⟨rfl, rfl, by rw [WalletIndex.has_eq, hchain]; rfl⟩⟩
    | some wallet =>
      rw [run_hasByIndex_chain hown hchain]
      refine ⟨hcopy wallet hchain hown, fun _ => ?_, nofun⟩
      rw [WalletIndex.has_eq, get_cloned, if_pos hchain]
      rfl

/-! ## 3. Invariants -/

/-- The wallet for an address is there, or none is asked for. -/
def KnowsAddress (s : Overlay Unit) (address : String) : Prop :=
  address = "" ∨ (s.indexes .addresses).has address ∨ (s.blockchain .addresses).has address

section Invariants

variable {J : List Ref → Overlay Unit → Prop} (hJ : Stable J) {held : List Ref} {s : Overlay Unit}

include hJ

theorem stable_cloned (hs : J held s) (wallet : Ref) : J held (s.cloned wallet) :=
  hJ.weaken _ _ _ ((safe_cloneWallet hJ wallet held s (List.Subset.refl _) hs).of_done
    (run_cloneWallet s wallet)) (List.subset_append_right _ _)

theorem safe_hasByIndex {given : List Ref} (i : WalletIndexes) (key : String) :
    Safe J given (hasByIndex i key) fun _ => [] :=
  fun _ _ _ hs => (hasByIndex_spec hs i key fun wallet _ _ => stable_cloned hJ hs wallet).mono
    (fun _ _ h => h.1) fun _ _ h => h.elim

theorem safe_findByIndex {given : List Ref} (i : WalletIndexes) (key : String) :
    Safe J given (findByIndex i key) fun r => [r] :=
  Overlay.safe_findByIndex hJ (safe_hasByIndex hJ) i key

/-- All that matters is what the repository of the chain does with an address nobody knows. -/
theorem findByAddress_safeAt {address : String} (hs : J held s)
    (hcreate : ∀ held, address ≠ "" → (s.indexes .addresses).has address = false →
      (s.blockchain .addresses).has address = false → J held s →
      SafeAt J held s (blockchainFindByAddress address) fun _ => []) :
    SafeAt J held s (findByAddress address) fun r => [r] := by
  refine SafeAt.bind (w := fun _ => []) hJ (Spec.when (fun hne => ?_) fun _ => hs)
    fun _ s' hs' => safe_findByIndex hJ _ _ _ s' (List.Subset.refl _) hs'
  refine ((hasByIndex_spec hs _ _ fun wallet _ _ => stable_cloned hJ hs wallet).mono
    (fun _ _ h => h) fun _ _ h => h.elim).bind
    fun known s' h => Spec.when (fun hunknown => ?_) fun _ => h.1
  obtain ⟨rfl, hown, hchain⟩ := h.2.2 hunknown
  refine SafeAt.bind hJ (hcreate held hne hown hchain h.1) fun wallet t ht => ?_
  exact ((safe_cloneWallet hJ wallet).bind hJ fun _ => Safe.pure (List.nil_subset _) hJ) _ t
    (List.Subset.refl _) ht

theorem findByPublicKey_safeAt {fromPublicKey : String → Except Exception String}
    {publicKey : String} (hs : J held s)
    (hfind : ∀ address, publicKey ≠ "" → (s.indexes .publicKeys).has publicKey = false →
      fromPublicKey publicKey = .ok address → SafeAt J held s (findByAddress address) fun r => [r]) :
    SafeAt J held s (findByPublicKey fromPublicKey publicKey) fun r => [r] := by
  refine Spec.bind (Q := fun known s' => known = (s.indexes .publicKeys).has publicKey ∧ s' = s)
    (Spec.gets ⟨rfl, rfl⟩) fun known s' h => ?_
  obtain ⟨rfl, rfl⟩ := h
  refine SafeAt.bind (w := fun _ => []) hJ (Spec.when (fun hc => ?_) fun _ => hs)
    fun _ t ht => safe_getDefined hJ _ _ _ t (List.Subset.refl _) ht
  refine Spec.bind (Q := fun address t => fromPublicKey publicKey = .ok address ∧ t = s')
    (Spec.ofExcept (fun _ ha => ⟨ha, rfl⟩) fun _ _ => hs) fun address t h => ?_
  obtain ⟨haddress, rfl⟩ := h
  refine (hfind address hc.1 hc.2 haddress).bind hJ fun wallet t ht => ?_
  have hwallet : wallet ∈ [wallet] := List.mem_cons_self
  exact ((safe_update hJ hwallet _).bind hJ fun _ => safe_setOnIndex hJ hwallet _ _) _ t
    (List.subset_append_left _ _) ht

/-- A lookup of a key one holds already creates nothing. -/
theorem safe_getNonce {given : List Ref} (fromPublicKey : String → Except Exception String)
    (publicKey : String) :
    Safe J given (getNonce hasByIndex (findByPublicKey fromPublicKey) publicKey) fun _ => [] := by
  intro held s _ hs
  refine ((hasByIndex_spec hs _ _ fun wallet _ _ => stable_cloned hJ hs wallet).mono
    (fun _ _ h => h) fun _ _ h => h.elim).bind
    fun known s' h => Spec.ite (fun hfound => ?_) fun _ => h.1
  refine SafeAt.bind hJ (findByPublicKey_safeAt hJ h.1 fun _ _ hown _ => ?_)
    fun wallet t ht => ht
  exact absurd hown (by rw [h.2.1 hfound]; nofun)

theorem safe_cloneByUsername {given : List Ref} (wallet : Ref) :
    Safe J given (cloneByUsername wallet) fun _ => [] :=
  Safe.gets.bind hJ fun _ => (safe_hasByIndex hJ _ _).bind hJ fun _ => Safe.when hJ <|
    (safe_cloneWallet hJ wallet).bind hJ fun _ => Safe.pure (List.nil_subset _) hJ

theorem safe_allByIndex {given : List Ref} (i : WalletIndexes) :
    Safe J given (allByIndex i) id := by
  cases i with
  | usernames =>
    exact Safe.gets.bind hJ fun wallets => (Safe.forEach hJ (safe_cloneByUsername hJ)).bind hJ
      fun _ => Overlay.safe_allByIndex hJ _
  | addresses => exact Overlay.safe_allByIndex hJ _
  | publicKeys => exact Overlay.safe_allByIndex hJ _
  | resignations => exact Overlay.safe_allByIndex hJ _

/-- Whether an operation keeps an invariant depends on the two lookups that may create a wallet. -/
theorem exec_safeAt {fromPublicKey : String → Except Exception String} (op : Operation)
    (hwallets : op.wallets ⊆ held) (hs : J held s)
    (hcreate : ∀ held address, ¬ KnowsAddress s address →
      (op = .findByAddress address ∨ ∃ publicKey, op = .findByPublicKey publicKey ∧
        publicKey ≠ "" ∧ (s.indexes .publicKeys).has publicKey = false ∧
        fromPublicKey publicKey = .ok address) → J held s →
      SafeAt J held s (blockchainFindByAddress address) fun _ => []) :
    SafeAt J held s (exec fromPublicKey op) id := by
  have hone : ∀ {x : OverlayProg Unit Ref}, (SafeAt J held s x fun r => [r]) →
      SafeAt J held s (x >>= fun wallet => pure [wallet]) id :=
    fun hx => hx.bind hJ fun r s' h =>
      Safe.pure (List.subset_append_left _ _) hJ _ s' (List.Subset.refl _) h
  have hnone : ∀ {α : Type} {x : OverlayProg Unit α}, (SafeAt J held s x fun _ => []) →
      SafeAt J held s (x >>= fun _ => pure []) id :=
    fun hx => hx.bind hJ fun r s' h =>
      Safe.pure (List.nil_subset _) hJ _ s' (List.Subset.refl _) h
  have hunknown : ∀ {address : String}, address ≠ "" →
      (s.indexes .addresses).has address = false → (s.blockchain .addresses).has address = false →
      ¬ KnowsAddress s address := by
    rintro address hne hown hchain (h | h | h)
    · exact hne h
    · exact absurd h (by rw [hown]; nofun)
    · exact absurd h (by rw [hchain]; nofun)
  cases op with
  | findByAddress address =>
    exact hone (findByAddress_safeAt hJ hs fun held hne hown hchain hs =>
      hcreate held address (hunknown hne hown hchain) (Or.inl rfl) hs)
  | findByPublicKey publicKey =>
    exact hone (findByPublicKey_safeAt hJ hs fun address hkey hhas haddress =>
      findByAddress_safeAt hJ hs fun held hne hown hchain hs =>
        hcreate held address (hunknown hne hown hchain)
          (Or.inr ⟨publicKey, rfl, hkey, hhas, haddress⟩) hs)
  | findByIndex i key => exact hone (safe_findByIndex hJ i key _ s hwallets hs)
  | findByIndexes indexes key =>
    exact hone (safe_findByIndexes hJ (safe_hasByIndex hJ) (safe_findByIndex hJ) indexes key _ s
      hwallets hs)
  | has key => exact hnone (Safe.gets _ s hwallets hs)
  | hasByIndex i key => exact hnone (safe_hasByIndex hJ i key _ s hwallets hs)
  | getNonce publicKey => exact hnone (safe_getNonce hJ fromPublicKey publicKey _ s hwallets hs)
  | allByIndex i => exact safe_allByIndex hJ i _ s hwallets hs
  | createWallet address => exact hone (safe_createWallet hJ address _ s hwallets hs)
  | index wallet =>
    exact hnone (safe_indexWallet hJ List.mem_cons_self _ s hwallets hs)
  | setOnIndex i key wallet =>
    exact hnone (safe_setOnIndex hJ List.mem_cons_self i key _ s hwallets hs)
  | forgetOnIndex i key => exact hnone (safe_forgetOnIndex hJ i key _ s hwallets hs)
  | reset => exact hnone (safe_reset hJ _ s hwallets hs)
  | change wallet contents =>
    exact hnone (safe_change hJ List.mem_cons_self contents _ s hwallets hs)

end Invariants

/-! ## 4. References lead to objects -/

variable {s : Overlay Unit}

theorem ofChain_created {address : String} {r : Ref} (h : (s.created address).OfChain r) :
    s.OfChain r ∨ r = s.objects.length := by
  obtain ⟨i, key, hkey⟩ := h
  rw [get_created] at hkey
  by_cases hk : i = .addresses ∧ key = address
  · rw [if_pos hk] at hkey
    cases hkey
    exact Or.inr rfl
  · rw [if_neg hk] at hkey
    exact Or.inl ⟨i, key, hkey⟩

theorem placed_created {held : List Ref} (hs : Placed held s) (address : String) :
    Placed held (s.created address) := by
  have hlength : (s.created address).objects.length = s.objects.length + 1 := by
    simp [Overlay.created]
  refine hs.grow (fun r hr => ?_) rfl (by omega)
  rcases ofChain_created hr with hold | hnew
  · exact hlength ▸ Nat.lt_succ_of_lt (hs.chain r hold)
  · exact hlength ▸ hnew ▸ Nat.lt_succ_self _

/-- In every state an operation leads to, references lead to objects. -/
theorem placed_of_run {fromPublicKey : String → Except Exception String}
    {allowed : Overlay Unit → Operation → Prop} {outside : Overlay Unit → Overlay Unit → Prop}
    (houtside : ∀ held s s', Placed held s → outside s s' → Placed held s')
    {s t : Session (Overlay Unit)} (run : Session.Run (exec fromPublicKey) allowed outside s t)
    (hs : Placed s.returned s.state) : Placed t.returned t.state := by
  refine stable_placed.of_run (fun op held s hwallets hs _ => ?_) houtside run hs
  refine exec_safeAt stable_placed op hwallets hs fun held address hnot _ hs => ?_
  have hne : address ≠ "" := fun h => hnot (Or.inl h)
  have hchain : (s.blockchain .addresses).has address = false :=
    Bool.eq_false_iff.2 fun h => hnot (Or.inr (Or.inr h))
  unfold SafeAt Spec
  rw [run_blockchainFindByAddress hne hchain]
  exact placed_created hs address

end WalletRepositoryCopyOnWrite

end CoreEx
