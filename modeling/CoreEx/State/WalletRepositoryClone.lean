/-
  File:      CoreEx/State/WalletRepositoryClone.lean
  Subject:   `core-state/source/wallets/wallet-repository-clone.ts`: the repository that reverts
             rounds and simulates on the wallets of the chain.

  On top of the indexes of the base class it remembers which keys were taken out (`#forgetIndexes`),
  so that the chain's entry for such a key does not count any more.

  * the code, method by method; `exec` -- all operations;
  * `run_blockchainFindByAddress_known`, `run_blockchainFindByPublicKey_known` -- the repository of
    the chain creates nothing for a key it has;
  * **`exec_safe`** -- every invariant over the objects one holds is kept by every operation.
-/
import CoreEx.State.Isolation

namespace CoreEx

namespace WalletRepositoryClone

open Prog Overlay

/-! ## 1. The code -/

/-- Here the subclass adds `#forgetIndexes`. -/
abbrev CloneProg : Type → Type := OverlayProg Indexes

/-- `#getForgetIndex(index).set(key, wallet)`. -/
def setForgotten (i : WalletIndexes) (key : String) (wallet : Ref) : CloneProg Unit :=
  Prog.modify fun s =>
    { s with fields := Function.update s.fields i ((s.fields i).set key wallet) }

/-- The answer of `hasByIndex(index, key)`. -/
def hasKey (s : Overlay Indexes) (i : WalletIndexes) (key : String) : Bool :=
  (s.indexes i).has key || ((s.blockchain i).has key && !(s.fields i).has key)

/-- `hasByIndex(index, key)`. -/
def hasByIndex (i : WalletIndexes) (key : String) : CloneProg Bool :=
  Prog.gets fun s => hasKey s i key

/-- The inner loop at the end of `indexWallet`. -/
def forgetMissing (wallet : Ref) (i : WalletIndexes) (indexKeys : List String) :
    CloneProg Unit := do
  let walletKeys ← Prog.gets fun s => (s.indexes i).walletKeys wallet
  Prog.forEach (fun key => Prog.when (key ∉ walletKeys) (setForgotten i key wallet)) indexKeys

/-- `indexWallet(wallet)`. -/
def indexWallet (wallet : Ref) : CloneProg Unit := do
  let indexKeys ← Prog.gets fun s i => (s.indexes i).walletKeys wallet
  Overlay.indexWallet wallet
  Prog.forEach (fun i => forgetMissing wallet i (indexKeys i)) WalletIndexes.all

/-- `super.findByIndex(index, key)`; it calls `this.hasByIndex`. -/
def superFindByIndex (i : WalletIndexes) (key : String) : CloneProg Ref :=
  Overlay.findByIndex hasByIndex i key

/-- The wallet `findByAddress` takes for an address it does not have. -/
def cloneOrCreate (address : String) : CloneProg Ref := do
  let known ← Prog.gets fun s => (s.blockchain .addresses).has address
  if known then do
    let walletToClone ← blockchainFindByAddress address
    cloneWallet walletToClone
  else
    createWallet address

/-- `findByAddress(address)`. -/
def findByAddress (address : String) : CloneProg Ref := do
  let known ← Overlay.hasByIndex .addresses address
  if known then superFindByIndex .addresses address
  else do
    let wallet ← cloneOrCreate address
    indexWallet wallet
    pure wallet

/-- What `findByPublicKey` does for a public key it does not have. -/
def indexPublicKey (fromPublicKey : String → Except Exception String) (publicKey : String) :
    CloneProg Unit := do
  let address ← Prog.ofExcept (fromPublicKey publicKey)
  let wallet ← findByAddress address
  update wallet (·.setPublicKey publicKey)
  indexWallet wallet

/-- `findByPublicKey(publicKey)`. -/
def findByPublicKey (fromPublicKey : String → Except Exception String) (publicKey : String) :
    CloneProg Ref := do
  let known ← Overlay.hasByIndex .publicKeys publicKey
  Prog.when (known = false) (indexPublicKey fromPublicKey publicKey)
  superFindByIndex .publicKeys publicKey

/-- What `findByIndex` does for a key it does not have. -/
def cloneByIndex (i : WalletIndexes) (key : String) : CloneProg Unit := do
  let walletToClone ← blockchainFindByIndex i key
  let _ ← cloneWallet walletToClone
  pure ()

/-- `findByIndex(index, key)`. -/
def findByIndex (i : WalletIndexes) (key : String) : CloneProg Ref := do
  let known ← Overlay.hasByIndex i key
  Prog.when (known = false) (cloneByIndex i key)
  let found ← Prog.gets fun s => (s.indexes i).get key
  defined found

/-- `has(key)`. -/
def has (key : String) : CloneProg Bool :=
  Prog.gets fun s => WalletIndexes.all.any fun i => hasKey s i key

/-- `getNonce(publicKey)`. -/
def getNonce (fromPublicKey : String → Except Exception String) (publicKey : String) :
    CloneProg Int := do
  let own ← Overlay.hasByIndex .publicKeys publicKey
  if own then do
    let wallet ← findByPublicKey fromPublicKey publicKey
    Prog.gets fun s => (s.object wallet).wallet.nonce
  else do
    let known ← Prog.gets fun s => (s.blockchain .publicKeys).has publicKey
    if known then do
      let wallet ← blockchainFindByPublicKey fromPublicKey publicKey
      Prog.gets fun s => (s.object wallet).wallet.nonce
    else
      pure 0

/-- What `forgetOnIndex` does for a key that is there. -/
def forgetFound (i : WalletIndexes) (key : String) : CloneProg Unit := do
  let wallet ← findByIndex i key
  Overlay.forgetOnIndex i key
  setForgotten i key wallet

/-- `forgetOnIndex(index, key)`. -/
def forgetOnIndex (i : WalletIndexes) (key : String) : CloneProg Unit := do
  let known ← Prog.gets fun s => (s.indexes i).has key || (s.blockchain i).has key
  Prog.when (known = true) (forgetFound i key)

/-- `reset()`. -/
def reset : CloneProg Unit := do
  Overlay.reset
  Prog.modify fun s => { s with fields := fun _ => .clear }

/-- One pass of `#cloneAllByIndex`. -/
def cloneByAddressOf (wallet : Ref) : CloneProg Unit := do
  let o ← Prog.gets fun s => s.object wallet
  let _ ← findByAddress o.address
  pure ()

/-- `allByIndex(index)`, and `allByAddress`, `allByPublicKey`, `allByUsername`. -/
def allByIndex (i : WalletIndexes) : CloneProg (List Ref) := do
  let wallets ← Prog.gets fun s => (s.blockchain i).values
  Prog.forEach cloneByAddressOf wallets
  Overlay.allByIndex i

/-- The operations, with the wallets they return. -/
def exec (fromPublicKey : String → Except Exception String) : Operation → CloneProg (List Ref)
  | .findByAddress address => do
    let wallet ← findByAddress address
    pure [wallet]
  | .findByPublicKey publicKey => do
    let wallet ← findByPublicKey fromPublicKey publicKey
    pure [wallet]
  | .findByIndex i key => do
    let wallet ← findByIndex i key
    pure [wallet]
  | .findByIndexes indexes key => do
    let wallet ← findByIndexes hasByIndex findByIndex indexes key
    pure [wallet]
  | .has key => do
    let _ ← has key
    pure []
  | .hasByIndex i key => do
    let _ ← hasByIndex i key
    pure []
  | .getNonce publicKey => do
    let _ ← getNonce fromPublicKey publicKey
    pure []
  | .allByIndex i => allByIndex i
  | .createWallet address => do
    let wallet ← createWallet address
    pure [wallet]
  | .index wallet => do
    indexWallet wallet
    pure []
  | .setOnIndex i key wallet => do
    setOnIndex i key wallet
    pure []
  | .forgetOnIndex i key => do
    forgetOnIndex i key
    pure []
  | .reset => do
    reset
    pure []
  | .change wallet contents => do
    change wallet contents
    pure []

/-- A new repository over the one of the chain. -/
def start (chain : Chain) : Session (Overlay Indexes) := Session.over chain fun _ => .clear

/-! ## 2. The repository of the chain creates nothing for a key it has -/

theorem run_blockchainFindByAddress_known {s : Overlay Indexes} {address : String} {wallet : Ref}
    (h : (s.blockchain .addresses).get address = some wallet) :
    (blockchainFindByAddress address).run s = .done wallet s := by
  have hknown : (s.blockchain .addresses).has address = true := by rw [WalletIndex.has_eq, h]; rfl
  unfold blockchainFindByAddress
  rw [run_bind_of_done (congrArg (Outcome.done · s) hknown), Prog.when,
    if_neg fun hc => Bool.false_ne_true hc.2.symm, run_bind_of_done (run_pure () s),
    run_bind_of_done (congrArg (Outcome.done · s) h)]
  rfl

theorem run_blockchainFindByPublicKey_known {fromPublicKey : String → Except Exception String}
    {s : Overlay Indexes} {publicKey : String} {wallet : Ref}
    (h : (s.blockchain .publicKeys).get publicKey = some wallet) :
    (blockchainFindByPublicKey fromPublicKey publicKey).run s = .done wallet s := by
  have hknown : (s.blockchain .publicKeys).has publicKey = true := by
    rw [WalletIndex.has_eq, h]
    rfl
  unfold blockchainFindByPublicKey
  rw [run_bind_of_done (congrArg (Outcome.done · s) hknown), Prog.when,
    if_neg fun hc => Bool.false_ne_true hc.2.symm, run_bind_of_done (run_pure () s),
    run_bind_of_done (congrArg (Outcome.done · s) h)]
  rfl

/-! ## 3. Invariants -/

section Invariants

variable {J : List Ref → Overlay Indexes → Prop} (hJ : Stable J) {given : List Ref}

include hJ

theorem safe_setForgotten (i : WalletIndexes) (key : String) (wallet : Ref) :
    Safe J given (setForgotten i key wallet) fun _ => [] :=
  fun _ _ _ hs => hJ.setFields _ _ _ hs

theorem safe_indexWallet {wallet : Ref} (hr : wallet ∈ given) :
    Safe J given (indexWallet wallet) fun _ => [] :=
  Safe.gets.bind hJ fun _ => (Overlay.safe_indexWallet hJ hr).bind hJ fun _ =>
    Safe.forEach hJ fun _ => Safe.gets.bind hJ fun _ => Safe.forEach hJ fun _ =>
      Safe.when hJ (safe_setForgotten hJ _ _ _)

theorem safe_superFindByIndex (i : WalletIndexes) (key : String) :
    Safe J given (superFindByIndex i key) fun r => [r] :=
  Overlay.safe_findByIndex hJ (fun _ _ => Safe.gets) i key

/-- The repository of the chain is asked for an address it has. -/
theorem safe_cloneOrCreate (address : String) :
    Safe J given (cloneOrCreate address) fun r => [r] := by
  intro held s hgiven hs
  unfold cloneOrCreate
  cases hchain : (s.blockchain .addresses).get address with
  | none =>
    have hknown : (s.blockchain .addresses).has address = false := by
      rw [WalletIndex.has_eq, hchain]
      rfl
    unfold SafeAt Spec
    rw [run_bind_of_done (congrArg (Outcome.done · s) hknown), if_neg Bool.false_ne_true]
    exact safe_createWallet hJ address held s hgiven hs
  | some wallet =>
    have hknown : (s.blockchain .addresses).has address = true := by
      rw [WalletIndex.has_eq, hchain]
      rfl
    unfold SafeAt Spec
    rw [run_bind_of_done (congrArg (Outcome.done · s) hknown), if_pos rfl,
      run_bind_of_done (run_blockchainFindByAddress_known hchain)]
    exact safe_cloneWallet hJ wallet held s hgiven hs

theorem safe_findByAddress (address : String) :
    Safe J given (findByAddress address) fun r => [r] := by
  refine Safe.gets.bind hJ fun known => Safe.ite (safe_superFindByIndex hJ _ _) ?_
  refine (safe_cloneOrCreate hJ address).bind hJ fun wallet => ?_
  exact (safe_indexWallet hJ List.mem_cons_self).bind hJ fun _ =>
    Safe.pure (List.subset_append_left _ _) hJ

theorem safe_findByPublicKey (fromPublicKey : String → Except Exception String)
    (publicKey : String) :
    Safe J given (findByPublicKey fromPublicKey publicKey) fun r => [r] := by
  refine Safe.gets.bind hJ fun known => (Safe.when hJ ?_).bind hJ fun _ =>
    safe_superFindByIndex hJ _ _
  refine Safe.ofExcept.bind hJ fun address => (safe_findByAddress hJ address).bind hJ fun wallet =>
    ?_
  have hwallet : wallet ∈ [wallet] ++ ([] ++ ([] ++ given)) := List.mem_cons_self
  exact (safe_update hJ hwallet _).bind hJ fun _ => safe_indexWallet hJ hwallet

theorem safe_findByIndex (i : WalletIndexes) (key : String) :
    Safe J given (findByIndex i key) fun r => [r] := by
  refine Safe.gets.bind hJ fun known => (Safe.when hJ ?_).bind hJ fun _ => safe_getDefined hJ i key
  have hfind : Safe J given (blockchainFindByIndex i key) fun _ => [] := by
    refine Safe.gets.bind hJ fun found => ?_
    cases found with
    | none => exact Safe.throw
    | some wallet => exact Safe.pure (List.nil_subset _) hJ
  exact hfind.bind hJ fun _ => (safe_cloneWallet hJ _).bind hJ fun _ =>
    Safe.pure (List.nil_subset _) hJ

/-- So is it for a public key. -/
theorem safe_getNonce (fromPublicKey : String → Except Exception String) (publicKey : String) :
    Safe J given (getNonce fromPublicKey publicKey) fun _ => [] := by
  refine Safe.gets.bind hJ fun own => Safe.ite ?_ fun held s hgiven hs => ?_
  · exact ((safe_findByPublicKey hJ _ _).bind hJ fun _ => Safe.gets)
  · cases hchain : (s.blockchain .publicKeys).get publicKey with
    | none =>
      have hknown : (s.blockchain .publicKeys).has publicKey = false := by
        rw [WalletIndex.has_eq, hchain]
        rfl
      unfold SafeAt Spec
      rw [run_bind_of_done (congrArg (Outcome.done · s) hknown), if_neg Bool.false_ne_true]
      exact hs
    | some wallet =>
      have hknown : (s.blockchain .publicKeys).has publicKey = true := by
        rw [WalletIndex.has_eq, hchain]
        rfl
      unfold SafeAt Spec
      rw [run_bind_of_done (congrArg (Outcome.done · s) hknown), if_pos rfl,
        run_bind_of_done (run_blockchainFindByPublicKey_known hchain)]
      exact hs

theorem safe_forgetOnIndex (i : WalletIndexes) (key : String) :
    Safe J given (forgetOnIndex i key) fun _ => [] :=
  Safe.gets.bind hJ fun _ => Safe.when hJ <| (safe_findByIndex hJ i key).bind hJ fun _ =>
    (Overlay.safe_forgetOnIndex hJ i key).bind hJ fun _ => safe_setForgotten hJ i key _

theorem safe_reset : Safe J given reset fun _ => [] :=
  (Overlay.safe_reset hJ).bind hJ fun _ _ _ _ hs => hJ.setFields _ _ _ hs

theorem safe_cloneByAddressOf (wallet : Ref) :
    Safe J given (cloneByAddressOf wallet) fun _ => [] :=
  Safe.gets.bind hJ fun o => (safe_findByAddress hJ o.address).bind hJ fun _ =>
    Safe.pure (List.nil_subset _) hJ

theorem safe_allByIndex (i : WalletIndexes) : Safe J given (allByIndex i) id := by
  refine Safe.gets.bind hJ fun wallets => ?_
  exact (Safe.forEach hJ fun wallet => safe_cloneByAddressOf hJ wallet).bind hJ fun _ =>
    Overlay.safe_allByIndex hJ i

/-- **Every operation keeps every invariant over the objects one holds.** -/
theorem exec_safe (fromPublicKey : String → Except Exception String) (op : Operation) :
    Safe J op.wallets (exec fromPublicKey op) id := by
  have hone : ∀ {given : List Ref} {x : CloneProg Ref}, (Safe J given x fun r => [r]) →
      Safe J given (x >>= fun wallet => pure [wallet]) id :=
    fun hx => hx.bind hJ fun _ => Safe.pure (List.subset_append_left _ _) hJ
  have hnone : ∀ {given : List Ref} {α : Type} {x : CloneProg α}, (Safe J given x fun _ => []) →
      Safe J given (x >>= fun _ => pure []) id :=
    fun hx => hx.bind hJ fun _ => Safe.pure (List.nil_subset _) hJ
  cases op with
  | findByAddress address => exact hone (safe_findByAddress hJ address)
  | findByPublicKey publicKey => exact hone (safe_findByPublicKey hJ fromPublicKey publicKey)
  | findByIndex i key => exact hone (safe_findByIndex hJ i key)
  | findByIndexes indexes key =>
    exact hone (safe_findByIndexes hJ (fun _ _ => Safe.gets) (safe_findByIndex hJ) indexes key)
  | has key => exact hnone Safe.gets
  | hasByIndex i key => exact hnone Safe.gets
  | getNonce publicKey => exact hnone (safe_getNonce hJ fromPublicKey publicKey)
  | allByIndex i => exact safe_allByIndex hJ i
  | createWallet address => exact hone (safe_createWallet hJ address)
  | index wallet => exact hnone (safe_indexWallet hJ List.mem_cons_self)
  | setOnIndex i key wallet => exact hnone (safe_setOnIndex hJ List.mem_cons_self i key)
  | forgetOnIndex i key => exact hnone (safe_forgetOnIndex hJ i key)
  | reset => exact hnone (safe_reset hJ)
  | change wallet contents => exact hnone (safe_change hJ List.mem_cons_self contents)

/-- Every invariant holds in every state operations lead to. -/
theorem stable_run {fromPublicKey : String → Except Exception String}
    {allowed : Overlay Indexes → Operation → Prop} {s t : Session (Overlay Indexes)}
    (run : Session.Run (exec fromPublicKey) allowed (fun _ _ => False) s t)
    (hs : J s.returned s.state) : J t.returned t.state :=
  hJ.of_run (fun op held s hwallets hs _ => exec_safe hJ fromPublicKey op held s hwallets hs)
    (fun _ _ _ _ h => h.elim) run hs

end Invariants

/-! ## 4. What `indexWallet` does -/

/-- All indexers find their key, if the wallet has one. -/
def Indexable (o : WalletObject) : Prop := ∀ i, ∃ key, indexer o i = .ok key

/-- The key of a wallet in an index, as the indexer sees it. -/
def keyOf (o : WalletObject) (i : WalletIndexes) : Option String :=
  match indexer o i with
  | .ok key => key
  | .error _ => none

theorem indexer_eq {o : WalletObject} (ho : Indexable o) (i : WalletIndexes) :
    indexer o i = .ok (keyOf o i) := by
  obtain ⟨key, hkey⟩ := ho i
  unfold keyOf
  rw [hkey]

/-- `forgetWallet(wallet)`, then the key of the indexer. -/
def reindexed (key : Option String) (wallet : Ref) (index : WalletIndex String Ref) :
    WalletIndex String Ref :=
  key.elim (index.forgetWallet wallet) fun key => (index.forgetWallet wallet).set key wallet

theorem get_reindexed (key : Option String) (wallet : Ref) (index : WalletIndex String Ref)
    (k : String) :
    (reindexed key wallet index).get k =
      if key = some k then some wallet
      else if index.get k = some wallet then none else index.get k := by
  cases key with
  | none =>
    rw [if_neg nofun]
    exact WalletIndex.get_forgetWallet _ _ _
  | some key =>
    show ((index.forgetWallet wallet).set key wallet).get k = _
    rw [WalletIndex.get_set, WalletIndex.get_forgetWallet]
    by_cases hk : k = key
    · rw [if_pos hk, if_pos (congrArg some hk.symm)]
    · rw [if_neg hk, if_neg fun h => hk (Option.some.inj h).symm]

/-- The same objects under other own indexes. -/
def withIndexes {φ : Type} (s : Overlay φ) (indexes : Indexes) : Overlay φ :=
  { s with indexes := indexes }

@[simp] theorem withIndexes_indexes {φ : Type} (s : Overlay φ) (indexes : Indexes) :
    (withIndexes s indexes).indexes = indexes := rfl

/-- The same objects with other forgotten keys. -/
def withForgotten (s : Overlay Indexes) (fields : Indexes) : Overlay Indexes :=
  { s with fields := fields }

@[simp] theorem withForgotten_fields (s : Overlay Indexes) (fields : Indexes) :
    (withForgotten s fields).fields = fields := rfl

theorem run_indexOn {φ : Type} {s : Overlay φ} {wallet : Ref} {i : WalletIndexes}
    (h : indexer (s.object wallet) i = .ok (keyOf (s.object wallet) i)) :
    (indexOn wallet i).run s = .done () (withIndexes s (Function.update s.indexes i
      (reindexed (keyOf (s.object wallet) i) wallet (s.indexes i)))) := by
  have hforget : (updateIndex i fun index => index.forgetWallet wallet : OverlayProg φ Unit).run s =
      .done () (withIndexes s
        (Function.update s.indexes i ((s.indexes i).forgetWallet wallet))) := rfl
  unfold indexOn
  rw [run_bind_of_done hforget, run_bind_of_done (run_gets _ _)]
  show ((Prog.ofExcept (indexer (s.object wallet) i) : OverlayProg φ _) >>= _).run _ = _
  rw [h]
  cases keyOf (s.object wallet) i with
  | none => rfl
  | some key =>
    show Outcome.done () (withIndexes s (Function.update (withIndexes s _).indexes i
      (((withIndexes s _).indexes i).set key wallet))) = _
    rw [withIndexes_indexes, Function.update_self, Function.update_idem]
    rfl

/-- The state after `indexWallet(wallet)` of the base class. -/
theorem run_super_indexWallet {φ : Type} {s : Overlay φ} {wallet : Ref}
    (ho : Indexable (s.object wallet)) :
    (Overlay.indexWallet wallet).run s = .done () (withIndexes s
      fun i => reindexed (keyOf (s.object wallet) i) wallet (s.indexes i)) := by
  have hstep : ∀ (indexes : Indexes) i, (indexOn wallet i).run (withIndexes s indexes) =
      .done () (withIndexes s (Function.update indexes i
        (reindexed (keyOf (s.object wallet) i) wallet (indexes i)))) :=
    fun indexes i => run_indexOn (s := withIndexes s indexes) (indexer_eq ho i)
  have hfirst : (indexOn wallet .addresses).run s = .done () (withIndexes s
      (Function.update s.indexes .addresses (reindexed (keyOf (s.object wallet) .addresses) wallet
        (s.indexes .addresses)))) := hstep s.indexes .addresses
  unfold Overlay.indexWallet WalletIndexes.all
  simp only [forEach_cons, forEach_nil]
  rw [run_bind_of_done hfirst, run_bind_of_done (hstep _ .publicKeys),
    run_bind_of_done (hstep _ .usernames), run_bind_of_done (hstep _ .resignations), run_pure]
  refine congrArg (Outcome.done () <| withIndexes s ·) (funext fun i => ?_)
  cases i <;> simp [Function.update]

/-- The keys that `indexWallet(wallet)` takes out. -/
def missing (s : Overlay Indexes) (wallet : Ref) (i : WalletIndexes) : List String :=
  ((s.indexes i).walletKeys wallet).filter
    (· ∉ (reindexed (keyOf (s.object wallet) i) wallet (s.indexes i)).walletKeys wallet)

/-- The state after `indexWallet(wallet)`. -/
def indexed (s : Overlay Indexes) (wallet : Ref) : Overlay Indexes :=
  { s with
    indexes := fun i => reindexed (keyOf (s.object wallet) i) wallet (s.indexes i)
    fields := fun i => (s.fields i).setAll wallet (missing s wallet i) }

theorem run_setForgottenAll (wallet : Ref) (i : WalletIndexes) (walletKeys : List String) :
    ∀ (keys : List String) (s : Overlay Indexes),
      (Prog.forEach (fun key => Prog.when (key ∉ walletKeys) (setForgotten i key wallet)) keys).run
        s = .done () (withForgotten s (Function.update s.fields i
          ((s.fields i).setAll wallet (keys.filter (· ∉ walletKeys))))) := by
  intro keys
  induction keys with
  | nil =>
    intro s
    show Outcome.done () s = _
    rw [List.filter_nil, WalletIndex.setAll, List.foldl_nil, Function.update_eq_self]
    rfl
  | cons key keys ih =>
    intro s
    rw [forEach_cons]
    by_cases hkey : key ∈ walletKeys
    · rw [Prog.when, if_neg (not_not.2 hkey), run_bind_of_done (run_pure () s), ih,
        List.filter_cons_of_neg (by simpa using hkey)]
    · have hset : (setForgotten i key wallet).run s = .done () (withForgotten s
        (Function.update s.fields i ((s.fields i).set key wallet))) := rfl
      rw [Prog.when, if_pos hkey, run_bind_of_done hset, ih,
        List.filter_cons_of_pos (by simpa using hkey), withForgotten_fields, Function.update_self,
        Function.update_idem]
      rfl

/-- **All keys the wallet had and the indexers do not give are taken out and noted.** -/
theorem run_indexWallet {s : Overlay Indexes} {wallet : Ref} (ho : Indexable (s.object wallet)) :
    (indexWallet wallet).run s = .done () (indexed s wallet) := by
  have hstep : ∀ (fields : Indexes) i,
      (forgetMissing wallet i ((s.indexes i).walletKeys wallet)).run
        (withForgotten (withIndexes s fun i =>
          reindexed (keyOf (s.object wallet) i) wallet (s.indexes i)) fields) =
      .done () (withForgotten (withIndexes s fun i =>
          reindexed (keyOf (s.object wallet) i) wallet (s.indexes i))
        (Function.update fields i ((fields i).setAll wallet (missing s wallet i)))) :=
    fun fields i => run_setForgottenAll wallet i _ _ _
  have hfirst : (forgetMissing wallet .addresses ((s.indexes .addresses).walletKeys wallet)).run
        (withIndexes s fun i => reindexed (keyOf (s.object wallet) i) wallet (s.indexes i)) =
      .done () (withForgotten (withIndexes s fun i =>
          reindexed (keyOf (s.object wallet) i) wallet (s.indexes i))
        (Function.update s.fields .addresses
          ((s.fields .addresses).setAll wallet (missing s wallet .addresses)))) :=
    hstep s.fields .addresses
  unfold indexWallet WalletIndexes.all
  rw [run_bind_of_done (run_gets _ _), run_bind_of_done (run_super_indexWallet ho)]
  simp only [forEach_cons, forEach_nil]
  rw [run_bind_of_done hfirst, run_bind_of_done (hstep _ .publicKeys),
    run_bind_of_done (hstep _ .usernames), run_bind_of_done (hstep _ .resignations), run_pure]
  refine congrArg (fun fields => Outcome.done () (withForgotten (withIndexes s _) fields))
    (funext fun i => ?_)
  cases i <;> simp [Function.update]

theorem get_indexed (s : Overlay Indexes) (wallet : Ref) (i : WalletIndexes) (key : String) :
    ((indexed s wallet).indexes i).get key =
      if keyOf (s.object wallet) i = some key then some wallet
      else if (s.indexes i).get key = some wallet then none else (s.indexes i).get key :=
  get_reindexed _ _ _ _

theorem mem_missing {s : Overlay Indexes} {wallet : Ref} {i : WalletIndexes} {key : String} :
    key ∈ missing s wallet i ↔
      (s.indexes i).get key = some wallet ∧ keyOf (s.object wallet) i ≠ some key := by
  unfold missing
  rw [List.mem_filter, ← WalletIndex.get_eq_some, decide_eq_true_eq, ← WalletIndex.get_eq_some,
    get_reindexed]
  refine and_congr_right fun hget => ?_
  by_cases hkey : keyOf (s.object wallet) i = some key
  · rw [if_pos hkey]
    exact ⟨fun h => absurd rfl h, fun h => absurd hkey h⟩
  · rw [if_neg hkey, if_pos hget]
    exact ⟨fun _ => hkey, fun _ => nofun⟩

theorem has_indexed (s : Overlay Indexes) (wallet : Ref) (i : WalletIndexes) (key : String) :
    ((indexed s wallet).fields i).has key = true ↔
      ((s.indexes i).get key = some wallet ∧ keyOf (s.object wallet) i ≠ some key) ∨
        (s.fields i).has key = true := by
  have hfields : (indexed s wallet).fields i = (s.fields i).setAll wallet (missing s wallet i) := rfl
  rw [hfields, WalletIndex.has_eq, WalletIndex.get_setAll, ← mem_missing, WalletIndex.has_eq]
  by_cases hmem : key ∈ missing s wallet i
  · simp [hmem]
  · simp [hmem]

end WalletRepositoryClone

end CoreEx
