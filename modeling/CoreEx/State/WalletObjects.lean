/-
  File:      CoreEx/State/WalletObjects.lean
  Subject:   `core-state/source/wallets/wallet-repository.ts` once more, with wallets as objects.

  Where there is one repository, the address of a wallet is as good as the object. Where a second
  repository copies wallets of the first it is not: there may be several copies for one address, and
  it matters which of them an index leads to. Here an object is a place in a list of objects, and
  the two repositories are two sets of indexes over that list.

  * `WalletIndexes`, `WalletObject`, `Indexes`, `indexer` -- the four indexes and what they look at;
  * `Overlay` -- a repository over the one of the chain; `cloneWallet`, `indexWallet`, the lookups
    of the base class with the methods that subclasses override as arguments; `cloned` -- the state
    after a copy;
  * `blockchainFindByAddress`, `blockchainFindByPublicKey` -- the repository of the chain itself;
    `created` -- the state after it has made a wallet;
  * `Operation`, `Session`, `Session.Run` -- what callers do with such a repository, in any order;
  * `Chain`, `Session.over` -- a new repository over the one of the chain.
-/
import CoreEx.Lib.Prog
import CoreEx.State.Wallet
import CoreEx.State.WalletIndex

namespace CoreEx

/-! ## 1. Objects and indexes -/

/-- The names of the indexes `registerIndexers` binds; `getIndex` throws for any other. -/
inductive WalletIndexes where
  | addresses
  | publicKeys
  | usernames
  | resignations
  deriving DecidableEq, Repr

namespace WalletIndexes

/-- `getIndexNames()`. -/
def all : List WalletIndexes := [addresses, publicKeys, usernames, resignations]

def name : WalletIndexes → String
  | addresses => "addresses"
  | publicKeys => "publicKeys"
  | usernames => "usernames"
  | resignations => "resignations"

end WalletIndexes

/-- A wallet object: its address never changes, everything else may. -/
structure WalletObject where
  address : String
  wallet : Wallet
  deriving DecidableEq, Repr

namespace WalletObject

/-- `createWallet(address)`. -/
def new (address : String) : WalletObject := ⟨address, Wallet.new⟩

/-- `setPublicKey(publicKey)`; an empty key counts as none. -/
def setPublicKey (publicKey : String) (o : WalletObject) : WalletObject :=
  { o with wallet.publicKey := if h : publicKey ≠ "" then some ⟨publicKey, h⟩ else none }

end WalletObject

/-- Which object: its place in the list of all objects. -/
abbrev Ref : Type := Nat

/-- `indexes`. -/
abbrev Indexes : Type := WalletIndexes → WalletIndex String Ref

/-- The four indexers: the key they set, if any. -/
def indexer (o : WalletObject) : WalletIndexes → Except Exception (Option String)
  | .addresses => .ok (if o.address ≠ "" then some o.address else none)
  | .publicKeys => .ok (o.wallet.publicKey.map (·.text))
  | .usernames =>
    if o.wallet.isValidator then
      match o.wallet.username with
      | some username => .ok (some username)
      | none => .error .notDefined
    else .ok none
  | .resignations =>
    if o.wallet.isValidator && o.wallet.isResigned then
      match o.wallet.username with
      | some username => .ok (some username)
      | none => .error .notDefined
    else .ok none

/-! ## 2. A repository over another -/

/-- The objects, the indexes of `blockchainWalletRepository`, one's own, and what a subclass adds. -/
structure Overlay (φ : Type) where
  objects : List WalletObject
  blockchain : Indexes
  indexes : Indexes
  fields : φ

/-- Code that works on them and may throw. -/
abbrev OverlayProg (φ : Type) : Type → Type := Prog (Overlay φ) Exception

namespace Overlay

variable {φ : Type}

/-- The object behind a reference. -/
def object (s : Overlay φ) (r : Ref) : WalletObject := s.objects.getD r (WalletObject.new "")

/-- A new object. -/
def alloc (o : WalletObject) : OverlayProg φ Ref :=
  ⟨fun s => .done s.objects.length { s with objects := s.objects ++ [o] }⟩

/-- Change an object. -/
def update (r : Ref) (f : WalletObject → WalletObject) : OverlayProg φ Unit :=
  Prog.modify fun s => { s with objects := s.objects.set r (f (s.object r)) }

/-- Change one of the own indexes. -/
def updateIndex (i : WalletIndexes) (f : WalletIndex String Ref → WalletIndex String Ref) :
    OverlayProg φ Unit :=
  Prog.modify fun s => { s with indexes := Function.update s.indexes i (f (s.indexes i)) }

/-- Change one of the indexes of the chain's repository. -/
def updateBlockchain (i : WalletIndexes)
    (f : WalletIndex String Ref → WalletIndex String Ref) : OverlayProg φ Unit :=
  Prog.modify fun s => { s with blockchain := Function.update s.blockchain i (f (s.blockchain i)) }

/-- `assert.defined(wallet)`, and reading a property of what may be `undefined`. -/
def defined (found : Option Ref) : OverlayProg φ Ref :=
  match found with
  | some r => pure r
  | none => Prog.throw Exception.notDefined

/-! ## 3. The repository of the chain -/

/-- `blockchainWalletRepository.findByAddress(address)`: a wallet is created when there is none. -/
def blockchainFindByAddress (address : String) : OverlayProg φ Ref := do
  let known ← Prog.gets fun s => (s.blockchain .addresses).has address
  Prog.when (address ≠ "" ∧ known = false) do
    let wallet ← alloc (WalletObject.new address)
    updateBlockchain .addresses fun index => index.set address wallet
  let found ← Prog.gets fun s => (s.blockchain .addresses).get address
  defined found

/-- The state after it has made a wallet. -/
def created (s : Overlay φ) (address : String) : Overlay φ :=
  { s with
    objects := s.objects ++ [WalletObject.new address]
    blockchain := Function.update s.blockchain .addresses
      ((s.blockchain .addresses).set address s.objects.length) }

theorem get_created (s : Overlay φ) (address : String) (i : WalletIndexes) (key : String) :
    ((s.created address).blockchain i).get key =
      if i = .addresses ∧ key = address then some s.objects.length
      else (s.blockchain i).get key := by
  have hindex : (s.created address).blockchain = Function.update s.blockchain .addresses
      ((s.blockchain .addresses).set address s.objects.length) := rfl
  rw [hindex]
  by_cases hi : i = .addresses
  · subst hi
    rw [Function.update_self, WalletIndex.get_set]
    simp only [true_and]
  · rw [Function.update_of_ne hi, if_neg fun h => hi h.1]

theorem run_blockchainFindByAddress {s : Overlay φ} {address : String} (hne : address ≠ "")
    (hchain : (s.blockchain .addresses).has address = false) :
    (blockchainFindByAddress address).run s = .done s.objects.length (s.created address) := by
  have hget : ((s.created address).blockchain .addresses).get address = some s.objects.length := by
    rw [get_created, if_pos ⟨rfl, rfl⟩]
  have hmake : (Prog.when (address ≠ "" ∧ false = false) do
      let wallet ← alloc (WalletObject.new address)
      updateBlockchain .addresses fun index => index.set address wallet :
      OverlayProg φ Unit).run s = .done () (s.created address) := by
    rw [Prog.when, if_pos ⟨hne, rfl⟩]
    rfl
  unfold blockchainFindByAddress
  rw [Prog.run_bind_of_done (congrArg (Outcome.done · s) hchain), Prog.run_bind_of_done hmake,
    Prog.run_bind_of_done (congrArg (Outcome.done · _) hget)]
  rfl

/-- `blockchainWalletRepository.findByPublicKey(publicKey)`. -/
def blockchainFindByPublicKey (fromPublicKey : String → Except Exception String)
    (publicKey : String) : OverlayProg φ Ref := do
  let known ← Prog.gets fun s => (s.blockchain .publicKeys).has publicKey
  Prog.when (publicKey ≠ "" ∧ known = false) do
    let address ← Prog.ofExcept (fromPublicKey publicKey)
    let wallet ← blockchainFindByAddress address
    update wallet (·.setPublicKey publicKey)
    updateBlockchain .publicKeys fun index => index.set publicKey wallet
  let found ← Prog.gets fun s => (s.blockchain .publicKeys).get publicKey
  defined found

/-- ``Wallet ${key} doesn't exist in index ${index}``. -/
def doesNotExist (i : WalletIndexes) (key : String) : Exception :=
  .error s!"Wallet {key} doesn't exist in index {i.name}"

/-- `blockchainWalletRepository.findByIndex(index, key)`. -/
def blockchainFindByIndex (i : WalletIndexes) (key : String) : OverlayProg φ Ref := do
  let found ← Prog.gets fun s => (s.blockchain i).get key
  match found with
  | some wallet => pure wallet
  | none => Prog.throw (doesNotExist i key)

/-! ## 4. The base class -/

/-- `cloneWallet(blockchainWalletRepository, wallet)`. -/
def cloneWallet (wallet : Ref) : OverlayProg φ Ref := do
  let o ← Prog.gets fun s => s.object wallet
  let walletClone ← alloc o
  Prog.modify fun s => { s with
    indexes := fun i => (s.indexes i).setAll walletClone ((s.blockchain i).walletKeys wallet) }
  pure walletClone

/-- The state after `cloneWallet(wallet)`: the copy is the last object. -/
def cloned (s : Overlay φ) (wallet : Ref) : Overlay φ :=
  { s with
    objects := s.objects ++ [s.object wallet]
    indexes := fun i => (s.indexes i).setAll s.objects.length ((s.blockchain i).walletKeys wallet) }

theorem run_cloneWallet (s : Overlay φ) (wallet : Ref) :
    (cloneWallet wallet).run s = .done s.objects.length (s.cloned wallet) := rfl

/-- A copy is filed under every key the chain has for the wallet. -/
theorem get_cloned (s : Overlay φ) (wallet : Ref) (i : WalletIndexes) (key : String) :
    ((s.cloned wallet).indexes i).get key =
      if (s.blockchain i).get key = some wallet then some s.objects.length
      else (s.indexes i).get key := by
  unfold cloned
  rw [WalletIndex.get_setAll]
  simp only [WalletIndex.get_eq_some]

/-- One pass of the loop of `indexWallet`. -/
def indexOn (wallet : Ref) (i : WalletIndexes) : OverlayProg φ Unit := do
  updateIndex i fun index => index.forgetWallet wallet
  let o ← Prog.gets fun s => s.object wallet
  let key ← Prog.ofExcept (indexer o i)
  Prog.forEach (fun key => updateIndex i fun index => index.set key wallet) key.toList

/-- `indexWallet(wallet)`. -/
def indexWallet (wallet : Ref) : OverlayProg φ Unit :=
  Prog.forEach (indexOn wallet) WalletIndexes.all

/-- `hasByIndex(index, key)`. -/
def hasByIndex (i : WalletIndexes) (key : String) : OverlayProg φ Bool :=
  Prog.gets fun s => (s.indexes i).has key

/-- `findByIndex(index, key)`; the argument is `this.hasByIndex`. -/
def findByIndex (hasByIndex : WalletIndexes → String → OverlayProg φ Bool) (i : WalletIndexes)
    (key : String) : OverlayProg φ Ref := do
  let known ← hasByIndex i key
  Prog.throwIf (known = false) (doesNotExist i key)
  let found ← Prog.gets fun s => (s.indexes i).get key
  defined found

/-- `findByPublicKey(publicKey)`; the argument is `this.findByAddress`. -/
def findByPublicKey (fromPublicKey : String → Except Exception String)
    (findByAddress : String → OverlayProg φ Ref) (publicKey : String) : OverlayProg φ Ref := do
  let known ← Prog.gets fun s => (s.indexes .publicKeys).has publicKey
  Prog.when (publicKey ≠ "" ∧ known = false) do
    let address ← Prog.ofExcept (fromPublicKey publicKey)
    let wallet ← findByAddress address
    update wallet (·.setPublicKey publicKey)
    updateIndex .publicKeys fun index => index.set publicKey wallet
  let found ← Prog.gets fun s => (s.indexes .publicKeys).get publicKey
  defined found

/-- The loop of `findByIndexes`. -/
def findInIndexes (hasByIndex : WalletIndexes → String → OverlayProg φ Bool)
    (findByIndex : WalletIndexes → String → OverlayProg φ Ref) (error : Exception) (key : String) :
    List WalletIndexes → OverlayProg φ Ref
  | [] => Prog.throw error
  | i :: is => do
    let known ← hasByIndex i key
    if known then findByIndex i key else findInIndexes hasByIndex findByIndex error key is

/-- `findByIndexes(indexes, key)`; the arguments are `this.hasByIndex` and `this.findByIndex`. -/
def findByIndexes (hasByIndex : WalletIndexes → String → OverlayProg φ Bool)
    (findByIndex : WalletIndexes → String → OverlayProg φ Ref) (indexes : List WalletIndexes)
    (key : String) : OverlayProg φ Ref :=
  let names := ", ".intercalate (indexes.map (·.name))
  findInIndexes hasByIndex findByIndex (.error s!"Wallet {key} doesn't exist in indexes {names}")
    key indexes

/-- `getNonce(publicKey)`; the arguments are `this.hasByIndex` and `this.findByPublicKey`. -/
def getNonce (hasByIndex : WalletIndexes → String → OverlayProg φ Bool)
    (findByPublicKey : String → OverlayProg φ Ref) (publicKey : String) : OverlayProg φ Int := do
  let known ← hasByIndex .publicKeys publicKey
  if known then do
    let wallet ← findByPublicKey publicKey
    Prog.gets fun s => (s.object wallet).wallet.nonce
  else
    pure 0

/-- `has(key)`. -/
def has (key : String) : OverlayProg φ Bool :=
  Prog.gets fun s => WalletIndexes.all.any fun i => (s.indexes i).has key

/-- `allByIndex(index)`, and `allByAddress`, `allByPublicKey`, `allByUsername`. -/
def allByIndex (i : WalletIndexes) : OverlayProg φ (List Ref) :=
  Prog.gets fun s => (s.indexes i).values

/-- `createWallet(address)`: an object that no index leads to yet. -/
def createWallet (address : String) : OverlayProg φ Ref := alloc (WalletObject.new address)

/-- `setOnIndex(index, key, wallet)`. -/
def setOnIndex (i : WalletIndexes) (key : String) (wallet : Ref) : OverlayProg φ Unit :=
  updateIndex i fun index => index.set key wallet

/-- `forgetOnIndex(index, key)`. -/
def forgetOnIndex (i : WalletIndexes) (key : String) : OverlayProg φ Unit :=
  updateIndex i fun index => index.forget key

/-- `reset()`. -/
def reset : OverlayProg φ Unit :=
  Prog.modify fun s => { s with indexes := fun _ => .clear }

end Overlay

/-! ## 5. Sequences of operations -/

/-- The operations of a repository, and a change of a wallet it returned. `hasByAddress`,
    `findByUsername` and the like are `hasByIndex` and `findByIndex` on their index. -/
inductive Operation where
  | findByAddress (address : String)
  | findByPublicKey (publicKey : String)
  | findByIndex (i : WalletIndexes) (key : String)
  | findByIndexes (indexes : List WalletIndexes) (key : String)
  | has (key : String)
  | hasByIndex (i : WalletIndexes) (key : String)
  | getNonce (publicKey : String)
  | allByIndex (i : WalletIndexes)
  | createWallet (address : String)
  | index (wallet : Ref)
  | setOnIndex (i : WalletIndexes) (key : String) (wallet : Ref)
  | forgetOnIndex (i : WalletIndexes) (key : String)
  | reset
  | change (wallet : Ref) (contents : Wallet)
  deriving DecidableEq, Repr

namespace Operation

/-- The wallets an operation is given. -/
def wallets : Operation → List Ref
  | index wallet => [wallet]
  | setOnIndex _ _ wallet => [wallet]
  | change wallet _ => [wallet]
  | _ => []

/-- The `find`, `has` and `all` operations. -/
def isLookup : Operation → Bool
  | findByAddress _ | findByPublicKey _ | findByIndex _ _ | findByIndexes _ _ | has _
  | hasByIndex _ _ | getNonce _ | allByIndex _ => true
  | _ => false

end Operation

/-- A repository in use: its state, and the wallets that were returned so far. -/
structure Session (σ : Type) where
  state : σ
  returned : List Ref

namespace Session

variable {σ : Type}

/-- After an operation; a throw returns nothing and undoes nothing. -/
def after (exec : Operation → Prog σ Exception (List Ref)) (op : Operation) (s : Session σ) :
    Session σ :=
  match (exec op).run s.state with
  | .done wallets state => ⟨state, s.returned ++ wallets⟩
  | .thrown _ state => ⟨state, s.returned⟩

end Session

/-- Operations one after the other on wallets that were returned, each of them allowed where it
    takes place, and changes from outside in between. -/
inductive Session.Run {σ : Type} (exec : Operation → Prog σ Exception (List Ref))
    (allowed : σ → Operation → Prop) (outside : σ → σ → Prop) : Session σ → Session σ → Prop where
  | start (s : Session σ) : Session.Run exec allowed outside s s
  | operation {s t : Session σ} (op : Operation) (earlier : Session.Run exec allowed outside s t)
      (given : ∀ r ∈ op.wallets, r ∈ t.returned) (ok : allowed t.state op) :
      Session.Run exec allowed outside s (t.after exec op)
  | change {s t : Session σ} (state : σ) (earlier : Session.Run exec allowed outside s t)
      (ok : outside t.state state) : Session.Run exec allowed outside s ⟨state, t.returned⟩

namespace Overlay

variable {φ : Type}

/-- `wallet.setBalance(..)`, `wallet.setAttribute(..)` and the like. -/
def change (wallet : Ref) (contents : Wallet) : OverlayProg φ Unit :=
  update wallet fun o => { o with wallet := contents }

/-- The object is a wallet of the chain: one of its indexes leads there. -/
def OfChain (s : Overlay φ) (r : Ref) : Prop := ∃ i key, (s.blockchain i).get key = some r

/-- The object is one of the copies. -/
def Own (s : Overlay φ) (r : Ref) : Prop := ∃ i key, (s.indexes i).get key = some r

end Overlay

/-! ## 6. The beginning -/

/-- The repository of the chain: its wallets are objects. -/
structure Chain where
  objects : List WalletObject
  indexes : Indexes
  placed : ∀ i key r, (indexes i).get key = some r → r < objects.length

/-- A chain with a single wallet. -/
def Chain.sample : Chain where
  objects := [WalletObject.new "a"]
  indexes i := if i = .addresses then WalletIndex.clear.set "a" 0 else .clear
  placed i key r h := by
    by_cases hi : i = .addresses
    · rw [if_pos hi, WalletIndex.get_set] at h
      by_cases hkey : key = "a"
      · rw [if_pos hkey] at h
        cases h
        exact Nat.one_pos
      · rw [if_neg hkey] at h
        cases h
    · rw [if_neg hi] at h
      cases h

theorem Chain.get_sample (i : WalletIndexes) (key : String) :
    (Chain.sample.indexes i).get key = if i = .addresses ∧ key = "a" then some 0 else none := by
  show (if i = .addresses then WalletIndex.clear.set "a" 0 else .clear).get key = _
  by_cases hi : i = .addresses
  · rw [if_pos hi, WalletIndex.get_set]
    simp [hi]
  · rw [if_neg hi, if_neg fun h => hi h.1]
    rfl

/-- A new repository over it, before any operation. -/
def Session.over {φ : Type} (chain : Chain) (fields : φ) : Session (Overlay φ) :=
  ⟨⟨chain.objects, chain.indexes, fun _ => .clear, fields⟩, []⟩

end CoreEx
