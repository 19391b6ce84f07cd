/-
  File:      CoreEx/State/WalletRepository.lean
  Subject:   `core-state/source/wallets/wallet-repository.ts` with its four indexes
             (`indexers/indexers.ts`), and what each of its operations does to the accounts.

  A wallet object is created once for its address, by `findByAddress`, and every index leads to
  that object; so the address is its identity, the index `addresses` holds the objects and the
  other three hold addresses.

  Looking a wallet up may create it, or attach the key it was looked up with. Neither changes an
  account, which is why everything later is stated about `accounts` (an address without a wallet
  counts as a new one) and about `names`, the lookups in the two name indexes.

  * `WalletRepository`, `RepositoryProg`, `findByAddress`, `findByPublicKey`, `index`;
  * `WalletRepository.Sound` -- the public keys and their index tell the same;
  * `Rep` -- a repository with given accounts and names; one `_spec` for each operation.
-/
import CoreEx.Lib.Prog
import CoreEx.Crypto.Services
import CoreEx.State.Wallet
import CoreEx.State.WalletIndex

namespace CoreEx

/-- The four indexes `registerIndexers` binds, in that order. -/
structure WalletRepository where
  addresses : OrderedMap Address Wallet
  publicKeys : WalletIndex PublicKey Address
  usernames : WalletIndex String Address
  resignations : WalletIndex String Address

/-- The account of every address. -/
abbrev Ledger : Type := Address → Account

/-- Code that works on the repository and may throw. -/
abbrev RepositoryProg : Type → Type := Prog WalletRepository Exception

/-- `assert.defined(value)`, as a way to read the value. -/
def assertDefined {σ α : Type} (value : Option α) : Prog σ Exception α :=
  match value with
  | some a => pure a
  | none => Prog.throw Exception.notDefined

namespace WalletRepository

/-! ## 1. The repository as a value -/

/-- The repository after `initialize`. -/
def empty : WalletRepository := ⟨.empty, .clear, .clear, .clear⟩

/-- The wallet object of an address; before it exists, the one that would be created. -/
def wallet (r : WalletRepository) (a : Address) : Wallet := (r.addresses.get? a).getD Wallet.new

/-- The accounts of the repository. -/
def accounts (r : WalletRepository) : Ledger := fun a => (r.wallet a).toAccount

/-- Replace the wallet object of an address. -/
def setWallet (r : WalletRepository) (a : Address) (w : Wallet) : WalletRepository :=
  { r with addresses := r.addresses.set a w }

theorem wallet_setWallet (r : WalletRepository) (a : Address) (w : Wallet) (b : Address) :
    (r.setWallet a w).wallet b = if b = a then w else r.wallet b := by
  unfold wallet setWallet
  rw [OrderedMap.get?_set]
  by_cases h : b = a <;> simp [h]

/-- An address without a wallet stands for a new one. -/
theorem wallet_of_notMem {r : WalletRepository} {a : Address} (ha : a ∉ r.addresses.keys) :
    r.wallet a = Wallet.new := by
  have hnone : r.addresses.get? a = none := by
    rw [← OrderedMap.has_eq_false, ← Bool.not_eq_true, ← OrderedMap.mem_keys]
    exact ha
  unfold wallet
  rw [hnone]
  rfl

def hasByAddress (r : WalletRepository) (a : Address) : Bool := r.addresses.has a

def hasByPublicKey (r : WalletRepository) (k : PublicKey) : Bool := r.publicKeys.has k

@[simp] theorem hasByPublicKey_eq (r : WalletRepository) (k : PublicKey) :
    r.hasByPublicKey k = (r.publicKeys.get k).isSome := rfl

def hasByUsername (r : WalletRepository) (u : String) : Bool := r.usernames.has u

/-- `allByAddress()`. -/
def allByAddress (r : WalletRepository) : List Wallet := r.addresses.values

/-- `allByPublicKey()`: the addresses of the wallets, once for each key. -/
def allByPublicKey (r : WalletRepository) : List Address := r.publicKeys.values

/-- `allByUsername()`. -/
def allByUsername (r : WalletRepository) : List Address := r.usernames.values

/-! ## 2. The operations -/

/-- Read an account. -/
def account (a : Address) : RepositoryProg Account := Prog.gets fun r => r.accounts a

/-- Change an account of an existing wallet object. -/
def update (a : Address) (f : Account → Account) : RepositoryProg Unit :=
  Prog.modify fun r => r.setWallet a ((r.wallet a).withAccount (f (r.accounts a)))

/-- `findByAddress`: the wallet of an address, created when there is none. -/
def findByAddress (a : Address) : RepositoryProg Address := do
  let known ← Prog.gets fun r => r.hasByAddress a
  Prog.when (!known) do
    Prog.modify fun r => r.setWallet a Wallet.new
  pure a

/-- `wallet.setPublicKey(publicKey); index.set(publicKey, wallet)`. -/
def attach (a : Address) (k : PublicKey) (r : WalletRepository) : WalletRepository :=
  { r.setWallet a { r.wallet a with publicKey := some k } with
    publicKeys := r.publicKeys.set k a }

/-- `findByPublicKey`. -/
def findByPublicKey (env : Services) (k : PublicKey) : RepositoryProg Address := do
  let known ← Prog.gets fun r => r.hasByPublicKey k
  Prog.when (!known) do
    let a ← findByAddress (env.addressFromPublicKey k)
    Prog.modify (attach a k)
  let found ← Prog.gets fun r => r.publicKeys.get k
  assertDefined found

/-- `getNonce`. -/
def getNonce (env : Services) (k : PublicKey) : RepositoryProg Int := do
  let known ← Prog.gets fun r => r.hasByPublicKey k
  if known then
    let a ← findByPublicKey env k
    let w ← account a
    pure w.nonce
  else
    pure 0

/-- `forgetWallet` and `addressesIndexer`: the entry moves to the end. -/
def reindexAddress (a : Address) (r : WalletRepository) : WalletRepository :=
  { r with addresses := (r.addresses.delete a).set a (r.wallet a) }

/-- `forgetWallet` and `publicKeysIndexer`. -/
def reindexPublicKey (a : Address) (r : WalletRepository) : WalletRepository :=
  match (r.wallet a).publicKey with
  | some k => { r with publicKeys := (r.publicKeys.forgetWallet a).set k a }
  | none => { r with publicKeys := r.publicKeys.forgetWallet a }

/-- `forgetWallet` and `usernamesIndexer`. -/
def reindexUsername (a : Address) : RepositoryProg Unit := do
  Prog.modify fun r => { r with usernames := r.usernames.forgetWallet a }
  let w ← account a
  Prog.when w.isValidator do
    let username ← assertDefined w.username
    Prog.modify fun r => { r with usernames := r.usernames.set username a }

/-- `forgetWallet` and `resignationsIndexer`. -/
def reindexResignation (a : Address) : RepositoryProg Unit := do
  Prog.modify fun r => { r with resignations := r.resignations.forgetWallet a }
  let w ← account a
  Prog.when (w.isValidator && w.isResigned) do
    let username ← assertDefined w.username
    Prog.modify fun r => { r with resignations := r.resignations.set username a }

/-- `index(wallet)`: all four indexes, one after the other. -/
def index (a : Address) : RepositoryProg Unit := do
  Prog.modify (reindexAddress a)
  Prog.modify (reindexPublicKey a)
  reindexUsername a
  reindexResignation a

/-! ## 3. What the public keys promise -/

/-- The index of public keys leads to the address of the key, to a wallet that has a key, and the
    key a wallet has leads back to it. -/
structure Sound (env : Services) (r : WalletRepository) : Prop where
  keys : ∀ k a, r.publicKeys.get k = some a → a = env.addressFromPublicKey k
  attached : ∀ k a, r.publicKeys.get k = some a → (r.wallet a).publicKey.isSome
  own : ∀ a k, (r.wallet a).publicKey = some k → r.publicKeys.get k = some a

theorem sound_empty (env : Services) : empty.Sound env :=
  ⟨fun _ _ h => (nomatch h), fun _ _ h => (nomatch h), fun _ _ h => (nomatch h)⟩

/-- A new wallet object for an address without one changes no lookup. -/
theorem wallet_create {r : WalletRepository} {a : Address} (h : r.hasByAddress a = false)
    (b : Address) : (r.setWallet a Wallet.new).wallet b = r.wallet b := by
  rw [wallet_setWallet]
  by_cases hb : b = a
  · subst hb
    have hnone : r.addresses.get? b = none := OrderedMap.has_eq_false.1 h
    simp [wallet, hnone]
  · rw [if_neg hb]

/-- `Sound` looks at the wallets and at one index. -/
theorem Sound.congr {env : Services} {r r' : WalletRepository} (h : r.Sound env)
    (hw : ∀ a, (r'.wallet a).publicKey = (r.wallet a).publicKey)
    (hk : ∀ k, r'.publicKeys.get k = r.publicKeys.get k) : r'.Sound env where
  keys k a hg := h.keys k a (hk k ▸ hg)
  attached k a hg := by
    rw [hw a]
    exact h.attached k a (hk k ▸ hg)
  own a k hp := by
    rw [hk k]
    exact h.own a k (hw a ▸ hp)

theorem Sound.attach {env : Services} {r : WalletRepository} (h : r.Sound env) {k : PublicKey}
    (hk : r.publicKeys.get k = none) :
    (WalletRepository.attach (env.addressFromPublicKey k) k r).Sound env := by
  have hw : ∀ b, (WalletRepository.attach (env.addressFromPublicKey k) k r).wallet b =
      if b = env.addressFromPublicKey k then
        { r.wallet (env.addressFromPublicKey k) with publicKey := some k } else r.wallet b :=
    fun b => wallet_setWallet r _ _ b
  have hg : ∀ k', (WalletRepository.attach (env.addressFromPublicKey k) k r).publicKeys.get k' =
      if k' = k then some (env.addressFromPublicKey k) else r.publicKeys.get k' :=
    fun k' => WalletIndex.get_set _ _ _ k'
  refine ⟨fun k' a hget => ?_, fun k' a hget => ?_, fun a k' hp => ?_⟩
  · rw [hg] at hget
    by_cases hkk : k' = k
    · subst hkk
      simpa using hget.symm
    · exact h.keys k' a (by simpa [hkk] using hget)
  · rw [hw]
    by_cases ha : a = env.addressFromPublicKey k
    · simp [ha]
    · rw [if_neg ha]
      rw [hg] at hget
      have hkk : k' ≠ k := by
        rintro rfl
        exact ha (by simpa using hget.symm)
      exact h.attached k' a (by simpa [hkk] using hget)
  · rw [hw] at hp
    rw [hg]
    by_cases ha : a = env.addressFromPublicKey k
    · have hkk : k = k' := by simpa [ha] using hp
      simp [hkk, ha]
    · have hget := h.own a k' (by simpa [ha] using hp)
      have hkk : k' ≠ k := fun e => by simp [e ▸ hget] at hk
      rw [if_neg hkk, hget]

theorem wallet_reindexAddress (a : Address) (r : WalletRepository) (b : Address) :
    (reindexAddress a r).wallet b = r.wallet b := by
  unfold wallet reindexAddress
  rw [OrderedMap.get?_set, OrderedMap.get?_delete]
  by_cases h : b = a
  · simp [h, wallet]
  · simp [h]

theorem wallet_reindexPublicKey (a : Address) (r : WalletRepository) (b : Address) :
    (reindexPublicKey a r).wallet b = r.wallet b := by
  unfold reindexPublicKey
  cases (r.wallet a).publicKey <;> rfl

/-- Indexing a wallet anew keeps its own key and drops every other key that led to it. -/
theorem get_reindexPublicKey {env : Services} {r : WalletRepository} (h : r.Sound env)
    (a : Address) (k : PublicKey) : (reindexPublicKey a r).publicKeys.get k =
      if r.publicKeys.get k = some a ∧ (r.wallet a).publicKey ≠ some k then none
      else r.publicKeys.get k := by
  unfold reindexPublicKey
  cases hp : (r.wallet a).publicKey with
  | none => simp [WalletIndex.get_forgetWallet]
  | some k' =>
    have hown := h.own a k' hp
    simp only [WalletIndex.get_set, WalletIndex.get_forgetWallet]
    by_cases hk : k = k'
    · subst hk
      simp [hown]
    · have hk' : ¬ k' = k := fun e => hk e.symm
      simp [hk, hk']

theorem Sound.reindexPublicKey {env : Services} {r : WalletRepository} (h : r.Sound env)
    (a : Address) : (reindexPublicKey a r).Sound env := by
  have hsub : ∀ k b, (WalletRepository.reindexPublicKey a r).publicKeys.get k = some b →
      r.publicKeys.get k = some b := by
    intro k b hget
    rw [get_reindexPublicKey h] at hget
    split at hget
    · cases hget
    · exact hget
  refine ⟨fun k b hget => h.keys k b (hsub k b hget), fun k b hget => ?_, fun b k hp => ?_⟩
  · rw [wallet_reindexPublicKey]
    exact h.attached k b (hsub k b hget)
  · rw [wallet_reindexPublicKey] at hp
    have hget := h.own b k hp
    rw [get_reindexPublicKey h, hget]
    refine if_neg fun hc => hc.2 ?_
    have hb : b = a := Option.some.inj hc.1
    exact hb ▸ hp

end WalletRepository

/-! ## 4. Accounts and names -/

/-- The lookups in the indexes `usernames` and `resignations`. -/
@[ext]
structure Names where
  usernames : String → Option Address
  resignations : String → Option Address

/-- What one index says of a name after the wallet `a` was indexed anew under `own`. -/
def Names.relabel (lookup : String → Option Address) (a : Address) (own : Option String) :
    String → Option Address :=
  fun u => if own = some u then some a else if lookup u = some a then none else lookup u

theorem Names.relabel_some (i : WalletIndex String Address) (a : Address) (name : String) :
    ((i.forgetWallet a).set name a).get = relabel i.get a (some name) := by
  funext u
  rw [WalletIndex.get_set, WalletIndex.get_forgetWallet]
  by_cases hu : name = u
  · subst hu
    simp [relabel]
  · have hu' : ¬ u = name := fun e => hu e.symm
    simp [relabel, hu, hu']

theorem Names.relabel_none (i : WalletIndex String Address) (a : Address) :
    (i.forgetWallet a).get = relabel i.get a none := by
  funext u
  rw [WalletIndex.get_forgetWallet]
  simp [relabel]

/-- The names after `index(wallet)`. -/
def Names.reindex (N : Names) (a : Address) (w : Account) : Names where
  usernames := relabel N.usernames a w.username
  resignations := relabel N.resignations a (if w.isResigned then w.username else none)

namespace WalletRepository

def names (r : WalletRepository) : Names := ⟨r.usernames.get, r.resignations.get⟩

end WalletRepository

/-- A sound repository with the accounts `L` and the names `N`. -/
structure Rep (env : Services) (r : WalletRepository) (L : Ledger) (N : Names) : Prop where
  sound : r.Sound env
  accounts : r.accounts = L
  names : r.names = N

namespace WalletRepository

variable {env : Services} {r : WalletRepository} {L : Ledger} {N : Names}

theorem account_spec (h : Rep env r L N) (a : Address) :
    (account a).Spec r (fun w r' => w = L a ∧ r' = r) fun _ _ => False :=
  ⟨congrFun h.accounts a, rfl⟩

/-- Changing an account changes that account and nothing else. -/
theorem rep_update (h : Rep env r L N) (a : Address) (f : Account → Account) :
    Rep env (r.setWallet a ((r.wallet a).withAccount (f (r.accounts a))))
      (Function.update L a (f (L a))) N := by
  have hw := wallet_setWallet r a ((r.wallet a).withAccount (f (r.accounts a)))
  refine ⟨h.sound.congr (fun b => ?_) fun _ => rfl, funext fun b => ?_, h.names⟩
  · rw [hw]
    by_cases hb : b = a <;> simp [hb, Wallet.withAccount]
  · show ((r.setWallet a _).wallet b).toAccount = _
    rw [hw, ← h.accounts]
    by_cases hb : b = a
    · subst hb
      simp [Wallet.withAccount]
    · simp [hb, accounts]

theorem rep_create (h : Rep env r L N) {a : Address} (ha : r.hasByAddress a = false) :
    Rep env (r.setWallet a Wallet.new) L N := by
  refine ⟨h.sound.congr (fun b => ?_) fun _ => rfl, funext fun b => ?_, h.names⟩
  · rw [wallet_create ha]
  · rw [← h.accounts]
    exact congrArg Wallet.toAccount (wallet_create ha b)

/-- `findByAddress` answers the wallet of the address and changes no account. -/
theorem findByAddress_spec (h : Rep env r L N) (a : Address) :
    (findByAddress a).Spec r (fun b r' => b = a ∧ Rep env r' L N ∧ r'.publicKeys = r.publicKeys)
      fun _ _ => False := by
  unfold findByAddress
  refine (Prog.Spec.gets (Q := fun known r' => r' = r ∧ known = r.hasByAddress a)
    ⟨rfl, rfl⟩).bind ?_
  rintro known r' ⟨rfl, rfl⟩
  refine (Prog.Spec.when (Q := fun _ s => Rep env s L N ∧ s.publicKeys = r'.publicKeys)
    (fun ha => ?_) fun _ => ⟨h, rfl⟩).bind fun _ s hs => ⟨rfl, hs.1, hs.2⟩
  exact ⟨rep_create h (by simpa using ha), rfl⟩

theorem rep_attach (h : Rep env r L N) {k : PublicKey} (hk : r.publicKeys.get k = none) :
    Rep env (attach (env.addressFromPublicKey k) k r) L N := by
  refine ⟨h.sound.attach hk, funext fun b => ?_, h.names⟩
  have hw : (attach (env.addressFromPublicKey k) k r).wallet b = _ := wallet_setWallet r _ _ b
  unfold accounts
  rw [hw, ← h.accounts]
  by_cases hb : b = env.addressFromPublicKey k
  · subst hb
    simp [accounts]
  · simp [hb, accounts]

/-- **`findByPublicKey` answers the wallet at the address of the key and changes no account.** -/
theorem findByPublicKey_spec (h : Rep env r L N) (k : PublicKey) :
    (findByPublicKey env k).Spec r (fun a r' => a = env.addressFromPublicKey k ∧
      Rep env r' L N ∧ r'.publicKeys.get k = some (env.addressFromPublicKey k))
      fun _ _ => False := by
  unfold findByPublicKey
  refine (Prog.Spec.gets (Q := fun known r' => r' = r ∧ known = r.hasByPublicKey k)
    ⟨rfl, rfl⟩).bind ?_
  rintro known r' ⟨rfl, rfl⟩
  refine (Prog.Spec.when (Q := fun _ s => Rep env s L N ∧
    s.publicKeys.get k = some (env.addressFromPublicKey k)) (fun hk => ?_) fun hk => ?_).bind
      fun _ s hs => ?_
  · have hnone : r'.publicKeys.get k = none := by simpa using hk
    refine (findByAddress_spec h _).bind fun a s hs => ?_
    obtain ⟨rfl, hs, hkeys⟩ := hs
    have hnone' : s.publicKeys.get k = none := by rw [hkeys, hnone]
    exact ⟨rep_attach hs hnone', by simp [attach, WalletIndex.get_set]⟩
  · obtain ⟨a, ha⟩ := Option.ne_none_iff_exists'.1 (by simpa using hk)
    refine ⟨h, ?_⟩
    rw [ha, h.sound.keys k a ha]
  · refine (Prog.Spec.gets (Q := fun found s' => s' = s ∧ found = s.publicKeys.get k)
      ⟨rfl, rfl⟩).bind ?_
    rintro found s' ⟨rfl, rfl⟩
    rw [hs.2]
    exact ⟨rfl, hs.1, hs.2⟩

/-! ## 5. Indexing a wallet anew -/

theorem rep_reindexKeys (h : Rep env r L N) (a : Address) :
    Rep env (reindexPublicKey a (reindexAddress a r)) L N := by
  have hs : (reindexAddress a r).Sound env :=
    h.sound.congr (fun b => by rw [wallet_reindexAddress]) fun _ => rfl
  refine ⟨hs.reindexPublicKey a, funext fun b => ?_, ?_⟩
  · show ((reindexPublicKey a (reindexAddress a r)).wallet b).toAccount = L b
    rw [wallet_reindexPublicKey, wallet_reindexAddress]
    exact congrFun h.accounts b
  · rw [← h.names]
    unfold reindexPublicKey
    cases ((reindexAddress a r).wallet a).publicKey <;> rfl

theorem rep_usernames (h : Rep env r L N) (i : WalletIndex String Address) :
    Rep env { r with usernames := i } L ⟨i.get, N.resignations⟩ :=
  ⟨h.sound.congr (fun _ => rfl) fun _ => rfl, h.accounts, by rw [← h.names]; rfl⟩

theorem rep_resignations (h : Rep env r L N) (i : WalletIndex String Address) :
    Rep env { r with resignations := i } L ⟨N.usernames, i.get⟩ :=
  ⟨h.sound.congr (fun _ => rfl) fun _ => rfl, h.accounts, by rw [← h.names]; rfl⟩

/-- A validator without a username cannot be indexed; everything else can. -/
theorem reindexUsername_spec (h : Rep env r L N) {a : Address}
    (hu : (L a).isValidator = true → (L a).username.isSome = true) :
    (reindexUsername a).Spec r (fun _ r' => Rep env r' L
      ⟨Names.relabel N.usernames a (L a).username, N.resignations⟩) fun _ _ => False := by
  unfold reindexUsername
  have hN : r.usernames.get = N.usernames := by rw [← h.names]; rfl
  have hf := rep_usernames h (r.usernames.forgetWallet a)
  refine (Prog.Spec.modify (Q := fun _ s => s = _) rfl).bind ?_
  rintro _ s rfl
  refine (account_spec hf a).bind ?_
  rintro w s ⟨rfl, rfl⟩
  refine Prog.Spec.when (fun hv => ?_) fun hv => ?_
  · obtain ⟨u, hsome⟩ := Option.isSome_iff_exists.1 (hu hv)
    rw [hsome]
    refine (Prog.Spec.pure (Q := fun v s => v = u ∧ s = _) ⟨rfl, rfl⟩).bind ?_
    rintro name s ⟨rfl, rfl⟩
    rw [← hN, ← Names.relabel_some]
    exact rep_usernames hf ((r.usernames.forgetWallet a).set name a)
  · have hnone : (L a).username = none := by
      have : (L a).validator = none := by simpa [Account.isValidator] using hv
      simp [Account.username, this]
    rw [hnone, ← hN, ← Names.relabel_none]
    exact hf

theorem reindexResignation_spec (h : Rep env r L N) {a : Address}
    (hu : (L a).isValidator = true → (L a).username.isSome = true) :
    (reindexResignation a).Spec r (fun _ r' => Rep env r' L ⟨N.usernames,
      Names.relabel N.resignations a (if (L a).isResigned then (L a).username else none)⟩)
      fun _ _ => False := by
  unfold reindexResignation
  have hN : r.resignations.get = N.resignations := by rw [← h.names]; rfl
  have hf := rep_resignations h (r.resignations.forgetWallet a)
  refine (Prog.Spec.modify (Q := fun _ s => s = _) rfl).bind ?_
  rintro _ s rfl
  refine (account_spec hf a).bind ?_
  rintro w s ⟨rfl, rfl⟩
  refine Prog.Spec.when (fun hv => ?_) fun hv => ?_
  · obtain ⟨hval, hres⟩ : (L a).isValidator = true ∧ (L a).isResigned = true := by
      simpa using hv
    obtain ⟨u, hsome⟩ := Option.isSome_iff_exists.1 (hu hval)
    rw [hsome, if_pos hres]
    refine (Prog.Spec.pure (Q := fun v s => v = u ∧ s = _) ⟨rfl, rfl⟩).bind ?_
    rintro name s ⟨rfl, rfl⟩
    rw [← hN, ← Names.relabel_some]
    exact rep_resignations hf ((r.resignations.forgetWallet a).set name a)
  · have hnone : (if (L a).isResigned = true then (L a).username else none) = none := by
      by_cases hres : (L a).isResigned = true
      · have hval : (L a).validator = none := by simpa [Account.isValidator, hres] using hv
        simp [Account.username, hval]
      · rw [if_neg hres]
    rw [hnone, ← hN, ← Names.relabel_none]
    exact hf

/-- **`index(wallet)` relabels the names of that wallet and changes no account.** -/
theorem index_spec (h : Rep env r L N) {a : Address}
    (hu : (L a).isValidator = true → (L a).username.isSome = true) :
    (index a).Spec r (fun _ r' => Rep env r' L (N.reindex a (L a))) fun _ _ => False := by
  unfold index
  refine (Prog.Spec.modify (Q := fun _ s => s = _) rfl).bind ?_
  rintro _ s rfl
  refine (Prog.Spec.modify (Q := fun _ s => s = _) rfl).bind ?_
  rintro _ s rfl
  refine (reindexUsername_spec (rep_reindexKeys h a) hu).bind fun _ s hs => ?_
  exact reindexResignation_spec hs hu

end WalletRepository

end CoreEx
