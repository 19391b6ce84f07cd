/-
  File:      CoreEx/State/WalletIndex.lean
  Subject:   `core-state/source/wallets/wallet-index.ts`: one index of the wallet repository.

  The class keeps two maps, from a key to its wallet and from a wallet to the set of its keys.
  Every caller reads the first and `forgetWallet` walks the second, so an index is only worth
  something while the two agree. Here that agreement is a field: an index where they differ
  cannot be built.

  * `WalletIndex` -- the two maps and their agreement;
  * `WalletIndex.set`, `forget`, `forgetWallet`, `clear` -- the operations, as the source has them;
  * `get_set`, `get_forget`, `get_forgetWallet` -- what a lookup sees after each;
  * `setAll` -- one wallet under several keys; `mem_values` -- values and lookups tell the same.
-/
import CoreEx.Lib.OrderedMap

namespace CoreEx

/-- An index: `#walletByKey` and `#keysByWallet`. `ω` stands for the identity of a wallet object. -/
structure WalletIndex (κ ω : Type) [DecidableEq κ] [DecidableEq ω] where
  walletByKey : OrderedMap κ ω
  keysByWallet : OrderedMap ω (List κ)
  agree : ∀ k w, walletByKey.get? k = some w ↔ k ∈ (keysByWallet.get? w).getD []

namespace WalletIndex

variable {κ ω : Type} [DecidableEq κ] [DecidableEq ω]

/-! ## 1. Reading -/

def keys (i : WalletIndex κ ω) : List κ := i.walletByKey.keys

def values (i : WalletIndex κ ω) : List ω := i.walletByKey.values

def walletKeys (i : WalletIndex κ ω) (w : ω) : List κ := (i.keysByWallet.get? w).getD []

def has (i : WalletIndex κ ω) (k : κ) : Bool := i.walletByKey.has k

def get (i : WalletIndex κ ω) (k : κ) : Option ω := i.walletByKey.get? k

theorem has_eq (i : WalletIndex κ ω) (k : κ) : i.has k = (i.get k).isSome := rfl

theorem get_eq_some {i : WalletIndex κ ω} {k : κ} {w : ω} :
    i.get k = some w ↔ k ∈ i.walletKeys w :=
  i.agree k w

/-! ## 2. Changing -/

/-- `new WalletIndex(..)`, and what `clear` leaves. -/
def clear : WalletIndex κ ω := ⟨.empty, .empty, by simp⟩

/-- `keys.add(key)` on the keys of one wallet. -/
def addKey (k : κ) (ks : List κ) : List κ := if k ∈ ks then ks else ks ++ [k]

@[simp] theorem mem_addKey {k k' : κ} {ks : List κ} : k' ∈ addKey k ks ↔ k' = k ∨ k' ∈ ks := by
  unfold addKey
  split
  · rename_i h
    constructor
    · exact Or.inr
    · rintro (rfl | h')
      · exact h
      · exact h'
  · simp [or_comm]

/-- The keys of the wallet a key belonged to so far, without that key. -/
def dropKey (k : κ) (existing : Option ω) (m : OrderedMap ω (List κ)) : OrderedMap ω (List κ) :=
  match existing with
  | some e => m.set e (((m.get? e).getD []).filter (· ≠ k))
  | none => m

theorem mem_dropKey {i : WalletIndex κ ω} {k k' : κ} {w : ω} :
    k' ∈ (((dropKey k (i.get k) i.keysByWallet).get? w).getD []) ↔
      k' ≠ k ∧ i.walletByKey.get? k' = some w := by
  rw [i.agree k' w, ← walletKeys]
  cases he : i.get k with
  | none =>
    have hk : ∀ w, k ∉ i.walletKeys w := fun w hw => by simp [get_eq_some.2 hw] at he
    simp only [dropKey]
    exact ⟨fun h => ⟨fun h' => hk w (h' ▸ h), h⟩, And.right⟩
  | some e =>
    simp only [dropKey, OrderedMap.get?_set]
    by_cases hw : w = e
    · subst hw
      simp [walletKeys, and_comm]
    · have hk : k ∉ i.walletKeys w := fun h => by
        have := get_eq_some.2 h
        rw [he] at this
        exact hw (Option.some.inj this).symm
      simp only [hw, if_false]
      exact ⟨fun h => ⟨fun h' => hk (h' ▸ h), h⟩, And.right⟩

/-- Let `key` lead to `wallet`; a key belongs to one wallet only. -/
def set (i : WalletIndex κ ω) (key : κ) (wallet : ω) : WalletIndex κ ω where
  walletByKey := i.walletByKey.set key wallet
  keysByWallet :=
    let rest := dropKey key (i.get key) i.keysByWallet
    rest.set wallet (addKey key ((rest.get? wallet).getD []))
  agree k w := by
    simp only [OrderedMap.get?_set]
    by_cases hw : w = wallet
    · subst hw
      by_cases hk : k = key
      · simp [hk]
      · simp [hk, mem_dropKey]
    · by_cases hk : k = key
      · have : ¬ wallet = w := fun h => hw h.symm
        simp [hk, hw, this, mem_dropKey]
      · simp [hk, hw, mem_dropKey]

/-- Take one key out. -/
def forget (i : WalletIndex κ ω) (key : κ) : WalletIndex κ ω where
  walletByKey := i.walletByKey.delete key
  keysByWallet := dropKey key (i.get key) i.keysByWallet
  agree k w := by
    rw [mem_dropKey, OrderedMap.get?_delete]
    by_cases hk : k = key <;> simp [hk]

/-- Take all keys of one wallet out. -/
def forgetWallet (i : WalletIndex κ ω) (wallet : ω) : WalletIndex κ ω where
  walletByKey := i.walletByKey.filter fun k _ => k ∉ i.walletKeys wallet
  keysByWallet := i.keysByWallet.delete wallet
  agree k w := by
    rw [OrderedMap.get?_filter, OrderedMap.get?_delete]
    by_cases hw : w = wallet
    · subst hw
      simp only [if_true, Option.getD_none, List.not_mem_nil, iff_false, i.agree,
        Option.filter_eq_some_iff, decide_eq_true_eq]
      exact fun h => h.2 h.1
    · have hne : i.walletByKey.get? k = some w → k ∉ i.walletKeys wallet := fun h h' => by
        rw [← get_eq_some, get, h] at h'
        exact hw (Option.some.inj h')
      simp only [hw, if_false, Option.filter_eq_some_iff, decide_eq_true_eq, ← i.agree]
      exact ⟨And.left, fun h => ⟨h, hne h⟩⟩

/-! ## 3. Lookups after a change -/

@[simp] theorem get_clear (k : κ) : (clear : WalletIndex κ ω).get k = none := rfl

theorem get_set (i : WalletIndex κ ω) (key : κ) (wallet : ω) (k : κ) :
    (i.set key wallet).get k = if k = key then some wallet else i.get k :=
  OrderedMap.get?_set _ _ _ _

theorem get_forget (i : WalletIndex κ ω) (key k : κ) :
    (i.forget key).get k = if k = key then none else i.get k :=
  OrderedMap.get?_delete _ _ _

theorem get_forgetWallet (i : WalletIndex κ ω) (wallet : ω) (k : κ) :
    (i.forgetWallet wallet).get k = if i.get k = some wallet then none else i.get k := by
  have h : (i.forgetWallet wallet).get k =
      (i.get k).filter fun _ => decide (k ∉ i.walletKeys wallet) :=
    OrderedMap.get?_filter _ _ _
  rw [h]
  simp only [← get_eq_some]
  cases i.get k with
  | none => simp
  | some w => by_cases hw : w = wallet <;> simp [hw]

/-! ## 4. Several keys at once -/

/-- `for (const key of keys) index.set(key, wallet)`. -/
def setAll (wallet : ω) (keys : List κ) (i : WalletIndex κ ω) : WalletIndex κ ω :=
  keys.foldl (fun i key => i.set key wallet) i

theorem get_setAll (wallet : ω) (keys : List κ) (i : WalletIndex κ ω) (k : κ) :
    (i.setAll wallet keys).get k = if k ∈ keys then some wallet else i.get k := by
  induction keys generalizing i with
  | nil => simp [setAll]
  | cons key keys ih =>
    have hstep : i.setAll wallet (key :: keys) = (i.set key wallet).setAll wallet keys := rfl
    rw [hstep, ih, get_set]
    by_cases hmem : k ∈ keys
    · simp [hmem]
    · by_cases hk : k = key
      · simp [hk]
      · simp [hmem, hk]

theorem mem_values {i : WalletIndex κ ω} {w : ω} : w ∈ i.values ↔ ∃ k, i.get k = some w := by
  unfold values OrderedMap.values get
  rw [List.mem_map]
  constructor
  · rintro ⟨e, he, rfl⟩
    exact ⟨e.1, OrderedMap.mem_entries.1 he⟩
  · rintro ⟨k, hk⟩
    exact ⟨(k, w), OrderedMap.mem_entries.2 hk, rfl⟩

/-- When no wallet has two keys, no wallet is listed twice. -/
theorem values_nodup {i : WalletIndex κ ω}
    (h : ∀ k k' w, i.get k = some w → i.get k' = some w → k = k') : i.values.Nodup := by
  refine List.Nodup.map_on (fun e he e' he' heq => ?_) i.walletByKey.nodup.of_map
  have hk := OrderedMap.mem_entries.1 he
  have hk' := OrderedMap.mem_entries.1 he'
  rw [← heq] at hk'
  exact Prod.ext (h e.1 e'.1 e.2 hk hk') heq

end WalletIndex

end CoreEx
