/-
  File:      CoreEx/Properties/IndexInverse.lean
  Subject:   Any sequence of calls on an index of wallets.

  * `Inverse` -- what is to hold of the two maps;
  * `keysNodup_call` -- no wallet has a key twice;
  * `count_values` -- how often a wallet is listed;
  * **`indexCalls_inverse`** -- after all calls.
-/
import CoreEx.State.WalletMaps

namespace CoreEx

/-- **The maps are inverse to each other.** -/
structure WalletMaps.Inverse {κ ω : Type} [DecidableEq κ] [DecidableEq ω]
    (s : WalletMaps κ ω) : Prop where
  get_iff : ∀ key wallet, s.get key = some wallet ↔ key ∈ s.walletKeys wallet
  one_wallet : ∀ key wallet wallet', key ∈ s.walletKeys wallet → key ∈ s.walletKeys wallet' →
    wallet = wallet'
  listed : ∀ wallet, s.values.count wallet = (s.walletKeys wallet).length

namespace WalletIndex

variable {κ ω : Type} [DecidableEq κ] [DecidableEq ω] {i : WalletIndex κ ω}

/-! ## 1. Sets of keys -/

/-- The keys of a wallet are a set. -/
def KeysNodup (i : WalletIndex κ ω) : Prop := ∀ wallet, (i.walletKeys wallet).Nodup

theorem nodup_addKey {key : κ} {keys : List κ} (h : keys.Nodup) : (addKey key keys).Nodup := by
  unfold addKey
  split
  · exact h
  · rename_i hnot
    refine List.nodup_append.2 ⟨h, List.nodup_singleton key, fun k hk k' hk' heq => ?_⟩
    rw [heq, List.mem_singleton.1 hk'] at hk
    exact hnot hk

theorem nodup_dropKey (h : i.KeysNodup) (key : κ) (wallet : ω) :
    (((dropKey key (i.get key) i.keysByWallet).get? wallet).getD []).Nodup := by
  cases i.get key with
  | none => exact h wallet
  | some existing =>
    unfold dropKey
    dsimp only
    rw [OrderedMap.get?_set]
    by_cases hw : wallet = existing
    · rw [if_pos hw]
      exact (h existing).filter _
    · rw [if_neg hw]
      exact h wallet

theorem KeysNodup.perform (h : i.KeysNodup) (op : IndexOperation κ ω) :
    (i.perform op).KeysNodup := by
  intro w
  cases op with
  | set key wallet =>
    have hrest := nodup_dropKey h key
    show (((dropKey key (i.get key) i.keysByWallet).set wallet
      (addKey key (((dropKey key (i.get key) i.keysByWallet).get? wallet).getD []))).get? w
        |>.getD []).Nodup
    rw [OrderedMap.get?_set]
    by_cases hw : w = wallet
    · rw [if_pos hw]
      exact nodup_addKey (hrest wallet)
    · rw [if_neg hw]
      exact hrest w
  | forget key => exact nodup_dropKey h key w
  | forgetWallet wallet =>
    show (((i.keysByWallet.delete wallet).get? w).getD []).Nodup
    rw [OrderedMap.get?_delete]
    by_cases hw : w = wallet
    · rw [if_pos hw]
      exact List.nodup_nil
    · rw [if_neg hw]
      exact h w
  | clear => exact List.nodup_nil

theorem KeysNodup.call (h : i.KeysNodup) (call : IndexCall κ ω) : (i.call call).KeysNodup := by
  have hall : ∀ (ops : List (IndexOperation κ ω)) (i : WalletIndex κ ω), i.KeysNodup →
      (ops.foldl WalletIndex.perform i).KeysNodup := by
    intro ops
    induction ops with
    | nil => exact fun _ h => h
    | cons op ops ih => exact fun i h => ih _ (h.perform op)
  cases call with
  | operation op => exact h.perform op
  | index wallet indexer => exact hall _ i h

/-! ## 2. Values -/

/-- **A wallet is listed once for each of its keys.** -/
theorem count_values (h : i.KeysNodup) (wallet : ω) :
    i.values.count wallet = (i.walletKeys wallet).length := by
  have hown : ((i.walletByKey.entries.filter (·.2 == wallet)).map Prod.fst).Perm
      (i.walletKeys wallet) := by
    refine (List.perm_ext_iff_of_nodup ?_ (h wallet)).2 fun key => ?_
    · exact i.walletByKey.nodup.sublist (List.filter_sublist.map _)
    · rw [← get_eq_some, List.mem_map]
      refine ⟨fun hkey => ?_, fun hkey => ⟨(key, wallet), ?_, rfl⟩⟩
      · obtain ⟨e, he, rfl⟩ := hkey
        obtain ⟨hmem, hwallet⟩ := List.mem_filter.1 he
        rw [← eq_of_beq hwallet]
        exact OrderedMap.mem_entries.1 hmem
      · exact List.mem_filter.2 ⟨OrderedMap.mem_entries.2 hkey, beq_self_eq_true wallet⟩
  calc i.values.count wallet
      = (i.walletByKey.entries.map Prod.snd).countP (· == wallet) := rfl
    _ = i.walletByKey.entries.countP (·.2 == wallet) := List.countP_map
    _ = (i.walletByKey.entries.filter (·.2 == wallet)).length := List.countP_eq_length_filter
    _ = ((i.walletByKey.entries.filter (·.2 == wallet)).map Prod.fst).length :=
      List.length_map _ |>.symm
    _ = (i.walletKeys wallet).length := hown.length_eq

theorem inverse_maps (h : i.KeysNodup) : i.maps.Inverse where
  get_iff key wallet := i.agree key wallet
  one_wallet key wallet wallet' hkey hkey' := by
    have hget : i.get key = some wallet := get_eq_some.2 hkey
    have hget' : i.get key = some wallet' := get_eq_some.2 hkey'
    exact Option.some.inj (hget.symm.trans hget')
  listed wallet := count_values h wallet

/-! ## 3. All calls -/

theorem run_calls (h : i.KeysNodup) (calls : List (IndexCall κ ω)) :
    ∃ i' : WalletIndex κ ω, i'.KeysNodup ∧
      (Prog.forEach WalletMaps.call calls).run i.maps = .done () i'.maps := by
  induction calls generalizing i with
  | nil => exact ⟨i, h, rfl⟩
  | cons call calls ih =>
    obtain ⟨i', hnodup, hrun⟩ := ih (h.call call)
    refine ⟨i', hnodup, ?_⟩
    rw [Prog.forEach_cons, Prog.run_bind_of_done (run_call i call), hrun]

/-- **The maps of an index are inverse to each other** after every sequence of calls, whatever the
    indexers do; and no call throws. -/
theorem indexCalls_inverse (calls : List (IndexCall κ ω)) :
    ∃ s : WalletMaps κ ω,
      (Prog.forEach WalletMaps.call calls).run .new = .done () s ∧ s.Inverse := by
  have hnew : (WalletIndex.clear : WalletIndex κ ω).KeysNodup := fun _ => List.nodup_nil
  obtain ⟨i, hnodup, hrun⟩ := run_calls hnew calls
  exact ⟨i.maps, hrun, inverse_maps hnodup⟩

end WalletIndex

end CoreEx
