/-
  File:      CoreEx/Properties/Supply.lean
  Subject:   The money in all wallets together.

  Six handlers debit and credit in their own ways, and the forger is paid at the end. Written as
  postings, what a transaction does to the balances adds up to minus its fee, whoever appears in
  it how often; the forger gets the fees back with the reward on top.

  * `WalletRepository.supply` -- the sum of all balances;
  * `sum_entries`, `Ledger.apply_balance` -- one transaction;
  * `Applied.balances`, `Applied.solvent` -- a list of them;
  * **`supply_of_applyBlock`** -- a block adds its reward, and no balance becomes negative.
-/
import CoreEx.Properties.Reversal

namespace CoreEx

open WalletRepository Base

/-! ## 1. All balances -/

/-- The sum of the balances of all wallets. -/
def WalletRepository.supply (r : WalletRepository) : Int :=
  (r.allByAddress.map fun w => w.balance).sum

/-- No wallet is in debt. -/
def WalletRepository.Solvent (r : WalletRepository) : Prop :=
  ∀ w ∈ r.allByAddress, 0 ≤ w.balance

section Repository

variable {r : WalletRepository}

theorem supply_eq {S : Finset Address} (hS : ∀ a, r.addresses.has a = true → a ∈ S) :
    r.supply = ∑ a ∈ S, (r.accounts a).balance :=
  OrderedMap.sum_values r.addresses (fun w : Wallet => w.balance) (d := Wallet.new) rfl hS

theorem solvent_iff : r.Solvent ↔ ∀ a, 0 ≤ (r.accounts a).balance := by
  constructor
  · intro h a
    cases hget : r.addresses.get? a with
    | none => simp [accounts, wallet, hget, Wallet.new, Account.new]
    | some w =>
      have hmem : w ∈ r.allByAddress :=
        List.mem_map.2 ⟨(a, w), OrderedMap.mem_entries.2 hget, rfl⟩
      simpa [accounts, wallet, hget] using h w hmem
  · intro h w hw
    obtain ⟨e, he, rfl⟩ := List.mem_map.1 hw
    have hget : r.addresses.get? e.1 = some e.2 := OrderedMap.mem_entries.1 he
    simpa [accounts, wallet, hget] using h e.1

end Repository

/-! ## 2. One transaction -/

section Transactions

variable {env : Services} {L : Ledger} {b b' : Books} {t : Transaction} {ts : List Transaction}
  {s : Address}

/-- The postings of a transaction add up to minus its fee. -/
theorem sum_entries (hd : t.data.SchemaValid) (s : Address) :
    ((entries t.data s).map Prod.snd).sum = -t.data.fee := by
  have hhead : ((entries t.data s).map Prod.snd).sum =
      -(t.data.amount + t.data.fee) + ((transferred t.data s).map Prod.snd).sum := rfl
  rw [hhead]
  unfold transferred
  by_cases ht : t.data.type = TransactionType.transfer
  · obtain ⟨a, ha⟩ := Option.isSome_iff_exists.1 (hd.recipientId ht)
    rw [if_pos ht, ha]
    show -(t.data.amount + t.data.fee) + (t.data.amount + 0) = -t.data.fee
    omega
  · have hzero := hd.amount_zero ht
    rw [if_neg ht, hzero]
    by_cases hm : t.data.type = TransactionType.multiPayment
    · rw [if_pos hm, List.map_cons, List.sum_cons, sum_paid]
      omega
    · rw [if_neg hm]
      show -(0 + t.data.fee) + 0 = -t.data.fee
      omega

/-- What a transaction does to the balances is its postings. -/
theorem Ledger.apply_balance (a : Address) :
    (L.apply env t s a).balance = (L a).balance + posted (entries t.data s) a := by
  have hmoved : (moved env t s L a).balance = (L a).balance + posted (entries t.data s) a := by
    unfold moved
    rw [Ledger.move_balance, Ledger.bump, Ledger.change_apply]
    split <;> rfl
  unfold Ledger.apply
  by_cases hv : t.data.type = TransactionType.vote
  · simp only [if_pos hv]
    rw [Ledger.redelegate_balance]
    exact hmoved
  · simp only [if_neg hv]
    obtain ⟨c, f, hf, hshape⟩ := shape_inert (s := s) hv
    rw [hshape, Ledger.change_apply]
    split
    · rw [hf.balance]
      exact hmoved
    · exact hmoved

/-- Receiving is no debt. -/
theorem posted_nonneg {ps : List (Address × Int)} (h : ∀ p ∈ ps, 0 ≤ p.2) (a : Address) :
    0 ≤ posted ps a := by
  induction ps with
  | nil => exact le_refl 0
  | cons p ps ih =>
    have hp : 0 ≤ p.2 := h p List.mem_cons_self
    have hps := ih fun q hq => h q (List.mem_cons_of_mem _ hq)
    rw [posted_cons]
    split
    · omega
    · omega

/-- **What the check makes sure of is enough**: after a covered transaction nobody is in debt. -/
theorem Ledger.apply_solvent (hd : t.data.SchemaValid) (hcovered : Covered L s t)
    (hL : ∀ a, 0 ≤ (L a).balance) (a : Address) : 0 ≤ (L.apply env t s a).balance := by
  have hamount := hcovered.amount
  have ha := hL a
  rw [Ledger.apply_balance]
  show 0 ≤ (L a).balance + ((if s = a then -(t.data.amount + t.data.fee) else 0) +
    posted (transferred t.data s) a)
  by_cases hm : t.data.type = TransactionType.multiPayment
  · -- the sender pays the sum first; what it pays itself comes back
    have hnot : t.data.type ≠ TransactionType.transfer := by
      rw [hm]
      decide
    have hpayments := hcovered.payments hm
    have hpaid : 0 ≤ posted (paid (t.data.payments.getD [])) a := by
      refine posted_nonneg (fun p hp => ?_) a
      obtain ⟨q, hq, rfl⟩ := List.mem_map.1 hp
      cases hps : t.data.payments with
      | none =>
        rw [hps] at hq
        cases hq
      | some l =>
        rw [hps] at hq
        exact hd.payments l hps q hq
    have hzero := hd.amount_zero hnot
    unfold transferred
    rw [if_neg hnot, if_pos hm, posted_cons]
    by_cases hs : s = a
    · subst hs
      simp only [if_true]
      omega
    · simp only [if_neg hs]
      omega
  · have hreceived : 0 ≤ posted (transferred t.data s) a := by
      refine posted_nonneg (fun p hp => ?_) a
      unfold transferred at hp
      by_cases ht : t.data.type = TransactionType.transfer
      · rw [if_pos ht] at hp
        obtain ⟨c, -, rfl⟩ := List.mem_map.1 hp
        exact hd.amount
      · rw [if_neg ht, if_neg hm] at hp
        cases hp
    by_cases hs : s = a
    · subst hs
      rw [if_pos rfl]
      omega
    · rw [if_neg hs]
      omega

/-! ## 3. A list of transactions -/

/-- A list of transactions moves the balances by postings that add up to minus the fees. -/
theorem Applied.balances (h : Applied env b ts b') (hts : ∀ t ∈ ts, t.data.SchemaValid) :
    ∃ ps, (∀ a, (b'.1 a).balance = (b.1 a).balance + posted ps a) ∧
      (ps.map Prod.snd).sum = -(ts.map fun t => t.data.fee).sum := by
  induction h with
  | nil b => exact ⟨[], fun a => (add_zero _).symm, rfl⟩
  | @cons b b' t ts k _ _ _ _ ih =>
    obtain ⟨ps, hps, hsum⟩ := ih fun t' ht' => hts t' (List.mem_cons_of_mem _ ht')
    refine ⟨entries t.data (env.addressFromPublicKey k) ++ ps, fun a => ?_, ?_⟩
    · rw [hps a, posted_append, ← add_assoc]
      exact congrArg (· + posted ps a) (Ledger.apply_balance a)
    · rw [List.map_append, List.sum_append, hsum, sum_entries (hts t List.mem_cons_self),
        List.map_cons, List.sum_cons]
      omega

theorem Applied.solvent (h : Applied env b ts b') (hts : ∀ t ∈ ts, t.data.SchemaValid)
    (hb : ∀ a, 0 ≤ (b.1 a).balance) : ∀ a, 0 ≤ (b'.1 a).balance := by
  induction h with
  | nil b => exact hb
  | cons k _ _ covered _ ih =>
    exact ih (fun t' ht' => hts t' (List.mem_cons_of_mem _ ht'))
      (Ledger.apply_solvent (hts _ List.mem_cons_self) covered hb)

/-- With the forger's part: one more posting. -/
theorem forged_balance (a : Address) (d : BlockData) (L : Ledger) (c : Address) :
    (forged env a d L c).balance = (L c).balance + posted (earned a d) c := by
  unfold forged
  rw [Ledger.change_apply]
  split
  · exact Ledger.move_balance env _ _ _
  · exact Ledger.move_balance env _ _ _

end Transactions

/-! ## 4. A block -/

/-- **A block whose `totalFee` is the sum of the fees adds its reward to the supply, and leaves
    nobody in debt.** -/
theorem supply_of_applyBlock (env : Services) (n : ConsistentNode env) (block : Block)
    (hblock : block.SchemaValid)
    (hfee : block.data.totalFee = (block.transactions.map fun t => t.data.fee).sum)
    (s' : NodeState) (happly : (BlockState.applyBlock env block).run n.state = .done () s') :
    s'.repository.supply = n.repository.supply + block.data.reward ∧
    (n.repository.Solvent → 0 ≤ block.data.reward → s'.repository.Solvent) := by
  obtain ⟨b, st, happlied, -, hs', -⟩ := ((BlockState.applyBlock_spec hblock n.repository.good
    n.ordered n.stands).of_done happly).1
  have haccounts := hs'.1.accounts
  obtain ⟨ps, hps, hsum⟩ := happlied.balances hblock
  have hbalance : ∀ a, (s'.repository.accounts a).balance = (n.repository.accounts a).balance +
      posted (ps ++ earned (env.addressFromPublicKey block.data.generatorPublicKey)
        block.data) a := by
    intro a
    rw [haccounts, posted_append, ← add_assoc]
    exact (forged_balance _ _ _ a).trans (congrArg (· + posted (earned _ _) a) (hps a))
  constructor
  · -- count on all addresses that occur anywhere
    let qs := ps ++ earned (env.addressFromPublicKey block.data.generatorPublicKey) block.data
    let S := n.repository.addresses.keys.toFinset ∪ s'.repository.addresses.keys.toFinset ∪
      (qs.map Prod.fst).toFinset
    have hbefore : n.repository.supply = ∑ a ∈ S, (n.repository.accounts a).balance :=
      supply_eq fun a ha => Finset.mem_union_left _ (Finset.mem_union_left _
        (List.mem_toFinset.2 (OrderedMap.mem_keys.2 ha)))
    have hafter : s'.repository.supply = ∑ a ∈ S, (s'.repository.accounts a).balance :=
      supply_eq fun a ha => Finset.mem_union_left _ (Finset.mem_union_right _
        (List.mem_toFinset.2 (OrderedMap.mem_keys.2 ha)))
    have hposted : ∑ a ∈ S, posted qs a = (qs.map Prod.snd).sum :=
      sum_posted fun p hp => Finset.mem_union_right _
        (List.mem_toFinset.2 (List.mem_map_of_mem hp))
    have hqs : (qs.map Prod.snd).sum = block.data.reward := by
      show ((ps ++ earned _ block.data).map Prod.snd).sum = _
      rw [List.map_append, List.sum_append, hsum]
      show _ + (block.data.reward + block.data.totalFee + 0) = block.data.reward
      omega
    rw [hafter, hbefore, Finset.sum_congr rfl fun a _ => hbalance a, Finset.sum_add_distrib]
    exact congrArg _ (hposted.trans hqs)
  · intro hsolvent hreward
    have hb := happlied.solvent hblock (solvent_iff.1 hsolvent)
    have hfees : 0 ≤ (block.transactions.map fun t => t.data.fee).sum := by
      refine List.sum_nonneg fun x hx => ?_
      obtain ⟨t, ht, rfl⟩ := List.mem_map.1 hx
      exact (hblock t ht).fee
    refine solvent_iff.2 fun a => ?_
    rw [haccounts]
    have hnonneg : 0 ≤ posted (earned (env.addressFromPublicKey block.data.generatorPublicKey)
        block.data) a := by
      refine posted_nonneg (fun p hp => ?_) a
      obtain rfl := List.mem_singleton.1 hp
      show 0 ≤ block.data.reward + block.data.totalFee
      omega
    have hforged := @forged_balance env
      (env.addressFromPublicKey block.data.generatorPublicKey) block.data b.1 a
    have := hb a
    show 0 ≤ (forged env _ block.data b.1 a).balance
    omega

/-- The sample block adds its reward of 100. -/
theorem supply_of_applyBlock_sample :
    ((BlockState.applyBlock Services.simple Sample.block).run
      Sample.node.state).state.repository.supply = Sample.node.repository.supply + 100 ∧
    ((BlockState.applyBlock Services.simple Sample.block).run
      Sample.node.state).state.repository.Solvent := by
  have h := supply_of_applyBlock Services.simple Sample.node Sample.block Sample.block_valid
    (by decide) _ (Outcome.eq_done (by decide))
  refine ⟨h.1, h.2 ?_ (by decide)⟩
  show ∀ w ∈ Sample.registered.allByAddress, 0 ≤ w.balance
  decide

end CoreEx
