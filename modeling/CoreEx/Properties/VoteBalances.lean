/-
  File:      CoreEx/Properties/VoteBalances.lean
  Subject:   The vote balances over whole runs.

  A run applies transactions, reverts the most recent one that is not reverted yet, and lets the
  balance mutator pay wallets and take payments back, in any order. What a run keeps is more than
  the equation: the accounts are those after the pending transactions, one after the other, with
  payments in between (`Stacked`). That is what makes the separate formulas of the way back add up.

  * `VoteBalances` -- the equation, as one reads it off a repository;
  * `Ledger.Balanced` -- the same on the ledger; kept by `Ledger.apply` (`Balanced.apply`);
  * `Run` -- the runs; `Stacked`, **`stacked_of_run`** -- their invariant;
  * **`voteBalances_of_run`** -- the equation holds in every repository a run reaches.
-/
import CoreEx.State.BlockState

namespace CoreEx

open WalletRepository Base

/-! ## 1. The equation -/

/-- Every validator's vote balance is the sum of the balances of the wallets whose vote is its
    public key, and every vote is the public key of a validator. -/
structure VoteBalances (env : Services) (r : WalletRepository) : Prop where
  equation : ∀ k, (r.accounts (env.addressFromPublicKey k)).isValidator = true →
    (r.accounts (env.addressFromPublicKey k)).voteBalance? =
      some ((r.allByAddress.filter fun w => w.vote = some k).map fun w => w.balance).sum
  votes : ∀ w ∈ r.allByAddress, ∀ k, w.vote = some k →
    (r.accounts (env.addressFromPublicKey k)).isValidator = true

/-- The vote balances are right, and all the money is on finitely many accounts. -/
def Ledger.Balanced (env : Services) (L : Ledger) : Prop :=
  ∃ S : Finset Address, (∀ a, a ∉ S → (L a).balance = 0) ∧ Tallied env S L

section Equation

variable {env : Services} {L : Ledger} {N : Names} {r : WalletRepository}

/-- Any finite set of accounts may be counted as well. -/
theorem Ledger.Balanced.grow (h : L.Balanced env) (T : Finset Address) :
    ∃ S : Finset Address, T ⊆ S ∧ (∀ a, a ∉ S → (L a).balance = 0) ∧ Tallied env S L := by
  obtain ⟨S, hzero, htally⟩ := h
  refine ⟨S ∪ T, Finset.subset_union_right, fun a ha => ?_, fun k hk => ?_⟩
  · exact hzero a fun hS => ha (Finset.mem_union_left T hS)
  · rw [htally k hk, tally_subset Finset.subset_union_left fun a _ ha => hzero a ha]

/-- The wallets of the repository that vote for `k`, counted on any set that has them all. -/
theorem sum_voters (hinj : Function.Injective env.addressFromPublicKey) {S : Finset Address}
    (hS : ∀ a, r.addresses.has a = true → a ∈ S) (k : PublicKey) :
    ((r.allByAddress.filter fun w => w.vote = some k).map fun w => w.balance).sum =
      tally S (Ledger.delegate env r.accounts) (fun a => (r.accounts a).balance)
        (env.addressFromPublicKey k) := by
  have hfilter : ∀ ws : List Wallet,
      ((ws.filter fun w => w.vote = some k).map fun w => w.balance).sum =
        (ws.map fun w => if w.vote = some k then w.balance else 0).sum := by
    intro ws
    induction ws with
    | nil => rfl
    | cons w ws ih =>
      by_cases hw : w.vote = some k
      · simp [hw, ih]
      · simp [hw, ih]
  rw [hfilter]
  have hsum := OrderedMap.sum_values r.addresses
    (fun w : Wallet => if w.vote = some k then w.balance else 0) (d := Wallet.new) rfl hS
  refine hsum.trans (Finset.sum_congr rfl fun a _ => ?_)
  have hvote : (Ledger.delegate env r.accounts a = some (env.addressFromPublicKey k)) ↔
      (r.wallet a).vote = some k := by
    unfold Ledger.delegate
    rw [Option.map_eq_some_iff]
    constructor
    · rintro ⟨k', hk', heq⟩
      rw [← hinj heq]
      exact hk'
    · intro hk
      exact ⟨k, hk, rfl⟩
  by_cases hv : (r.wallet a).vote = some k
  · rw [if_pos (hvote.2 hv)]
    exact if_pos hv
  · rw [if_neg fun h => hv (hvote.1 h)]
    exact if_neg hv

/-- **The equation on the repository is the equation on its ledger.** -/
theorem voteBalances_iff (hinj : Function.Injective env.addressFromPublicKey)
    (hcons : r.accounts.Consistent env) :
    VoteBalances env r ↔ r.accounts.Balanced env := by
  have hempty : ∀ a, a ∉ r.addresses.keys.toFinset → (r.accounts a).balance = 0 := by
    intro a ha
    unfold accounts
    rw [wallet_of_notMem fun h => ha (List.mem_toFinset.2 h)]
    rfl
  have hkeys : ∀ a, r.addresses.has a = true → a ∈ r.addresses.keys.toFinset :=
    fun a ha => List.mem_toFinset.2 (OrderedMap.mem_keys.2 ha)
  constructor
  · intro h
    refine ⟨r.addresses.keys.toFinset, hempty, fun k hk => ?_⟩
    rw [h.equation k hk, sum_voters hinj hkeys]
  · intro h
    refine ⟨fun k hk => ?_, fun w hw k hk => ?_⟩
    · obtain ⟨S, hsub, -, htally⟩ := h.grow r.addresses.keys.toFinset
      rw [htally k hk, sum_voters hinj fun a ha => hsub (hkeys a ha)]
    · obtain ⟨e, he, rfl⟩ := List.mem_map.1 hw
      have hget : r.addresses.get? e.1 = some e.2 := OrderedMap.mem_entries.1 he
      refine hcons.votes e.1 _ ?_
      simp [Ledger.delegate, accounts, wallet, hget, hk]

/-! ## 2. What keeps it -/

theorem Ledger.Balanced.move (h : L.Balanced env) (ps : List (Address × Int)) :
    (L.move env ps).Balanced env := by
  obtain ⟨S, hsub, hzero, htally⟩ := h.grow (ps.map Prod.fst).toFinset
  have hps : ∀ p ∈ ps, p.1 ∈ S :=
    fun p hp => hsub (List.mem_toFinset.2 (List.mem_map_of_mem hp))
  refine ⟨S, fun a ha => ?_, htally.move hps⟩
  rw [Ledger.move_balance, hzero a ha, posted_of_notMem, add_zero]
  rintro p hp rfl
  exact ha (hps p hp)

theorem Ledger.Balanced.redelegate (h : L.Balanced env) (a : Address) (vote : Option PublicKey) :
    (L.redelegate env a vote).Balanced env := by
  obtain ⟨S, hsub, hzero, htally⟩ := h.grow {a}
  refine ⟨S, fun b hb => ?_, htally.redelegate (hsub (Finset.mem_singleton_self a)) vote⟩
  rw [Ledger.redelegate_balance]
  exact hzero b hb

theorem Ledger.Balanced.change (h : L.Balanced env) {a : Address} {f : Account → Account}
    (hbal : (f (L a)).balance = (L a).balance) (hvote : (f (L a)).vote = (L a).vote)
    (hval : (f (L a)).isValidator = (L a).isValidator)
    (hvb : (f (L a)).voteBalance? = (L a).voteBalance?) : (L.change a f).Balanced env := by
  obtain ⟨S, hzero, htally⟩ := h
  refine ⟨S, fun b hb => ?_, htally.change hbal hvote hval hvb⟩
  rw [Ledger.change_apply]
  split
  · rename_i hba
    rw [← hba] at hbal
    rw [hbal]
    exact hzero b hb
  · exact hzero b hb

/-- A new validator begins with the vote balance zero, and nobody stands behind it yet. -/
theorem Ledger.Balanced.register (h : L.Balanced env) (hcons : L.Consistent env) {a : Address}
    (ha : (L a).isValidator = false) (username : Option String) :
    (L.change a (·.setValidator (some (registered username)))).Balanced env := by
  obtain ⟨S, hzero, htally⟩ := h
  have hdel : (L.change a (·.setValidator (some (registered username)))).delegate env =
      L.delegate env := Ledger.delegate_change _ (by intro _; rfl) env a L
  have hbal : (fun b => (L.change a (·.setValidator (some (registered username))) b).balance) =
      fun b => (L b).balance := by
    funext b
    rw [Ledger.change_apply]
    split <;> rfl
  refine ⟨S, fun b hb => ?_, fun k hk => ?_⟩
  · rw [show (L.change a (·.setValidator (some (registered username))) b).balance =
      (L b).balance from congrFun hbal b]
    exact hzero b hb
  · rw [hdel, hbal]
    by_cases hka : env.addressFromPublicKey k = a
    · have hnobody : ∀ b, L.delegate env b ≠ some (env.addressFromPublicKey k) := by
        intro b hb
        have hval := hcons.votes b _ hb
        rw [hka, ha] at hval
        cases hval
      rw [tally_eq_zero hnobody, hka, Ledger.change_self]
      rfl
    · rw [Ledger.change_of_ne hka] at hk ⊢
      exact htally k hk

/-- **A transaction keeps the vote balances right.** -/
theorem Ledger.Balanced.apply {t : Transaction} {s : Address} (h : L.Balanced env)
    (hcons : L.Consistent env) (ht : Admitted env L N s t) :
    (L.apply env t s).Balanced env := by
  have hbump : (L.bump s (nonceOf t)).Balanced env := h.change rfl rfl rfl rfl
  have hmoved : (moved env t s L).Balanced env := hbump.move _
  have hmcons : (moved env t s L).Consistent env := moved_consistent hcons
  unfold Ledger.apply shape
  by_cases hv : t.data.type = TransactionType.vote
  · simp only [if_pos hv]
    exact hmoved.redelegate s _
  simp only [if_neg hv]
  by_cases h₁ : t.data.type = TransactionType.validatorRegistration
  · simp only [if_pos h₁]
    refine hmoved.register hmcons ?_ _
    rw [moved_isValidator]
    exact (ht.registration h₁).fresh
  simp only [if_neg h₁]
  by_cases h₂ : t.data.type = TransactionType.validatorResignation
  · simp only [if_pos h₂]
    have hval : (moved env t s L s).isValidator = true := by
      rw [moved_isValidator]
      exact (ht.resignation h₂).validator
    refine hmoved.change rfl rfl ?_ (setResigned_of_validator hval).2
    rw [hval]
    rfl
  simp only [if_neg h₂]
  by_cases h₃ : t.data.type = TransactionType.multiSignature
  · simp only [if_pos h₃]
    rcases t.data.multiSignature.map env.publicKeyFromMultiSignatureAsset with _ | _ | k
    · exact hmoved
    · exact hmoved
    · exact hmoved.change rfl rfl rfl rfl
  · simp only [if_neg h₃]
    exact hmoved

end Equation

/-! ## 3. Runs -/

/-- What a run reaches from `r₀`, with the transactions applied and not reverted, the most recent
    one first. Every call may be made at another height. -/
inductive Run (env : Services) (r₀ : WalletRepository) :
    WalletRepository → List Transaction → Prop where
  | start : Run env r₀ r₀ []
  | apply {r r' : WalletRepository} {ts : List Transaction} (height : Nat) (t : Transaction) :
    Run env r₀ r ts → t.data.SchemaValid →
    (applyTransaction (env.atHeight height) t).run r = .done () r' → Run env r₀ r' (t :: ts)
  | revert {r r' : WalletRepository} {t : Transaction} {ts : List Transaction} (height : Nat) :
    Run env r₀ r (t :: ts) →
    (revertTransaction (env.atHeight height) t).run r = .done () r' → Run env r₀ r' ts
  | reward {r r' : WalletRepository} {ts : List Transaction} (height : Nat) (forger : Address)
    (block : BlockData) : Run env r₀ r ts →
    (BalanceMutator.apply (env.atHeight height) forger block).run r = .done () r' →
    Run env r₀ r' ts
  | takeBack {r r' : WalletRepository} {ts : List Transaction} (height : Nat) (forger : Address)
    (block : BlockData) : Run env r₀ r ts →
    (BalanceMutator.revert (env.atHeight height) forger block).run r = .done () r' →
    Run env r₀ r' ts

/-- The invariant: good and balanced books, then for each pending transaction the transaction
    and moves of amounts. -/
inductive Stacked (env : Services) : Books → List Transaction → Prop where
  | base {b : Books} : Books.Good env b → b.1.Balanced env → Stacked env b []
  | push {b : Books} {ts : List Transaction} {t : Transaction} (k : PublicKey)
    (ps : List (Address × Int)) : Stacked env b ts → t.data.SchemaValid →
    t.data.senderPublicKey = some k → Admitted env b.1 b.2 (env.addressFromPublicKey k) t →
    Stacked env ((b.1.apply env t (env.addressFromPublicKey k)).move env ps,
      (Books.apply env t (env.addressFromPublicKey k) b).2) (t :: ts)

section Runs

variable {env : Services} {b : Books} {ts : List Transaction} {r r₀ : WalletRepository}

theorem Stacked.sound (h : Stacked env b ts) : Books.Good env b ∧ b.1.Balanced env := by
  induction h with
  | base hgood hbal => exact ⟨hgood, hbal⟩
  | push k ps _ _ _ hadmitted ih =>
    exact ⟨Books.Good.move (Books.Good.apply ih.1 hadmitted) ps,
      (ih.2.apply ih.1.consistent hadmitted).move ps⟩

theorem Stacked.move (h : Stacked env b ts) (ps : List (Address × Int)) :
    Stacked env (b.1.move env ps, b.2) ts := by
  cases h with
  | base hgood hbal => exact .base (Books.Good.move hgood ps) (hbal.move ps)
  | push k qs hts hd hk hadmitted =>
    rw [← Ledger.move_append]
    exact .push k (qs ++ ps) hts hd hk hadmitted

/-- **The invariant holds of everything a run reaches.** -/
theorem stacked_of_run (hgood : Books.Good env (r₀.accounts, r₀.names)) (hsound : r₀.Sound env)
    (hbal : r₀.accounts.Balanced env) (h : Run env r₀ r ts) :
    ∃ b, Stands env b r ∧ Stacked env b ts := by
  induction h with
  | start => exact ⟨(r₀.accounts, r₀.names), ⟨hsound, rfl, rfl⟩, .base hgood hbal⟩
  | apply height t _ hd hrun ih =>
    obtain ⟨b, hr, hb⟩ := ih
    obtain ⟨k, hk⟩ := Option.isSome_iff_exists.1 hd.senderPublicKey
    obtain ⟨hr', hadmitted, -⟩ := (applyTransaction_atomic (N := b.2) hd
      (show b.1.Consistent (env.atHeight height) from
        consistent_atHeight.2 hb.sound.1.consistent) hk).of_done (stands_atHeight.2 hr) hrun
    refine ⟨_, stands_atHeight.1 hr', ?_⟩
    have hpush := Stacked.push k [] hb hd hk (admitted_atHeight.1 hadmitted)
    have hnil : ∀ L : Ledger, L.move env [] = L := by
      intro L
      unfold Ledger.move
      rw [Ledger.post_nil]
      exact Ledger.addVotes_nil L
    rw [hnil] at hpush
    exact hpush
  | @revert r r' t ts height _ hrun ih =>
    obtain ⟨b, hr, hb⟩ := ih
    cases hb with
    | push k ps hts hd hk hadmitted =>
      rename_i b₀
      obtain ⟨L, N⟩ := b₀
      have hL := hts.sound.1.consistent
      have hlater : Later env (Ledger.move env ps) := Later.move ps
      have hback := revertTransaction_always
        (N := (Books.apply env t (env.addressFromPublicKey k) (L, N)).2) hd
        (show Ledger.Consistent (env.atHeight height) _ from
          consistent_atHeight.2 (hlater.consistent (hadmitted.consistent hL)))
        (revertible_atHeight.2 (hlater.revertible (hadmitted.revertible hL))) hk
      have hr' := ((hback _ (stands_atHeight.2 hr)).of_done hrun).1
      refine ⟨(L.move env ps, N), ?_, hts.move ps⟩
      have hbooks := hlater.books_revert hts.sound.1 hadmitted
      rw [← hbooks]
      exact stands_atHeight.1 hr'
  | reward height forger block _ hrun ih =>
    obtain ⟨b, hr, hb⟩ := ih
    have hpay := BalanceMutator.apply_always (N := b.2)
      (show b.1.Consistent (env.atHeight height) from
        consistent_atHeight.2 hb.sound.1.consistent) forger block
    have hr' := ((hpay _ (stands_atHeight.2 hr)).of_done hrun).1
    exact ⟨_, stands_atHeight.1 hr', hb.move (earned forger block)⟩
  | takeBack height forger block _ hrun ih =>
    obtain ⟨b, hr, hb⟩ := ih
    have hpay := BalanceMutator.revert_always (N := b.2)
      (show b.1.Consistent (env.atHeight height) from
        consistent_atHeight.2 hb.sound.1.consistent) forger block
    have hr' := ((hpay _ (stands_atHeight.2 hr)).of_done hrun).1
    exact ⟨_, stands_atHeight.1 hr', hb.move (negated (earned forger block))⟩

end Runs

/-- **The vote balances stay right over whole runs**, from any consistent repository in which
    they are right. -/
theorem voteBalances_of_run (env : Services)
    (hinj : Function.Injective env.addressFromPublicKey) (r₀ : ConsistentRepository env)
    (h₀ : VoteBalances env r₀.toWalletRepository) (r : WalletRepository) (ts : List Transaction)
    (hrun : Run env r₀.toWalletRepository r ts) : VoteBalances env r := by
  have hbal := (voteBalances_iff hinj r₀.good.consistent).1 h₀
  obtain ⟨b, hr, hb⟩ := stacked_of_run r₀.good r₀.sound hbal hrun
  have haccounts : r.accounts = b.1 := hr.accounts
  have hcons : r.accounts.Consistent env := haccounts ▸ hb.sound.1.consistent
  exact (voteBalances_iff hinj hcons).2 (haccounts ▸ hb.sound.2)

/-- What a run reaches is consistent. -/
theorem consistent_of_run {env : Services} (hinj : Function.Injective env.addressFromPublicKey)
    (r₀ : ConsistentRepository env) (h₀ : VoteBalances env r₀.toWalletRepository)
    {r : WalletRepository} {ts : List Transaction} (hrun : Run env r₀.toWalletRepository r ts) :
    r.Sound env ∧ Books.Good env (r.accounts, r.names) := by
  have hbal := (voteBalances_iff hinj r₀.good.consistent).1 h₀
  obtain ⟨b, hr, hb⟩ := stacked_of_run r₀.good r₀.sound hbal hrun
  refine ⟨hr.sound, ?_⟩
  rw [hr.accounts, hr.names]
  exact hb.sound.1

/-! ## 4. A run -/

namespace Sample

/-- A validator that votes for itself. -/
def alice : PublicKey := ⟨"alice", by decide⟩

/-- Someone it sends something to. -/
def bob : Address := ⟨"bob", by decide⟩

/-- A transaction of `alice` as the factory rebuilds it. -/
def transaction (type : Nat) (nonce amount : Int) (recipientId : Option Address)
    (asset : TransactionAsset) : Transaction where
  data :=
    { version := some 1, network := some 30, typeGroup := some 1, type := type,
      nonce := some nonce, senderPublicKey := some alice, fee := 5, amount := amount,
      expiration := none, recipientId := recipientId, vendorField := none, asset := some asset,
      id := some "id", signature := some "idalice", signatures := none }
  serialized := "00"

def registration : Transaction :=
  transaction TransactionType.validatorRegistration 1 0 none
    { TransactionAsset.empty with username := some "alice" }

def vote : Transaction :=
  transaction TransactionType.vote 2 0 none
    { TransactionAsset.empty with votes := some [alice], unvotes := some [] }

def transfer : Transaction := transaction TransactionType.transfer 3 7 (some bob) .empty

theorem registration_valid : registration.data.SchemaValid :=
  ⟨rfl, rfl, rfl, rfl, by decide, by decide, fun _ => rfl, fun h => (nomatch h),
    fun _ h => (nomatch h), fun _ h => (nomatch h), fun _ h => (nomatch h)⟩

theorem vote_valid : vote.data.SchemaValid :=
  ⟨rfl, rfl, rfl, rfl, by decide, by decide, fun _ => rfl, fun h => (nomatch h),
    fun l h => by cases h; decide, fun l h => by cases h; decide, fun _ h => (nomatch h)⟩

theorem transfer_valid : transfer.data.SchemaValid :=
  ⟨rfl, rfl, rfl, rfl, by decide, by decide, fun h => absurd rfl h, fun _ => rfl,
    fun _ h => (nomatch h), fun _ h => (nomatch h), fun _ h => (nomatch h)⟩

/-- A header of `alice` with the reward 100. -/
def header (height : Nat) (numberOfTransactions : Nat) (totalFee : Int) : BlockData where
  id := some "block"
  timestamp := 0
  version := 0
  height := height
  previousBlock := none
  numberOfTransactions := numberOfTransactions
  totalAmount := 0
  totalFee := totalFee
  reward := 100
  payloadLength := 0
  payloadHash := ""
  generatorPublicKey := alice
  blockSignature := none

/-- The repository after a reward, a registration and a vote. -/
def funded : WalletRepository :=
  ((BalanceMutator.apply Services.simple ⟨"alice", by decide⟩ (header 1 0 0)).run .empty).state

def registered : WalletRepository :=
  ((applyTransaction Services.simple registration).run funded).state

def voted : WalletRepository := ((applyTransaction Services.simple vote).run registered).state

def transferred : WalletRepository := ((applyTransaction Services.simple transfer).run voted).state

end Sample

theorem voteBalances_empty (env : Services) : VoteBalances env .empty :=
  ⟨fun _ h => (nomatch h), fun _ h => (nomatch h)⟩

namespace Sample

theorem registered_run : Run Services.simple .empty registered [registration] :=
  .apply 1 registration (.reward 1 ⟨"alice", by decide⟩ (header 1 0 0) .start
    (Outcome.eq_done (by decide))) registration_valid (Outcome.eq_done (by decide))

/-- The repository in which `alice` is a validator, with what the run keeps. -/
def repository : ConsistentRepository Services.simple where
  toWalletRepository := registered
  sound := (consistent_of_run Services.simple_injective (.empty _) (voteBalances_empty _)
    registered_run).1
  good := (consistent_of_run Services.simple_injective (.empty _) (voteBalances_empty _)
    registered_run).2

end Sample

/-- Paid, registered, voted for itself, spent 7 and the fee: the vote balance is what is left. -/
theorem voteBalances_of_run_sample : VoteBalances Services.simple Sample.transferred ∧
    (Sample.transferred.accounts ⟨"alice", by decide⟩).voteBalance? = some 78 :=
  ⟨voteBalances_of_run Services.simple Services.simple_injective (.empty Services.simple)
    (voteBalances_empty _) Sample.transferred [Sample.transfer, Sample.vote, Sample.registration]
    (.apply 1 Sample.transfer (.apply 1 Sample.vote Sample.registered_run
      Sample.vote_valid (Outcome.eq_done (by decide)))
      Sample.transfer_valid (Outcome.eq_done (by decide))), by decide⟩

end CoreEx
