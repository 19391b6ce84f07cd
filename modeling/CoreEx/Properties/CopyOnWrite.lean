/-
  File:      CoreEx/Properties/CopyOnWrite.lean
  Subject:   Whether the pool's repository leaves the chain's alone.

  `findByAddress` leaves it to the repository of the chain to find a wallet nobody knows yet, and
  that one creates it: the lookup of an unknown address adds a wallet to the chain. The other
  repository over the chain's, `WalletRepositoryClone`, asks `hasByAddress` first.

  * `Known` -- the operations that look up no unknown address;
  * **`isolated_of_known`** -- without such a lookup nothing the chain has changes;
  * **`unknown_creates`** -- with one it does.
-/
import CoreEx.State.Isolation
import CoreEx.State.WalletRepositoryCopyOnWrite

namespace CoreEx

open Prog Overlay

namespace WalletRepositoryCopyOnWrite

/-- The operation looks up no wallet that neither repository has. -/
def Known (fromPublicKey : String → Except Exception String) (s : Overlay Unit) :
    Operation → Prop
  | .findByAddress address => KnowsAddress s address
  | .findByPublicKey publicKey => publicKey = "" ∨ (s.indexes .publicKeys).has publicKey ∨
      ∀ address, fromPublicKey publicKey = .ok address → KnowsAddress s address
  | _ => True

/-! ## 1. Without lookups of unknown wallets -/

/-- **Without lookups of unknown wallets, the repository of the chain, its indexes and its wallets
    stay what they are, whatever the operations and the changes of the wallets they return.** -/
theorem isolated_of_known (fromPublicKey : String → Except Exception String) (chain : Chain)
    {t : Session (Overlay Unit)}
    (run : Session.Run (exec fromPublicKey) (Known fromPublicKey) (fun _ _ => False)
      (Session.over chain ()) t) :
    t.state.blockchain = chain.indexes ∧
      ∀ i key r, (chain.indexes i).get key = some r →
        t.state.object r = (Session.over chain ()).state.object r := by
  have hisolated := (stable_isolated (Session.over chain ()).state).of_run
    (fun op held s hwallets hs hknown => exec_safeAt (stable_isolated _) op hwallets hs
      fun held address hnot hop _ => by
        rcases hop with rfl | ⟨publicKey, rfl, hne, hown, haddress⟩
        · exact absurd hknown hnot
        · rcases hknown with hempty | hhas | hknows
          · exact absurd hempty hne
          · exact absurd hhas (by rw [hown]; nofun)
          · exact absurd (hknows address haddress) hnot)
    (fun _ _ _ _ h => h.elim) run (isolated_over chain ())
  exact ⟨hisolated.blockchain, fun i key r hkey => hisolated.object r ⟨i, key, hkey⟩⟩

/-- The condition is met, and a copy changed. -/
theorem isolated_of_known_sample : ∃ t : Session (Overlay Unit),
    Session.Run (exec .ok) (Known .ok) (fun _ _ => False) (Session.over Chain.sample ()) t ∧
      (t.state.object 1).wallet.nonce = 1 ∧ t.state.blockchain = Chain.sample.indexes := by
  have run₀ : Session.Run (exec .ok) (Known .ok) (fun _ _ => False)
      (Session.over Chain.sample ()) (Session.over Chain.sample ()) := .start _
  have run₁ := Session.Run.operation (.findByAddress "a") run₀ nofun (Or.inr (Or.inr rfl))
  have run₂ := Session.Run.operation (.change 1 ⟨{ Account.new with nonce := 1 }, none⟩) run₁
    (by decide) trivial
  exact ⟨_, run₂, rfl, (isolated_of_known .ok Chain.sample run₂).1⟩

/-! ## 2. The lookup of an unknown wallet -/

variable {s : Overlay Unit}

theorem stable_knows (address : String) :
    Stable fun (_ : List Ref) (s : Overlay Unit) => (s.blockchain .addresses).has address = true where
  alloc _ _ _ h := h
  update _ _ _ _ h _ := h
  setIndexes _ _ _ h _ := h
  setFields _ _ _ h := h
  own _ _ _ _ _ h _ := h
  weaken _ _ _ h _ := h

/-- What comes after the creation does not undo it. -/
theorem findByAddress_creates {address : String} (hunknown : ¬ KnowsAddress s address) :
    (findByAddress address).Spec s (fun _ s' => (s'.blockchain .addresses).has address = true)
      fun _ s' => (s'.blockchain .addresses).has address = true := by
  have hne : address ≠ "" := fun h => hunknown (Or.inl h)
  have hown : (s.indexes .addresses).has address = false :=
    Bool.eq_false_iff.2 fun h => hunknown (Or.inr (Or.inl h))
  have hchain : (s.blockchain .addresses).has address = false :=
    Bool.eq_false_iff.2 fun h => hunknown (Or.inr (Or.inr h))
  have hnone : (s.blockchain .addresses).get address = none := by
    cases h : (s.blockchain .addresses).get address with
    | none => rfl
    | some r => exact absurd hchain (by rw [WalletIndex.has_eq, h]; nofun)
  have hclone : (cloneByAddress address).run s =
      .done () ((s.created address).cloned s.objects.length) := by
    unfold cloneByAddress
    rw [run_bind_of_done (run_hasByIndex_none hown hnone), Prog.when, if_pos rfl,
      run_bind_of_done (run_blockchainFindByAddress hne hchain),
      run_bind_of_done (run_cloneWallet _ _)]
    rfl
  have hcreated : ((s.created address).blockchain .addresses).has address = true := by
    rw [WalletIndex.has_eq, get_created, if_pos ⟨rfl, rfl⟩]
    rfl
  unfold findByAddress Spec
  rw [Prog.when, if_pos hne, run_bind_of_done hclone]
  exact safe_findByIndex (stable_knows address) _ _ [] _ (List.Subset.refl _) hcreated

theorem findByPublicKey_creates {fromPublicKey : String → Except Exception String}
    {publicKey address : String} (hne : publicKey ≠ "")
    (hown : (s.indexes .publicKeys).has publicKey = false)
    (haddress : fromPublicKey publicKey = .ok address) (hunknown : ¬ KnowsAddress s address) :
    (findByPublicKey fromPublicKey publicKey).Spec s
      (fun _ s' => (s'.blockchain .addresses).has address = true)
      fun _ s' => (s'.blockchain .addresses).has address = true := by
  refine Spec.bind (Q := fun known s' => known = false ∧ s' = s) (Spec.gets ⟨hown, rfl⟩)
    fun known s' h => ?_
  obtain ⟨rfl, rfl⟩ := h
  refine Spec.bind (Q := fun _ t => (t.blockchain .addresses).has address = true)
    (Spec.when (fun _ => ?_) fun hc => absurd ⟨hne, rfl⟩ hc) fun _ t ht =>
      safe_getDefined (stable_knows address) _ _ [] t (List.Subset.refl _) ht
  rw [haddress]
  exact (findByAddress_creates hunknown).bind fun _ _ ht => ht

/-- **A lookup of a wallet nobody knows adds one to the chain.** -/
theorem unknown_creates {fromPublicKey : String → Except Exception String} {op : Operation}
    (hunknown : ¬ Known fromPublicKey s op) :
    ((exec fromPublicKey op).run s).state.blockchain ≠ s.blockchain := by
  have hfinal : ∀ {address : String}, ¬ KnowsAddress s address →
      ((exec fromPublicKey op).Spec s (fun _ s' => (s'.blockchain .addresses).has address = true)
        fun _ s' => (s'.blockchain .addresses).has address = true) →
      ((exec fromPublicKey op).run s).state.blockchain ≠ s.blockchain := by
    intro address hnot hspec hsame
    refine hnot (Or.inr (Or.inr ?_))
    rw [← hsame]
    unfold Spec at hspec
    cases hrun : (exec fromPublicKey op).run s <;> rw [hrun] at hspec <;> exact hspec
  cases op with
  | findByAddress address =>
    exact hfinal hunknown ((findByAddress_creates hunknown).bind fun _ _ h => h)
  | findByPublicKey publicKey =>
    simp only [Known, not_or, not_forall] at hunknown
    obtain ⟨hne, hown, address, haddress, hnot⟩ := hunknown
    exact hfinal hnot ((findByPublicKey_creates hne (Bool.eq_false_iff.2 hown) haddress
      hnot).bind fun _ _ h => h)
  | _ => exact absurd trivial hunknown

/-- The lookup of an unknown address over the chain of a single wallet. -/
theorem unknown_creates_sample : ∃ t : Session (Overlay Unit),
    Session.Run (exec .ok) (fun _ _ => True) (fun _ _ => False) (Session.over Chain.sample ()) t ∧
      t.state.blockchain ≠ Chain.sample.indexes := by
  refine ⟨_, .operation (.findByAddress "b") (.start _) nofun trivial, fun h => ?_⟩
  have hhas := congrFun (congrArg (fun indexes i => (indexes i).has "b") h) WalletIndexes.addresses
  revert hhas
  decide

end WalletRepositoryCopyOnWrite

end CoreEx
