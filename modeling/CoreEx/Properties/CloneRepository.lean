/-
  File:      CoreEx/Properties/CloneRepository.lean
  Subject:   Whether the clone repository leaves the chain's alone.

  Each of its methods asks the repository of the chain whether it has a key before it asks for the
  wallet, so none of them makes the chain create one.

  * **`clone_isolated`** -- over any sequence of operations and changes of the wallets they return.
-/
import CoreEx.State.WalletRepositoryClone

namespace CoreEx

namespace WalletRepositoryClone

open Prog Overlay

/-- **Whatever is done with a clone repository, the repository of the chain, its indexes and its
    wallets stay what they are.** -/
theorem clone_isolated (fromPublicKey : String → Except Exception String) (chain : Chain)
    {t : Session (Overlay Indexes)}
    (run : Session.Run (exec fromPublicKey) (fun _ _ => True) (fun _ _ => False) (start chain) t) :
    t.state.blockchain = chain.indexes ∧
      ∀ i key r, (chain.indexes i).get key = some r →
        t.state.object r = (start chain).state.object r := by
  have hisolated := stable_run (stable_isolated (start chain).state) run (isolated_over chain _)
  exact ⟨hisolated.blockchain, fun i key r hkey => hisolated.object r ⟨i, key, hkey⟩⟩

/-- A wallet of the chain and a new one are looked up, and the copy is changed. -/
theorem clone_isolated_sample : ∃ t : Session (Overlay Indexes),
    Session.Run (exec .ok) (fun _ _ => True) (fun _ _ => False) (start Chain.sample) t ∧
      (t.state.object 1).wallet.nonce = 1 ∧ (t.state.object 2).address = "b" ∧
      t.state.blockchain = Chain.sample.indexes := by
  have run₀ : Session.Run (exec .ok) (fun _ _ => True) (fun _ _ => False) (start Chain.sample)
      (start Chain.sample) := .start _
  have run₁ := Session.Run.operation (.findByAddress "a") run₀ nofun trivial
  have run₂ := Session.Run.operation (.change 1 ⟨{ Account.new with nonce := 1 }, none⟩) run₁
    (by decide) trivial
  have run₃ := Session.Run.operation (.findByAddress "b") run₂ nofun trivial
  exact ⟨_, run₃, rfl, rfl, (clone_isolated .ok Chain.sample run₃).1⟩

end WalletRepositoryClone

end CoreEx
