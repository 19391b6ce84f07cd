/-
  File:      CoreEx/State/WalletMaps.lean
  Subject:   `core-state/source/wallets/wallet-index.ts` once more: the two maps as they are, without
             the promise that they agree.

  `WalletIndex` carries the agreement of its maps; the class does not. Here the operations work on
  any two maps, and throw where the source reads a property of what is not there. Where the maps are
  those of a `WalletIndex`, they do what the operations of that do.

  * `WalletMaps` -- the maps; `set`, `forget`, `forgetWallet`, `clear`, `index` -- the operations;
  * `IndexCall` -- a call of one of them;
  * `WalletIndex.maps` -- the maps of an index; **`run_perform`**, `run_call` -- the simulation.
-/
import CoreEx.Contracts.Exceptions
import CoreEx.Lib.Prog
import CoreEx.State.WalletIndex

namespace CoreEx

/-- `#walletByKey` and `#keysByWallet`. -/
structure WalletMaps (κ ω : Type) where
  walletByKey : OrderedMap κ ω
  keysByWallet : OrderedMap ω (List κ)

/-- Code that works on the maps and may throw. -/
abbrev MapsProg (κ ω : Type) : Type → Type := Prog (WalletMaps κ ω) Exception

/-- An operation on one of the two maps, or on both. -/
inductive IndexOperation (κ ω : Type)
  | set (key : κ) (wallet : ω)
  | forget (key : κ)
  | forgetWallet (wallet : ω)
  | clear

/-- A call of a method. What the indexer does with the index that it is given may depend on the
    wallet, on the index, and on all else there is when it is called. -/
inductive IndexCall (κ ω : Type)
  | operation (op : IndexOperation κ ω)
  | index (wallet : ω) (indexer : WalletMaps κ ω → ω → List (IndexOperation κ ω))

namespace WalletMaps

variable {κ ω : Type} [DecidableEq κ] [DecidableEq ω]

/-! ## 1. The code -/

/-- A new index. -/
def new : WalletMaps κ ω := ⟨.empty, .empty⟩

def get (s : WalletMaps κ ω) (key : κ) : Option ω := s.walletByKey.get? key

def walletKeys (s : WalletMaps κ ω) (wallet : ω) : List κ := (s.keysByWallet.get? wallet).getD []

def values (s : WalletMaps κ ω) : List ω := s.walletByKey.values

/-- `this.#keysByWallet.get(wallet)!.delete(key)`. -/
def deleteKey (wallet : ω) (key : κ) : MapsProg κ ω Unit := do
  let existingKeys ← Prog.gets fun s => s.keysByWallet.get? wallet
  match existingKeys with
  | none => Prog.throw (.typeError "Cannot read properties of undefined (reading 'delete')")
  | some ks => Prog.modify fun s =>
    { s with keysByWallet := s.keysByWallet.set wallet (ks.filter (· ≠ key)) }

/-- The key is taken from the wallet it leads to, if there is one. -/
def removeKey (key : κ) : Option ω → MapsProg κ ω Unit
  | some existingWallet => deleteKey existingWallet key
  | none => pure ()

/-- The keys of the wallet, or none of a wallet that has no set of them, with one more. -/
def addKeyTo (wallet : ω) (key : κ) : MapsProg κ ω Unit :=
  Prog.modify fun s => { s with
    keysByWallet := s.keysByWallet.set wallet (WalletIndex.addKey key (s.walletKeys wallet)) }

/-- `set(key, wallet)`. -/
def set (key : κ) (wallet : ω) : MapsProg κ ω Unit := do
  let existingWallet ← Prog.gets fun s => s.walletByKey.get? key
  removeKey key existingWallet
  Prog.modify fun s => { s with walletByKey := s.walletByKey.set key wallet }
  addKeyTo wallet key

/-- `forget(key)`. -/
def forget (key : κ) : MapsProg κ ω Unit := do
  let wallet ← Prog.gets fun s => s.walletByKey.get? key
  match wallet with
  | none => pure ()
  | some wallet => do
    deleteKey wallet key
    Prog.modify fun s => { s with walletByKey := s.walletByKey.delete key }

/-- `forgetWallet(wallet)`. -/
def forgetWallet (wallet : ω) : MapsProg κ ω Unit := do
  let keys ← Prog.gets fun s => s.keysByWallet.get? wallet
  match keys with
  | none => pure ()
  | some keys => do
    Prog.forEach (fun key => Prog.modify fun s => { s with
      walletByKey := s.walletByKey.delete key }) keys
    Prog.modify fun s => { s with keysByWallet := s.keysByWallet.delete wallet }

/-- `clear()`. -/
def clear : MapsProg κ ω Unit := Prog.modify fun _ => new

/-- One of these. -/
def perform : IndexOperation κ ω → MapsProg κ ω Unit
  | .set key wallet => set key wallet
  | .forget key => forget key
  | .forgetWallet wallet => forgetWallet wallet
  | .clear => clear

/-- `index(wallet)`, with the indexer of the index. -/
def index (wallet : ω) (indexer : WalletMaps κ ω → ω → List (IndexOperation κ ω)) :
    MapsProg κ ω Unit := do
  let operations ← Prog.gets fun s => indexer s wallet
  Prog.forEach perform operations

/-- A call. -/
def call : IndexCall κ ω → MapsProg κ ω Unit
  | .operation op => perform op
  | .index wallet indexer => index wallet indexer

end WalletMaps

/-! ## 2. The maps of an index -/

namespace WalletIndex

variable {κ ω : Type} [DecidableEq κ] [DecidableEq ω]

/-- The maps, without their agreement. -/
def maps (i : WalletIndex κ ω) : WalletMaps κ ω := ⟨i.walletByKey, i.keysByWallet⟩

/-- An operation. -/
def perform (i : WalletIndex κ ω) : IndexOperation κ ω → WalletIndex κ ω
  | .set key wallet => i.set key wallet
  | .forget key => i.forget key
  | .forgetWallet wallet => i.forgetWallet wallet
  | .clear => WalletIndex.clear

/-- A call. -/
def call (i : WalletIndex κ ω) : IndexCall κ ω → WalletIndex κ ω
  | .operation op => i.perform op
  | .index wallet indexer => (indexer i.maps wallet).foldl perform i

variable {i : WalletIndex κ ω}

/-- A wallet that is found under a key has a set of keys. -/
theorem keysByWallet_of_get {key : κ} {wallet : ω} (h : i.get key = some wallet) :
    i.keysByWallet.get? wallet = some (i.walletKeys wallet) := by
  have hmem : key ∈ (i.keysByWallet.get? wallet).getD [] := get_eq_some.1 h
  unfold walletKeys
  cases hkeys : i.keysByWallet.get? wallet with
  | none =>
    rw [hkeys] at hmem
    cases hmem
  | some ks => rfl

theorem run_deleteKey {key : κ} {wallet : ω} (h : i.get key = some wallet) :
    (WalletMaps.deleteKey wallet key).run i.maps =
      .done () ⟨i.walletByKey, dropKey key (i.get key) i.keysByWallet⟩ := by
  have hkeys := keysByWallet_of_get h
  have hget : (Prog.gets fun s => s.keysByWallet.get? wallet :
      MapsProg κ ω (Option (List κ))).run i.maps = .done (some (i.walletKeys wallet)) i.maps := by
    rw [Prog.run_gets, ← hkeys]
    rfl
  unfold WalletMaps.deleteKey dropKey
  rw [Prog.run_bind_of_done hget, h]
  rfl

theorem run_removeKey (i : WalletIndex κ ω) (key : κ) :
    (WalletMaps.removeKey key (i.get key)).run i.maps =
      .done () ⟨i.walletByKey, dropKey key (i.get key) i.keysByWallet⟩ := by
  rcases Option.eq_none_or_eq_some (i.get key) with h | ⟨existing, h⟩
  · rw [h]
    rfl
  · have hrun := run_deleteKey h
    rw [h] at hrun ⊢
    exact hrun

theorem run_set (i : WalletIndex κ ω) (key : κ) (wallet : ω) :
    (WalletMaps.set key wallet).run i.maps = .done () (i.set key wallet).maps := by
  have hget : (Prog.gets fun s => s.walletByKey.get? key : MapsProg κ ω (Option ω)).run i.maps =
      .done (i.get key) i.maps := rfl
  unfold WalletMaps.set
  rw [Prog.run_bind_of_done hget, Prog.run_bind_of_done (run_removeKey i key)]
  rfl

theorem run_forget (i : WalletIndex κ ω) (key : κ) :
    (WalletMaps.forget key).run i.maps = .done () (i.forget key).maps := by
  have hget : (Prog.gets fun s => s.walletByKey.get? key : MapsProg κ ω (Option ω)).run i.maps =
      .done (i.get key) i.maps := rfl
  unfold WalletMaps.forget
  rw [Prog.run_bind_of_done hget]
  cases h : i.get key with
  | none =>
    have hsame : i.walletByKey.delete key = i.walletByKey := OrderedMap.delete_of_none h
    show Outcome.done () i.maps = .done () ⟨i.walletByKey.delete key,
      dropKey key (i.get key) i.keysByWallet⟩
    rw [h, hsame]
    rfl
  | some wallet =>
    dsimp only
    rw [Prog.run_bind_of_done (run_deleteKey h)]
    rfl

omit [DecidableEq ω] in
/-- All keys of a wallet, taken out one after the other. -/
theorem run_deleteAll (keys : List κ) (s : WalletMaps κ ω) :
    (Prog.forEach (fun key => Prog.modify fun s => { s with
        walletByKey := s.walletByKey.delete key }) keys : MapsProg κ ω Unit).run s =
      .done () { s with walletByKey := s.walletByKey.filter fun k _ => k ∉ keys } := by
  induction keys generalizing s with
  | nil =>
    have hsame : s.walletByKey.filter (fun k _ => decide (k ∉ ([] : List κ))) = s.walletByKey :=
      OrderedMap.filter_eq_self fun e _ => decide_eq_true List.not_mem_nil
    rw [Prog.forEach_nil, hsame]
    rfl
  | cons key keys ih =>
    rw [Prog.forEach_cons, Prog.run_bind_of_done (Prog.run_modify _ _), ih]
    have hboth : (s.walletByKey.delete key).filter (fun k _ => decide (k ∉ keys)) =
        s.walletByKey.filter fun k _ => decide (k ∉ key :: keys) := by
      unfold OrderedMap.delete
      rw [OrderedMap.filter_filter]
      congr 1
      funext k _
      rw [← Bool.decide_and]
      exact decide_eq_decide.2 (by rw [List.mem_cons, not_or])
    rw [hboth]

theorem run_forgetWallet (i : WalletIndex κ ω) (wallet : ω) :
    (WalletMaps.forgetWallet wallet).run i.maps = .done () (i.forgetWallet wallet).maps := by
  have hget : (Prog.gets fun s => s.keysByWallet.get? wallet :
      MapsProg κ ω (Option (List κ))).run i.maps = .done (i.keysByWallet.get? wallet) i.maps := rfl
  unfold WalletMaps.forgetWallet
  rw [Prog.run_bind_of_done hget]
  cases h : i.keysByWallet.get? wallet with
  | none =>
    have hkeys : i.walletKeys wallet = [] := by
      unfold walletKeys
      rw [h]
      rfl
    have hfirst : i.walletByKey.filter (fun k _ => decide (k ∉ i.walletKeys wallet)) =
        i.walletByKey := by
      rw [hkeys]
      exact OrderedMap.filter_eq_self fun e _ => decide_eq_true List.not_mem_nil
    have hsecond : i.keysByWallet.delete wallet = i.keysByWallet := OrderedMap.delete_of_none h
    show Outcome.done () i.maps = .done () ⟨i.walletByKey.filter fun k _ =>
      decide (k ∉ i.walletKeys wallet), i.keysByWallet.delete wallet⟩
    rw [hfirst, hsecond]
    rfl
  | some keys =>
    have hkeys : i.walletKeys wallet = keys := by
      unfold walletKeys
      rw [h]
      rfl
    dsimp only
    rw [Prog.run_bind_of_done (run_deleteAll keys i.maps), ← hkeys]
    rfl

/-- **An operation on the maps of an index** leaves those of the index after the operation. -/
theorem run_perform (i : WalletIndex κ ω) (op : IndexOperation κ ω) :
    (WalletMaps.perform op).run i.maps = .done () (i.perform op).maps := by
  cases op with
  | set key wallet => exact run_set i key wallet
  | forget key => exact run_forget i key
  | forgetWallet wallet => exact run_forgetWallet i wallet
  | clear => rfl

theorem run_performAll (ops : List (IndexOperation κ ω)) (i : WalletIndex κ ω) :
    (Prog.forEach WalletMaps.perform ops).run i.maps = .done () (ops.foldl perform i).maps := by
  induction ops generalizing i with
  | nil => rfl
  | cons op ops ih =>
    rw [Prog.forEach_cons, Prog.run_bind_of_done (run_perform i op), ih]
    rfl

/-- **A call**, whatever the indexer does. -/
theorem run_call (i : WalletIndex κ ω) (call : IndexCall κ ω) :
    (WalletMaps.call call).run i.maps = .done () (i.call call).maps := by
  cases call with
  | operation op => exact run_perform i op
  | index wallet indexer =>
    have hget : (Prog.gets fun s => indexer s wallet :
        MapsProg κ ω (List (IndexOperation κ ω))).run i.maps =
        .done (indexer i.maps wallet) i.maps := rfl
    show (WalletMaps.index wallet indexer).run i.maps = _
    unfold WalletMaps.index
    rw [Prog.run_bind_of_done hget]
    exact run_performAll _ i

end WalletIndex

end CoreEx
