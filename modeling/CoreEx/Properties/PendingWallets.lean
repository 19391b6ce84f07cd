/-
  File:      CoreEx/Properties/PendingWallets.lean
  Subject:   Whether the pool's repository keeps the copies it has.

  `hasByIndex` copies a wallet when the key is missing on its own side. A wallet that was copied
  before, and got another key on the chain since then, is copied once more by the lookup of that
  key, and the new copy takes all keys: what the pool had changed on the old one is out of sight. A
  lookup that copies nothing, or wallets of which there is no copy yet, takes nothing away.

  * `ChainChange` -- what may happen to the repository of the chain meanwhile;
  * `Copies` -- the wallets of the chain that a lookup copies, from the state it begins in;
  * `KeptEntry`, `Kept` -- an entry, and all, still lead to the same object, contents included;
  * `Copied`, `Copying` -- the course of a lookup: which entries it takes away, and which not;
  * **`lookup_copied`** -- the lookups copy what `Copies` says;
  * **`entry_kept_iff`**, **`lookup_kept_iff`** -- so this is when a lookup loses a copy;
  * **`pending_kept`** -- over any sequence of operations and changes of the chain;
  * **`missingKey_replaces_sample`** -- one missing key is enough to lose a copy.
-/
import CoreEx.State.WalletRepositoryCopyOnWrite

namespace CoreEx

open Prog Overlay

namespace WalletRepositoryCopyOnWrite

/-- The chain has changed: there may be new wallets, other keys and other contents, but the indexes
    of the pool's repository and the copies they lead to are not its business. -/
structure ChainChange (s s' : Overlay Unit) : Prop where
  indexes : s'.indexes = s.indexes
  object : ∀ r, s.Own r → s'.object r = s.object r
  length : s.objects.length ≤ s'.objects.length
  placed : ∀ r, s'.OfChain r → r < s'.objects.length

/-- A wallet of the chain is held: one of its keys leads to a copy. -/
def Held (s : Overlay Unit) (wallet : Ref) : Prop :=
  ∃ i key, (s.blockchain i).get key = some wallet ∧ (s.indexes i).has key = true

/-- The entry of a key still leads to the same object, with the same balance, nonce and
    attributes. -/
def KeptEntry (s t : Overlay Unit) (i : WalletIndexes) (key : String) (r : Ref) : Prop :=
  (t.indexes i).get key = some r ∧
    (t.object r).wallet.toAccount = (s.object r).wallet.toAccount

/-- All entries. -/
def Kept (s t : Overlay Unit) : Prop :=
  ∀ i key r, (s.indexes i).get key = some r → KeptEntry s t i key r

/-! ## 1. What a lookup copies -/

section Copies

variable (s : Overlay Unit)

/-- The key is missing on one's own side, and the wallet has it on the chain. -/
def Missing (i : WalletIndexes) (key : String) (wallet : Ref) : Prop :=
  (s.indexes i).has key = false ∧ (s.blockchain i).get key = some wallet

/-- It is missing in the first of the indexes in which one of the repositories has it. -/
def MissingFirst (key : String) : List WalletIndexes → Ref → Prop
  | [], _ => False
  | i :: is, wallet =>
    if (s.indexes i).has key = true ∨ (s.blockchain i).has key = true then Missing s i key wallet
    else MissingFirst key is wallet

/-- The address of a wallet with a username is missing: the wallet has it on the chain, or is the
    one with the username and nobody has it. -/
def MissingName (named wallet : Ref) : Prop :=
  (s.indexes .addresses).has (s.object named).address = false ∧
    ((s.blockchain .addresses).get (s.object named).address = some wallet ∨
      (s.blockchain .addresses).get (s.object named).address = none ∧ wallet = named)

/-- **The wallets of the chain that a lookup copies**: those of the keys it asks for that are missing
    on one's own side. `has`, and the lists but that of the usernames, ask for none. -/
def Copies (fromPublicKey : String → Except Exception String) : Operation → Ref → Prop
  | .findByAddress address, wallet => Missing s .addresses address wallet
  | .findByPublicKey publicKey, wallet => publicKey ≠ "" ∧
      (s.indexes .publicKeys).has publicKey = false ∧
      ∃ address, fromPublicKey publicKey = .ok address ∧ Missing s .addresses address wallet
  | .findByIndex i key, wallet => Missing s i key wallet
  | .findByIndexes indexes key, wallet => MissingFirst s key indexes wallet
  | .hasByIndex i key, wallet => Missing s i key wallet
  | .getNonce publicKey, wallet => Missing s .publicKeys publicKey wallet
  | .allByIndex .usernames, wallet =>
      ∃ named ∈ (s.blockchain .usernames).values, MissingName s named wallet
  | _, _ => False

end Copies

/-! ## 2. The state in the course of a lookup -/

/-- The wallets in `C` have been copied since `s`: their entries lead to new objects, all others
    where they led. -/
structure Copied (s : Overlay Unit) (C : Ref → Prop) (t : Overlay Unit) : Prop where
  kept : ∀ i key r, (s.indexes i).get key = some r →
    (∀ wallet, C wallet → (s.blockchain i).get key ≠ some wallet) → (t.indexes i).get key = some r
  replaced : ∀ i key wallet, (s.indexes i).has key = true → C wallet →
    (s.blockchain i).get key = some wallet →
    ∃ r, (t.indexes i).get key = some r ∧ s.objects.length ≤ r
  account : ∀ r, r < s.objects.length →
    (t.object r).wallet.toAccount = (s.object r).wallet.toAccount
  length : s.objects.length ≤ t.objects.length

/-- And nothing else has happened. -/
structure Copying (s : Overlay Unit) (C : Ref → Prop) (t : Overlay Unit) : Prop
    extends Copied s C t where
  blockchain : t.blockchain = s.blockchain
  address : ∀ r, r < s.objects.length → (t.object r).address = (s.object r).address
  known : ∀ i key, (t.indexes i).has key = true →
    (s.indexes i).has key = true ∨ ∃ wallet, C wallet ∧ (s.blockchain i).get key = some wallet

variable {s t : Overlay Unit} {C D : Ref → Prop}

theorem Copied.congr (h : Copied s C t) (hiff : ∀ wallet, C wallet ↔ D wallet) : Copied s D t :=
  (funext fun wallet => propext (hiff wallet) : C = D) ▸ h

theorem Copying.congr (h : Copying s C t) (hiff : ∀ wallet, C wallet ↔ D wallet) :
    Copying s D t :=
  (funext fun wallet => propext (hiff wallet) : C = D) ▸ h

theorem Copying.refl (s : Overlay Unit) : Copying s (fun _ => False) s where
  kept _ _ _ h _ := h
  replaced _ _ _ _ h _ := h.elim
  account _ _ := rfl
  length := Nat.le_refl _
  blockchain := rfl
  address _ _ := rfl
  known _ _ h := Or.inl h

/-- No key is lost. -/
theorem Copied.has (h : Copied s C t) {i : WalletIndexes} {key : String}
    (hkey : (s.indexes i).has key = true) : (t.indexes i).has key = true := by
  rw [WalletIndex.has_eq]
  by_cases hcopied : ∃ wallet, C wallet ∧ (s.blockchain i).get key = some wallet
  · obtain ⟨wallet, hwallet, hchain⟩ := hcopied
    obtain ⟨r, hr, _⟩ := h.replaced i key wallet hkey hwallet hchain
    rw [hr]
    rfl
  · obtain ⟨r, hr⟩ := Option.isSome_iff_exists.1 ((WalletIndex.has_eq _ _).symm.trans hkey)
    rw [h.kept i key r hr fun wallet hwallet hchain => hcopied ⟨wallet, hwallet, hchain⟩]
    rfl

/-- A key that is missing was missing. -/
theorem Copied.missing (h : Copied s C t) {i : WalletIndexes} {key : String}
    (hkey : (t.indexes i).has key = false) : (s.indexes i).has key = false :=
  Bool.eq_false_iff.2 fun hhas => Bool.eq_false_iff.1 hkey (h.has hhas)

/-- The same entries, with more objects. -/
theorem Copied.objects (h : Copied s C t) (u : Overlay Unit)
    (hobject : ∀ r, r < t.objects.length →
      (u.object r).wallet.toAccount = (t.object r).wallet.toAccount)
    (hlength : t.objects.length ≤ u.objects.length)
    (hindexes : ∀ i key, (s.indexes i).has key = true →
      (u.indexes i).get key = (t.indexes i).get key) : Copied s C u where
  kept i key r hkey hother := by
    rw [hindexes i key (by rw [WalletIndex.has_eq, hkey]; rfl)]
    exact h.kept i key r hkey hother
  replaced i key wallet hkey hwallet hchain := by
    rw [hindexes i key hkey]
    exact h.replaced i key wallet hkey hwallet hchain
  account r hr := (hobject r (Nat.lt_of_lt_of_le hr h.length)).trans (h.account r hr)
  length := h.length.trans hlength

/-- **One more copy.** -/
theorem Copying.cloned (h : Copying s C t) (wallet : Ref) :
    Copying s (fun w => C w ∨ w = wallet) (t.cloned wallet) := by
  have hobject : ∀ r, r < s.objects.length → (t.cloned wallet).object r = t.object r :=
    fun r hr => object_append t _ (Nat.lt_of_lt_of_le hr h.length)
  refine ⟨⟨fun i key r hkey hother => ?_, fun i key w hkey hw hchain => ?_, fun r hr => ?_, ?_⟩,
    h.blockchain, fun r hr => ?_, fun i key hkey => ?_⟩
  · rw [get_cloned, h.blockchain, if_neg (hother wallet (Or.inr rfl))]
    exact h.kept i key r hkey fun w hw => hother w (Or.inl hw)
  · rw [get_cloned, h.blockchain]
    by_cases hcopied : (s.blockchain i).get key = some wallet
    · rw [if_pos hcopied]
      exact ⟨t.objects.length, rfl, h.length⟩
    · rw [if_neg hcopied]
      rcases hw with hw | rfl
      · exact h.replaced i key w hkey hw hchain
      · exact absurd hchain hcopied
  · rw [hobject r hr]
    exact h.account r hr
  · exact h.length.trans (by simp [Overlay.cloned])
  · rw [hobject r hr]
    exact h.address r hr
  · rw [WalletIndex.has_eq, get_cloned, h.blockchain] at hkey
    by_cases hcopied : (s.blockchain i).get key = some wallet
    · exact Or.inr ⟨wallet, Or.inr rfl, hcopied⟩
    · rw [if_neg hcopied] at hkey
      exact (h.known i key hkey).imp id fun ⟨w, hw, hchain⟩ => ⟨w, Or.inl hw, hchain⟩

/-- `wallet.setPublicKey(publicKey)` and `index.set(publicKey, wallet)`, for a new key. -/
theorem Copied.setPublicKey (h : Copied s C t) (wallet : Ref) {publicKey : String}
    (hnew : (s.indexes .publicKeys).has publicKey = false) :
    (do
      update wallet (·.setPublicKey publicKey)
      updateIndex .publicKeys fun index => index.set publicKey wallet).Spec t
        (fun _ u => Copied s C u) fun _ u => Copied s C u := by
  refine h.objects _ (fun r _ => ?_) (Nat.le_of_eq List.length_set.symm) fun i key hkey => ?_
  · exact object_set_of_eq (o := (t.object wallet).setPublicKey publicKey)
      (·.wallet.toAccount) t rfl r
  · show (Function.update t.indexes .publicKeys
      ((t.indexes .publicKeys).set publicKey wallet) i).get key = (t.indexes i).get key
    by_cases hi : i = .publicKeys
    · subst hi
      have hne : key ≠ publicKey := fun heq => Bool.eq_false_iff.1 hnew (heq ▸ hkey)
      rw [Function.update_self, WalletIndex.get_set, if_neg hne]
    · rw [Function.update_of_ne hi]

/-! ## 3. The lookups -/

/-- Run from `t`, the program has copied the wallets in `C` since `s`, whether it throws or not. -/
def CopiesTo {α : Type} (s : Overlay Unit) (C : Ref → Prop) (x : OverlayProg Unit α)
    (t : Overlay Unit) : Prop :=
  x.Spec t (fun _ u => Copying s C u) fun _ u => Copying s C u

theorem CopiesTo.congr {α : Type} {x : OverlayProg Unit α} (h : CopiesTo s C x t)
    (hiff : ∀ wallet, C wallet ↔ D wallet) : CopiesTo s D x t :=
  h.mono (fun _ _ hu => hu.congr hiff) fun _ _ hu => hu.congr hiff

/-- `hasByIndex` copies the wallet of a key that is missing. -/
theorem hasByIndex_copying (h : Copying s C t) (i : WalletIndexes) (key : String) :
    (hasByIndex i key).Spec t
      (fun known u => Copying s (fun wallet => C wallet ∨ Missing s i key wallet) u ∧
        (known = true → (u.indexes i).has key = true) ∧
        (known = false →
          u = t ∧ (t.indexes i).has key = false ∧ (t.blockchain i).get key = none))
      fun _ _ => False := by
  unfold Spec
  cases hown : (t.indexes i).has key with
  | true =>
    rw [run_hasByIndex_own hown]
    refine ⟨h.congr fun wallet => ⟨Or.inl, fun hwallet => hwallet.elim id fun hmissing => ?_⟩,
      fun _ => hown, nofun⟩
    rcases h.known i key hown with hhas | ⟨w, hw, hchain⟩
    · exact absurd hhas (Bool.eq_false_iff.1 hmissing.1)
    · exact Option.some.inj (hchain.symm.trans hmissing.2) ▸ hw
  | false =>
    cases hchain : (t.blockchain i).get key with
    | none =>
      rw [run_hasByIndex_none hown hchain]
      refine ⟨h.congr fun wallet => ⟨Or.inl, fun hwallet => hwallet.elim id fun hmissing => ?_⟩,
        nofun, fun _ => ⟨rfl, rfl, rfl⟩⟩
      rw [h.blockchain] at hchain
      exact nomatch hmissing.2.symm.trans hchain
    | some wallet =>
      rw [run_hasByIndex_chain hown hchain]
      have hmissing : Missing s i key wallet := ⟨h.missing hown, h.blockchain ▸ hchain⟩
      refine ⟨(h.cloned wallet).congr fun w => or_congr_right ⟨fun hw => hw ▸ hmissing,
        fun hw => Option.some.inj (hw.2.symm.trans hmissing.2)⟩, fun _ => ?_, nofun⟩
      rw [WalletIndex.has_eq, get_cloned, if_pos hchain]
      rfl

/-- `index.get(key)!` changes nothing. -/
theorem getDefined_spec (t : Overlay Unit) (i : WalletIndexes) (key : String) :
    (do
      let found ← Prog.gets fun s : Overlay Unit => (s.indexes i).get key
      defined found).Spec t (fun _ u => u = t) fun _ u => u = t := by
  have hpost : (defined ((t.indexes i).get key) : OverlayProg Unit Ref).Spec t
      (fun _ u => u = t) fun _ u => u = t := by
    cases (t.indexes i).get key with
    | none => exact rfl
    | some r => exact rfl
  exact hpost

theorem findByIndex_copies (h : Copying s C t) (i : WalletIndexes) (key : String) :
    CopiesTo s (fun wallet => C wallet ∨ Missing s i key wallet) (findByIndex i key) t := by
  refine ((hasByIndex_copying h i key).mono (fun _ _ hu => hu) fun _ _ hu => hu.elim).bind
    fun known u hu => ?_
  refine Spec.bind (Q := fun _ u' => u' = u) (Spec.when (fun _ => hu.1) fun _ => rfl)
    fun _ u' hu' => ?_
  subst hu'
  exact (getDefined_spec u' i key).mono (fun _ _ heq => heq ▸ hu.1) fun _ _ heq => heq ▸ hu.1

theorem findByIndexes_copies (s : Overlay Unit) (indexes : List WalletIndexes) (key : String) :
    CopiesTo s (MissingFirst s key indexes)
      (findByIndexes hasByIndex findByIndex indexes key) s := by
  have hloop : ∀ (error : Exception) (is : List WalletIndexes), CopiesTo s (MissingFirst s key is)
      (findInIndexes hasByIndex findByIndex error key is) s := by
    intro error is
    induction is with
    | nil => exact Copying.refl s
    | cons i is ih =>
      refine ((hasByIndex_copying (.refl s) i key).mono (fun _ _ hu => hu) fun _ _ hu =>
        hu.elim).bind fun known u hu => Spec.ite (fun hknown => ?_) fun hknown => ?_
      · have hhas : (s.indexes i).has key = true ∨ (s.blockchain i).has key = true := by
          refine (hu.1.known i key (hu.2.1 hknown)).imp id fun ⟨wallet, _, hchain⟩ => ?_
          rw [WalletIndex.has_eq, hchain]
          rfl
        refine CopiesTo.congr (findByIndex_copies hu.1 i key) fun wallet => ?_
        unfold MissingFirst
        rw [if_pos hhas, false_or, or_self]
      · obtain ⟨rfl, hown, hchain⟩ := hu.2.2 (Bool.eq_false_iff.2 hknown)
        refine CopiesTo.congr ih fun wallet => ?_
        have hnot : ¬((u.indexes i).has key = true ∨ (u.blockchain i).has key = true) := by
          rw [hown, WalletIndex.has_eq, hchain]
          exact fun h => h.elim nofun nofun
        conv_rhs => unfold MissingFirst
        rw [if_neg hnot]
  exact hloop _ indexes

/-- One pass of the loop of `allByUsername`. -/
theorem cloneByUsername_copying (h : Copying s C t) {named : Ref}
    (hnamed : named < s.objects.length) :
    (cloneByUsername named).Spec t
      (fun _ u => Copying s (fun wallet => C wallet ∨ MissingName s named wallet) u)
      fun _ _ => False := by
  refine Spec.bind (Q := fun o u => o.address = (s.object named).address ∧ u = t)
    (Spec.gets ⟨h.address named hnamed, rfl⟩) fun o u hu => ?_
  obtain ⟨haddress, rfl⟩ := hu
  rw [haddress]
  refine (hasByIndex_copying h _ _).bind
    fun known u' hu => Spec.when (fun hunknown => ?_) fun hknown => ?_
  · obtain ⟨rfl, hown, hchain⟩ := hu.2.2 hunknown
    rw [h.blockchain] at hchain
    refine (h.cloned named).congr fun wallet => or_congr_right ⟨fun hwallet => ?_, fun hname => ?_⟩
    · exact ⟨h.missing hown, Or.inr ⟨hchain, hwallet⟩⟩
    · rcases hname.2 with hsome | ⟨_, hwallet⟩
      · exact nomatch hsome.symm.trans hchain
      · exact hwallet
  · refine hu.1.congr fun wallet => or_congr_right ⟨fun hmissing => ?_, fun hname => ?_⟩
    · exact ⟨hmissing.1, Or.inl hmissing.2⟩
    · refine ⟨hname.1, hname.2.elim id fun hnone => ?_⟩
      rcases hu.1.known _ _ (hu.2.1 (Bool.eq_true_of_not_eq_false hknown)) with
        hhas | ⟨w, _, hchain⟩
      · exact absurd hhas (Bool.eq_false_iff.1 hname.1)
      · exact nomatch hchain.symm.trans hnone.1

theorem forEach_copying (names : List Ref) (hnames : ∀ named ∈ names, named < s.objects.length)
    (h : Copying s C t) :
    (Prog.forEach cloneByUsername names).Spec t
      (fun _ u => Copying s (fun wallet => C wallet ∨ ∃ named ∈ names, MissingName s named wallet) u)
      fun _ _ => False := by
  induction names generalizing C t with
  | nil => exact h.congr fun wallet => by simp
  | cons named names ih =>
    refine (cloneByUsername_copying h (hnames named List.mem_cons_self)).bind fun _ u hu => ?_
    refine (ih (fun w hw => hnames w (List.mem_cons_of_mem _ hw)) hu).mono (fun _ u' hu' => ?_)
      fun _ _ hu' => hu'
    exact hu'.congr fun wallet => by simp only [List.mem_cons, exists_eq_or_imp, or_assoc]

theorem allByIndex_copies (hplaced : ∀ r, s.OfChain r → r < s.objects.length)
    (fromPublicKey : String → Except Exception String) (i : WalletIndexes) :
    CopiesTo s (Copies s fromPublicKey (.allByIndex i)) (allByIndex i) s := by
  have hread : CopiesTo s (fun _ => False) (Overlay.allByIndex i) s :=
    Spec.gets (Copying.refl s)
  cases i with
  | usernames =>
    refine Spec.bind (Q := fun names u => names = (s.blockchain .usernames).values ∧ u = s)
      (Spec.gets ⟨rfl, rfl⟩) fun names u hu => ?_
    obtain ⟨rfl, rfl⟩ := hu
    have hnames : ∀ named ∈ (u.blockchain .usernames).values, named < u.objects.length := by
      intro named hnamed
      obtain ⟨username, hget⟩ := WalletIndex.mem_values.1 hnamed
      exact hplaced named ⟨.usernames, username, hget⟩
    refine ((forEach_copying _ hnames (.refl u)).mono (fun _ _ h => h) fun _ _ h => h.elim).bind
      fun _ u' hu' => Spec.gets (hu'.congr fun wallet => ?_)
    exact iff_of_eq (false_or _)
  | addresses => exact hread
  | publicKeys => exact hread
  | resignations => exact hread

/-- A wallet that is created has one key, and nothing was there under it. -/
theorem Copying.created (h : Copying s C t) (hplaced : ∀ r, s.OfChain r → r < s.objects.length)
    {address : String} (hown : (t.indexes .addresses).has address = false) :
    Copied s C ((t.created address).cloned t.objects.length) := by
  refine h.toCopied.objects _ (fun r hr => ?_) (by simp [Overlay.cloned, Overlay.created])
    fun i key hkey => ?_
  · have hlt : r < (t.created address).objects.length := Nat.lt_of_lt_of_le hr
      (by simp [Overlay.created])
    rw [show ((t.created address).cloned t.objects.length).object r = t.object r from
      (object_append (t.created address) _ hlt).trans (object_append t _ hr)]
  · rw [get_cloned, get_created]
    have hne : ¬(i = .addresses ∧ key = address) := by
      intro hsame
      rw [hsame.1, hsame.2, h.missing hown] at hkey
      cases hkey
    have hnew : (t.blockchain i).get key ≠ some t.objects.length := by
      intro hchain
      rw [h.blockchain] at hchain
      exact Nat.lt_irrefl _ (Nat.lt_of_lt_of_le (hplaced _ ⟨i, key, hchain⟩) h.length)
    rw [if_neg hne, if_neg hnew]
    rfl

/-- `findByIndex` of a key one holds copies nothing. -/
theorem findByIndex_own {P : Overlay Unit → Prop} (hs : P s) {i : WalletIndexes} {key : String}
    (hown : (s.indexes i).has key = true) :
    (findByIndex i key).Spec s (fun _ u => P u) fun _ u => P u := by
  unfold findByIndex Overlay.findByIndex Spec
  rw [run_bind_of_done (run_hasByIndex_own hown)]
  exact (getDefined_spec s i key).mono (fun _ _ h => h ▸ hs) fun _ _ h => h ▸ hs

theorem findByAddress_copied (hplaced : ∀ r, s.OfChain r → r < s.objects.length)
    (address : String) :
    (findByAddress address).Spec s (fun _ u => Copied s (Missing s .addresses address) u)
      fun _ u => Copied s (Missing s .addresses address) u := by
  have hfound : CopiesTo s (Missing s .addresses address) (findByIndex .addresses address) s :=
    (findByIndex_copies (.refl s) .addresses address).congr fun wallet => iff_of_eq (false_or _)
  by_cases hempty : address = ""
  · unfold findByAddress Spec
    rw [hempty] at hfound ⊢
    exact hfound.mono (fun _ _ hu => hu.toCopied) fun _ _ hu => hu.toCopied
  · refine Spec.bind (Q := fun _ u => Copied s (Missing s .addresses address) u ∧
      (u.indexes .addresses).has address = true) (Spec.when (fun _ => ?_) fun hnot =>
        absurd hempty hnot) fun _ u hu => findByIndex_own hu.1 hu.2
    refine ((hasByIndex_copying (.refl s) _ _).mono (fun _ _ hu => hu) fun _ _ hu => hu.elim).bind
      fun known u hu => Spec.when (fun hunknown => ?_) fun hknown => ?_
    · obtain ⟨rfl, hown, hchain⟩ := hu.2.2 hunknown
      have hchain' : (u.blockchain .addresses).has address = false := by
        rw [WalletIndex.has_eq, hchain]
        rfl
      unfold Spec
      rw [run_bind_of_done (run_blockchainFindByAddress hempty hchain'),
        run_bind_of_done (run_cloneWallet _ _)]
      refine ⟨(hu.1.created hplaced hown).congr fun wallet => iff_of_eq (false_or _), ?_⟩
      rw [WalletIndex.has_eq, get_cloned, get_created, if_pos (And.intro rfl rfl), if_pos rfl]
      rfl
    · exact ⟨hu.1.toCopied.congr fun wallet => iff_of_eq (false_or _),
        hu.2.1 (Bool.eq_true_of_not_eq_false hknown)⟩

theorem findByPublicKey_copied (hplaced : ∀ r, s.OfChain r → r < s.objects.length)
    (fromPublicKey : String → Except Exception String) (publicKey : String) :
    (findByPublicKey fromPublicKey publicKey).Spec s
      (fun _ u => Copied s (Copies s fromPublicKey (.findByPublicKey publicKey)) u)
      fun _ u => Copied s (Copies s fromPublicKey (.findByPublicKey publicKey)) u := by
  have hnone : (∀ address, ¬(publicKey ≠ "" ∧ (s.indexes .publicKeys).has publicKey = false ∧
      fromPublicKey publicKey = .ok address)) →
      Copied s (Copies s fromPublicKey (.findByPublicKey publicKey)) s := fun hnot =>
    (Copying.refl s).toCopied.congr fun wallet => ⟨False.elim,
      fun ⟨hne, hkey, address, haddress, _⟩ => hnot address ⟨hne, hkey, haddress⟩⟩
  refine Spec.bind (Q := fun known u => known = (s.indexes .publicKeys).has publicKey ∧ u = s)
    (Spec.gets ⟨rfl, rfl⟩) fun known u hu => ?_
  obtain ⟨rfl, rfl⟩ := hu
  refine Spec.bind (Q := fun _ u' =>
      Copied u (Copies u fromPublicKey (.findByPublicKey publicKey)) u')
    (Spec.when (fun hc => ?_) fun hc => hnone fun _ h => hc ⟨h.1, h.2.1⟩)
    fun _ u' hu' => (getDefined_spec u' _ _).mono (fun _ _ h => h ▸ hu') fun _ _ h => h ▸ hu'
  refine Spec.bind (Q := fun address u' => fromPublicKey publicKey = .ok address ∧ u' = u)
    (Spec.ofExcept (fun _ haddress => ⟨haddress, rfl⟩) fun error herror => hnone fun _ h => ?_)
    fun address u' h => ?_
  · exact nomatch herror.symm.trans h.2.2
  obtain ⟨haddress, rfl⟩ := h
  have hcopies : ∀ wallet, Missing u' .addresses address wallet ↔
      Copies u' fromPublicKey (.findByPublicKey publicKey) wallet := fun wallet =>
    ⟨fun h => ⟨hc.1, hc.2, address, haddress, h⟩, fun ⟨_, _, _, h, hmissing⟩ =>
      Except.ok.inj (h.symm.trans haddress) ▸ hmissing⟩
  refine Spec.bind ((findByAddress_copied hplaced address).mono (fun _ _ h => h.congr hcopies)
    fun _ _ h => h.congr hcopies) fun wallet u'' h => ?_
  exact h.setPublicKey wallet hc.2

/-- The public key is an own one when the wallet is looked up. -/
theorem getNonce_copied (fromPublicKey : String → Except Exception String) (publicKey : String) :
    (getNonce hasByIndex (findByPublicKey fromPublicKey) publicKey).Spec s
      (fun _ u => Copied s (Missing s .publicKeys publicKey) u)
      fun _ u => Copied s (Missing s .publicKeys publicKey) u := by
  refine ((hasByIndex_copying (.refl s) _ _).mono (fun _ _ hu => hu) fun _ _ hu => hu.elim).bind
    fun known u hu => ?_
  have hcopied : Copied s (Missing s .publicKeys publicKey) u :=
    hu.1.toCopied.congr fun wallet => iff_of_eq (false_or _)
  refine Spec.ite (fun hknown => Spec.bind (Q := fun _ u' =>
    Copied s (Missing s .publicKeys publicKey) u') ?_ fun _ _ h => h) fun _ => hcopied
  refine Spec.bind (Q := fun known' u' => known' = true ∧ u' = u)
    (Spec.gets ⟨hu.2.1 hknown, rfl⟩) fun known' u' h => ?_
  obtain ⟨rfl, rfl⟩ := h
  refine Spec.bind (Q := fun _ u'' => u'' = u') (Spec.when (fun hc => nomatch hc.2) fun _ => rfl)
    fun _ u'' h => ?_
  subst h
  exact (getDefined_spec u'' _ _).mono (fun _ _ h => h ▸ hcopied) fun _ _ h => h ▸ hcopied

/-- **A lookup copies the wallets `Copies` names, and takes no other entry away.** -/
theorem lookup_copied (hplaced : Placed [] s) (fromPublicKey : String → Except Exception String)
    {op : Operation} (hop : op.isLookup = true) :
    Copied s (Copies s fromPublicKey op) ((exec fromPublicKey op).run s).state := by
  have hfind : ∀ {α : Type} {x : OverlayProg Unit α},
      CopiesTo s (fun wallet => False ∨ Copies s fromPublicKey op wallet) x s →
      x.Spec s (fun _ u => Copied s (Copies s fromPublicKey op) u)
        fun _ u => Copied s (Copies s fromPublicKey op) u := fun hx =>
    (CopiesTo.congr hx fun _ => iff_of_eq (false_or _)).mono (fun _ _ h => h.toCopied)
      fun _ _ h => h.toCopied
  have hspec : (exec fromPublicKey op).Spec s
      (fun _ u => Copied s (Copies s fromPublicKey op) u)
      fun _ u => Copied s (Copies s fromPublicKey op) u := by
    cases op with
    | findByAddress address =>
      exact (findByAddress_copied hplaced.chain address).bind fun _ _ h => h
    | findByPublicKey publicKey =>
      exact (findByPublicKey_copied hplaced.chain fromPublicKey publicKey).bind fun _ _ h => h
    | findByIndex i key =>
      exact (hfind (findByIndex_copies (.refl s) i key)).bind fun _ _ h => h
    | findByIndexes indexes key =>
      exact ((findByIndexes_copies s indexes key).mono (fun _ _ h => h.toCopied)
        fun _ _ h => h.toCopied).bind fun _ _ h => h
    | has key => exact (Copying.refl s).toCopied
    | hasByIndex i key =>
      exact (hfind ((hasByIndex_copying (.refl s) i key).mono (fun _ _ h => h.1)
        fun _ _ h => h.elim)).bind fun _ _ h => h
    | getNonce publicKey =>
      exact (getNonce_copied fromPublicKey publicKey).bind fun _ _ h => h
    | allByIndex i =>
      exact (allByIndex_copies hplaced.chain fromPublicKey i).mono (fun _ _ h => h.toCopied)
        fun _ _ h => h.toCopied
    | _ => cases hop
  exact Prog.Spec.state_iff.1 hspec

/-! ## 4. What a lookup takes away -/

section Lookup

variable (hplaced : Placed [] s) (fromPublicKey : String → Except Exception String)
  {op : Operation} (hop : op.isLookup = true)

include hplaced hop

/-- **A lookup leaves an entry of a copy if and only if the chain has none of the wallets it copies
    under the key of the entry.** -/
theorem entry_kept_iff {i : WalletIndexes} {key : String} {r : Ref}
    (hkey : (s.indexes i).get key = some r) :
    KeptEntry s ((exec fromPublicKey op).run s).state i key r ↔
      ∀ wallet, Copies s fromPublicKey op wallet → (s.blockchain i).get key ≠ some wallet := by
  have h := lookup_copied hplaced fromPublicKey hop
  have hr : r < s.objects.length := hplaced.own r ⟨i, key, hkey⟩
  refine ⟨fun hkept wallet hwallet hchain => ?_, fun hother =>
    ⟨h.kept i key r hkey hother, h.account r hr⟩⟩
  have hhas : (s.indexes i).has key = true := by
    rw [WalletIndex.has_eq, hkey]
    rfl
  obtain ⟨r', hr', hnew⟩ := h.replaced i key wallet hhas hwallet hchain
  obtain rfl : r = r' := Option.some.inj (hkept.1.symm.trans hr')
  exact Nat.lt_irrefl _ (Nat.lt_of_lt_of_le hr hnew)

/-- **A lookup loses no entry if and only if no wallet it copies is held already.** -/
theorem lookup_kept_iff :
    Kept s ((exec fromPublicKey op).run s).state ↔
      ∀ wallet, Copies s fromPublicKey op wallet → ¬Held s wallet := by
  refine ⟨fun hkept wallet hwallet hheld => ?_, fun hfree i key r hkey => ?_⟩
  · obtain ⟨i, key, hchain, hhas⟩ := hheld
    obtain ⟨r, hr⟩ := Option.isSome_iff_exists.1 ((WalletIndex.has_eq _ _).symm.trans hhas)
    exact (entry_kept_iff hplaced fromPublicKey hop hr).1 (hkept i key r hr) wallet hwallet hchain
  · refine (entry_kept_iff hplaced fromPublicKey hop hkey).2 fun wallet hwallet hchain =>
      hfree wallet hwallet ⟨i, key, hchain, ?_⟩
    rw [WalletIndex.has_eq, hkey]
    rfl

end Lookup

/-! ## 5. Sequences of operations -/

/-- An operation that may take place while a copy is to be found under `key`: a lookup that does not
    copy the wallet the chain has under this key, or any other that leaves the entry. -/
def Allowed (fromPublicKey : String → Except Exception String) (i : WalletIndexes) (key : String)
    (r : Ref) (s : Overlay Unit) (op : Operation) : Prop :=
  if op.isLookup then
    ∀ wallet, Copies s fromPublicKey op wallet → (s.blockchain i).get key ≠ some wallet
  else KeptEntry s ((exec fromPublicKey op).run s).state i key r

theorem ChainChange.placed_of {s s' : Overlay Unit} (h : ChainChange s s') {held : List Ref}
    (hs : Placed held s) : Placed held s' :=
  hs.grow h.placed h.indexes h.length

theorem KeptEntry.trans {s t u : Overlay Unit} {i : WalletIndexes} {key : String} {r : Ref}
    (h : KeptEntry s t i key r) (h' : KeptEntry t u i key r) : KeptEntry s u i key r :=
  ⟨h'.1, h'.2.trans h.2⟩

/-- **A copy stays, with the changes made on it, under every key it is held under: whatever the
    operations before, and whatever lookups and changes of the chain come later, as long as no
    lookup copies the wallet the chain has under this key once more.** -/
theorem pending_kept (fromPublicKey : String → Except Exception String) (chain : Chain)
    {s t : Session (Overlay Unit)} {i : WalletIndexes} {key : String} {r : Ref}
    (before : Session.Run (exec fromPublicKey) (fun _ _ => True) ChainChange
      (Session.over chain ()) s)
    (held : (s.state.indexes i).get key = some r)
    (later : Session.Run (exec fromPublicKey) (Allowed fromPublicKey i key r) ChainChange s t) :
    KeptEntry s.state t.state i key r := by
  have hplaced : Placed s.returned s.state :=
    placed_of_run (fun _ _ _ h hc => hc.placed_of h) before (placed_over chain ())
  induction later with
  | start => exact ⟨held, rfl⟩
  | change state earlier ok ih =>
    have hobject := ok.object r ⟨i, key, ih.1⟩
    exact ih.trans ⟨ok.indexes ▸ ih.1, by rw [hobject]⟩
  | @operation t op earlier given ok ih =>
    have hlater : Placed t.returned t.state :=
      placed_of_run (fun _ _ _ h hc => hc.placed_of h) earlier hplaced
    have hafter : (t.after (exec fromPublicKey) op).state =
        ((exec fromPublicKey op).run t.state).state := by
      unfold Session.after
      cases (exec fromPublicKey op).run t.state <;> rfl
    rw [hafter]
    unfold Allowed at ok
    by_cases hop : op.isLookup = true
    · rw [if_pos hop] at ok
      have hnil : Placed [] t.state := stable_placed.weaken _ _ _ hlater (List.nil_subset _)
      exact ih.trans ((entry_kept_iff hnil fromPublicKey hop ih.1).2 ok)
    · rw [if_neg hop] at ok
      exact ih.trans ok

/-- The pool has looked up the wallet of the chain and changed its copy. -/
def Session.pending : Session (Overlay Unit) :=
  ((Session.over Chain.sample ()).after (exec .ok) (.findByAddress "a")).after (exec .ok)
    (.change 1 ⟨{ Account.new with nonce := 1 }, none⟩)

theorem run_pending {outside : Overlay Unit → Overlay Unit → Prop} :
    Session.Run (exec .ok) (fun _ _ => True) outside (Session.over Chain.sample ())
      Session.pending :=
  .operation _ (.operation _ (.start _) nofun trivial) (by decide) trivial

theorem get_pending {i : WalletIndexes} {key : String} {r : Ref}
    (h : (Session.pending.state.blockchain i).get key = some r) : i = .addresses ∧ key = "a" := by
  have hchain : Session.pending.state.blockchain = Chain.sample.indexes := rfl
  rw [hchain, Chain.get_sample] at h
  by_contra hne
  rw [if_neg hne] at h
  cases h

/-- The wallet of the chain has registered as a validator since. -/
def Session.registered : Overlay Unit :=
  { Session.pending.state with
    blockchain := Function.update Session.pending.state.blockchain .usernames
      ((Session.pending.state.blockchain .usernames).set "u" 0) }

theorem chainChange_registered : ChainChange Session.pending.state Session.registered where
  indexes := rfl
  object _ _ := rfl
  length := Nat.le_refl _
  placed r hr := by
    obtain ⟨i, key, hkey⟩ := hr
    have hlength : Session.registered.objects.length = 2 := rfl
    have hindexes : Session.registered.blockchain =
      Function.update Session.pending.state.blockchain .usernames
        ((Session.pending.state.blockchain .usernames).set "u" 0) := rfl
    rw [hlength]
    rw [hindexes] at hkey
    by_cases hi : i = .usernames
    · subst hi
      rw [Function.update_self, WalletIndex.get_set] at hkey
      by_cases hu : key = "u"
      · rw [if_pos hu] at hkey
        cases hkey
        exact Nat.two_pos
      · rw [if_neg hu] at hkey
        exact nomatch (get_pending hkey).1
    · rw [Function.update_of_ne hi] at hkey
      exact (Chain.sample.placed i key r hkey).trans Nat.one_lt_two

/-- Neither the lookup of the address nor that of all usernames minds that the username is new. -/
theorem pending_kept_sample : ∃ t : Session (Overlay Unit),
    (t.state.blockchain .usernames).get "u" = some 0 ∧
      (t.state.indexes .usernames).has "u" = false ∧
      Session.Run (exec .ok) (Allowed .ok .addresses "a" 1) ChainChange Session.pending t ∧
      KeptEntry Session.pending.state t.state .addresses "a" 1 ∧
      (t.state.object 1).wallet.nonce = 1 := by
  have change : Session.Run (exec .ok) (Allowed .ok .addresses "a" 1) ChainChange Session.pending
      { Session.pending with state := Session.registered } :=
    .change _ (.start _) chainChange_registered
  have byAddress := Session.Run.operation (.findByAddress "a") change nofun
    fun wallet hmissing => absurd hmissing.1 (by decide)
  have later := Session.Run.operation (.allByIndex .usernames) byAddress nofun
    fun wallet ⟨named, hnamed, hmissing⟩ => by
      obtain rfl : named = 0 := List.mem_singleton.1 (show named ∈ [0] from hnamed)
      exact absurd hmissing.1 (by decide)
  exact ⟨_, rfl, rfl, later, pending_kept .ok Chain.sample run_pending rfl later, rfl⟩

/-- The pending nonce is lost through the lookup of the new username. -/
theorem missingKey_replaces_sample : ∃ s t : Session (Overlay Unit),
    Session.Run (exec .ok) (fun _ _ => True) ChainChange (Session.over Chain.sample ()) s ∧
      (s.state.indexes .addresses).get "a" = some 1 ∧ (s.state.object 1).wallet.nonce = 1 ∧
      Session.Run (exec .ok) (fun _ op => op.isLookup = true) ChainChange s t ∧
      (t.state.indexes .addresses).get "a" = some 2 ∧ (t.state.object 2).wallet.nonce = 0 :=
  ⟨Session.pending, _, run_pending, rfl, rfl,
    .operation (.hasByIndex .usernames "u") (.change _ (.start _) chainChange_registered) nofun rfl,
    by decide, by decide⟩

end WalletRepositoryCopyOnWrite

end CoreEx
