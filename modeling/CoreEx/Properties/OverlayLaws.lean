/-
  File:      CoreEx/Properties/OverlayLaws.lean
  Subject:   What the clone repository is, as an overlay: own entries, entries of the chain, and keys
             that were taken out.

  `hasByIndex` looks at all three. `findByIndex`, and what `findByAddress` and `forgetOnIndex` do
  for a missing key, do not look at the keys that were taken out: they copy the wallet of the chain
  once more, and the copy is filed under all its keys, the ones taken out and the ones that lead to
  an earlier copy included.

  * `Touched`, `Removed` -- keys that have led to a wallet here, and those that do not any more;
  * `Clean` -- no wallet is copied one of whose keys is touched;
  * `Preserves` -- the course of a lookup: what is touched stays as it is; with one lemma per lookup;
  * `OverlayLaws` -- what an operation may do to the three maps, **`laws_of_clean`**;
  * **`overlay_laws`** -- in every state operations lead to, and over runs for removed keys;
  * **`findByIndex_has_iff`** -- when `findByIndex` and `hasByIndex` disagree.
-/
import CoreEx.State.WalletRepositoryClone

namespace CoreEx

namespace WalletRepositoryClone

open Prog Overlay

/-! ## 1. Keys and conditions -/

/-- The key leads, or has led, to a wallet of this repository. -/
def Touched (s : Overlay Indexes) (i : WalletIndexes) (key : String) : Prop :=
  (s.indexes i).has key = true ∨ (s.fields i).has key = true

/-- The key was taken out. -/
def Removed (s : Overlay Indexes) (i : WalletIndexes) (key : String) : Prop :=
  (s.indexes i).has key = false ∧ (s.fields i).has key = true

/-- None of the keys the chain has for the wallet is touched. -/
def Fresh (s : Overlay Indexes) (wallet : Ref) : Prop :=
  ∀ i key, (s.blockchain i).get key = some wallet → ¬ Touched s i key

/-- Nor any of those its indexers give. -/
structure FreshIndexed (s : Overlay Indexes) (wallet : Ref) : Prop where
  fresh : Fresh s wallet
  indexable : Indexable (s.object wallet)
  keys : ∀ i key, keyOf (s.object wallet) i = some key → ¬ Touched s i key

/-- For `findByIndex` and `forgetOnIndex`. -/
def CleanIndex (s : Overlay Indexes) (i : WalletIndexes) (key : String) : Prop :=
  (s.indexes i).has key = false → ∀ wallet, (s.blockchain i).get key = some wallet → Fresh s wallet

/-- For `findByAddress`. -/
def CleanAddress (s : Overlay Indexes) (address : String) : Prop :=
  (s.indexes .addresses).has address = false → (s.fields .addresses).has address = false ∧
    ∀ wallet, (s.blockchain .addresses).get address = some wallet → FreshIndexed s wallet

/-- For `findByPublicKey`. -/
def CleanPublicKey (fromPublicKey : String → Except Exception String) (s : Overlay Indexes)
    (publicKey : String) : Prop :=
  (s.indexes .publicKeys).has publicKey = false → ∀ address, fromPublicKey publicKey = .ok address →
    CleanAddress s address ∧ (s.fields .publicKeys).has publicKey = false ∧
      ∀ wallet, (s.indexes .addresses).get address = some wallet → Indexable (s.object wallet)

/-- For the loop of `allByIndex`: each lookup in its turn. -/
def CleanAll : List Ref → Overlay Indexes → Prop
  | [], _ => True
  | wallet :: wallets, s => CleanAddress s (s.object wallet).address ∧
      CleanAll wallets ((cloneByAddressOf wallet).run s).state

/-- Where the operation copies a wallet of the chain, or makes one, none of its keys is touched;
    and the indexers of a wallet that is indexed find their keys. -/
def Clean (fromPublicKey : String → Except Exception String) (s : Overlay Indexes) :
    Operation → Prop
  | .findByAddress address => CleanAddress s address
  | .findByPublicKey publicKey => CleanPublicKey fromPublicKey s publicKey
  | .findByIndex i key => CleanIndex s i key
  | .findByIndexes indexes key =>
    ∀ i, indexes.find? (fun i => hasKey s i key) = some i → CleanIndex s i key
  | .allByIndex i => CleanAll (s.blockchain i).values s
  | .forgetOnIndex i key => CleanIndex s i key
  | .index wallet => Indexable (s.object wallet)
  | _ => True

/-- The operation sets the key, or indexes a wallet that has it. -/
def Sets (fromPublicKey : String → Except Exception String) (s : Overlay Indexes)
    (op : Operation) (i : WalletIndexes) (key : String) : Prop :=
  match op with
  | .setOnIndex i' key' _ => i' = i ∧ key' = key
  | .index wallet => keyOf (s.object wallet) i = some key
  | .findByPublicKey publicKey => (s.indexes .publicKeys).has publicKey = false ∧
      ∃ address wallet, fromPublicKey publicKey = .ok address ∧
        (s.indexes .addresses).get address = some wallet ∧
        keyOf ((s.object wallet).setPublicKey publicKey) i = some key
  | _ => False

/-! ## 2. The course of a lookup -/

/-- What is touched in `s` is in `t` what it was, and every other key leads to new objects only. -/
structure Preserves (s t : Overlay Indexes) : Prop where
  blockchain : t.blockchain = s.blockchain
  length : s.objects.length ≤ t.objects.length
  object : ∀ r, r < s.objects.length → t.object r = s.object r
  indexes : ∀ i key, Touched s i key → (t.indexes i).get key = (s.indexes i).get key
  forgotten : ∀ i key, Touched s i key → (t.fields i).has key = (s.fields i).has key
  fresh : ∀ i key r, (t.indexes i).get key = some r →
    (s.indexes i).get key = some r ∨ s.objects.length ≤ r

variable {s t u : Overlay Indexes}

theorem Preserves.refl (s : Overlay Indexes) : Preserves s s :=
  ⟨rfl, Nat.le_refl _, fun _ _ => rfl, fun _ _ _ => rfl, fun _ _ _ => rfl, fun _ _ _ h => .inl h⟩

theorem Preserves.touched (h : Preserves s t) {i : WalletIndexes} {key : String}
    (hkey : Touched s i key) : Touched t i key := by
  unfold Touched
  rw [WalletIndex.has_eq, h.indexes i key hkey, h.forgotten i key hkey]
  exact hkey

theorem Preserves.trans (h : Preserves s t) (h' : Preserves t u) : Preserves s u where
  blockchain := h'.blockchain.trans h.blockchain
  length := h.length.trans h'.length
  object r hr := (h'.object r (Nat.lt_of_lt_of_le hr h.length)).trans (h.object r hr)
  indexes i key hkey := (h'.indexes i key (h.touched hkey)).trans (h.indexes i key hkey)
  forgotten i key hkey := (h'.forgotten i key (h.touched hkey)).trans (h.forgotten i key hkey)
  fresh i key r hget := by
    rcases h'.fresh i key r hget with hold | hnew
    · exact h.fresh i key r hold
    · exact Or.inr (h.length.trans hnew)

/-- A touched key leads to no new object. -/
theorem Preserves.get_lt (h : Preserves s t) (hplaced : ∀ r, s.Own r → r < s.objects.length)
    {i : WalletIndexes} {key : String} {r : Ref} (hkey : Touched s i key)
    (hget : (t.indexes i).get key = some r) : r < s.objects.length := by
  rw [h.indexes i key hkey] at hget
  exact hplaced r ⟨i, key, hget⟩

/-- A wallet with fresh keys may be copied. -/
theorem preserves_cloned {wallet : Ref} (hfresh : Fresh s wallet) :
    Preserves s (s.cloned wallet) where
  blockchain := rfl
  length := by simp [cloned]
  object r hr := object_append s _ hr
  indexes i key hkey := by
    rw [get_cloned, if_neg fun h => hfresh i key h hkey]
  forgotten _ _ _ := rfl
  fresh i key r hget := by
    rw [get_cloned] at hget
    split at hget
    · cases hget
      exact Or.inr (Nat.le_refl _)
    · exact Or.inl hget

theorem preserves_alloc (o : WalletObject) :
    Preserves s { s with objects := s.objects ++ [o] } where
  blockchain := rfl
  length := by simp
  object r hr := object_append s _ hr
  indexes _ _ _ := rfl
  forgotten _ _ _ := rfl
  fresh _ _ _ hget := Or.inl hget

/-- A new object may be changed. -/
theorem Preserves.update (h : Preserves s t) {r : Ref} (hr : s.objects.length ≤ r)
    (o : WalletObject) : Preserves s { t with objects := t.objects.set r o } where
  blockchain := h.blockchain
  length := h.length.trans (Nat.le_of_eq List.length_set.symm)
  object r' hr' := (object_set t o (Nat.ne_of_gt (Nat.lt_of_lt_of_le hr' hr))).trans (h.object r' hr')
  indexes := h.indexes
  forgotten := h.forgotten
  fresh := h.fresh

/-- **A new object may be indexed if none of its keys is touched.** -/
theorem Preserves.indexed (h : Preserves s t) (hplaced : ∀ r, s.Own r → r < s.objects.length)
    {r : Ref} (hr : s.objects.length ≤ r)
    (hkeys : ∀ i key, keyOf (t.object r) i = some key → ¬ Touched s i key) :
    Preserves s (indexed t r) where
  blockchain := h.blockchain
  length := h.length
  object := h.object
  indexes i key hkey := by
    have hne : (t.indexes i).get key ≠ some r := fun hget =>
      Nat.not_lt_of_le hr (h.get_lt hplaced hkey hget)
    rw [get_indexed, if_neg fun hk => hkeys i key hk hkey, if_neg hne, h.indexes i key hkey]
  forgotten i key hkey := by
    have hne : (t.indexes i).get key ≠ some r := fun hget =>
      Nat.not_lt_of_le hr (h.get_lt hplaced hkey hget)
    rw [Bool.eq_iff_iff, has_indexed, h.forgotten i key hkey]
    exact ⟨fun hor => hor.resolve_left fun hand => hne hand.1, Or.inr⟩
  fresh i key r' hget := by
    rw [get_indexed] at hget
    split at hget
    · cases hget
      exact Or.inr hr
    · split at hget
      · cases hget
      · exact h.fresh i key r' hget

/-! ## 3. The lookups -/

theorem object_append_self (s : Overlay Indexes) (o : WalletObject) :
    ({ s with objects := s.objects ++ [o] } : Overlay Indexes).object s.objects.length = o := by
  unfold object
  rw [List.getD_eq_getElem?_getD, List.getElem?_append_right (Nat.le_refl _), Nat.sub_self]
  rfl

theorem get_none_of_has {i : WalletIndexes} {key : String} (h : (s.indexes i).has key = false) :
    (s.indexes i).get key = none := by
  rw [WalletIndex.has_eq] at h
  cases hget : (s.indexes i).get key with
  | none => rfl
  | some r => rw [hget] at h; cases h

theorem run_superFindByIndex {i : WalletIndexes} {key : String} {r : Ref}
    (h : (s.indexes i).get key = some r) : (superFindByIndex i key).run s = .done r s := by
  have hknown : hasKey s i key = true := by
    unfold hasKey
    rw [WalletIndex.has_eq, h]
    rfl
  unfold superFindByIndex Overlay.findByIndex
  rw [run_bind_of_done (congrArg (Outcome.done · s) hknown), Prog.throwIf, Prog.when,
    if_neg (Ne.symm Bool.false_ne_true), run_bind_of_done (run_pure () s),
    run_bind_of_done (congrArg (Outcome.done · s) h)]
  rfl

/-- `super.findByIndex` changes nothing. -/
theorem superFindByIndex_spec (s : Overlay Indexes) (i : WalletIndexes) (key : String) :
    (superFindByIndex i key).Spec s (fun _ u => u = s) fun _ u => u = s := by
  refine Spec.bind (Q := fun _ u => u = s) rfl fun known u hu => ?_
  refine Spec.bind (Q := fun _ u' => u' = s) (Spec.throwIf (fun _ => hu) fun _ => hu)
    fun _ u' hu' => ?_
  refine Spec.bind (Q := fun _ u'' => u'' = s) hu' fun found u'' hu'' => ?_
  cases found with
  | none => exact hu''
  | some r => exact hu''

/-- What `findByAddress` returns where it takes a new object. -/
structure NewWallet (s u : Overlay Indexes) (r : Ref) : Prop where
  preserves : Preserves s u
  new : s.objects.length ≤ r
  placed : r < u.objects.length
  indexable : Indexable (u.object r)
  keys : ∀ i key, keyOf (u.object r) i = some key → ¬ Touched s i key

/-- The object `cloneOrCreate` returns, before it is indexed. -/
theorem cloneOrCreate_spec {address : String} (hown : (s.indexes .addresses).has address = false)
    (hclean : CleanAddress s address) :
    (cloneOrCreate address).Spec s (fun r u => NewWallet s u r) fun _ _ => False := by
  obtain ⟨hforgotten, hfresh⟩ := hclean hown
  unfold cloneOrCreate Spec
  cases hchain : (s.blockchain .addresses).get address with
  | none =>
    have hknown : (s.blockchain .addresses).has address = false := by
      rw [WalletIndex.has_eq, hchain]
      rfl
    rw [run_bind_of_done (congrArg (Outcome.done · s) hknown), if_neg Bool.false_ne_true]
    have hobject : ({ s with objects := s.objects ++ [WalletObject.new address] } :
        Overlay Indexes).object s.objects.length = WalletObject.new address :=
      object_append_self s _
    refine ⟨preserves_alloc _, Nat.le_refl _, by simp, ?_, fun i key hkey => ?_⟩
    · rw [hobject]
      exact fun i => by cases i <;> exact ⟨_, rfl⟩
    · rw [hobject] at hkey
      have huntouched : ¬ Touched s .addresses address := by
        rintro (h | h)
        · rw [hown] at h
          cases h
        · rw [hforgotten] at h
          cases h
      cases i with
      | addresses =>
        by_cases hne : address ≠ ""
        · have haddress : keyOf (WalletObject.new address) .addresses = some address :=
            if_pos hne
          rw [haddress] at hkey
          cases hkey
          exact huntouched
        · have hnone : keyOf (WalletObject.new address) .addresses = none := if_neg hne
          rw [hnone] at hkey
          cases hkey
      | publicKeys => cases hkey
      | usernames => cases hkey
      | resignations => cases hkey
  | some wallet =>
    have hknown : (s.blockchain .addresses).has address = true := by
      rw [WalletIndex.has_eq, hchain]
      rfl
    rw [run_bind_of_done (congrArg (Outcome.done · s) hknown), if_pos rfl,
      run_bind_of_done (run_blockchainFindByAddress_known hchain), run_cloneWallet]
    have hwallet := hfresh wallet hchain
    have hobject : (s.cloned wallet).object s.objects.length = s.object wallet :=
      object_append_self s _
    refine ⟨preserves_cloned hwallet.fresh, Nat.le_refl _, by simp [cloned], ?_, fun i key hkey => ?_⟩
    · rw [hobject]
      exact hwallet.indexable
    · rw [hobject] at hkey
      exact hwallet.keys i key hkey

theorem findByAddress_spec (hplaced : ∀ r, s.Own r → r < s.objects.length) {address : String}
    (hclean : CleanAddress s address) :
    (findByAddress address).Spec s
      (fun r u => ((s.indexes .addresses).get address = some r ∧ u = s) ∨
        ((s.indexes .addresses).has address = false ∧ NewWallet s u r)) fun _ _ => False := by
  unfold findByAddress
  cases hget : (s.indexes .addresses).get address with
  | some r =>
    have hown : (s.indexes .addresses).has address = true := by rw [WalletIndex.has_eq, hget]; rfl
    unfold Spec
    rw [run_bind_of_done (congrArg (Outcome.done · s) hown), if_pos rfl, run_superFindByIndex hget]
    exact Or.inl ⟨rfl, rfl⟩
  | none =>
    have hown : (s.indexes .addresses).has address = false := by
      rw [WalletIndex.has_eq, hget]
      rfl
    refine Spec.bind (Q := fun known u => known = false ∧ u = s) ⟨hown, rfl⟩ fun known u h => ?_
    obtain ⟨rfl, rfl⟩ := h
    rw [if_neg Bool.false_ne_true]
    refine (cloneOrCreate_spec hown hclean).bind fun r t ht => ?_
    unfold Spec
    rw [run_bind_of_done (run_indexWallet ht.indexable)]
    exact Or.inr ⟨hown, ht.preserves.indexed hplaced ht.new ht.keys, ht.new, ht.placed,
      ht.indexable, ht.keys⟩

theorem findByAddress_preserves (hplaced : ∀ r, s.Own r → r < s.objects.length) {address : String}
    (hclean : CleanAddress s address) :
    (findByAddress address).Spec s (fun _ u => Preserves s u) fun _ _ => False :=
  (findByAddress_spec hplaced hclean).mono (fun _ _ h =>
    h.elim (fun hold => hold.2 ▸ .refl s) fun hnew => hnew.2.preserves) fun _ _ h => h

theorem run_findByIndex_own {i : WalletIndexes} {key : String} {r : Ref}
    (hget : (s.indexes i).get key = some r) : (findByIndex i key).run s = .done r s := by
  have hown : (s.indexes i).has key = true := by rw [WalletIndex.has_eq, hget]; rfl
  unfold findByIndex
  rw [run_bind_of_done (congrArg (Outcome.done · s) hown), Prog.when,
    if_neg (Ne.symm Bool.false_ne_true), run_bind_of_done (run_pure () s),
    run_bind_of_done (congrArg (Outcome.done · s) hget)]
  rfl

theorem run_findByIndex_none {i : WalletIndexes} {key : String}
    (hown : (s.indexes i).has key = false) (hchain : (s.blockchain i).get key = none) :
    (findByIndex i key).run s = .thrown (doesNotExist i key) s := by
  have hthrow : (cloneByIndex i key).run s = .thrown (doesNotExist i key) s := by
    unfold cloneByIndex blockchainFindByIndex
    rw [run_bind_of_thrown]
    rw [run_bind_of_done (congrArg (Outcome.done · s) hchain)]
    rfl
  unfold findByIndex
  rw [run_bind_of_done (congrArg (Outcome.done · s) hown), Prog.when, if_pos rfl,
    run_bind_of_thrown hthrow]

/-- A missing key is looked up on the chain, whether it was taken out or not. -/
theorem run_findByIndex_chain {i : WalletIndexes} {key : String} {wallet : Ref}
    (hown : (s.indexes i).has key = false) (hchain : (s.blockchain i).get key = some wallet) :
    (findByIndex i key).run s = .done s.objects.length (s.cloned wallet) := by
  have hfind : (blockchainFindByIndex i key).run s = .done wallet s := by
    unfold blockchainFindByIndex
    rw [run_bind_of_done (congrArg (Outcome.done · s) hchain)]
    rfl
  have hclone : (cloneByIndex i key).run s = .done () (s.cloned wallet) := by
    unfold cloneByIndex
    rw [run_bind_of_done hfind, run_bind_of_done (run_cloneWallet s wallet)]
    rfl
  have hfound : ((s.cloned wallet).indexes i).get key = some s.objects.length := by
    rw [get_cloned, if_pos hchain]
  unfold findByIndex
  rw [run_bind_of_done (congrArg (Outcome.done · s) hown), Prog.when, if_pos rfl,
    run_bind_of_done hclone, run_bind_of_done (congrArg (Outcome.done · _) hfound)]
  rfl

theorem findByIndex_preserves {i : WalletIndexes} {key : String} (hclean : CleanIndex s i key) :
    (findByIndex i key).Spec s
      (fun _ u => Preserves s u ∧ ((s.indexes i).has key || (s.blockchain i).has key) = true)
      fun _ u => u = s ∧ ((s.indexes i).has key || (s.blockchain i).has key) = false := by
  unfold Spec
  cases hget : (s.indexes i).get key with
  | some r =>
    rw [run_findByIndex_own hget]
    exact ⟨.refl s, by rw [WalletIndex.has_eq, hget]; rfl⟩
  | none =>
    have hown : (s.indexes i).has key = false := by rw [WalletIndex.has_eq, hget]; rfl
    cases hchain : (s.blockchain i).get key with
    | none =>
      rw [run_findByIndex_none hown hchain]
      exact ⟨rfl, by rw [hown, WalletIndex.has_eq, hchain]; rfl⟩
    | some wallet =>
      rw [run_findByIndex_chain hown hchain]
      exact ⟨preserves_cloned (hclean hown wallet hchain), by
        rw [hown, WalletIndex.has_eq (s.blockchain i), hchain]; rfl⟩

theorem findByIndexes_preserves {indexes : List WalletIndexes} {key : String}
    (hclean : ∀ i, indexes.find? (fun i => hasKey s i key) = some i → CleanIndex s i key) :
    (findByIndexes hasByIndex findByIndex indexes key).Spec s (fun _ u => Preserves s u)
      fun _ u => Preserves s u := by
  have hloop : ∀ (error : Exception) (is : List WalletIndexes),
      (∀ i, is.find? (fun i => hasKey s i key) = some i → CleanIndex s i key) →
      (findInIndexes hasByIndex findByIndex error key is).Spec s (fun _ u => Preserves s u)
        fun _ u => Preserves s u := by
    intro error is
    induction is with
    | nil => exact fun _ => Preserves.refl s
    | cons i is ih =>
      intro hclean
      refine Spec.bind (Q := fun known u => known = hasKey s i key ∧ u = s) ⟨rfl, rfl⟩
        fun known u h => ?_
      obtain ⟨rfl, rfl⟩ := h
      refine Spec.ite (fun hknown => ?_) fun hunknown => ih fun i' hi' => hclean i' ?_
      · exact (findByIndex_preserves (hclean i (List.find?_cons_of_pos hknown))).mono
          (fun _ _ h => h.1) fun _ _ h => h.1 ▸ .refl _
      · exact (List.find?_cons_of_neg (p := fun i => hasKey u i key) hunknown).trans hi'
  exact hloop _ indexes hclean

/-- A lookup of a key that is there. -/
theorem findByPublicKey_spec_own (fromPublicKey : String → Except Exception String)
    {publicKey : String} (hown : (s.indexes .publicKeys).has publicKey = true) :
    (findByPublicKey fromPublicKey publicKey).Spec s (fun _ u => u = s) fun _ u => u = s := by
  unfold findByPublicKey Spec
  rw [run_bind_of_done (congrArg (Outcome.done · s) hown), Prog.when,
    if_neg (Ne.symm Bool.false_ne_true), run_bind_of_done (run_pure () s)]
  exact superFindByIndex_spec s _ _

/-- A nonce is read, nothing changes. -/
theorem getNonce_spec (fromPublicKey : String → Except Exception String) (publicKey : String) :
    (getNonce fromPublicKey publicKey).Spec s (fun _ u => u = s) fun _ u => u = s := by
  refine Spec.bind (Q := fun own u => own = (s.indexes .publicKeys).has publicKey ∧ u = s)
    ⟨rfl, rfl⟩ fun own u h => ?_
  obtain ⟨rfl, rfl⟩ := h
  refine Spec.ite (fun hown => ?_) fun _ => ?_
  · exact (findByPublicKey_spec_own fromPublicKey hown).bind fun _ _ hu => hu
  · refine Spec.bind (Q := fun known t => known = (u.blockchain .publicKeys).has publicKey ∧ t = u)
      ⟨rfl, rfl⟩ fun known t h => ?_
    obtain ⟨rfl, rfl⟩ := h
    refine Spec.ite (fun hknown => ?_) fun _ => rfl
    cases hchain : (t.blockchain .publicKeys).get publicKey with
    | none => rw [WalletIndex.has_eq, hchain] at hknown; cases hknown
    | some wallet =>
      unfold Spec
      rw [run_bind_of_done (run_blockchainFindByPublicKey_known hchain)]
      rfl

theorem cloneByAddressOf_preserves (hplaced : ∀ r, s.Own r → r < s.objects.length) {wallet : Ref}
    (hclean : CleanAddress s (s.object wallet).address) :
    (cloneByAddressOf wallet).Spec s (fun _ u => Preserves s u) fun _ _ => False :=
  Spec.bind (Q := fun o u => o = s.object wallet ∧ u = s) ⟨rfl, rfl⟩ fun o u h => by
    obtain ⟨rfl, rfl⟩ := h
    exact (findByAddress_preserves hplaced hclean).bind fun _ _ hu => hu

/-- The loop: each pass takes place where the last one has left the state. -/
theorem cloneAll_preserves : ∀ (wallets : List Ref) (s : Overlay Indexes), Placed [] s →
    CleanAll wallets s →
    (Prog.forEach cloneByAddressOf wallets).Spec s (fun _ u => Preserves s u) fun _ _ => False := by
  intro wallets
  induction wallets with
  | nil => exact fun s _ _ => Preserves.refl s
  | cons wallet wallets ih =>
    intro s hplaced hclean
    have hsafe := safe_cloneByAddressOf stable_placed wallet [] s
      (List.Subset.refl _) hplaced
    have hpass := cloneByAddressOf_preserves hplaced.own hclean.1
    have hrest := hclean.2
    unfold SafeAt at hsafe
    unfold Spec at hsafe hpass ⊢
    rw [forEach_cons, run_bind]
    cases hrun : (cloneByAddressOf wallet).run s with
    | thrown e u =>
      rw [hrun] at hpass
      exact hpass.elim
    | done a u =>
      rw [hrun] at hsafe hpass hrest
      exact (ih u hsafe hrest).mono (fun _ _ h => hpass.trans h) fun _ _ h => h

theorem allByIndex_preserves (hplaced : Placed [] s) {i : WalletIndexes}
    (hclean : CleanAll (s.blockchain i).values s) :
    (allByIndex i).Spec s (fun rs u => Preserves s u ∧ rs = (u.indexes i).values)
      fun _ _ => False := by
  refine Spec.bind (Q := fun ws u => ws = (s.blockchain i).values ∧ u = s) ⟨rfl, rfl⟩
    fun ws u h => ?_
  obtain ⟨rfl, rfl⟩ := h
  exact (cloneAll_preserves _ u hplaced hclean).bind fun _ t ht => ⟨ht, rfl⟩

/-! ## 4. The laws -/

/-- What an operation does to own entries, entries of the chain and keys that were taken out:
    * no key that has led to a wallet leads to an object the operation has made;
    * such a key is still to be found or still taken out, and what was taken out is found again only
      if it is set or the wallet is indexed, and then it is;
    * what `forgetOnIndex` and `indexWallet` take out is not found;
    * `findByIndex` succeeds where `hasByIndex` answers yes;
    * a wallet without a key in an index is not in the list of the wallets of that index. -/
structure OverlayLaws (fromPublicKey : String → Except Exception String) (s : Overlay Indexes)
    (op : Operation) (u : Overlay Indexes) (returned : Option (List Ref)) : Prop where
  fresh : ∀ i key r, Touched s i key → (u.indexes i).get key = some r → r < s.objects.length
  touched : op ≠ .reset → ∀ i key, Touched s i key → Touched u i key
  again : ∀ i key, Removed s i key → (u.indexes i).has key = true → Sets fromPublicKey s op i key
  set : ∀ i key, Sets fromPublicKey s op i key → (u.indexes i).has key = true
  forgotten : ∀ i key, op = .forgetOnIndex i key → hasKey u i key = false
  reindexed : ∀ wallet i key, op = .index wallet → (s.indexes i).get key = some wallet →
    keyOf (s.object wallet) i ≠ some key → hasKey u i key = false
  found : ∀ i key, op = .findByIndex i key → returned.isSome = hasKey s i key
  absent : ∀ i rs r, op = .allByIndex i → returned = some rs → r ∈ rs → r < s.objects.length →
    ∃ key, (s.indexes i).get key = some r

variable {fromPublicKey : String → Except Exception String}

/-- A key that was taken out is not found. -/
theorem Removed.hasKey {i : WalletIndexes} {key : String} (h : Removed s i key) :
    hasKey s i key = false := by
  unfold WalletRepositoryClone.hasKey
  rw [h.1, h.2, Bool.not_true, Bool.and_false, Bool.or_false]

/-- The laws that only speak of the entries, for what preserves them. -/
theorem Preserves.again (h : Preserves s u) {i : WalletIndexes} {key : String}
    (hremoved : Removed s i key) : (u.indexes i).has key = false := by
  rw [WalletIndex.has_eq, h.indexes i key (Or.inr hremoved.2), ← WalletIndex.has_eq]
  exact hremoved.1

/-- **An operation that is a lookup and nothing else.** -/
theorem laws_of_preserves (hplaced : ∀ r, s.Own r → r < s.objects.length) (h : Preserves s u)
    {op : Operation} {returned : Option (List Ref)}
    (hsets : ∀ i key, ¬ Sets fromPublicKey s op i key) (hforget : ∀ i key, op ≠ .forgetOnIndex i key)
    (hindex : ∀ wallet, op ≠ .index wallet)
    (hfound : ∀ i key, op = .findByIndex i key → returned.isSome = hasKey s i key)
    (habsent : ∀ i rs, op = .allByIndex i → returned = some rs → rs = (u.indexes i).values) :
    OverlayLaws fromPublicKey s op u returned where
  fresh _ _ _ hkey hget := h.get_lt hplaced hkey hget
  touched _ _ _ hkey := h.touched hkey
  again _ _ hremoved hhas := absurd hhas (by rw [h.again hremoved]; nofun)
  set i key hset := absurd hset (hsets i key)
  forgotten i key hop := absurd hop (hforget i key)
  reindexed wallet _ _ hop := absurd hop (hindex wallet)
  found := hfound
  absent i rs r hop hrs hr hlt := by
    rw [habsent i rs hop hrs] at hr
    obtain ⟨key, hkey⟩ := WalletIndex.mem_values.1 hr
    rcases h.fresh i key r hkey with hold | hnew
    · exact ⟨key, hold⟩
    · exact absurd hlt (Nat.not_lt_of_le hnew)

/-- What indexing a wallet does to touched keys. -/
theorem touched_indexed {wallet : Ref} {i : WalletIndexes} {key : String} (h : Touched s i key) :
    Touched (indexed s wallet) i key := by
  unfold Touched
  rw [has_indexed, WalletIndex.has_eq, get_indexed]
  by_cases hkey : keyOf (s.object wallet) i = some key
  · rw [if_pos hkey]
    exact Or.inl rfl
  · rw [if_neg hkey]
    by_cases hget : (s.indexes i).get key = some wallet
    · exact Or.inr (Or.inl ⟨hget, hkey⟩)
    · rw [if_neg hget]
      exact h.imp_right Or.inr

theorem again_indexed {wallet : Ref} {i : WalletIndexes} {key : String}
    (hremoved : (s.indexes i).has key = false)
    (hhas : ((indexed s wallet).indexes i).has key = true) :
    keyOf (s.object wallet) i = some key := by
  by_contra hkey
  rw [WalletIndex.has_eq, get_indexed, if_neg hkey, get_none_of_has hremoved, if_neg nofun] at hhas
  cases hhas

theorem set_indexed {wallet : Ref} {i : WalletIndexes} {key : String}
    (hkey : keyOf (s.object wallet) i = some key) :
    ((indexed s wallet).indexes i).has key = true := by
  rw [WalletIndex.has_eq, get_indexed, if_pos hkey]
  rfl

theorem get_indexed_lt (hplaced : ∀ r, s.Own r → r < s.objects.length) {wallet r : Ref}
    (hwallet : wallet < s.objects.length) {i : WalletIndexes} {key : String}
    (hget : ((indexed s wallet).indexes i).get key = some r) : r < s.objects.length := by
  rw [get_indexed] at hget
  split at hget
  · cases hget
    exact hwallet
  · split at hget
    · cases hget
    · exact hplaced r ⟨i, key, hget⟩

/-- **`indexWallet` for a wallet of this repository.** -/
theorem laws_index (hplaced : ∀ r, s.Own r → r < s.objects.length) {wallet : Ref}
    (hwallet : wallet < s.objects.length) (returned : Option (List Ref)) :
    OverlayLaws fromPublicKey s (.index wallet) (indexed s wallet) returned where
  fresh _ _ _ _ hget := get_indexed_lt hplaced hwallet hget
  touched _ _ _ hkey := touched_indexed hkey
  again _ _ hremoved hhas := again_indexed hremoved.1 hhas
  set _ _ hset := set_indexed hset
  forgotten _ _ hop := nomatch hop
  reindexed w i key hop hget hkey := by
    cases hop
    refine Removed.hasKey ⟨?_, (has_indexed s wallet i key).2 (Or.inl ⟨hget, hkey⟩)⟩
    rw [WalletIndex.has_eq, get_indexed, if_neg hkey, if_pos hget]
    rfl
  found _ _ hop := nomatch hop
  absent _ _ _ hop := nomatch hop

/-- The state after `setOnIndex(index, key, wallet)`. -/
theorem laws_setOnIndex (hplaced : ∀ r, s.Own r → r < s.objects.length) {wallet : Ref}
    (hwallet : wallet < s.objects.length) (i : WalletIndexes) (key : String)
    (returned : Option (List Ref)) :
    OverlayLaws fromPublicKey s (.setOnIndex i key wallet)
      (withIndexes s (Function.update s.indexes i ((s.indexes i).set key wallet))) returned := by
  have hget : ∀ i' key', (Function.update s.indexes i ((s.indexes i).set key wallet) i').get key' =
      if i' = i ∧ key' = key then some wallet else (s.indexes i').get key' := by
    intro i' key'
    by_cases hi : i' = i
    · subst hi
      rw [Function.update_self, WalletIndex.get_set]
      simp only [true_and]
    · rw [Function.update_of_ne hi, if_neg fun h => hi h.1]
  have hhas : ∀ i' key', (Function.update s.indexes i ((s.indexes i).set key wallet) i').has key' =
      true ↔ (i' = i ∧ key' = key) ∨ (s.indexes i').has key' = true := by
    intro i' key'
    rw [WalletIndex.has_eq, hget, WalletIndex.has_eq]
    by_cases h : i' = i ∧ key' = key
    · simp [h]
    · simp [h]
  refine ⟨fun i' key' r _ h => ?_, fun _ i' key' h => ?_, fun i' key' h h' => ?_,
    fun i' key' h => ?_, nofun, nofun, nofun, nofun⟩
  · rw [withIndexes_indexes, hget] at h
    split at h
    · cases h
      exact hwallet
    · exact hplaced r ⟨i', key', h⟩
  · exact h.imp (fun hown => (hhas i' key').2 (Or.inr hown)) id
  · rcases (hhas i' key').1 h' with hset | hown
    · exact ⟨hset.1.symm, hset.2.symm⟩
    · rw [h.1] at hown
      cases hown
  · exact (hhas i' key').2 (Or.inl ⟨h.1.symm, h.2.symm⟩)

/-- The state after a key was taken out. -/
theorem laws_forget (hplaced : ∀ r, s.Own r → r < s.objects.length) (h : Preserves s t)
    {i : WalletIndexes} {key : String} (wallet : Ref) (returned : Option (List Ref)) :
    OverlayLaws fromPublicKey s (.forgetOnIndex i key)
      (withForgotten (withIndexes t (Function.update t.indexes i ((t.indexes i).forget key)))
        (Function.update t.fields i ((t.fields i).set key wallet))) returned := by
  have hget : ∀ i' key', (Function.update t.indexes i ((t.indexes i).forget key) i').get key' =
      if i' = i ∧ key' = key then none else (t.indexes i').get key' := by
    intro i' key'
    by_cases hi : i' = i
    · subst hi
      rw [Function.update_self, WalletIndex.get_forget]
      simp only [true_and]
    · rw [Function.update_of_ne hi, if_neg fun h => hi h.1]
  have hhas : ∀ i' key', (Function.update t.fields i ((t.fields i).set key wallet) i').has key' =
      true ↔ (i' = i ∧ key' = key) ∨ (t.fields i').has key' = true := by
    intro i' key'
    by_cases hi : i' = i
    · subst hi
      rw [Function.update_self, WalletIndex.has_eq, WalletIndex.get_set, WalletIndex.has_eq]
      by_cases hk : key' = key
      · simp [hk]
      · simp [hk]
    · rw [Function.update_of_ne hi]
      exact ⟨Or.inr, fun h => h.resolve_left fun hand => hi hand.1⟩
  refine ⟨fun i' key' r hkey hr => ?_, fun _ i' key' hkey => ?_, fun i' key' hremoved hfound => ?_,
    fun _ _ hset => hset.elim, fun i' key' hop => ?_, nofun, nofun, nofun⟩
  · have hr' : (Function.update t.indexes i ((t.indexes i).forget key) i').get key' = some r := hr
    rw [hget] at hr'
    split at hr'
    · cases hr'
    · exact h.get_lt hplaced hkey hr'
  · by_cases hsame : i' = i ∧ key' = key
    · exact Or.inr ((hhas i' key').2 (Or.inl hsame))
    · refine (h.touched hkey).imp (fun hown => ?_)
        fun hforgotten => (hhas i' key').2 (Or.inr hforgotten)
      show (Function.update t.indexes i ((t.indexes i).forget key) i').has key' = true
      rw [WalletIndex.has_eq, hget, if_neg hsame]
      exact hown
  · have hfound' : (Function.update t.indexes i ((t.indexes i).forget key) i').has key' = true :=
      hfound
    rw [WalletIndex.has_eq, hget] at hfound'
    split at hfound'
    · cases hfound'
    · exact absurd hfound' (by rw [← WalletIndex.has_eq, h.again hremoved]; nofun)
  · cases hop
    refine Removed.hasKey ⟨?_, (hhas i key).2 (Or.inl ⟨rfl, rfl⟩)⟩
    show (Function.update t.indexes i ((t.indexes i).forget key) i).has key = false
    rw [WalletIndex.has_eq, hget, if_pos ⟨rfl, rfl⟩]
    rfl

/-- The keys of a wallet with another public key. -/
theorem keyOf_setPublicKey (o : WalletObject) (publicKey : String) (i : WalletIndexes)
    (key : String) :
    keyOf (o.setPublicKey publicKey) i = some key →
      (i = .publicKeys ∧ key = publicKey) ∨ keyOf o i = some key := by
  intro h
  cases i with
  | publicKeys =>
    refine Or.inl ⟨rfl, ?_⟩
    have hkey : ((o.setPublicKey publicKey).wallet.publicKey.map (·.text)) = some key := h
    unfold WalletObject.setPublicKey at hkey
    by_cases hne : publicKey ≠ ""
    · rw [dif_pos hne] at hkey
      exact (Option.some.inj hkey).symm
    · rw [dif_neg hne] at hkey
      cases hkey
  | addresses => exact Or.inr h
  | usernames => exact Or.inr h
  | resignations => exact Or.inr h

theorem indexable_setPublicKey {o : WalletObject} (h : Indexable o) (publicKey : String) :
    Indexable (o.setPublicKey publicKey) := by
  intro i
  cases i with
  | publicKeys => exact ⟨_, rfl⟩
  | addresses => exact h .addresses
  | usernames => exact h .usernames
  | resignations => exact h .resignations

/-- **`findByPublicKey` for a wallet that is there under its address.** -/
theorem laws_setPublicKey (hplaced : ∀ r, s.Own r → r < s.objects.length) {wallet : Ref}
    {publicKey address : String} (hown : (s.indexes .publicKeys).has publicKey = false)
    (haddress : fromPublicKey publicKey = .ok address)
    (hget : (s.indexes .addresses).get address = some wallet)
    {t : Overlay Indexes} (hindexes : t.indexes = s.indexes) (hfields : t.fields = s.fields)
    (hlength : t.objects.length = s.objects.length)
    (hobject : t.object wallet = (s.object wallet).setPublicKey publicKey)
    (returned : Option (List Ref)) :
    OverlayLaws fromPublicKey s (.findByPublicKey publicKey) (indexed t wallet) returned := by
  have hwallet : wallet < t.objects.length := hlength ▸ hplaced wallet ⟨_, _, hget⟩
  have hplaced' : ∀ r, t.Own r → r < t.objects.length := fun r ⟨i, key, h⟩ =>
    hlength ▸ hplaced r ⟨i, key, hindexes ▸ h⟩
  have htouched : ∀ i key, Touched s i key → Touched t i key := by
    intro i key h
    unfold Touched
    rw [hindexes, hfields]
    exact h
  refine ⟨fun i key r _ h => hlength ▸ get_indexed_lt hplaced' hwallet h,
    fun _ i key h => touched_indexed (htouched i key h), fun i key hremoved hhas => ?_,
    fun i key hset => ?_, nofun, nofun, nofun, nofun⟩
  · refine ⟨hown, address, wallet, haddress, hget, ?_⟩
    rw [← hobject]
    exact again_indexed (hindexes ▸ hremoved.1) hhas
  · obtain ⟨-, address', wallet', haddress', hget', hkey⟩ := hset
    rw [haddress] at haddress'
    cases haddress'
    rw [hget] at hget'
    cases hget'
    exact set_indexed (hobject ▸ hkey)

/-- The state after `wallet.setPublicKey(publicKey)`. -/
def withPublicKey (s : Overlay Indexes) (wallet : Ref) (publicKey : String) : Overlay Indexes :=
  { s with objects := s.objects.set wallet ((s.object wallet).setPublicKey publicKey) }

theorem object_withPublicKey {wallet : Ref} (hwallet : wallet < s.objects.length)
    (publicKey : String) :
    (withPublicKey s wallet publicKey).object wallet = (s.object wallet).setPublicKey publicKey :=
  object_set_self s _ hwallet

/-- The last two steps, for an object that can be indexed. -/
theorem run_setPublicKey {wallet : Ref} (hwallet : wallet < s.objects.length) {publicKey : String}
    (ho : Indexable (s.object wallet)) :
    (do
      update wallet (·.setPublicKey publicKey)
      indexWallet wallet).run s = .done () (indexed (withPublicKey s wallet publicKey) wallet) := by
  have hupdate : (update wallet (·.setPublicKey publicKey) : CloneProg Unit).run s =
      .done () (withPublicKey s wallet publicKey) := rfl
  rw [run_bind_of_done hupdate]
  refine run_indexWallet ?_
  rw [object_withPublicKey hwallet]
  exact indexable_setPublicKey ho publicKey

/-- What `findByPublicKey` does for a public key it does not have. -/
theorem indexPublicKey_laws (hplaced : ∀ r, s.Own r → r < s.objects.length) {publicKey : String}
    (hclean : CleanPublicKey fromPublicKey s publicKey)
    (hown : (s.indexes .publicKeys).has publicKey = false) (returned : Option (List Ref)) :
    (indexPublicKey fromPublicKey publicKey).Spec s
      (fun _ u => OverlayLaws fromPublicKey s (.findByPublicKey publicKey) u returned)
      fun _ u => OverlayLaws fromPublicKey s (.findByPublicKey publicKey) u returned := by
  refine Spec.bind (Q := fun address u => fromPublicKey publicKey = .ok address ∧ u = s)
    (Spec.ofExcept (fun _ h => ⟨h, rfl⟩) fun e he => ?_) fun address u h => ?_
  · refine laws_of_preserves hplaced (.refl s) (fun i key hset => ?_) nofun nofun nofun nofun
    obtain ⟨-, address, wallet, haddress, -⟩ := hset
    rw [he] at haddress
    cases haddress
  · obtain ⟨haddress, rfl⟩ := h
    obtain ⟨haddr, hforgotten, hindexable⟩ := hclean hown address haddress
    refine ((findByAddress_spec hplaced haddr).mono (fun _ _ h => h) fun _ _ h => h.elim).bind
      fun wallet t ht => ?_
    rcases ht with ⟨hget, rfl⟩ | ⟨hnone, hnew⟩
    · have hwallet := hplaced wallet ⟨_, _, hget⟩
      unfold Spec
      rw [run_setPublicKey hwallet (hindexable wallet hget)]
      exact laws_setPublicKey (t := withPublicKey t wallet publicKey) hplaced hown haddress hget
        rfl rfl (by simp [withPublicKey]) (object_withPublicKey hwallet publicKey) returned
    · have hkeys : ∀ i key, keyOf ((withPublicKey t wallet publicKey).object wallet) i = some key →
          ¬ Touched u i key := by
        intro i key hkey
        rw [object_withPublicKey hnew.placed] at hkey
        rcases keyOf_setPublicKey _ _ _ _ hkey with ⟨rfl, rfl⟩ | hold
        · rintro (h | h)
          · rw [hown] at h
            cases h
          · rw [hforgotten] at h
            cases h
        · exact hnew.keys i key hold
      unfold Spec
      rw [run_setPublicKey hnew.placed hnew.indexable]
      refine laws_of_preserves hplaced ((hnew.preserves.update hnew.new _).indexed hplaced hnew.new
        hkeys) (fun i key hset => ?_) nofun nofun nofun nofun
      obtain ⟨-, address', wallet', haddress', hget', -⟩ := hset
      rw [haddress] at haddress'
      cases haddress'
      rw [get_none_of_has hnone] at hget'
      cases hget'

theorem findByPublicKey_laws (hplaced : ∀ r, s.Own r → r < s.objects.length) {publicKey : String}
    (hclean : CleanPublicKey fromPublicKey s publicKey) (returned : Option (List Ref)) :
    (findByPublicKey fromPublicKey publicKey).Spec s
      (fun _ u => OverlayLaws fromPublicKey s (.findByPublicKey publicKey) u returned)
      fun _ u => OverlayLaws fromPublicKey s (.findByPublicKey publicKey) u returned := by
  cases hown : (s.indexes .publicKeys).has publicKey with
  | true =>
    have hlaws : OverlayLaws fromPublicKey s (.findByPublicKey publicKey) s returned :=
      laws_of_preserves hplaced (.refl s) (fun i key hset => by rw [hset.1] at hown; cases hown)
        nofun nofun nofun nofun
    exact (findByPublicKey_spec_own fromPublicKey hown).mono (fun _ _ h => h ▸ hlaws)
      fun _ _ h => h ▸ hlaws
  | false =>
    refine Spec.bind (Q := fun known u => known = false ∧ u = s) ⟨hown, rfl⟩ fun known u h => ?_
    obtain ⟨rfl, rfl⟩ := h
    rw [Prog.when, if_pos rfl]
    exact (indexPublicKey_laws hplaced hclean hown returned).bind fun _ t ht =>
      (superFindByIndex_spec t _ _).mono (fun _ _ h => h ▸ ht) fun _ _ h => h ▸ ht

theorem forgetOnIndex_laws (hplaced : ∀ r, s.Own r → r < s.objects.length) {i : WalletIndexes}
    {key : String} (hclean : CleanIndex s i key) (returned : Option (List Ref)) :
    (forgetOnIndex i key).Spec s
      (fun _ u => OverlayLaws fromPublicKey s (.forgetOnIndex i key) u returned)
      fun _ _ => False := by
  refine Spec.bind (Q := fun known u =>
    known = ((s.indexes i).has key || (s.blockchain i).has key) ∧ u = s) ⟨rfl, rfl⟩
    fun known u h => ?_
  obtain ⟨rfl, rfl⟩ := h
  refine Spec.when (fun hknown => ?_) fun hunknown => ?_
  · have hfind := findByIndex_preserves hclean
    unfold forgetFound Spec
    unfold Spec at hfind
    cases hrun : (findByIndex i key).run u with
    | thrown e t =>
      rw [hrun] at hfind
      rw [hfind.2] at hknown
      cases hknown
    | done wallet t =>
      rw [hrun] at hfind
      rw [run_bind_of_done hrun]
      exact laws_forget hplaced hfind.1 wallet returned
  · obtain ⟨hown, hchain⟩ := Bool.or_eq_false_iff.1 (Bool.eq_false_iff.2 hunknown)
    refine ⟨fun i' key' r _ hget => hplaced r ⟨i', key', hget⟩, fun _ _ _ h => h,
      fun i' key' hremoved hhas => ?_, fun _ _ hset => hset.elim, fun i' key' hop => ?_, nofun, nofun,
      nofun⟩
    · rw [hremoved.1] at hhas
      cases hhas
    · cases hop
      unfold WalletRepositoryClone.hasKey
      rw [hown, hchain]
      rfl

/-- Where a copy may be made, the key was not taken out. -/
theorem hasKey_of_clean {i : WalletIndexes} {key : String} (hclean : CleanIndex s i key) :
    hasKey s i key = ((s.indexes i).has key || (s.blockchain i).has key) := by
  unfold hasKey
  cases hown : (s.indexes i).has key with
  | true => rfl
  | false =>
    cases hchain : (s.blockchain i).get key with
    | none => rw [WalletIndex.has_eq, WalletIndex.has_eq, hchain]; rfl
    | some wallet =>
      have hfields : (s.fields i).has key = false :=
        Bool.eq_false_iff.2 fun h => hclean hown wallet hchain i key hchain (Or.inr h)
      rw [hfields, Bool.not_false, Bool.and_true]

/-- The laws of a program whose result is made into a list. -/
theorem spec_of_laws {α : Type} {x : CloneProg α} {op : Operation} {f : α → List Ref}
    (hx : x.Spec s (fun a u => OverlayLaws fromPublicKey s op u (some (f a)))
      fun _ u => OverlayLaws fromPublicKey s op u none) :
    (x >>= fun a => pure (f a)).Spec s (fun rs u => OverlayLaws fromPublicKey s op u (some rs))
      fun _ u => OverlayLaws fromPublicKey s op u none :=
  hx.bind fun _ _ h => h

/-- **What an operation does where it copies no wallet with a touched key.** -/
theorem laws_of_clean (hplaced : Placed [] s) {op : Operation}
    (hwallets : ∀ r ∈ op.wallets, r < s.objects.length) (hclean : Clean fromPublicKey s op) :
    OverlayLaws fromPublicKey s op ((exec fromPublicKey op).run s).state
      ((exec fromPublicKey op).run s).value? := by
  have hspec : (exec fromPublicKey op).Spec s
      (fun rs u => OverlayLaws fromPublicKey s op u (some rs))
      fun _ u => OverlayLaws fromPublicKey s op u none := by
    cases op with
    | findByAddress address =>
      refine spec_of_laws ((findByAddress_preserves hplaced.own hclean).mono (fun r u h => ?_)
        fun _ _ h => h.elim)
      exact laws_of_preserves hplaced.own h nofun nofun nofun nofun nofun
    | findByPublicKey publicKey =>
      refine spec_of_laws (Spec.of_run (fun r u hrun => ?_) fun e u hrun => ?_)
      · exact (findByPublicKey_laws hplaced.own hclean (some [r])).of_done hrun
      · exact (findByPublicKey_laws hplaced.own hclean none).of_thrown hrun
    | findByIndex i key =>
      have hkey := hasKey_of_clean hclean
      refine spec_of_laws ((findByIndex_preserves hclean).mono (fun r u h => ?_) fun e u h => ?_)
      · refine laws_of_preserves hplaced.own h.1 nofun nofun nofun (fun i' key' hop => ?_) nofun
        cases hop
        exact (hkey.trans h.2).symm
      · obtain ⟨rfl, hnone⟩ := h
        refine laws_of_preserves hplaced.own (.refl u) nofun nofun nofun (fun i' key' hop => ?_) nofun
        cases hop
        exact (hkey.trans hnone).symm
    | findByIndexes indexes key =>
      refine spec_of_laws ((findByIndexes_preserves hclean).mono (fun r u h => ?_) fun e u h => ?_)
      · exact laws_of_preserves hplaced.own h nofun nofun nofun nofun nofun
      · exact laws_of_preserves hplaced.own h nofun nofun nofun nofun nofun
    | has key => exact laws_of_preserves hplaced.own (.refl s) nofun nofun nofun nofun nofun
    | hasByIndex i key => exact laws_of_preserves hplaced.own (.refl s) nofun nofun nofun nofun nofun
    | getNonce publicKey =>
      refine spec_of_laws ((getNonce_spec fromPublicKey publicKey).mono (fun _ u h => ?_)
        fun e u h => ?_)
      · subst h
        exact laws_of_preserves hplaced.own (.refl u) nofun nofun nofun nofun nofun
      · subst h
        exact laws_of_preserves hplaced.own (.refl u) nofun nofun nofun nofun nofun
    | allByIndex i =>
      refine (allByIndex_preserves hplaced hclean).mono (fun rs u h => ?_) fun _ _ h => h.elim
      refine laws_of_preserves hplaced.own h.1 nofun nofun nofun nofun fun i' rs' hop hrs => ?_
      cases hop
      cases hrs
      exact h.2
    | createWallet address =>
      exact laws_of_preserves hplaced.own (preserves_alloc _) nofun nofun nofun nofun nofun
    | index wallet =>
      refine spec_of_laws (f := fun _ => []) ?_
      unfold Spec
      rw [run_indexWallet hclean]
      exact laws_index hplaced.own (hwallets wallet List.mem_cons_self) _
    | setOnIndex i key wallet =>
      exact laws_setOnIndex hplaced.own (hwallets wallet List.mem_cons_self) i key _
    | forgetOnIndex i key =>
      refine spec_of_laws (f := fun _ => []) ((forgetOnIndex_laws hplaced.own hclean _).mono
        (fun _ _ h => h) fun _ _ h => h.elim)
    | reset =>
      exact ⟨nofun, fun h => absurd rfl h, fun _ _ _ h => (nomatch h), fun _ _ h => h.elim, nofun,
        nofun, nofun, nofun⟩
    | change wallet contents =>
      refine ⟨fun i key r _ h => hplaced.own r ⟨i, key, h⟩, fun _ _ _ h => h,
        fun i key hremoved hhas => ?_, fun _ _ h => h.elim, nofun, nofun, nofun, nofun⟩
      exact absurd hhas (Bool.eq_false_iff.1 hremoved.1)
  unfold Spec at hspec
  cases hrun : (exec fromPublicKey op).run s <;> rw [hrun] at hspec <;> exact hspec

/-! ## 5. In every state, and over runs -/

theorem state_after (s : Session (Overlay Indexes)) (op : Operation) :
    (s.after (exec fromPublicKey) op).state = ((exec fromPublicKey op).run s.state).state := by
  unfold Session.after
  cases (exec fromPublicKey op).run s.state <;> rfl

/-- **The laws of the overlay.** In every state operations have led to, an operation that copies no
    wallet with a touched key keeps the laws; and over a run of such operations a key that was taken
    out is not found, as long as it is not set, its wallet is not indexed and nothing is reset. -/
theorem overlay_laws (fromPublicKey : String → Except Exception String) (chain : Chain)
    {s : Session (Overlay Indexes)}
    (run : Session.Run (exec fromPublicKey) (fun _ _ => True) (fun _ _ => False) (start chain) s) :
    (∀ op, op.wallets ⊆ s.returned → Clean fromPublicKey s.state op →
      OverlayLaws fromPublicKey s.state op ((exec fromPublicKey op).run s.state).state
        ((exec fromPublicKey op).run s.state).value?) ∧
    ∀ i key t, Removed s.state i key →
      Session.Run (exec fromPublicKey) (fun u op => Clean fromPublicKey u op ∧ op ≠ .reset ∧
        ¬ Sets fromPublicKey u op i key) (fun _ _ => False) s t → hasKey t.state i key = false := by
  have hplaced : Placed s.returned s.state := stable_run stable_placed run (placed_over chain _)
  have hlaws : ∀ {t : Session (Overlay Indexes)} op, Placed t.returned t.state →
      op.wallets ⊆ t.returned → Clean fromPublicKey t.state op →
      OverlayLaws fromPublicKey t.state op ((exec fromPublicKey op).run t.state).state
        ((exec fromPublicKey op).run t.state).value? := fun op h hwallets hclean =>
    laws_of_clean (stable_placed.weaken _ _ _ h (List.nil_subset _))
      (fun r hr => h.held r (hwallets hr)) hclean
  refine ⟨fun op hwallets hclean => hlaws op hplaced hwallets hclean,
    fun i key t hremoved later => ?_⟩
  have hinv : Removed t.state i key := by
    induction later with
    | start => exact hremoved
    | change state earlier ok => exact ok.elim
    | @operation t op earlier given ok ih =>
      obtain ⟨hclean, hreset, hsets⟩ := ok
      have hlaw := hlaws op (stable_run stable_placed earlier hplaced) given hclean
      rw [state_after]
      have hown : ((((exec fromPublicKey op).run t.state).state).indexes i).has key = false :=
        Bool.eq_false_iff.2 fun h => hsets (hlaw.again i key ih h)
      refine ⟨hown, (hlaw.touched hreset i key (Or.inr ih.2)).resolve_left fun h => ?_⟩
      rw [hown] at h
      cases h
  exact hinv.hasKey

/-- A key of the chain is taken out, and a wallet of its own is made. -/
theorem overlay_laws_sample : ∃ s t : Session (Overlay Indexes),
    Session.Run (exec .ok) (fun _ _ => True) (fun _ _ => False) (start Chain.sample) s ∧
      Session.Run (exec .ok) (fun u op => Clean .ok u op ∧ op ≠ .reset ∧
        ¬ Sets .ok u op .addresses "a") (fun _ _ => False) s t ∧
      (t.state.indexes .addresses).get "b" = some 2 ∧
      hasKey t.state .addresses "a" = false := by
  have run₀ : Session.Run (exec .ok) (fun _ _ => True) (fun _ _ => False) (start Chain.sample)
      (start Chain.sample) := .start _
  have run₁ := Session.Run.operation (.forgetOnIndex .addresses "a") run₀ nofun trivial
  have hclean : CleanAddress ((start Chain.sample).after (exec .ok)
      (.forgetOnIndex .addresses "a")).state "b" := by
    refine fun _ => ⟨by decide, fun wallet h => ?_⟩
    have hnone : (Chain.sample.indexes .addresses).get "b" = none := by decide
    exact nomatch hnone.symm.trans h
  have later : Session.Run (exec .ok) (fun u op => Clean .ok u op ∧ op ≠ .reset ∧
      ¬ Sets .ok u op .addresses "a") (fun _ _ => False)
      ((start Chain.sample).after (exec .ok) (.forgetOnIndex .addresses "a"))
      ((start Chain.sample).after (exec .ok) (.forgetOnIndex .addresses "a")) := .start _
  have run₂ := Session.Run.operation (.findByAddress "b") later nofun ⟨hclean, nofun, id⟩
  exact ⟨_, _, run₁, run₂, by decide,
    (overlay_laws .ok Chain.sample run₁).2 .addresses "a" _ ⟨by decide, by decide⟩ run₂⟩

/-- **`findByIndex` and `hasByIndex` disagree exactly about keys of the chain that were taken
    out.** -/
theorem findByIndex_has_iff (s : Overlay Indexes) (i : WalletIndexes) (key : String) :
    ((findByIndex i key).run s).isDone = hasKey s i key ↔
      ¬ (Removed s i key ∧ (s.blockchain i).has key = true) := by
  unfold hasKey Removed
  cases hget : (s.indexes i).get key with
  | some r =>
    rw [run_findByIndex_own hget, WalletIndex.has_eq, hget]
    simp
  | none =>
    have hown : (s.indexes i).has key = false := by rw [WalletIndex.has_eq, hget]; rfl
    cases hchain : (s.blockchain i).get key with
    | none =>
      rw [run_findByIndex_none hown hchain, hown, WalletIndex.has_eq (s.blockchain i), hchain]
      simp
    | some wallet =>
      rw [run_findByIndex_chain hown hchain, hown, WalletIndex.has_eq (s.blockchain i), hchain]
      simp

/-- A key that was taken out is found, and its wallet copied again. -/
theorem findByIndex_removed_sample : ∃ s : Session (Overlay Indexes),
    Session.Run (exec .ok) (fun _ _ => True) (fun _ _ => False) (start Chain.sample) s ∧
      hasKey s.state .addresses "a" = false ∧
      ((exec .ok (.findByIndex .addresses "a")).run s.state).isDone = true ∧
      ((exec .ok (.findByIndex .addresses "a")).run s.state).value? = some [2] := by
  refine ⟨_, .operation (.forgetOnIndex .addresses "a") (.start _) nofun trivial, ?_, ?_, ?_⟩
  · decide
  · decide
  · decide

end WalletRepositoryClone

end CoreEx
