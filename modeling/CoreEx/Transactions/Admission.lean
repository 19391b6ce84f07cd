/-
  File:      CoreEx/Transactions/Admission.lean
  Subject:   When the checks of the six handlers let a transaction through, exactly.

  The checks read accounts, names and keys. They also look wallets up by public key, which
  attaches a key to the wallet when the key was not known yet; the base class then compares the
  key of the sender's wallet with the sender's key, so the keys looked up before belong to the
  condition. No condition says anything about signatures of a multi-signature wallet: the code
  asks for them and does not wait for the answer.

  * `Keyring`, `Looked` -- the attached keys while a check runs;
  * `Base.Passes` -- the base class;
  * `OwnChecks` -- what the handlers check beyond it;
  * **`checked_isDone_iff`** -- the check of a transaction returns if and only if `Passes`.
-/
import CoreEx.State.Transactions

namespace CoreEx

open WalletRepository Base

/-! ## 1. Keys -/

/-- The keys of a repository: what is attached to each wallet, and which have an entry. -/
structure Keyring where
  attached : Address → Option PublicKey
  known : PublicKey → Bool

def WalletRepository.keyring (r : WalletRepository) : Keyring :=
  ⟨fun a => (r.wallet a).publicKey, r.hasByPublicKey⟩

/-- The keys after `findByPublicKey`: an unknown key is attached to the wallet of its address. -/
def Keyring.lookup (env : Services) (K : Keyring) (k : PublicKey) : Keyring :=
  if K.known k then K
  else ⟨Function.update K.attached (env.addressFromPublicKey k) (some k),
    Function.update K.known k true⟩

/-- The repository while a check runs on `r₀`: the same accounts and names, with these keys. -/
structure Looked (env : Services) (r₀ : WalletRepository) (K : Keyring) (r : WalletRepository) :
    Prop where
  stands : Stands env (r₀.accounts, r₀.names) r
  usernames : r.usernames = r₀.usernames
  keyring : r.keyring = K

section Lookups

variable {env : Services} {r₀ r : WalletRepository} {K : Keyring} {α : Type}

theorem looked_gets {f : WalletRepository → α} {a : α}
    (h : ∀ r, Looked env r₀ K r → f r = a) :
    Prog.Always (Looked env r₀) K (Prog.gets f : RepositoryProg α) (fun b => b = a) K :=
  Prog.Always.gets h

theorem looked_account (a : Address) :
    Prog.Always (Looked env r₀) K (account a) (fun w => w = r₀.accounts a) K :=
  looked_gets fun _ h => congrFun h.stands.accounts a

theorem looked_wallet (a : Address) :
    Prog.Always (Looked env r₀) K (Prog.gets fun r => r.wallet a : RepositoryProg Wallet)
      (fun w => w.toAccount = r₀.accounts a ∧ w.publicKey = K.attached a) K :=
  Prog.Always.gets fun _ h => ⟨congrFun h.stands.accounts a,
    congrArg (fun K : Keyring => K.attached a) h.keyring⟩

theorem looked_known (k : PublicKey) :
    Prog.Always (Looked env r₀) K (Prog.gets fun r => r.hasByPublicKey k : RepositoryProg Bool)
      (fun b => b = K.known k) K :=
  looked_gets fun _ h => congrArg (fun K : Keyring => K.known k) h.keyring

theorem looked_create (h : Looked env r₀ K r) {a : Address} (ha : r.hasByAddress a = false) :
    Looked env r₀ K (r.setWallet a Wallet.new) := by
  refine ⟨rep_create h.stands ha, h.usernames, ?_⟩
  rw [← h.keyring]
  unfold keyring
  simp only [wallet_create ha]
  rfl

theorem looked_findByAddress (a : Address) :
    Prog.Always (Looked env r₀) K (findByAddress a) (fun b => b = a) K := by
  unfold findByAddress
  intro r hr
  refine Prog.Spec.bind (Q := fun known r' => r' = r ∧ known = r.hasByAddress a) ⟨rfl, rfl⟩ ?_
  rintro known r' ⟨rfl, rfl⟩
  refine Prog.Spec.bind (Q := fun _ s => Looked env r₀ K s) (Prog.Spec.when (fun ha => ?_)
    fun _ => hr) fun _ s hs => ⟨hs, rfl⟩
  exact looked_create hr (by simpa using ha)

theorem looked_attach (h : Looked env r₀ K r) {k : PublicKey} (hk : K.known k = false) :
    Looked env r₀ (K.lookup env k) (attach (env.addressFromPublicKey k) k r) := by
  have hknown : r.hasByPublicKey k = false := by
    rw [← hk, ← h.keyring]
    rfl
  refine ⟨rep_attach h.stands (by simpa using hknown), h.usernames, ?_⟩
  unfold Keyring.lookup
  rw [hk, ← h.keyring]
  have hattached : (fun a => ((attach (env.addressFromPublicKey k) k r).wallet a).publicKey) =
      Function.update (fun a => (r.wallet a).publicKey) (env.addressFromPublicKey k) (some k) := by
    funext a
    have hw : (attach (env.addressFromPublicKey k) k r).wallet a = _ := wallet_setWallet r _ _ a
    rw [hw, Function.update_apply]
    split <;> rfl
  have hhas : (attach (env.addressFromPublicKey k) k r).hasByPublicKey =
      Function.update r.hasByPublicKey k true := by
    funext k'
    rw [hasByPublicKey_eq, Function.update_apply]
    have hget : (attach (env.addressFromPublicKey k) k r).publicKeys.get k' = _ :=
      WalletIndex.get_set _ _ _ k'
    rw [hget]
    split <;> rfl
  exact Keyring.mk.injEq .. ▸ ⟨hattached, hhas⟩

/-- **Looking a key up is looking it up on the keyring.** -/
theorem looked_findByPublicKey (k : PublicKey) :
    Prog.Always (Looked env r₀) K (findByPublicKey env k)
      (fun a => a = env.addressFromPublicKey k) (K.lookup env k) := by
  intro r hr
  have hfound := findByPublicKey_always k r hr.stands
  unfold Prog.Spec at hfound ⊢
  have hknown : r.hasByPublicKey k = K.known k := congrArg (fun K => Keyring.known K k) hr.keyring
  cases hk : K.known k with
  | true =>
    rw [hk] at hknown
    have hrun : (findByPublicKey env k).run r =
        (assertDefined (r.publicKeys.get k) : RepositoryProg Address).run r := by
      unfold findByPublicKey
      rw [Prog.run_bind_of_done (Prog.run_gets _ _), hknown]
      rfl
    rw [hrun] at hfound ⊢
    unfold Keyring.lookup
    rw [hk]
    cases hget : r.publicKeys.get k with
    | none =>
      rw [hasByPublicKey_eq, hget] at hknown
      cases hknown
    | some a =>
      rw [hget] at hfound
      exact ⟨hr, hfound.2⟩
  | false =>
    rw [hk] at hknown
    obtain ⟨a, r₁, hfind, hr₁, ha⟩ := (looked_findByAddress (env.addressFromPublicKey k)).run hr
    subst ha
    have hstep : (findByPublicKey env k).run r = (assertDefined
        ((attach (env.addressFromPublicKey k) k r₁).publicKeys.get k) :
          RepositoryProg Address).run (attach (env.addressFromPublicKey k) k r₁) := by
      unfold findByPublicKey
      rw [Prog.run_bind_of_done (Prog.run_gets _ _), hknown]
      have hcreate : (Prog.when (!false) (do
          let a ← findByAddress (env.addressFromPublicKey k)
          Prog.modify (attach a k)) : RepositoryProg Unit).run r =
          .done () (attach (env.addressFromPublicKey k) k r₁) := by
        show (findByAddress _ >>= fun a => Prog.modify (attach a k)).run r = _
        rw [Prog.run_bind_of_done hfind]
        rfl
      rw [Prog.run_bind_of_done hcreate]
      rfl
    have hget : (attach (env.addressFromPublicKey k) k r₁).publicKeys.get k =
        some (env.addressFromPublicKey k) := by
      simp [attach, WalletIndex.get_set]
    rw [hstep, hget]
    exact ⟨looked_attach hr₁ hk, rfl⟩

end Lookups

/-! ## 2. The base class -/

namespace Base

/-- What `throwIfCannotBeApplied` of the base class asks for. -/
structure Passes (env : Services) (r : WalletRepository) (K : Keyring) (t : Transaction)
    (s : Address) : Prop where
  key : (K.attached s).isSome ∧ K.attached s = t.data.senderPublicKey
  spendable : Spendable r.accounts s t
  multi : (r.accounts s).hasMultiSignature = true →
    "multiSignature.legacy" ∈ env.knownAttributes ∧
      ((r.accounts s).multiSignature.bind (·.legacy)).isSome = false
  single : (r.accounts s).hasMultiSignature = false →
    ¬ (t.data.signatures.isSome = true ∧ (!isMultiSignatureRegistration t) = true)

variable {env : Services} {r₀ : WalletRepository} {K : Keyring} {t : Transaction} {s : Address}

/-- A key that is attached has an entry, and leads back. -/
theorem known_of_attached {r : WalletRepository} (h : Looked env r₀ K r) {k : PublicKey}
    (hk : K.attached s = some k) : K.known k = true ∧ env.addressFromPublicKey k = s := by
  have hattached : (r.wallet s).publicKey = some k := by
    rw [← hk, ← h.keyring]
    rfl
  have hget := h.stands.sound.own s k hattached
  refine ⟨?_, (h.stands.sound.keys k s hget).symm⟩
  rw [← h.keyring]
  show r.hasByPublicKey k = true
  rw [hasByPublicKey_eq, hget]
  rfl

theorem checkMultiSignature_decides {k : PublicKey} (hs : t.data.senderPublicKey = some k)
    (hknown : K.known k = true) (haddr : env.addressFromPublicKey k = s)
    (hms : (r₀.accounts s).hasMultiSignature = true) :
    Prog.Decides (Looked env r₀) K (checkMultiSignature env t)
      ("multiSignature.legacy" ∈ env.knownAttributes ∧
        ((r₀.accounts s).multiSignature.bind (·.legacy)).isSome = false)
      (fun _ => True) K := by
  have hlookup : K.lookup env k = K := if_pos hknown
  obtain ⟨asset, hasset⟩ := Option.isSome_iff_exists.1 hms
  unfold checkMultiSignature hasAttribute
  refine (assertDefined_some hs).decides fun k' hk' => ?_
  subst hk'
  refine (looked_findByPublicKey k').decides fun a ha => ?_
  subst ha
  rw [hlookup]
  refine (looked_account _).decides fun w hw => ?_
  subst hw
  rw [haddr, hms, hasset]
  have hlast : Prog.Decides (Looked env r₀) K (do
      let asset ← assertDefined (some asset)
      Prog.throwIf ((!(verifySignatures env (r₀.accounts s) t.data (some asset)).truthy) = true)
        .invalidMultiSignatures : RepositoryProg Unit) True (fun _ => True) K := by
    refine (assertDefined_some rfl).decides fun asset' ha => ?_
    subst ha
    exact (Prog.Decides.throwIf.congr (by simp)).mono fun _ _ => trivial
  have hattribute : Prog.Decides (Looked env r₀) K (do
      Prog.throwIf ("multiSignature.legacy" ∉ env.knownAttributes)
        (.unknownAttribute "multiSignature.legacy")
      pure (asset.legacy).isSome : RepositoryProg Bool)
      ("multiSignature.legacy" ∈ env.knownAttributes) (fun b => b = asset.legacy.isSome) K :=
    (Prog.Decides.throwIf.bind fun _ _ => Prog.Decides.pure
      (P := fun b => b = asset.legacy.isSome) rfl).congr (by simp)
  have hrest : Prog.Decides (Looked env r₀) K (do
      let legacy ← (do
        Prog.throwIf ("multiSignature.legacy" ∉ env.knownAttributes)
          (.unknownAttribute "multiSignature.legacy")
        pure (asset.legacy).isSome : RepositoryProg Bool)
      Prog.throwIf legacy .legacyMultiSignature
      let asset ← assertDefined (some asset)
      Prog.throwIf ((!(verifySignatures env (r₀.accounts s) t.data (some asset)).truthy) = true)
        .invalidMultiSignatures : RepositoryProg Unit)
      ("multiSignature.legacy" ∈ env.knownAttributes ∧ asset.legacy.isSome = false)
      (fun _ => True) K := by
    refine hattribute.bind fun legacy hl => ?_
    subst hl
    exact (Prog.Decides.throwIf.bind fun _ _ => hlast).congr (by simp)
  exact (Prog.Decides.throwIf.bind fun _ _ => hrest).congr (by simp)

/-- **The check of the base class.** -/
theorem throwIfCannotBeApplied_decides (hr : ∃ r, Looked env r₀ K r) (t : Transaction)
    (s : Address) :
    Prog.Decides (Looked env r₀) K (throwIfCannotBeApplied env t s) (Passes env r₀ K t s)
      (fun _ => True) K := by
  obtain ⟨r, hr⟩ := hr
  unfold throwIfCannotBeApplied
  refine (looked_findByAddress s).decides fun b hb => ?_
  subst hb
  refine (looked_wallet b).decides fun w hw => ?_
  obtain ⟨hw, hkey⟩ := hw
  rw [hkey]
  cases hk : K.attached b with
  | none =>
    have hthrow : Prog.Decides (Looked env r₀) K
        (assertDefined none : RepositoryProg PublicKey) False (fun _ => False) K :=
      Prog.Decides.throw
    refine (hthrow.bind (D := True) fun _ h => h.elim).congr ?_
    exact ⟨fun h => h.1.elim, fun h => by simpa [hk] using h.key.1⟩
  | some k =>
    obtain ⟨hknown, haddr⟩ := known_of_attached hr hk
    refine (assertDefined_some rfl).decides fun k' hk' => ?_
    subst hk'
    refine (looked_known k').decides fun known hknown' => ?_
    subst hknown'
    refine (looked_account b).decides fun stored hstored => ?_
    subst hstored
    have hnonce : Prog.Decides (Looked env r₀) K (verifyTransactionNonceApply b t)
        ((r₀.accounts b).nonce + 1 = nonceOf t) (fun _ => True) K := by
      unfold verifyTransactionNonceApply
      refine (looked_wallet b).decides fun w' hw' => ?_
      have hn : w'.nonce = (r₀.accounts b).nonce := congrArg Account.nonce hw'.1
      rw [hn]
      exact (Prog.Decides.throwIf.congr not_not).mono fun _ _ => trivial
    have hmulti : t.data.senderPublicKey = some k' → Prog.Decides (Looked env r₀) K
        (if (r₀.accounts b).hasMultiSignature = true then checkMultiSignature env t
          else Prog.throwIf (t.data.signatures.isSome = true ∧
            (!isMultiSignatureRegistration t) = true)
            .unsupportedMultiSignatureRegistrationTransaction) _ (fun _ => True) K := fun hs =>
      Prog.Decides.ite (fun hm => checkMultiSignature_decides hs hknown haddr hm)
        fun _ => Prog.Decides.throwIf.mono fun _ _ => trivial
    have hsender := (Prog.Decides.throwIf (R := Looked env r₀) (b := K)
      (c := t.data.senderPublicKey ≠ some k') (e := Exception.senderWalletMismatch)).bind
        fun _ hne => hmulti (not_not.1 hne)
    rw [hw]
    refine (Prog.Decides.throwIf.bind fun _ _ => hnonce.bind fun _ _ =>
      Prog.Decides.throwIf.bind fun _ _ => hsender).congr ?_
    constructor
    · intro h
      obtain ⟨-, hn, hb, hs, hm, hsingle⟩ := h
      refine ⟨⟨by rw [hk]; rfl, by rw [hk, not_not.1 hs]⟩, ⟨hn, by omega⟩, hm, fun hno => ?_⟩
      exact hsingle (by rw [hno]; exact Bool.false_ne_true)
    · intro h
      refine ⟨by simp [hknown], h.spendable.nonce, by have := h.spendable.balance; omega, ?_,
        h.multi, fun hno => h.single (by simpa using hno)⟩
      rw [← h.key.2, hk]
      exact fun hne => hne rfl

end Base

/-! ## 3. The handlers -/

section Handlers

variable {env : Services} {r₀ : WalletRepository} {K : Keyring} {t : Transaction} {s : Address}

theorem looked_lookup {r : WalletRepository} (h : Looked env r₀ K r) (k : PublicKey) :
    ∃ r, Looked env r₀ (K.lookup env k) r := by
  obtain ⟨a, r', -, hr', -⟩ := (looked_findByPublicKey k).run h
  exact ⟨r', hr'⟩

theorem looked_lookups {r : WalletRepository} (h : Looked env r₀ K r) (ks : List PublicKey) :
    ∃ r, Looked env r₀ (ks.foldl (Keyring.lookup env) K) r := by
  induction ks generalizing K r with
  | nil => exact ⟨r, h⟩
  | cons k ks ih =>
    obtain ⟨r', hr'⟩ := looked_lookup h k
    exact ih hr'

/-- A value that has to be there. -/
theorem assertDefined_decides {α γ : Type} {b b' : Keyring} {R : Keyring → WalletRepository → Prop}
    {f : α → RepositoryProg γ} {D : α → Prop} {Q : γ → Prop} (o : Option α)
    (hf : ∀ a, o = some a → Prog.Decides R b (f a) (D a) Q b') :
    Prog.Decides R b (assertDefined o >>= f) (∃ a, o = some a ∧ D a) Q b' := by
  cases o with
  | none =>
    exact fun _ _ h => h.elim fun _ ha => nomatch ha.1
  | some a =>
    refine (assertDefined_some rfl).decides fun a' ha' => ?_
    subst ha'
    exact (hf a' rfl).congr ⟨fun h => ⟨a', rfl, h⟩, fun ⟨_, ha, h⟩ => Option.some.inj ha ▸ h⟩

/-- A multi-payment: the balance covers the payments and the fee. -/
def MultiPaymentTransactionHandler.Passes (r : WalletRepository) (t : Transaction) (s : Address) :
    Prop :=
  ∃ payments, t.data.payments = some payments ∧
    0 ≤ (r.accounts s).balance - totalPayments payments - t.data.fee

theorem MultiPaymentTransactionHandler.decides (hr : ∃ r, Looked env r₀ K r) :
    Prog.Decides (Looked env r₀) K (throwIfCannotBeApplied env t s)
      (Passes r₀ t s ∧ Base.Passes env r₀ K t s) (fun _ => True) K := by
  unfold throwIfCannotBeApplied
  refine (assertDefined_decides (D := fun payments =>
    0 ≤ (r₀.accounts s).balance - totalPayments payments - t.data.fee ∧
      Base.Passes env r₀ K t s) _ fun payments _ => ?_).congr ?_
  · refine (looked_account s).decides fun w hw => ?_
    subst hw
    exact (Prog.Decides.throwIf.bind fun _ _ => Base.throwIfCannotBeApplied_decides hr t s).congr
      (and_congr_left' (by omega))
  · constructor
    · intro h
      obtain ⟨payments, hp, hb, hbase⟩ := h
      exact ⟨⟨payments, hp, hb⟩, hbase⟩
    · intro h
      obtain ⟨⟨payments, hp, hb⟩, hbase⟩ := h
      exact ⟨payments, hp, hb, hbase⟩

/-- A resignation: an active validator, and enough of them are left. -/
structure ValidatorResignationTransactionHandler.Passes (env : Services) (r : WalletRepository)
    (s : Address) : Prop where
  validator : (r.accounts s).isValidator = true
  active : (r.accounts s).isResigned = false
  enough : (env.activeValidators : Int) ≤ (currentValidatorsCount r : Int) - 1

theorem ValidatorResignationTransactionHandler.decides (hr : ∃ r, Looked env r₀ K r) :
    Prog.Decides (Looked env r₀) K (throwIfCannotBeApplied env t s)
      (Passes env r₀ s ∧ Base.Passes env r₀ K t s) (fun _ => True) K := by
  unfold throwIfCannotBeApplied
  have hcount : Prog.Always (Looked env r₀) K (Prog.gets currentValidatorsCount :
      RepositoryProg Nat)
      (fun n => n = currentValidatorsCount r₀) K := by
    refine looked_gets fun r hr => ?_
    unfold currentValidatorsCount allByUsername
    rw [hr.usernames, hr.stands.accounts]
  refine (looked_account s).decides fun w hw => ?_
  subst hw
  have hlast : Prog.Decides (Looked env r₀) K (do
      let count ← Prog.gets currentValidatorsCount
      Prog.throwIf ((count : Int) - 1 < env.activeValidators) .notEnoughValidators
      Base.throwIfCannotBeApplied env t s)
      (¬ (currentValidatorsCount r₀ : Int) - 1 < env.activeValidators ∧ Base.Passes env r₀ K t s)
      (fun _ => True) K := by
    refine hcount.decides fun n hn => ?_
    subst hn
    exact Prog.Decides.throwIf.bind fun _ _ => Base.throwIfCannotBeApplied_decides hr t s
  refine (Prog.Decides.throwIf.bind fun _ _ => Prog.Decides.throwIf.bind fun _ _ => hlast).congr ?_
  constructor
  · intro h
    obtain ⟨hval, hres, hcnt, hbase⟩ := h
    exact ⟨⟨by simpa using hval, by simpa using hres, by omega⟩, hbase⟩
  · intro h
    refine ⟨by simpa using h.1.validator, by simpa using h.1.active, ?_, h.2⟩
    have := h.1.enough
    omega

/-- A registration: no multi-signature wallet and no validator yet, with a free username. -/
structure ValidatorRegistrationTransactionHandler.Passes (env : Services) (r : WalletRepository)
    (t : Transaction) (s : Address) : Prop where
  single : ∃ k, t.data.senderPublicKey = some k ∧
    (r.accounts (env.addressFromPublicKey k)).hasMultiSignature = false
  fresh : (r.accounts s).isValidator = false
  free : ∃ username, t.data.username = some username ∧ r.hasByUsername username = false

theorem ValidatorRegistrationTransactionHandler.decides {r : WalletRepository}
    (hr : Looked env r₀ K r) :
    Prog.Decides (Looked env r₀) K (throwIfCannotBeApplied env t s)
      (Passes env r₀ t s ∧ Base.Passes env r₀
        (t.data.senderPublicKey.toList.foldl (Keyring.lookup env) K) t s) (fun _ => True)
      (t.data.senderPublicKey.toList.foldl (Keyring.lookup env) K) := by
  unfold throwIfCannotBeApplied
  cases hk : t.data.senderPublicKey with
  | none => exact fun _ _ h => by simpa [hk] using h.1.single
  | some k =>
    show Prog.Decides _ _ _ (_ ∧ Base.Passes env r₀ (K.lookup env k) t s) _ (K.lookup env k)
    have hname : ∀ username, Prog.Always (Looked env r₀) (K.lookup env k)
        (Prog.gets fun r => r.hasByUsername username : RepositoryProg Bool)
        (fun b => b = r₀.hasByUsername username) (K.lookup env k) :=
      fun username => looked_gets fun r hr => congrArg (·.has username) hr.usernames
    refine (assertDefined_some rfl).decides fun k' hk' => ?_
    subst hk'
    refine (looked_findByPublicKey k').decides fun a ha => ?_
    subst ha
    refine (looked_account _).decides fun x hx => ?_
    subst hx
    refine (Prog.Decides.throwIf.bind fun _ _ => assertDefined_decides (D := fun username =>
      ¬ (r₀.accounts s).isValidator = true ∧ ¬ r₀.hasByUsername username = true ∧
        Base.Passes env r₀ (K.lookup env k') t s) _ fun username _ =>
          (looked_account s).decides fun w hw => ?_).congr ?_
    · subst hw
      refine Prog.Decides.throwIf.bind fun _ _ => (hname username).decides fun taken ht => ?_
      subst ht
      exact Prog.Decides.throwIf.bind fun _ _ =>
        Base.throwIfCannotBeApplied_decides (looked_lookup hr k') t s
    · constructor
      · intro h
        obtain ⟨hms, username, hu, hval, htaken, hbase⟩ := h
        exact ⟨⟨⟨k', hk, by simpa using hms⟩, by simpa using hval, username, hu,
          by simpa using htaken⟩, hbase⟩
      · intro h
        obtain ⟨⟨⟨k, hk', hms⟩, hval, username, hu, htaken⟩, hbase⟩ := h
        obtain rfl : k' = k := Option.some.inj (hk.symm.trans hk')
        exact ⟨by simpa using hms, username, hu, by simpa using hval, by simpa using htaken, hbase⟩

/-- The aggregated key of the asset, when there is one. -/
def aggregatedKey (env : Services) (d : TransactionData) : Option PublicKey :=
  match d.multiSignature.map env.publicKeyFromMultiSignatureAsset with
  | some (.ok k) => some k
  | _ => none

/-- A multi-signature registration: a sensible minimum, as many signatures as participants, and
    a wallet that is not registered yet. -/
structure MultiSignatureRegistrationTransactionHandler.Passes (env : Services)
    (r : WalletRepository) (t : Transaction) : Prop where
  counts : ∃ asset signatures, t.data.multiSignature = some asset ∧
    t.data.signatures = some signatures ∧ 1 ≤ asset.min ∧ asset.min ≤ asset.publicKeys.length ∧
      asset.min ≤ 16 ∧ asset.publicKeys.length = signatures.length
  fresh : ∃ k, aggregatedKey env t.data = some k ∧
    (r.accounts (env.addressFromPublicKey k)).hasMultiSignature = false

theorem MultiSignatureRegistrationTransactionHandler.decides {r : WalletRepository}
    (hr : Looked env r₀ K r) :
    Prog.Decides (Looked env r₀) K (throwIfCannotBeApplied env t s)
      (Passes env r₀ t ∧ Base.Passes env r₀
        ((aggregatedKey env t.data).toList.foldl (Keyring.lookup env) K) t s) (fun _ => True)
      ((aggregatedKey env t.data).toList.foldl (Keyring.lookup env) K) := by
  unfold throwIfCannotBeApplied
  cases ha : t.data.multiSignature with
  | none =>
    refine fun _ _ h => ?_
    obtain ⟨asset, signatures, hasset, -⟩ := h.1.counts
    rw [ha] at hasset
    cases hasset
  | some asset =>
    have hkey : aggregatedKey env t.data = (env.publicKeyFromMultiSignatureAsset asset).toOption := by
      unfold aggregatedKey
      rw [ha, Option.map_some]
      cases env.publicKeyFromMultiSignatureAsset asset <;> rfl
    have htail : Prog.Decides (Looked env r₀) K (do
        let multiSigPublicKey ← Prog.ofExcept (env.publicKeyFromMultiSignatureAsset asset)
        let recipientWallet ← findByPublicKey env multiSigPublicKey
        let recipient ← account recipientWallet
        Prog.throwIf recipient.hasMultiSignature .multiSignatureAlreadyRegistered
        let w ← account s
        Prog.throwIf (!(verifySignatures env w t.data (some asset)).truthy) .invalidMultiSignature
        Base.throwIfCannotBeApplied env t s)
        ((∃ k, aggregatedKey env t.data = some k ∧
          (r₀.accounts (env.addressFromPublicKey k)).hasMultiSignature = false) ∧
            Base.Passes env r₀ ((aggregatedKey env t.data).toList.foldl (Keyring.lookup env) K) t s)
        (fun _ => True) ((aggregatedKey env t.data).toList.foldl (Keyring.lookup env) K) := by
      rw [hkey]
      cases env.publicKeyFromMultiSignatureAsset asset with
      | error e => exact fun _ _ h => h.1.elim fun _ hk => nomatch hk.1
      | ok mk =>
        show Prog.Decides _ _ _ (_ ∧ Base.Passes env r₀ (K.lookup env mk) t s) _ (K.lookup env mk)
        have hpure : Prog.Always (Looked env r₀) K (Prog.ofExcept (.ok mk) :
            RepositoryProg PublicKey) (fun k => k = mk) K := Prog.Always.pure rfl
        refine hpure.decides fun k hk => ?_
        subst hk
        refine (looked_findByPublicKey k).decides fun a ha => ?_
        subst ha
        refine (looked_account _).decides fun x hx => ?_
        subst hx
        have hbase : Prog.Decides (Looked env r₀) (K.lookup env k) (do
            let w ← account s
            Prog.throwIf (!(verifySignatures env w t.data (some asset)).truthy)
              .invalidMultiSignature
            Base.throwIfCannotBeApplied env t s) (Base.Passes env r₀ (K.lookup env k) t s)
            (fun _ => True) (K.lookup env k) := by
          refine (looked_account s).decides fun w _ => ?_
          exact (Prog.Decides.throwIf.bind fun _ _ =>
            Base.throwIfCannotBeApplied_decides (looked_lookup hr k) t s).congr (by simp)
        refine (Prog.Decides.throwIf.bind fun _ _ => hbase).congr ?_
        constructor
        · intro h
          exact ⟨⟨k, rfl, by simpa using h.1⟩, h.2⟩
        · intro h
          obtain ⟨⟨k', hk', hms⟩, hbase⟩ := h
          obtain rfl : k = k' := Option.some.inj hk'
          exact ⟨by simpa using hms, hbase⟩
    refine (assertDefined_some rfl).decides fun asset' h' => ?_
    subst h'
    refine (Prog.Decides.throwIf.bind fun _ _ => assertDefined_decides
      (D := fun signatures : List String => ¬ asset'.publicKeys.length ≠ signatures.length ∧ _) _
        fun signatures _ => Prog.Decides.throwIf.bind fun _ _ => htail).congr ?_
    constructor
    · intro h
      obtain ⟨hcounts, signatures, hs, hlen, hfresh, hbase⟩ := h
      exact ⟨⟨⟨asset', signatures, ha, hs, by omega, by omega, by omega, not_not.1 hlen⟩, hfresh⟩,
        hbase⟩
    · intro h
      obtain ⟨⟨⟨asset, signatures, hasset, hs, hmin, hmax, hlimit, hlen⟩, hfresh⟩, hbase⟩ := h
      obtain rfl : asset' = asset := Option.some.inj (ha.symm.trans hasset)
      exact ⟨by omega, signatures, hs, not_not.2 hlen, hfresh, hbase⟩

/-- What a vote asks of the validator it is for. -/
def VoteTransactionHandler.Eligible (env : Services) (r : WalletRepository) (k : PublicKey) :
    Prop :=
  (r.accounts (env.addressFromPublicKey k)).isValidator = true ∧
    (r.accounts (env.addressFromPublicKey k)).isResigned = false

/-- A vote: at most one unvote, of the present vote, and at most one vote, for an eligible
    validator and with no vote left. -/
structure VoteTransactionHandler.Passes (env : Services) (r : WalletRepository) (t : Transaction)
    (s : Address) : Prop where
  lists : ∃ votes unvotes, t.data.votes = some votes ∧ t.data.unvotes = some unvotes ∧
    votes.length ≤ 1 ∧ unvotes.length ≤ 1 ∧ 1 ≤ votes.length + unvotes.length
  unvotes : ∀ k ∈ t.data.unvotes.getD [], (r.accounts s).vote = some k ∧
    (r.accounts (env.addressFromPublicKey k)).isValidator = true
  votes : ∀ k ∈ t.data.votes.getD [], Eligible env r k ∧
    (t.data.unvotes.getD [] = [] → (r.accounts s).vote = none)

namespace VoteTransactionHandler

theorem checkUnvote_decides (walletVote : Option PublicKey) (k : PublicKey) :
    Prog.Decides (Looked env r₀) K (checkUnvote env walletVote k)
      (walletVote = some k ∧ (r₀.accounts (env.addressFromPublicKey k)).isValidator = true)
      (fun _ => True) (K.lookup env k) := by
  unfold checkUnvote
  refine (looked_findByPublicKey k).decides fun a ha => ?_
  subst ha
  cases walletVote with
  | none => exact fun _ _ h => nomatch h.1
  | some vote =>
    have hlast : Prog.Decides (Looked env r₀) (K.lookup env k) (do
        let w ← account (env.addressFromPublicKey k)
        Prog.throwIf (!w.isValidator) (.votedForNonValidator k))
        ((r₀.accounts (env.addressFromPublicKey k)).isValidator = true) (fun _ => True)
        (K.lookup env k) := by
      refine (looked_account _).decides fun w hw => ?_
      subst hw
      exact (Prog.Decides.throwIf.congr (by simp)).mono fun _ _ => trivial
    exact (Prog.Decides.throwIf.bind fun _ _ => hlast).congr (and_congr_left' (by simp))

theorem checkVote_decides (walletVote : Option PublicKey) (k : PublicKey) :
    Prog.Decides (Looked env r₀) K (checkVote env walletVote k)
      (walletVote = none ∧ Eligible env r₀ k) (fun _ => True) (K.lookup env k) := by
  unfold checkVote
  refine (looked_findByPublicKey k).decides fun a ha => ?_
  subst ha
  have hlast : Prog.Decides (Looked env r₀) (K.lookup env k) (do
      let w ← account (env.addressFromPublicKey k)
      Prog.throwIf (!w.isValidator) (.votedForNonValidator k)
      Prog.throwIf w.isResigned (.votedForResignedValidator k)) (Eligible env r₀ k)
      (fun _ => True) (K.lookup env k) := by
    refine (looked_account _).decides fun w hw => ?_
    subst hw
    exact ((Prog.Decides.throwIf.bind fun _ _ => Prog.Decides.throwIf).congr (by
      simp [Eligible])).mono fun _ _ => trivial
  exact (Prog.Decides.throwIf.bind fun _ _ => hlast).congr (and_congr_left' (by simp))

/-- The loop over at most one unvote. -/
theorem checkUnvotes_decides (walletVote : Option PublicKey) {unvotes : List PublicKey}
    (h : unvotes.length ≤ 1) :
    Prog.Decides (Looked env r₀) K (checkUnvotes env walletVote unvotes)
      (∀ k ∈ unvotes, walletVote = some k ∧
        (r₀.accounts (env.addressFromPublicKey k)).isValidator = true)
      (fun left => left = if unvotes = [] then walletVote else none)
      (unvotes.foldl (Keyring.lookup env) K) := by
  match unvotes, h with
  | [], _ =>
    exact (Prog.Decides.pure (P := fun left => left = walletVote) rfl).congr (by simp)
  | [k], _ =>
    have hnone : Prog.Decides (Looked env r₀) (K.lookup env k)
        (pure none : RepositoryProg (Option PublicKey)) True (fun left => left = none)
        (K.lookup env k) := Prog.Decides.pure rfl
    exact ((checkUnvote_decides walletVote k).bind fun _ _ => hnone).congr (by simp)

/-- The loop over the votes. -/
theorem checkVotes_decides (walletVote : Option PublicKey) (votes : List PublicKey) :
    Prog.Decides (Looked env r₀) K (Prog.forEach (checkVote env walletVote) votes)
      (∀ k ∈ votes, walletVote = none ∧ Eligible env r₀ k) (fun _ => True)
      (votes.foldl (Keyring.lookup env) K) := by
  induction votes generalizing K with
  | nil => exact (Prog.Decides.pure trivial).congr (by simp)
  | cons k votes ih =>
    exact ((checkVote_decides walletVote k).bind fun _ _ => ih).congr
      (List.forall_mem_cons (p := fun k => walletVote = none ∧ Eligible env r₀ k)).symm

theorem checkAsset_decides (votes unvotes : List PublicKey) :
    Prog.Decides (Looked env r₀) K (checkAsset votes unvotes)
      (votes.length ≤ 1 ∧ unvotes.length ≤ 1 ∧ 1 ≤ votes.length + unvotes.length)
      (fun _ => votes.length ≤ 1 ∧ unvotes.length ≤ 1) K := by
  unfold checkAsset
  refine Prog.Decides.congr (Prog.Decides.throwIf.bind fun _ hv => Prog.Decides.throwIf.bind
    fun _ hu => Prog.Decides.throwIf.mono fun _ _ => ⟨by omega, by omega⟩) ?_
  constructor
  · intro h
    exact ⟨by omega, by omega, by omega⟩
  · intro h
    exact ⟨by omega, by omega, by omega⟩

theorem decides {r : WalletRepository} (hr : Looked env r₀ K r) :
    Prog.Decides (Looked env r₀) K (throwIfCannotBeApplied env t s)
      (Passes env r₀ t s ∧ Base.Passes env r₀ ((t.data.unvotes.getD [] ++
        t.data.votes.getD []).foldl (Keyring.lookup env) K) t s) (fun _ => True)
      ((t.data.unvotes.getD [] ++ t.data.votes.getD []).foldl (Keyring.lookup env) K) := by
  unfold throwIfCannotBeApplied
  cases hv : t.data.votes with
  | none =>
    refine fun _ _ h => ?_
    obtain ⟨votes, unvotes, hvotes, -⟩ := h.1.lists
    rw [hv] at hvotes
    cases hvotes
  | some votes =>
    cases hu : t.data.unvotes with
    | none =>
      refine fun _ _ h => ?_
      obtain ⟨votes, unvotes, -, hunvotes, -⟩ := h.1.lists
      rw [hu] at hunvotes
      cases hunvotes
    | some unvotes =>
      rw [Option.getD_some, Option.getD_some, List.foldl_append]
      refine (assertDefined_some rfl).decides fun vs hvs => ?_
      subst hvs
      refine (assertDefined_some rfl).decides fun us hus => ?_
      subst hus
      have hvotes : ∀ left, left = (if us = [] then (r₀.accounts s).vote else none) →
          Prog.Decides (Looked env r₀) (us.foldl (Keyring.lookup env) K) (do
            Prog.forEach (checkVote env left) vs
            Base.throwIfCannotBeApplied env t s)
            ((∀ k ∈ vs, (if us = [] then (r₀.accounts s).vote else none) = none ∧
              Eligible env r₀ k) ∧ Base.Passes env r₀ (vs.foldl (Keyring.lookup env)
                (us.foldl (Keyring.lookup env) K)) t s) (fun _ => True)
            (vs.foldl (Keyring.lookup env) (us.foldl (Keyring.lookup env) K)) := by
        intro left hleft
        subst hleft
        refine (checkVotes_decides _ vs).bind fun _ _ => Base.throwIfCannotBeApplied_decides ?_ t s
        obtain ⟨r', hr'⟩ := looked_lookups hr us
        exact looked_lookups hr' vs
      have hrest : vs.length ≤ 1 ∧ us.length ≤ 1 → Prog.Decides (Looked env r₀) K (do
          let w ← account s
          let walletVote ← checkUnvotes env w.vote us
          Prog.forEach (checkVote env walletVote) vs
          Base.throwIfCannotBeApplied env t s) _ (fun _ => True)
          (vs.foldl (Keyring.lookup env) (us.foldl (Keyring.lookup env) K)) := fun hlen =>
        (looked_account s).decides fun w hw => by
          subst hw
          exact (checkUnvotes_decides _ hlen.2).bind hvotes
      refine ((checkAsset_decides vs us).bind fun _ hlen => hrest hlen).congr ?_
      constructor
      · intro h
        obtain ⟨hlen, hun, hvo, hbase⟩ := h
        refine ⟨⟨⟨vs, us, hv, hu, hlen⟩, ?_, ?_⟩, hbase⟩
        · rw [hu]
          exact hun
        · rw [hv, hu]
          refine fun k hk => ⟨(hvo k hk).2, fun hnil => ?_⟩
          have hnone := (hvo k hk).1
          rw [Option.getD_some] at hnil
          rwa [if_pos hnil] at hnone
      · intro h
        obtain ⟨⟨⟨votes, unvotes, hvs, hus, hlen⟩, hun, hvo⟩, hbase⟩ := h
        obtain rfl : vs = votes := Option.some.inj (hv.symm.trans hvs)
        obtain rfl : us = unvotes := Option.some.inj (hu.symm.trans hus)
        rw [hu] at hun
        rw [hv, hu] at hvo
        refine ⟨hlen, hun, fun k hk => ⟨?_, (hvo k hk).1⟩, hbase⟩
        by_cases hnil : us = []
        · rw [if_pos hnil]
          exact (hvo k hk).2 hnil
        · rw [if_neg hnil]

end VoteTransactionHandler

end Handlers

/-! ## 4. All six -/

/-- What the handler of a transaction checks before it turns to the base class. -/
structure OwnChecks (env : Services) (r : WalletRepository) (t : Transaction) (s : Address) :
    Prop where
  known : t.data.type ∈ handlers.map (·.type)
  registration : t.data.type = TransactionType.validatorRegistration →
    ValidatorRegistrationTransactionHandler.Passes env r t s
  resignation : t.data.type = TransactionType.validatorResignation →
    ValidatorResignationTransactionHandler.Passes env r s
  multiPayment : t.data.type = TransactionType.multiPayment →
    MultiPaymentTransactionHandler.Passes r t s
  multiSignature : t.data.type = TransactionType.multiSignature →
    MultiSignatureRegistrationTransactionHandler.Passes env r t
  vote : t.data.type = TransactionType.vote → VoteTransactionHandler.Passes env r t s

/-- The keys the handler looks up before it turns to the base class. -/
def lookedUp (env : Services) (d : TransactionData) : List PublicKey :=
  if d.type = TransactionType.vote then d.unvotes.getD [] ++ d.votes.getD []
  else if d.type = TransactionType.validatorRegistration then d.senderPublicKey.toList
  else if d.type = TransactionType.multiSignature then (aggregatedKey env d).toList
  else []

/-- Everything that is checked of a transaction of the sender `k`, except signatures. -/
structure Passes (env : Services) (r : WalletRepository) (t : Transaction) (k : PublicKey) :
    Prop where
  own : OwnChecks env r t (env.addressFromPublicKey k)
  base : Base.Passes env r ((lookedUp env t.data).foldl (Keyring.lookup env)
    (r.keyring.lookup env k)) t (env.addressFromPublicKey k)

section All

variable {env : Services} {r : WalletRepository} {t : Transaction} {x : TransactionHandler}

theorem looked_self (hr : r.Sound env) : Looked env r r.keyring r :=
  ⟨⟨hr, rfl, rfl⟩, rfl, rfl⟩

/-- One member of the family, by its type. -/
theorem handler_decides {K : Keyring} {s : Address} (hx : x ∈ handlers)
    (ht : x.type = t.data.type) {r' : WalletRepository} (hr : Looked env r K r') :
    Prog.Decides (Looked env r) K (x.throwIfCannotBeApplied env t s)
      (OwnChecks env r t s ∧ Base.Passes env r ((lookedUp env t.data).foldl (Keyring.lookup env)
        K) t s) (fun _ => True) ((lookedUp env t.data).foldl (Keyring.lookup env) K) := by
  have hknown : t.data.type ∈ handlers.map (·.type) := ht ▸ List.mem_map_of_mem hx
  simp only [handlers, List.mem_cons, List.not_mem_nil, or_false] at hx
  rcases hx with rfl | rfl | rfl | rfl | rfl | rfl
  · have ht : t.data.type = TransactionType.validatorRegistration := ht.symm
    have hl : lookedUp env t.data = t.data.senderPublicKey.toList := by
      simp [lookedUp, ht, TransactionType.vote, TransactionType.validatorRegistration]
    rw [hl]
    refine (ValidatorRegistrationTransactionHandler.decides hr).congr (and_congr_left' ?_)
    refine ⟨fun h => ⟨hknown, fun _ => h, ?_, ?_, ?_, ?_⟩, fun h => h.registration ht⟩
    all_goals intro h'; rw [ht] at h'; cases h'
  · have ht : t.data.type = TransactionType.validatorResignation := ht.symm
    have hl : lookedUp env t.data = [] := by
      simp [lookedUp, ht, TransactionType.vote, TransactionType.validatorRegistration,
        TransactionType.validatorResignation, TransactionType.multiSignature]
    rw [hl]
    refine (ValidatorResignationTransactionHandler.decides ⟨r', hr⟩).congr (and_congr_left' ?_)
    refine ⟨fun h => ⟨hknown, ?_, fun _ => h, ?_, ?_, ?_⟩, fun h => h.resignation ht⟩
    all_goals intro h'; rw [ht] at h'; cases h'
  · have ht : t.data.type = TransactionType.multiPayment := ht.symm
    have hl : lookedUp env t.data = [] := by
      simp [lookedUp, ht, TransactionType.vote, TransactionType.validatorRegistration,
        TransactionType.multiPayment, TransactionType.multiSignature]
    rw [hl]
    refine (MultiPaymentTransactionHandler.decides ⟨r', hr⟩).congr (and_congr_left' ?_)
    refine ⟨fun h => ⟨hknown, ?_, ?_, fun _ => h, ?_, ?_⟩, fun h => h.multiPayment ht⟩
    all_goals intro h'; rw [ht] at h'; cases h'
  · have ht : t.data.type = TransactionType.multiSignature := ht.symm
    have hl : lookedUp env t.data = (aggregatedKey env t.data).toList := by
      simp [lookedUp, ht, TransactionType.vote, TransactionType.validatorRegistration,
        TransactionType.multiSignature]
    rw [hl]
    refine (MultiSignatureRegistrationTransactionHandler.decides hr).congr (and_congr_left' ?_)
    refine ⟨fun h => ⟨hknown, ?_, ?_, ?_, fun _ => h, ?_⟩, fun h => h.multiSignature ht⟩
    all_goals intro h'; rw [ht] at h'; cases h'
  · have ht : t.data.type = TransactionType.transfer := ht.symm
    have hl : lookedUp env t.data = [] := by
      simp [lookedUp, ht, TransactionType.vote, TransactionType.validatorRegistration,
        TransactionType.transfer, TransactionType.multiSignature]
    rw [hl]
    refine (Base.throwIfCannotBeApplied_decides ⟨r', hr⟩ t s).congr ?_
    refine ⟨fun h => ⟨⟨hknown, ?_, ?_, ?_, ?_, ?_⟩, h⟩, And.right⟩
    all_goals intro h'; rw [ht] at h'; cases h'
  · have ht : t.data.type = TransactionType.vote := ht.symm
    have hl : lookedUp env t.data = t.data.unvotes.getD [] ++ t.data.votes.getD [] := by
      simp [lookedUp, ht]
    rw [hl]
    refine (VoteTransactionHandler.decides hr).congr (and_congr_left' ?_)
    refine ⟨fun h => ⟨hknown, ?_, ?_, ?_, ?_, fun _ => h⟩, fun h => h.vote ht⟩
    all_goals intro h'; rw [ht] at h'; cases h'

/-- **The check of a transaction returns exactly when everything but signatures is in order.** -/
theorem checked_isDone_iff (hr : r.Sound env) (hx : x ∈ handlers) (ht : x.type = t.data.type)
    (k : PublicKey) :
    ((checked x.throwIfCannotBeApplied env t k).run r).isDone = true ↔ Passes env r t k := by
  have hchecked : Prog.Decides (Looked env r) r.keyring (checked x.throwIfCannotBeApplied env t k)
      (OwnChecks env r t (env.addressFromPublicKey k) ∧ Base.Passes env r
        ((lookedUp env t.data).foldl (Keyring.lookup env) (r.keyring.lookup env k)) t
          (env.addressFromPublicKey k)) (fun _ => True)
      ((lookedUp env t.data).foldl (Keyring.lookup env) (r.keyring.lookup env k)) := by
    unfold checked
    refine (looked_findByPublicKey k).decides fun a ha => ?_
    subst ha
    obtain ⟨r', hr'⟩ := looked_lookup (looked_self hr) k
    exact handler_decides hx ht hr'
  rw [hchecked.isDone_iff (looked_self hr)]
  exact ⟨fun h => ⟨h.1, h.2⟩, fun h => ⟨h.own, h.base⟩⟩

end All

end CoreEx
