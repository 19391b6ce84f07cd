/-
  File:      CoreEx/Properties/UsernameUniqueness.lean
  Subject:   Usernames stay unique, and the indexes of usernames and resignations stay right.

  Four of the handlers write nothing the two indexes look at. A registration gives its sender a
  name that its check found free, and every other write that precedes an `index` leaves the wallet
  its name or takes it away; so indexing that one wallet anew is enough. This holds on any
  repository, for every order of transactions, and also where a call throws half-way: only the
  indexer of usernames can throw after it began, for a validator object without a name, and such
  an object had no entry to lose.

  * `NamesKept` -- the invariant; `SameNames` -- what most operations keep of it;
  * `updateIndex_names` -- a write followed by `index`;
  * `registration_keeps`, `resignation_keeps` -- the two handlers that write names;
  * `TransactionRun` -- transactions applied, the most recent ones reverted;
  * **`namesKept_of_run`** -- the invariant in every state reached.
-/
import CoreEx.State.RepositoryFrames
import CoreEx.Properties.Reversal

namespace CoreEx

open WalletRepository Base

/-! ## 1. The invariant -/

/-- No username twice, and the indexes say what the accounts say. -/
structure NamesKept (r : WalletRepository) : Prop where
  unique : ∀ a b u, (r.accounts a).username = some u → (r.accounts b).username = some u → a = b
  agrees : r.names.Agrees r.accounts

theorem namesKept_iff {r : WalletRepository} : NamesKept r ↔ r.names.Agrees r.accounts := by
  refine ⟨NamesKept.agrees, fun h => ⟨fun a b u ha hb => ?_, h⟩⟩
  have hab := ((h.usernames u a).2 ha).symm.trans ((h.usernames u b).2 hb)
  exact Option.some.inj hab

/-- The indexes are the same, and so is what they look at. -/
structure SameNames (r r' : WalletRepository) : Prop where
  names : r'.names = r.names
  username : ∀ a, (r'.accounts a).username = (r.accounts a).username
  isResigned : ∀ a, (r'.accounts a).isResigned = (r.accounts a).isResigned

theorem SameNames.agrees {r r' : WalletRepository} (h : SameNames r r')
    (hr : r.names.Agrees r.accounts) : r'.names.Agrees r'.accounts := by
  rw [h.names]
  exact hr.congr h.username h.isResigned

/-- A write that leaves name and resignation alone. -/
theorem sameNames_setWallet {r : WalletRepository} {a : Address} {w : Wallet}
    (hu : w.username = (r.accounts a).username)
    (hr : w.isResigned = (r.accounts a).isResigned) : SameNames r (r.setWallet a w) := by
  have hw : ∀ b, (r.setWallet a w).accounts b = if b = a then w.toAccount else r.accounts b := by
    intro b
    unfold accounts
    rw [wallet_setWallet]
    split <;> rfl
  refine ⟨rfl, fun b => ?_, fun b => ?_⟩
  · rw [hw]
    split
    · rename_i hb
      rw [hb, hu]
    · rfl
  · rw [hw]
    split
    · rename_i hb
      rw [hb, hr]
    · rfl

instance : RepositoryFrame SameNames where
  refl r := ⟨rfl, fun _ => rfl, fun _ => rfl⟩
  trans r r' r'' h h' := ⟨h'.names.trans h.names, fun a => (h'.username a).trans (h.username a),
    fun a => (h'.isResigned a).trans (h.isResigned a)⟩
  create r a hknown := by
    have hw : ∀ b, (r.setWallet a Wallet.new).accounts b = r.accounts b :=
      fun b => congrArg Wallet.toAccount (wallet_create hknown b)
    exact ⟨rfl, fun b => by rw [hw], fun b => by rw [hw]⟩
  attach r a k := by
    have h := sameNames_setWallet (r := r) (a := a) (w := { r.wallet a with publicKey := some k })
      rfl rfl
    exact ⟨h.names, h.username, h.isResigned⟩
  amounts r a x hx := by
    refine sameNames_setWallet ?_ ?_
    · show x.validator.bind _ = _
      rw [hx]
      rfl
    · show (x.validator.map _).getD _ = _
      rw [hx]
      rfl
  voteBalance r a value := by
    refine sameNames_setWallet ?_ ?_
    · show ((r.accounts a).validatorObject).username = (r.accounts a).username
      unfold Account.validatorObject Account.username
      cases (r.accounts a).validator <;> rfl
    · show ((r.accounts a).validatorObject).resigned = (r.accounts a).isResigned
      unfold Account.validatorObject Account.isResigned
      cases (r.accounts a).validator <;> rfl

/-- The indexes are right afterwards if they were before. -/
def StillAgrees (r r' : WalletRepository) : Prop :=
  r.names.Agrees r.accounts → r'.names.Agrees r'.accounts

theorem SameNames.stillAgrees {r r' : WalletRepository} (h : SameNames r r') : StillAgrees r r' :=
  h.agrees

instance : RepositoryFrame StillAgrees where
  refl _ h := h
  trans _ _ _ h h' hr := h' (h hr)
  create r a hknown := (RepositoryFrame.create (R := SameNames) r a hknown).stillAgrees
  attach r a k := (RepositoryFrame.attach (R := SameNames) r a k).stillAgrees
  amounts r a _ hx := (RepositoryFrame.amounts (R := SameNames) r a hx).stillAgrees
  voteBalance r a value := (RepositoryFrame.voteBalance (R := SameNames) r a value).stillAgrees

/-! ## 2. Indexing a wallet anew -/

theorem username_of_not_isValidator {w : Account} (hv : w.isValidator = false) :
    w.username = none := by
  have hnone : w.validator = none := by simpa [Account.isValidator] using hv
  unfold Account.username
  rw [hnone]
  rfl

theorem isValidator_of_isResigned {w : Account} (hr : w.isResigned = true) :
    w.isValidator = true := by
  unfold Account.isResigned at hr
  unfold Account.isValidator
  cases hv : w.validator with
  | none => simp [hv] at hr
  | some v => rfl

/-- The first two indexers touch neither accounts nor names. -/
theorem reindexKeys_names (r : WalletRepository) (a : Address) :
    (reindexPublicKey a (reindexAddress a r)).accounts = r.accounts ∧
    (reindexPublicKey a (reindexAddress a r)).names = r.names := by
  refine ⟨funext fun b => ?_, ?_⟩
  · unfold accounts
    rw [wallet_reindexPublicKey, wallet_reindexAddress]
  · unfold reindexPublicKey
    cases ((reindexAddress a r).wallet a).publicKey <;> rfl

/-- The other two have one shape: forget, and set the name of a wallet that counts. -/
theorem indexer_run (forget : WalletRepository → WalletRepository)
    (set : String → WalletRepository → WalletRepository) (counts : Account → Bool)
    (r : WalletRepository) (a : Address) :
    (do
      Prog.modify forget
      let w ← account a
      Prog.when (counts w) do
        let username ← assertDefined w.username
        Prog.modify (set username) : RepositoryProg Unit).run r =
      if counts ((forget r).accounts a) then
        match ((forget r).accounts a).username with
        | some u => .done () (set u (forget r))
        | none => .thrown Exception.notDefined (forget r)
      else .done () (forget r) := by
  have haccount : (account a).run (forget r) = .done ((forget r).accounts a) (forget r) := rfl
  rw [Prog.run_bind_of_done (Prog.run_modify _ _), Prog.run_bind_of_done haccount]
  unfold Prog.when
  split
  · cases ((forget r).accounts a).username <;> rfl
  · rfl

theorem reindexUsername_run (r : WalletRepository) (a : Address) : (reindexUsername a).run r =
    if (r.accounts a).isValidator then
      match (r.accounts a).username with
      | some u => .done () { r with usernames := (r.usernames.forgetWallet a).set u a }
      | none => .thrown Exception.notDefined { r with usernames := r.usernames.forgetWallet a }
    else .done () { r with usernames := r.usernames.forgetWallet a } :=
  indexer_run _ (fun u r => { r with usernames := r.usernames.set u a }) (·.isValidator) r a

theorem reindexResignation_run (r : WalletRepository) (a : Address) :
    (reindexResignation a).run r =
    if (r.accounts a).isValidator && (r.accounts a).isResigned then
      match (r.accounts a).username with
      | some u => .done () { r with resignations := (r.resignations.forgetWallet a).set u a }
      | none => .thrown Exception.notDefined
        { r with resignations := r.resignations.forgetWallet a }
    else .done () { r with resignations := r.resignations.forgetWallet a } :=
  indexer_run _ (fun u r => { r with resignations := r.resignations.set u a })
    (fun w => w.isValidator && w.isResigned) r a

/-- A wallet whose name can be read is indexed under it. -/
theorem index_done (r : WalletRepository) (a : Address)
    (hu : (r.accounts a).isValidator = true → (r.accounts a).username.isSome = true) :
    ∃ r', (index a).run r = .done () r' ∧ r'.accounts = r.accounts ∧
      r'.names = r.names.reindex a (r.accounts a) := by
  obtain ⟨hacc, hnames⟩ := reindexKeys_names r a
  generalize hr₁ : reindexPublicKey a (reindexAddress a r) = r₁ at hacc hnames
  have hw : r₁.accounts a = r.accounts a := congrFun hacc a
  obtain ⟨i, hi, higet⟩ : ∃ i, (reindexUsername a).run r₁ = .done () { r₁ with usernames := i } ∧
      i.get = Names.relabel r₁.usernames.get a (r.accounts a).username := by
    rw [reindexUsername_run, hw]
    cases hv : (r.accounts a).isValidator with
    | true =>
      obtain ⟨u, hsome⟩ := Option.isSome_iff_exists.1 (hu hv)
      rw [hsome]
      exact ⟨_, rfl, Names.relabel_some _ _ _⟩
    | false =>
      rw [username_of_not_isValidator hv]
      exact ⟨_, rfl, Names.relabel_none _ _⟩
  have hw' : ({ r₁ with usernames := i } : WalletRepository).accounts a = r.accounts a := hw
  obtain ⟨j, hj, hjget⟩ : ∃ j, (reindexResignation a).run { r₁ with usernames := i } =
        .done () { r₁ with usernames := i, resignations := j } ∧
      j.get = Names.relabel r₁.resignations.get a
        (if (r.accounts a).isResigned then (r.accounts a).username else none) := by
    rw [reindexResignation_run, hw']
    cases hr : (r.accounts a).isResigned with
    | true =>
      have hv := isValidator_of_isResigned hr
      obtain ⟨u, hsome⟩ := Option.isSome_iff_exists.1 (hu hv)
      rw [hv, hsome]
      exact ⟨_, rfl, Names.relabel_some _ _ _⟩
    | false =>
      rw [Bool.and_false]
      exact ⟨_, rfl, Names.relabel_none _ _⟩
  refine ⟨{ r₁ with usernames := i, resignations := j }, ?_, hacc, ?_⟩
  · unfold index
    rw [Prog.run_bind_of_done (Prog.run_modify _ _), Prog.run_bind_of_done (Prog.run_modify _ _),
      hr₁, Prog.run_bind_of_done hi, hj]
  · rw [← hnames]
    show Names.mk i.get j.get = _
    rw [higet, hjget]
    rfl

/-- A validator object without a name stops the indexer of usernames, after it forgot the wallet. -/
theorem index_thrown (r : WalletRepository) (a : Address)
    (hv : (r.accounts a).isValidator = true) (hu : (r.accounts a).username = none) :
    ∃ r', (index a).run r = .thrown Exception.notDefined r' ∧ r'.accounts = r.accounts ∧
      r'.names = ⟨Names.relabel r.names.usernames a none, r.names.resignations⟩ := by
  obtain ⟨hacc, hnames⟩ := reindexKeys_names r a
  generalize hr₁ : reindexPublicKey a (reindexAddress a r) = r₁ at hacc hnames
  have hname : (reindexUsername a).run r₁ =
      .thrown Exception.notDefined { r₁ with usernames := r₁.usernames.forgetWallet a } := by
    rw [reindexUsername_run, hacc, if_pos hv, hu]
  refine ⟨{ r₁ with usernames := r₁.usernames.forgetWallet a }, ?_, hacc, ?_⟩
  · unfold index
    rw [Prog.run_bind_of_done (Prog.run_modify _ _), Prog.run_bind_of_done (Prog.run_modify _ _),
      hr₁, Prog.run_bind_of_thrown hname]
  · rw [← hnames]
    show Names.mk (r₁.usernames.forgetWallet a).get r₁.resignations.get = _
    rw [Names.relabel_none]
    rfl

/-- A label nobody has can be taken away. -/
theorem relabel_of_absent {lookup : String → Option Address} {a : Address}
    (h : ∀ u, lookup u ≠ some a) : Names.relabel lookup a none = lookup := by
  funext u
  unfold Names.relabel
  rw [if_neg (fun e => nomatch e), if_neg (h u)]

/-- **A write followed by `index` keeps the indexes right**, when it gives the wallet no name that
    another has and takes the name of a validator only together with the validator. -/
theorem updateIndex_names {r : WalletRepository} (hr : r.names.Agrees r.accounts) (a : Address)
    (f : Account → Account)
    (hfree : ∀ u, (f (r.accounts a)).username = some u →
      r.names.usernames u = none ∨ r.names.usernames u = some a)
    (hname : (f (r.accounts a)).isValidator = true → (f (r.accounts a)).username = none →
      (r.accounts a).username = none) :
    (update a f >>= fun _ => index a).Spec r (fun _ r' => r'.names.Agrees r'.accounts)
      fun _ r' => r'.names.Agrees r'.accounts := by
  rw [Prog.Spec.state_iff]
  obtain ⟨r₁, hr₁⟩ : ∃ r₁, r.withAccount a (f (r.accounts a)) = r₁ := ⟨_, rfl⟩
  have hupdate : (update a f).run r = .done () r₁ := congrArg (Outcome.done ()) hr₁
  have hacc : ∀ b, r₁.accounts b = if b = a then f (r.accounts a) else r.accounts b := by
    intro b
    rw [← hr₁]
    show ((r.setWallet a ((r.wallet a).withAccount (f (r.accounts a)))).wallet b).toAccount = _
    rw [wallet_setWallet]
    split <;> rfl
  have hacca : r₁.accounts a = f (r.accounts a) := by rw [hacc, if_pos rfl]
  have hnames : r₁.names = r.names := by rw [← hr₁]; rfl
  have hagrees : (r.names.reindex a (r₁.accounts a)).Agrees r₁.accounts := by
    refine hr.reindex (fun b hb => ?_) fun u hu => hfree u (hacca ▸ hu)
    rw [hacc, if_neg hb]
    exact ⟨rfl, rfl⟩
  rw [Prog.run_bind_of_done hupdate]
  by_cases hv : (r₁.accounts a).isValidator = true ∧ (r₁.accounts a).username = none
  · obtain ⟨r', hrun, hacc', hnames'⟩ := index_thrown r₁ a hv.1 hv.2
    rw [hrun]
    -- the wallet had no name, so its resignation was not indexed
    have hnone : (r.accounts a).username = none := hname (hacca ▸ hv.1) (hacca ▸ hv.2)
    have habsent : ∀ u, r.names.resignations u ≠ some a := by
      intro u hu
      have hsome := ((hr.resignations u a).1 hu).1
      rw [hnone] at hsome
      cases hsome
    have hsame : r'.names = r.names.reindex a (r₁.accounts a) := by
      rw [hnames', hnames]
      unfold Names.reindex
      rw [hv.2, ite_self, relabel_of_absent habsent]
    show r'.names.Agrees r'.accounts
    rw [hsame, hacc']
    exact hagrees
  · obtain ⟨r', hrun, hacc', hnames'⟩ := index_done r₁ a fun hval =>
      Option.ne_none_iff_isSome.1 fun hnone => hv ⟨hval, hnone⟩
    rw [hrun]
    show r'.names.Agrees r'.accounts
    rw [hnames', hnames, hacc']
    exact hagrees

/-! ## 3. The two handlers -/

/-- A write that never gives a name, followed by `index`. -/
theorem updateIndex_keeps (a : Address) (f : Account → Account)
    (hf : ∀ w, (f w).username = w.username ∨ f w = w.setValidator none) :
    RepositoryKeeps StillAgrees (update a f >>= fun _ => index a) := by
  intro r hr
  refine Prog.Spec.state_iff.1 (updateIndex_names hr a f (fun u hu => ?_) fun hv hu => ?_)
  · rcases hf (r.accounts a) with hsame | hgone
    · exact Or.inr ((hr.usernames u a).2 (hsame ▸ hu))
    · rw [hgone] at hu
      cases hu
  · rcases hf (r.accounts a) with hsame | hgone
    · exact hsame ▸ hu
    · rw [hgone] at hv
      cases hv

theorem setResigned_username (w : Account) : w.setResigned.username = w.username := by
  unfold Account.setResigned Account.validatorObject Account.username
  cases w.validator <;> rfl

theorem forgetResigned_username (w : Account) : w.forgetResigned.username = w.username := by
  unfold Account.forgetResigned Account.username
  cases w.validator <;> rfl

variable {env : Services} {t : Transaction}

theorem resignation_keeps :
    HandlerKeeps StillAgrees env t ValidatorResignationTransactionHandler.handler := by
  have happly : RepositoryKeeps StillAgrees
      (Base.applyToSender ValidatorResignationTransactionHandler.throwIfCannotBeApplied env t) :=
    RepositoryKeeps.baseApply RepositoryKeeps.resignationCheck
  have hrevert : RepositoryKeeps StillAgrees (Base.revertForSender env t) :=
    RepositoryKeeps.baseRevert
  refine ⟨RepositoryKeeps.bind (happly.bind fun _ => (RepositoryKeeps.assertDefined _).bind fun _ =>
      (RepositoryKeeps.findByPublicKey _).bind fun a => ?_) fun _ => RepositoryKeeps.pure (),
    RepositoryKeeps.bind (hrevert.bind fun _ => (RepositoryKeeps.assertDefined _).bind fun _ =>
      (RepositoryKeeps.findByPublicKey _).bind fun a => ?_) fun _ => RepositoryKeeps.pure ()⟩
  · exact updateIndex_keeps a _ fun w => Or.inl (setResigned_username w)
  · exact updateIndex_keeps a _ fun w => Or.inl (forgetResigned_username w)

theorem assertDefined_done {α : Type} {o : Option α} {a : α} {r r' : WalletRepository}
    (h : (assertDefined o : RepositoryProg α).run r = .done a r') : o = some a := by
  cases o with
  | none => cases h
  | some b =>
    cases h
    rfl

/-- A registration that passed its check found its name free. -/
theorem registrationCheck_free {r r' : WalletRepository} {a : Address}
    (h : (ValidatorRegistrationTransactionHandler.throwIfCannotBeApplied env t a).run r =
      .done () r') :
    ∃ u, t.data.username = some u ∧ r.names.usernames u = none := by
  unfold ValidatorRegistrationTransactionHandler.throwIfCannotBeApplied at h
  obtain ⟨k, r₁, h₁, h⟩ := Prog.run_bind_done.1 h
  obtain ⟨b, r₂, h₂, h⟩ := Prog.run_bind_done.1 h
  obtain ⟨s, r₃, h₃, h⟩ := Prog.run_bind_done.1 h
  obtain ⟨_, r₄, h₄, h⟩ := Prog.run_bind_done.1 h
  obtain ⟨u, r₅, h₅, h⟩ := Prog.run_bind_done.1 h
  obtain ⟨w, r₆, h₆, h⟩ := Prog.run_bind_done.1 h
  obtain ⟨_, r₇, h₇, h⟩ := Prog.run_bind_done.1 h
  obtain ⟨taken, r₈, h₈, h⟩ := Prog.run_bind_done.1 h
  obtain ⟨_, r₉, h₉, _⟩ := Prog.run_bind_done.1 h
  have hsame : r₇.names = r.names := by
    have hs₁ : SameNames r r₁ := (RepositoryKeeps.assertDefined _).of_done h₁
    have hs₂ : SameNames r₁ r₂ := (RepositoryKeeps.findByPublicKey _).of_done h₂
    have hs₃ : SameNames r₂ r₃ := (RepositoryKeeps.gets _).of_done h₃
    have hs₄ : SameNames r₃ r₄ := (RepositoryKeeps.throwIf _ _).of_done h₄
    have hs₅ : SameNames r₄ r₅ := (RepositoryKeeps.assertDefined _).of_done h₅
    have hs₆ : SameNames r₅ r₆ := (RepositoryKeeps.gets _).of_done h₆
    have hs₇ : SameNames r₆ r₇ := (RepositoryKeeps.throwIf _ _).of_done h₇
    rw [hs₇.names, hs₆.names, hs₅.names, hs₄.names, hs₃.names, hs₂.names, hs₁.names]
  have htaken : taken = r₇.hasByUsername u := by
    cases h₈
    rfl
  have hfree : taken = false := by
    cases taken with
    | false => rfl
    | true => cases h₉
  have hu : t.data.username = some u := assertDefined_done h₅
  refine ⟨u, hu, ?_⟩
  rw [← hsame]
  rw [hfree] at htaken
  show r₇.usernames.get u = none
  have hhas : (r₇.usernames.get u).isSome = false := htaken.symm
  simpa using hhas

/-- So did one that was charged. -/
theorem registrationCharged_free {r r' : WalletRepository}
    (h : (Base.applyToSender ValidatorRegistrationTransactionHandler.throwIfCannotBeApplied
      env t).run r = .done () r') :
    ∃ u, t.data.username = some u ∧ r.names.usernames u = none := by
  unfold Base.applyToSender at h
  obtain ⟨k, r₁, h₁, h⟩ := Prog.run_bind_done.1 h
  obtain ⟨a, r₂, h₂, h⟩ := Prog.run_bind_done.1 h
  obtain ⟨_, r₃, h₃, _⟩ := Prog.run_bind_done.1 h
  obtain ⟨u, hu, hfree⟩ := registrationCheck_free h₃
  have hsame₁ : SameNames r r₁ := (RepositoryKeeps.assertDefined _).of_done h₁
  have hsame₂ : SameNames r₁ r₂ := (RepositoryKeeps.findByPublicKey _).of_done h₂
  exact ⟨u, hu, by rwa [hsame₂.names, hsame₁.names] at hfree⟩

/-- **A registration gives its sender a name that was free, and takes it away again.** -/
theorem registration_keeps :
    HandlerKeeps StillAgrees env t ValidatorRegistrationTransactionHandler.handler := by
  have hrevert : RepositoryKeeps StillAgrees (Base.revertForSender env t) :=
    RepositoryKeeps.baseRevert
  refine ⟨RepositoryKeeps.bind (fun r hr => ?_) fun _ => RepositoryKeeps.pure (),
    RepositoryKeeps.bind (hrevert.bind fun _ => (RepositoryKeeps.assertDefined _).bind fun _ =>
      (RepositoryKeeps.findByPublicKey _).bind fun a =>
        updateIndex_keeps a _ fun _ => Or.inr rfl) fun _ => RepositoryKeeps.pure ()⟩
  have hcharged : RepositoryKeeps SameNames (Base.applyToSender
      ValidatorRegistrationTransactionHandler.throwIfCannotBeApplied env t) :=
    RepositoryKeeps.baseApply RepositoryKeeps.registrationCheck
  have hspec : (ValidatorRegistrationTransactionHandler.applyToSender env t).Spec r
      (fun _ r' => r'.names.Agrees r'.accounts) fun _ r' => r'.names.Agrees r'.accounts := by
    have hsender : (Base.applyToSender ValidatorRegistrationTransactionHandler.throwIfCannotBeApplied
        env t).Spec r (fun _ r' => SameNames r r' ∧
          ∃ u, t.data.username = some u ∧ r.names.usernames u = none) fun _ r' => SameNames r r' :=
      Prog.Spec.of_run (fun _ _ h => ⟨hcharged.of_done h, registrationCharged_free h⟩)
        fun _ _ h => hcharged.of_thrown h
    refine (hsender.mono (fun _ _ h => h) fun _ _ h => h.agrees hr).bind fun _ r₁ h₁ => ?_
    obtain ⟨hsame₁, u, hu, hfree⟩ := h₁
    have hthrown : ∀ {r' r'' : WalletRepository}, SameNames r r' → SameNames r' r'' →
        r''.names.Agrees r''.accounts := fun h h' => h'.agrees (h.agrees hr)
    refine (((RepositoryKeeps.assertDefined _).spec r₁).mono (fun _ _ h => h)
      fun _ _ h => hthrown hsame₁ h).bind fun k r₂ h₂ => ?_
    have hsame₂ : SameNames r r₂ := RepositoryFrame.trans _ _ _ hsame₁ h₂
    refine (((RepositoryKeeps.findByPublicKey k).spec r₂).mono (fun _ _ h => h)
      fun _ _ h => hthrown hsame₂ h).bind fun a r₃ h₃ => ?_
    have hsame₃ : SameNames r r₃ := RepositoryFrame.trans _ _ _ hsame₂ h₃
    rw [hu]
    refine updateIndex_names (hsame₃.agrees hr) a _ (fun v hv => ?_) fun _ hnone => ?_
    · obtain rfl : u = v := Option.some.inj hv
      exact Or.inl (by rw [hsame₃.names, hfree])
    · cases hnone
  exact Prog.Spec.state_iff.1 hspec

/-! ## 4. Runs -/

/-- What is reached from `s₀` with the transactions of a list applied and not reverted, the most
    recent one first. A call may throw, and the node may go on to other heights in between. -/
inductive TransactionRun (env : Services) (s₀ : NodeState) : List Transaction → NodeState → Prop
  | start : TransactionRun env s₀ [] s₀
  | applied {ts : List Transaction} {s s' : NodeState} (t : Transaction) :
    TransactionRun env s₀ ts s → (BlockState.applyTransaction env t).run s = .done () s' →
    TransactionRun env s₀ (t :: ts) s'
  | refused {ts : List Transaction} {s s' : NodeState} (t : Transaction) (e : Exception) :
    TransactionRun env s₀ ts s → (BlockState.applyTransaction env t).run s = .thrown e s' →
    TransactionRun env s₀ ts s'
  | reverted {ts : List Transaction} {t : Transaction} {s s' : NodeState} :
    TransactionRun env s₀ (t :: ts) s →
    (BlockState.revertTransaction env t).run s = .done () s' → TransactionRun env s₀ ts s'
  | failed {ts : List Transaction} {t : Transaction} {s s' : NodeState} (e : Exception) :
    TransactionRun env s₀ (t :: ts) s →
    (BlockState.revertTransaction env t).run s = .thrown e s' →
    TransactionRun env s₀ (t :: ts) s'
  | elsewhere {ts : List Transaction} {s : NodeState} (store : StateStore) :
    TransactionRun env s₀ ts s → TransactionRun env s₀ ts { s with store := store }

/-- One transaction applied. -/
theorem applyTransaction_names (env : Services) (t : Transaction) :
    Prog.Keeps (fun s s' : NodeState => StillAgrees s.repository s'.repository)
      (BlockState.applyTransaction env t) :=
  RepositoryKeeps.atHeight fun _ => RepositoryKeeps.applyTransaction fun _ hh =>
    RepositoryKeeps.handler registration_keeps resignation_keeps hh

/-- One transaction reverted. -/
theorem revertTransaction_names (env : Services) (t : Transaction) :
    Prog.Keeps (fun s s' : NodeState => StillAgrees s.repository s'.repository)
      (BlockState.revertTransaction env t) :=
  RepositoryKeeps.atHeight fun _ => RepositoryKeeps.revertTransaction fun _ hh =>
    RepositoryKeeps.handler registration_keeps resignation_keeps hh

/-- **No username twice, and right indexes, in every state a run reaches.** -/
theorem namesKept_of_run (env : Services) {s₀ s : NodeState} (h₀ : NamesKept s₀.repository)
    {ts : List Transaction} (h : TransactionRun env s₀ ts s) : NamesKept s.repository := by
  rw [namesKept_iff] at h₀ ⊢
  induction h with
  | start => exact h₀
  | applied t _ hrun ih => exact (applyTransaction_names env t).of_done hrun ih
  | refused t e _ hrun ih => exact (applyTransaction_names env t).of_thrown hrun ih
  | reverted _ hrun ih => exact (revertTransaction_names env _).of_done hrun ih
  | failed e _ hrun ih => exact (revertTransaction_names env _).of_thrown hrun ih
  | elsewhere store _ ih => exact ih

namespace Sample

/-- A node whose repository has a reward and no validator yet. -/
def fundedState : NodeState := ⟨funded, node.store⟩

theorem funded_namesKept : NamesKept fundedState.repository :=
  namesKept_iff.2 (consistent_of_run Services.simple_injective (.empty _) (voteBalances_empty _)
    (.reward 1 ⟨"alice", by decide⟩ (header 1 0 0) .start (Outcome.eq_done (by decide)))).2.agrees

/-- Registered. -/
def registeredState : NodeState :=
  ((BlockState.applyTransaction Services.simple registration).run fundedState).state

/-- Registered a second time. -/
def refusedState : NodeState :=
  ((BlockState.applyTransaction Services.simple registration).run registeredState).state

/-- And back. -/
def unregisteredState : NodeState :=
  ((BlockState.revertTransaction Services.simple registration).run refusedState).state

end Sample

/-- A registration, a second one that is refused, and the first one reverted. -/
theorem namesKept_of_run_sample : NamesKept Sample.unregisteredState.repository ∧
    Sample.refusedState.repository.names.usernames "alice" = some ⟨"alice", by decide⟩ ∧
    Sample.unregisteredState.repository.names.usernames "alice" = none := by
  obtain ⟨e, he⟩ := Outcome.eq_thrown (show ((BlockState.applyTransaction Services.simple
    Sample.registration).run Sample.registeredState).isDone = false by decide)
  have hrun : TransactionRun Services.simple Sample.fundedState [] Sample.unregisteredState :=
    .reverted (.refused Sample.registration e (.applied Sample.registration .start
      (Outcome.eq_done (by decide))) he) (Outcome.eq_done (by decide))
  exact ⟨namesKept_of_run Services.simple Sample.funded_namesKept hrun, by decide, by decide⟩

end CoreEx
