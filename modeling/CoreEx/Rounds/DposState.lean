/-
  File:      CoreEx/Rounds/DposState.lean
  Subject:   `core-state/source/dpos/dpos.ts` and `dpos-previous-round.ts`: the ranking of the
             validators, and the validators of a round.

  The validators that have not resigned are sorted by vote balance and, where it is the same, by
  public key; the first of them forge the round. For a round that is over, the same is done after
  its blocks were reverted on a copy of the wallets.

  * `compareValidators`, `buildValidatorRanking`, `setValidatorsRound`;
    `DposPreviousRoundState.revert` -- the code;
  * `Precedes`, `Ranked` -- the order, and a list of all validators in it;
  * **`Ranked.unique`** -- there is at most one;
  * **`buildValidatorRanking_done`**, **`buildValidatorRanking_of_ranked`** -- the code finds it, and
    returns if there is one.
-/
import CoreEx.Lib.ThrowingSort
import CoreEx.Rounds.RoundCalculator
import CoreEx.Rounds.RoundState
import CoreEx.State.Bookkeeping
import CoreEx.State.PublicKeys

namespace CoreEx

open WalletRepository ThrowingSort

/-! ## 1. The code -/

/-- `DposState`. The wallets it keeps are the live ones; an address stands for each. -/
structure DposState where
  roundInfo : Option RoundInfo
  activeValidators : List Address
  roundValidators : List Address
  deriving DecidableEq, Repr

/-- What its methods work on. -/
structure DposNode where
  node : NodeState
  dposState : DposState

/-- Code that works on both and may throw. -/
abbrev DposProg : Type → Type := Prog DposNode Exception

namespace DposState

/-- `new DposState()`. -/
def new : DposState := ⟨none, [], []⟩

def onNode {α : Type} (x : BlockProg α) : DposProg α :=
  Prog.zoom DposNode.node (fun n s => { s with node := n }) x

def onWallets {α : Type} (x : RepositoryProg α) : DposProg α := onNode (BlockState.onRepository x)

/-- `#activeValidators = validators`. -/
def setActiveValidators (validators : List Address) : DposProg Unit :=
  Prog.modify fun s => { s with dposState := { s.dposState with activeValidators := validators } }

/-- The function `#activeValidators` is sorted with: below zero, `a` comes first. `localeCompare`
    is that of strings, in English. -/
def compareValidators (localeCompare : String → String → Int) (a b : Wallet) :
    Except Exception Int :=
  match a.voteBalance?, b.voteBalance? with
  | some voteBalanceA, some voteBalanceB =>
    if voteBalanceB < voteBalanceA then .ok (-1)
    else if voteBalanceA < voteBalanceB then .ok 1
    else
      match a.publicKey, b.publicKey with
      | some keyA, some keyB =>
        if keyA = keyB then
          .error (.error ("The balance and public key of both validators are identical! " ++
            "Validator \"" ++ a.username.getD "" ++ "\" appears twice in the list."))
        else .ok (localeCompare keyA.text keyB.text)
      | _, _ => .error .notDefined
  | _, none => .error (.typeError "Cannot read properties of undefined (reading 'comparedTo')")
  | none, some _ => .error (.typeError "Cannot convert undefined to a BigInt")

/-- The first loop of `buildValidatorRanking`. -/
def collect (validator : Address) : DposProg Unit := do
  let w ← onWallets (account validator)
  if w.isResigned then onWallets (update validator (·.setRank none))
  else do
    let activeValidators ← Prog.gets fun s => s.dposState.activeValidators
    setActiveValidators (activeValidators ++ [validator])

/-- `#activeValidators.sort(..)`. -/
def sortActiveValidators (localeCompare : String → String → Int) : DposProg Unit := do
  let s ← Prog.gets id
  let sorted ← Prog.ofExcept (sortWith (fun a b => compareValidators localeCompare
    (s.node.repository.wallet a) (s.node.repository.wallet b)) s.dposState.activeValidators)
  setActiveValidators sorted

/-- The last loop of `buildValidatorRanking`. -/
def rank (entry : Address × Nat) : DposProg Unit :=
  onWallets (update entry.1 (·.setRank (some entry.2)))

/-- `buildValidatorRanking()`. -/
def buildValidatorRanking (localeCompare : String → String → Int) : DposProg Unit := do
  setActiveValidators []
  let validators ← Prog.gets fun s => s.node.repository.allByUsername
  Prog.forEach collect validators
  sortActiveValidators localeCompare
  let activeValidators ← Prog.gets fun s => s.dposState.activeValidators
  Prog.forEach rank (activeValidators.zipIdx 1)

/-- The loop of `setValidatorsRound`. -/
def choose (round : Int) (validator : Address) : DposProg Unit := do
  onWallets (update validator (·.setRound (some round)))
  Prog.modify fun s => { s with
    dposState := { s.dposState with
      roundValidators := s.dposState.roundValidators ++ [validator] } }

/-- `setValidatorsRound(roundInfo)`. -/
def setValidatorsRound (roundInfo : RoundInfo) : DposProg Unit := do
  let activeValidators ← Prog.gets fun s => s.dposState.activeValidators
  Prog.throwIf (activeValidators.length < roundInfo.maxValidators)
    (.error (s!"Expected to find {roundInfo.maxValidators} validators but only found " ++
      s!"{activeValidators.length}." ++
      "This indicates an issue with the genesis block & validators."))
  Prog.modify fun s => { s with
    dposState := { s.dposState with roundInfo := some roundInfo, roundValidators := [] } }
  Prog.forEach (choose roundInfo.round) (activeValidators.take roundInfo.maxValidators)

end DposState

/-- `DposPreviousRoundState.revert(blocks, roundInfo)`; the loop ends at the block of height 1. -/
def DposPreviousRoundState.revert (env : Services) (localeCompare : String → String → Int)
    (blocks : List Block) (roundInfo : RoundInfo) : DposProg Unit := do
  Prog.forEach (fun block => DposState.onNode (BlockState.revertBlock env block))
    (blocks.reverse.takeWhile fun block => block.data.height ≠ 1)
  DposState.buildValidatorRanking localeCompare
  DposState.setValidatorsRound roundInfo

/-! ## 2. The order -/

/-- `localeCompare` orders different texts strictly. -/
structure LocaleOrder (localeCompare : String → String → Int) : Prop where
  flip : ∀ a b, a ≠ b → (localeCompare a b < 0 ↔ 0 < localeCompare b a)
  total : ∀ a b, a ≠ b → localeCompare a b < 0 ∨ localeCompare b a < 0
  trans : ∀ a b c, localeCompare a b < 0 → localeCompare b c < 0 → localeCompare a c < 0

/-- `a` comes before `b`: it has more votes, or as many and the smaller key. -/
def Precedes (localeCompare : String → String → Int) (L : Ledger)
    (keys : Address → Option PublicKey) (a b : Address) : Prop :=
  ∃ x y, (L a).voteBalance? = some x ∧ (L b).voteBalance? = some y ∧
    (y < x ∨ x = y ∧ ∃ k k', keys a = some k ∧ keys b = some k' ∧ k ≠ k' ∧
      localeCompare k.text k'.text < 0)

/-- All validators that have not resigned, in order. -/
structure Ranked (localeCompare : String → String → Int) (L : Ledger)
    (keys : Address → Option PublicKey) (l : List Address) : Prop where
  sorted : l.Pairwise (Precedes localeCompare L keys)
  members : ∀ a, a ∈ l ↔ (L a).username.isSome = true ∧ (L a).isResigned = false

section Order

variable {lc : String → String → Int} {L L' : Ledger} {keys keys' : Address → Option PublicKey}
  {a b c : Address} {l l' : List Address}

theorem text_ne {k k' : PublicKey} (h : k ≠ k') : k.text ≠ k'.text := by
  intro ht
  obtain ⟨t, ht₁⟩ := k
  obtain ⟨t', ht₂⟩ := k'
  cases (show t = t' from ht)
  exact h rfl

theorem Precedes.asymm (hlc : LocaleOrder lc) (h : Precedes lc L keys a b) :
    ¬ Precedes lc L keys b a := by
  intro h'
  obtain ⟨x, y, hx, hy, hxy⟩ := h
  obtain ⟨y', x', hy', hx', hyx⟩ := h'
  cases hx.symm.trans hx'
  cases hy.symm.trans hy'
  rcases hxy with hlt | ⟨rfl, k, k', hk, hk', hne, hless⟩
  · rcases hyx with hlt' | ⟨rfl, -⟩
    · omega
    · omega
  · rcases hyx with hlt' | ⟨-, k₂, k₁, hk₂, hk₁, -, hmore⟩
    · omega
    · cases hk.symm.trans hk₁
      cases hk'.symm.trans hk₂
      have hpos := (hlc.flip _ _ (text_ne hne)).1 hless
      omega

theorem Precedes.trans (hlc : LocaleOrder lc) (h : Precedes lc L keys a b)
    (h' : Precedes lc L keys b c) : Precedes lc L keys a c := by
  obtain ⟨x, y, hx, hy, hxy⟩ := h
  obtain ⟨y', z, hy', hz, hyz⟩ := h'
  cases hy.symm.trans hy'
  refine ⟨x, z, hx, hz, ?_⟩
  rcases hxy with hlt | ⟨rfl, k, k', hk, hk', hne, hless⟩
  · left
    rcases hyz with hlt' | ⟨rfl, -⟩
    · omega
    · exact hlt
  · rcases hyz with hlt' | ⟨rfl, k₂, k₃, hk₂, hk₃, -, hless'⟩
    · exact Or.inl hlt'
    · cases hk'.symm.trans hk₂
      have hac := hlc.trans _ _ _ hless hless'
      refine Or.inr ⟨rfl, k, k₃, hk, hk₃, fun heq => ?_, hac⟩
      subst heq
      have hpos := (hlc.flip _ _ (text_ne hne)).1 hless
      omega

/-- **There is one ranking at most.** -/
theorem Ranked.unique (hlc : LocaleOrder lc) (h : Ranked lc L keys l) (h' : Ranked lc L keys l') :
    l = l' := by
  have hirrefl : ∀ {a b}, Precedes lc L keys a b → a ≠ b := by
    intro a b hab heq
    subst heq
    exact hab.asymm hlc hab
  have hnodup : l.Nodup := h.sorted.imp hirrefl
  have hnodup' : l'.Nodup := h'.sorted.imp hirrefl
  have hperm : l.Perm l' := (List.perm_ext_iff_of_nodup hnodup hnodup').2
    fun a => (h.members a).trans (h'.members a).symm
  exact hperm.eq_of_pairwise (fun a b _ _ hab hba => absurd hba (hab.asymm hlc)) h.sorted h'.sorted

theorem Precedes.congr (hcore : L'.core = L.core) (hkeys : ∀ a k, keys a = some k → keys' a = some k)
    (h : Precedes lc L keys a b) : Precedes lc L' keys' a b := by
  have hvotes : ∀ a, (L' a).voteBalance? = (L a).voteBalance? := by
    intro a
    rw [← Account.core_voteBalance? (L' a), ← Account.core_voteBalance? (L a)]
    exact congrArg (fun L : Ledger => (L a).voteBalance?) hcore
  obtain ⟨x, y, hx, hy, hxy⟩ := h
  refine ⟨x, y, (hvotes a).trans hx, (hvotes b).trans hy, ?_⟩
  rcases hxy with hlt | ⟨rfl, k, k', hk, hk', hne, hless⟩
  · exact Or.inl hlt
  · exact Or.inr ⟨rfl, k, k', hkeys _ _ hk, hkeys _ _ hk', hne, hless⟩

/-- The ranking depends on the core of the accounts, and on keys that stay. -/
theorem Ranked.congr (hcore : L'.core = L.core)
    (hkeys : ∀ a k, keys a = some k → keys' a = some k) (h : Ranked lc L keys l) :
    Ranked lc L' keys' l := by
  refine ⟨h.sorted.imp fun hab => hab.congr hcore hkeys, fun a => ?_⟩
  have hread : ∀ {β : Type} (read : Account → β), (∀ w, read w.core = read w) →
      read (L' a) = read (L a) := by
    intro β read hr
    rw [← hr (L' a), ← hr (L a)]
    exact congrArg (fun L : Ledger => read (L a)) hcore
  rw [h.members, hread Account.username Account.core_username,
    hread Account.isResigned Account.core_isResigned]

end Order

/-! ## 3. What the code works on -/

/-- `getAttribute("validator.round")`. -/
def Account.round (w : Account) : Option Int := w.validator.bind (·.round)

theorem Account.round_setRank (rank : Option Nat) (w : Account) :
    (w.setRank rank).round = w.round := by
  obtain ⟨b, n, vote, ms, v⟩ := w
  cases v <;> rfl

theorem Account.round_setRound {w : Account} (hw : w.isValidator = true) (round : Option Int) :
    (w.setRound round).round = round := by
  obtain ⟨b, n, vote, ms, v⟩ := w
  cases v with
  | none => cases hw
  | some v => rfl

/-- What a state of the code stands for: books, of which the notes do not count, the store, the
    keys and rounds of the wallets, the wallets with a username, and what `DposState` keeps. -/
structure DposBooks where
  books : Books
  store : StateStore
  keys : Address → Option PublicKey
  rounds : Address → Option Int
  names : List Address
  dposState : DposState

/-- The validators that were collected, before they are sorted. -/
def DposBooks.collected (x : DposBooks) : DposBooks :=
  { x with dposState := { x.dposState with
      activeValidators := x.names.filter fun a => !(x.books.1 a).isResigned } }

/-- The state stands for this. -/
structure DposStands (env : Services) (x : DposBooks) (s : DposNode) : Prop where
  books : ∃ c : Books, c.core = x.books.core ∧ NodeStands env (c, x.store) s.node
  keys : ∀ a, (s.node.repository.wallet a).publicKey = x.keys a
  rounds : ∀ a, (s.node.repository.accounts a).round = x.rounds a
  names : s.node.repository.allByUsername = x.names
  dposState : s.dposState = x.dposState

section Stands

variable {env : Services} {lc : String → String → Int} {x : DposBooks} {s s' : DposNode}
  {a : Address} {l : List Address}

/-- What is read off an account without looking at its notes. -/
theorem DposStands.read {β : Type} (h : DposStands env x s) (a : Address) (read : Account → β)
    (hread : ∀ w, read w.core = read w) : read (s.node.repository.accounts a) =
      read (x.books.1 a) := by
  obtain ⟨c, hc, hs⟩ := h.books
  have hacc : s.node.repository.accounts = c.1 := hs.1.accounts
  rw [hacc]
  exact Books.read_eq hc a read hread

namespace DposState

/-- Writing a note on a wallet. -/
theorem note_always {f : Account → Account} (hf : ∀ w, (f w).core = w.core)
    (a : Address) {rounds : Address → Option Int}
    (hrounds : ∀ s, DposStands env x s → ∀ b,
      (if b = a then (f (s.node.repository.accounts b)).round else x.rounds b) = rounds b) :
    Prog.Always (DposStands env) x (onWallets (update a f)) (fun _ => True)
      { x with rounds := rounds } := by
  intro s hs
  obtain ⟨c, hc, hnode⟩ := hs.books
  have hrep := rep_update (show Rep env s.node.repository c.1 c.2 from hnode.1) a f
  have hwallet : ∀ b, ((s.node.repository.setWallet a ((s.node.repository.wallet a).withAccount
      (f (s.node.repository.accounts a)))).wallet b) = if b = a then
        (s.node.repository.wallet a).withAccount (f (s.node.repository.accounts a))
      else s.node.repository.wallet b := wallet_setWallet _ _ _
  refine ⟨⟨⟨(c.1.change a f, c.2), ?_, hrep, hnode.2⟩, fun b => ?_, fun b => ?_, hs.names,
    hs.dposState⟩, trivial⟩
  · rw [← hc]
    exact Prod.ext (Ledger.core_note hf a c.1) rfl
  · show ((s.node.repository.setWallet a _).wallet b).publicKey = x.keys b
    rw [hwallet, ← hs.keys b]
    by_cases hb : b = a
    · rw [if_pos hb, hb]
      rfl
    · rw [if_neg hb]
  · show ((s.node.repository.setWallet a _).wallet b).toAccount.round = rounds b
    rw [hwallet, ← hrounds s hs b]
    by_cases hb : b = a
    · rw [if_pos hb, if_pos hb, hb]
      rfl
    · rw [if_neg hb, if_neg hb]
      exact hs.rounds b

theorem setRank_always (a : Address) (rank : Option Nat) :
    Prog.Always (DposStands env) x (onWallets (update a (·.setRank rank))) (fun _ => True) x := by
  refine note_always (fun w => Account.core_setRank w rank) a fun s hs b => ?_
  rw [Account.round_setRank, hs.rounds, ite_self]

theorem setRound_always {a : Address} (ha : (x.books.1 a).isValidator = true) (round : Int) :
    Prog.Always (DposStands env) x (onWallets (update a (·.setRound (some round))))
      (fun _ => True) { x with rounds := Function.update x.rounds a (some round) } := by
  refine note_always (fun w => Account.core_setRound w _) a fun s hs b => ?_
  rw [Function.update_apply]
  by_cases hb : b = a
  · subst hb
    rw [if_pos rfl, if_pos rfl]
    refine Account.round_setRound ?_ _
    rw [hs.read b Account.isValidator Account.core_isValidator]
    exact ha
  · rw [if_neg hb, if_neg hb]

theorem account_always (a : Address) :
    Prog.Always (DposStands env) x (onWallets (account a))
      (fun w => w.isResigned = (x.books.1 a).isResigned) x := by
  intro s hs
  exact ⟨hs, hs.read a Account.isResigned Account.core_isResigned⟩

theorem setActiveValidators_always (l : List Address) :
    Prog.Always (DposStands env) x (setActiveValidators l) (fun _ => True)
      { x with dposState := { x.dposState with activeValidators := l } } :=
  Prog.Always.modify fun _ hs => ⟨hs.books, hs.keys, hs.rounds, hs.names, by
    rw [← hs.dposState]⟩

theorem activeValidators_always :
    Prog.Always (DposStands env) x (Prog.gets fun s => s.dposState.activeValidators :
      DposProg (List Address)) (fun l => l = x.dposState.activeValidators) x :=
  Prog.Always.gets fun _ hs => congrArg DposState.activeValidators hs.dposState

/-! ## 4. The ranking -/

/-- The first loop collects the validators that have not resigned. -/
theorem collectAll_always (names : List Address) :
    Prog.Always (DposStands env) x (Prog.forEach collect names) (fun _ => True)
      { x with dposState := { x.dposState with
        activeValidators := x.dposState.activeValidators ++
          names.filter fun a => !(x.books.1 a).isResigned } } := by
  induction names generalizing x with
  | nil =>
    rw [List.filter_nil, List.append_nil]
    exact Prog.Always.pure trivial
  | cons a names ih =>
    rw [Prog.forEach_cons]
    cases hr : (x.books.1 a).isResigned with
    | true =>
      have hskip : (a :: names).filter (fun a => !(x.books.1 a).isResigned) =
          names.filter fun a => !(x.books.1 a).isResigned :=
        List.filter_cons_of_neg (by simp [hr])
      rw [hskip]
      have hcollect : Prog.Always (DposStands env) x (collect a) (fun _ => True) x := by
        unfold collect
        refine (account_always a).bind fun w hw => ?_
        rw [hw, hr, if_pos rfl]
        exact setRank_always a none
      exact hcollect.bind fun _ _ => ih
    | false =>
      have htake : (a :: names).filter (fun a => !(x.books.1 a).isResigned) =
          a :: names.filter fun a => !(x.books.1 a).isResigned :=
        List.filter_cons_of_pos (by simp [hr])
      rw [htake]
      have hstep := @ih { x with dposState := { x.dposState with
        activeValidators := x.dposState.activeValidators ++ [a] } }
      rw [List.append_assoc] at hstep
      refine Prog.Always.bind (P := fun _ => True) ?_ fun _ _ => hstep
      unfold collect
      refine (account_always a).bind fun w hw => ?_
      rw [hw, hr, if_neg (by decide)]
      refine activeValidators_always.bind fun l hl => ?_
      subst hl
      exact setActiveValidators_always _

/-- When two wallets can be compared, and how. -/
theorem compareValidators_eq_ok {w w' : Wallet} {d : Int} :
    compareValidators lc w w' = .ok d ↔ ∃ x y, w.voteBalance? = some x ∧ w'.voteBalance? = some y ∧
      (y < x ∧ d = -1 ∨ x < y ∧ d = 1 ∨ x = y ∧ ∃ k k', w.publicKey = some k ∧
        w'.publicKey = some k' ∧ k ≠ k' ∧ d = lc k.text k'.text) := by
  unfold compareValidators
  cases hx : w.voteBalance? with
  | none => cases hy : w'.voteBalance? <;> simp
  | some x =>
    cases hy : w'.voteBalance? with
    | none => simp
    | some y =>
      rcases lt_trichotomy y x with hlt | rfl | hlt
      · have hnot : ¬ x < y := by omega
        have hne : ¬ x = y := by omega
        simp [hlt, hnot, hne, eq_comm]
      · cases hk : w.publicKey with
        | none => cases hk' : w'.publicKey <;> simp
        | some k =>
          cases hk' : w'.publicKey with
          | none => simp
          | some k' =>
            by_cases hkk : k = k'
            · simp [hkk]
            · simp [hkk, eq_comm]
      · have hnot : ¬ y < x := by omega
        have hne : ¬ x = y := by omega
        simp [hlt, hnot, hne, eq_comm]

/-- Two wallets compare as their accounts and keys say. -/
theorem ahead_iff (hlc : LocaleOrder lc) (hs : DposStands env x s) (a b : Address) :
    Ahead (fun a b => compareValidators lc (s.node.repository.wallet a)
      (s.node.repository.wallet b)) a b ↔ Precedes lc x.books.1 x.keys a b := by
  have hread : ∀ c, (s.node.repository.wallet c).voteBalance? = (x.books.1 c).voteBalance? :=
    fun c => hs.read c Account.voteBalance? Account.core_voteBalance?
  unfold Ahead Precedes
  simp only [compareValidators_eq_ok, hread, hs.keys]
  constructor
  · intro h
    obtain ⟨⟨d, ⟨u, v, hu, hv, hcase⟩, hneg⟩, -⟩ := h
    refine ⟨u, v, hu, hv, ?_⟩
    rcases hcase with ⟨hlt, -⟩ | ⟨-, rfl⟩ | ⟨rfl, k, k', hk, hk', hne, rfl⟩
    · exact Or.inl hlt
    · omega
    · exact Or.inr ⟨rfl, k, k', hk, hk', hne, hneg⟩
  · intro h
    obtain ⟨u, v, hu, hv, hlt | ⟨rfl, k, k', hk, hk', hne, hless⟩⟩ := h
    · exact ⟨⟨-1, ⟨u, v, hu, hv, Or.inl ⟨hlt, rfl⟩⟩, by decide⟩,
        1, ⟨v, u, hv, hu, Or.inr (Or.inl ⟨hlt, rfl⟩)⟩, by decide⟩
    · have hmore := (hlc.flip _ _ (text_ne hne)).1 hless
      have hne' : k' ≠ k := fun e => hne e.symm
      exact ⟨⟨_, ⟨u, u, hu, hv, Or.inr (Or.inr ⟨rfl, k, k', hk, hk', hne, rfl⟩)⟩, hless⟩,
        _, ⟨u, u, hv, hu, Or.inr (Or.inr ⟨rfl, k', k, hk', hk, hne', rfl⟩)⟩, hmore⟩

/-- Two wallets that can be compared come one before the other. -/
theorem ahead_total (hlc : LocaleOrder lc) (hs : DposStands env x s) {a b : Address}
    (h : ∃ d, compareValidators lc (s.node.repository.wallet a)
      (s.node.repository.wallet b) = .ok d) :
    Precedes lc x.books.1 x.keys a b ∨ Precedes lc x.books.1 x.keys b a := by
  have hread : ∀ c, (s.node.repository.wallet c).voteBalance? = (x.books.1 c).voteBalance? :=
    fun c => hs.read c Account.voteBalance? Account.core_voteBalance?
  obtain ⟨d, hd⟩ := h
  rw [compareValidators_eq_ok, hread, hread, hs.keys, hs.keys] at hd
  obtain ⟨u, v, hu, hv, ⟨hlt, -⟩ | ⟨hlt, -⟩ | ⟨rfl, k, k', hk, hk', hne, -⟩⟩ := hd
  · exact Or.inl ⟨u, v, hu, hv, Or.inl hlt⟩
  · exact Or.inr ⟨v, u, hv, hu, Or.inl hlt⟩
  · rcases hlc.total _ _ (text_ne hne) with hless | hless
    · exact Or.inl ⟨u, u, hu, hv, Or.inr ⟨rfl, k, k', hk, hk', hne, hless⟩⟩
    · exact Or.inr ⟨u, u, hv, hu, Or.inr ⟨rfl, k', k, hk', hk, fun e => hne e.symm, hless⟩⟩

/-- The names are those of the validators, each of them once. -/
theorem names_spec (hb : Books.Good env x.books) (hs : DposStands env x s) :
    x.names.Nodup ∧ ∀ a, a ∈ x.names ↔ (x.books.1 a).username.isSome = true := by
  obtain ⟨c, hc, hnode⟩ := hs.books
  have hlookup : ∀ u a, s.node.repository.usernames.get u = some a ↔
      (x.books.1 a).username = some u := by
    intro u a
    have hnames : s.node.repository.usernames.get = x.books.2.usernames := by
      rw [← Books.names_eq hc]
      exact congrArg Names.usernames hnode.1.names
    rw [hnames]
    exact hb.agrees.usernames u a
  rw [← hs.names]
  refine ⟨WalletIndex.values_nodup fun u u' a hu hu' => ?_, fun a => ?_⟩
  · exact Option.some.inj (((hlookup u a).1 hu).symm.trans ((hlookup u' a).1 hu'))
  · unfold allByUsername
    rw [WalletIndex.mem_values, Option.isSome_iff_exists]
    exact exists_congr fun u => hlookup u a

/-- The part of `buildValidatorRanking` before the sort. -/
theorem collected_run (hs : DposStands env x s) :
    ∃ s₁, DposStands env x.collected s₁ ∧ ∀ (rest : DposProg Unit),
      (do
        setActiveValidators []
        let validators ← Prog.gets fun s => s.node.repository.allByUsername
        Prog.forEach collect validators
        rest).run s = rest.run s₁ := by
  obtain ⟨_, s₀, hnil, hs₀, -⟩ := (setActiveValidators_always []).run hs
  obtain ⟨_, s₁, hloop, hs₁, -⟩ := (collectAll_always x.names).run hs₀
  refine ⟨s₁, hs₁, fun rest => ?_⟩
  rw [Prog.run_bind_of_done hnil, Prog.run_bind_of_done (Prog.run_gets _ _), hs₀.names,
    Prog.run_bind_of_done hloop]

theorem rankAll_always (entries : List (Address × Nat)) :
    Prog.Always (DposStands env) x (Prog.forEach rank entries) (fun _ => True) x :=
  Prog.Always.forEach (fun _ => x) (fun entry _ => setRank_always entry.1 (some entry.2)) entries

/-- The part from the sort on, once it is known what the sort returns. -/
theorem sorted_run (hs : DposStands env x s)
    (h : sortWith (fun a b => compareValidators lc (s.node.repository.wallet a)
      (s.node.repository.wallet b)) s.dposState.activeValidators = .ok l) :
    ∃ s', (do
        sortActiveValidators lc
        let activeValidators ← Prog.gets fun s => s.dposState.activeValidators
        Prog.forEach rank (activeValidators.zipIdx 1)).run s = .done () s' ∧
      DposStands env { x with dposState := { x.dposState with activeValidators := l } } s' := by
  obtain ⟨_, s₁, hset, hs₁, -⟩ := (setActiveValidators_always l).run hs
  obtain ⟨_, s₂, hrank, hs₂, -⟩ := (rankAll_always (l.zipIdx 1)).run hs₁
  refine ⟨s₂, ?_, hs₂⟩
  have hsort : (sortActiveValidators lc).run s = .done () s₁ := by
    unfold sortActiveValidators
    rw [Prog.run_bind_of_done (Prog.run_gets _ _)]
    simp only [id_eq, h]
    exact hset
  have hactive : s₁.dposState.activeValidators = l :=
    congrArg DposState.activeValidators hs₁.dposState
  rw [Prog.run_bind_of_done hsort, Prog.run_bind_of_done (Prog.run_gets _ _), hactive]
  exact hrank

/-- The collected validators are those the ranking is of, each of them once. -/
theorem collected_spec (hb : Books.Good env x.books) (hs : DposStands env x s) :
    x.collected.dposState.activeValidators.Nodup ∧
      ∀ a, a ∈ x.collected.dposState.activeValidators ↔
        (x.books.1 a).username.isSome = true ∧ (x.books.1 a).isResigned = false := by
  obtain ⟨hnodup, hmem⟩ := names_spec hb hs
  refine ⟨hnodup.filter _, fun a => ?_⟩
  show a ∈ x.names.filter (fun a => !(x.books.1 a).isResigned) ↔ _
  rw [List.mem_filter, hmem, Bool.not_eq_true']

/-- **What `buildValidatorRanking` returns with is the ranking.** -/
theorem buildValidatorRanking_done (hlc : LocaleOrder lc) (hb : Books.Good env x.books)
    (hs : DposStands env x s) (h : (buildValidatorRanking lc).run s = .done () s') :
    ∃ l, Ranked lc x.books.1 x.keys l ∧
      DposStands env { x with dposState := { x.dposState with activeValidators := l } } s' := by
  obtain ⟨s₁, hs₁, hstart⟩ := collected_run hs
  obtain ⟨hnodup, hmem⟩ := collected_spec hb hs
  have hactive : s₁.dposState.activeValidators = x.collected.dposState.activeValidators :=
    congrArg DposState.activeValidators hs₁.dposState
  unfold buildValidatorRanking at h
  rw [hstart] at h
  cases hsort : sortWith (fun a b => compareValidators lc (s₁.node.repository.wallet a)
      (s₁.node.repository.wallet b)) s₁.dposState.activeValidators with
  | error e =>
    have hthrow : (sortActiveValidators lc).run s₁ = .thrown e s₁ := by
      unfold sortActiveValidators
      rw [Prog.run_bind_of_done (Prog.run_gets _ _)]
      simp only [id_eq, hsort]
      rfl
    rw [Prog.run_bind_of_thrown hthrow] at h
    cases h
  | ok l =>
    obtain ⟨s₂, hrun, hs₂⟩ := sorted_run hs₁ hsort
    obtain rfl : s₂ = s' := by
      rw [hrun] at h
      cases h
      rfl
    refine ⟨l, ?_, hs₂⟩
    have hahead := ahead_iff hlc hs₁
    rw [← hactive] at hnodup
    obtain ⟨hperm, hsorted⟩ := ahead_of_sortWith hnodup (fun a _ b _ _ hd => by
        rw [hahead, hahead]
        exact ahead_total hlc hs₁ hd) (fun a b c hab hbc => by
        rw [hahead] at hab hbc ⊢
        exact hab.trans hlc hbc) hsort
    refine ⟨hsorted.imp fun hab => (hahead _ _).1 hab, fun a => ?_⟩
    rw [hperm.mem_iff, hactive]
    exact hmem a

/-- **When there is a ranking, it returns with it.** -/
theorem buildValidatorRanking_of_ranked (hlc : LocaleOrder lc) (hb : Books.Good env x.books)
    (hs : DposStands env x s) (h : Ranked lc x.books.1 x.keys l) :
    ∃ s', (buildValidatorRanking lc).run s = .done () s' ∧
      DposStands env { x with dposState := { x.dposState with activeValidators := l } } s' := by
  obtain ⟨s₁, hs₁, hstart⟩ := collected_run hs
  obtain ⟨hnodup, hmem⟩ := collected_spec hb hs
  have hactive : s₁.dposState.activeValidators = x.collected.dposState.activeValidators :=
    congrArg DposState.activeValidators hs₁.dposState
  have hl : l.Nodup := h.sorted.imp fun {a b} hab heq => by
    subst heq
    exact hab.asymm hlc hab
  have hperm : l.Perm s₁.dposState.activeValidators := by
    rw [hactive]
    exact (List.perm_ext_iff_of_nodup hl hnodup).2 fun a => (h.members a).trans (hmem a).symm
  have hsort := sortWith_of_ahead hperm
    (h.sorted.imp fun {a b} hab => (ahead_iff hlc hs₁ a b).2 hab)
  obtain ⟨s₂, hrun, hs₂⟩ := sorted_run hs₁ hsort
  refine ⟨s₂, ?_, hs₂⟩
  unfold buildValidatorRanking
  rw [hstart, hrun]

end DposState

end Stands

end CoreEx
