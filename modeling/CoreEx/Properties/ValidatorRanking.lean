/-
  File:      CoreEx/Properties/ValidatorRanking.lean
  Subject:   The ranking of the validators is a function of what the wallets hold.

  Wherever the validators have their public keys, every two of them compare, so there is exactly one
  strictly ordered list of those that have not resigned. The sort returns it, whatever the order in
  which the index of usernames enumerates the wallets and whatever ranks they had.

  * `KeyedNode` -- a node whose validators have their public keys, as registering demands;
    **`keyed_of_run`** -- blocks lead from such nodes to such nodes;
  * `Account.rank`, `RankStands` -- the ranks beside what `DposStands` tells;
  * `precedes_total`, `exists_ranked` -- there is a ranking;
  * `collectAll_ranks`, `rankAll_ranks`, `buildValidatorRanking_ranks` -- the ranks the loops write;
  * `setValidatorsRound_spec` -- the validators of a round;
  * **`validatorRanking`** -- both together.
-/
import CoreEx.Properties.LastForged
import CoreEx.Rounds.DposState
import CoreEx.State.ValidatorKeys
import Mathlib.Data.String.Basic

namespace CoreEx

open WalletRepository ThrowingSort DposState

/-! ## 1. Ranks -/

/-- `getAttribute("validator.rank")`. -/
def Account.rank (w : Account) : Option Nat := w.validator.bind (·.rank)

theorem Account.rank_forgetRank (w : Account) : (w.setRank none).rank = none := by
  obtain ⟨b, n, vote, ms, v⟩ := w
  cases v <;> rfl

theorem Account.rank_setRank {w : Account} (hw : w.isValidator = true) (rank : Option Nat) :
    (w.setRank rank).rank = rank := by
  obtain ⟨b, n, vote, ms, v⟩ := w
  cases v with
  | none => cases hw
  | some v => rfl

/-- The state stands for this, and the wallets have these ranks. -/
def RankStands (env : Services) (x : DposBooks × (Address → Option Nat)) (s : DposNode) : Prop :=
  DposStands env x.1 s ∧ ∀ a, (s.node.repository.accounts a).rank = x.2 a

/-- Numbers written one after the other. -/
def writtenRanks (ranks : Address → Option Nat) :
    List (Address × Nat) → Address → Option Nat
  | [] => ranks
  | entry :: entries => writtenRanks (Function.update ranks entry.1 (some entry.2)) entries

theorem writtenRanks_of_notMem {a : Address} (entries : List (Address × Nat)) :
    ∀ ranks : Address → Option Nat, a ∉ entries.map Prod.fst →
      writtenRanks ranks entries a = ranks a := by
  induction entries with
  | nil => exact fun _ _ => rfl
  | cons entry entries ih =>
    intro ranks ha
    rw [List.map_cons, List.mem_cons, not_or] at ha
    unfold writtenRanks
    rw [ih _ ha.2, Function.update_of_ne ha.1]

theorem writtenRanks_of_mem {a : Address} {n : Nat} (entries : List (Address × Nat)) :
    ∀ ranks : Address → Option Nat, (entries.map Prod.fst).Nodup → (a, n) ∈ entries →
      writtenRanks ranks entries a = some n := by
  induction entries with
  | nil => exact fun _ _ h => nomatch h
  | cons entry entries ih =>
    intro ranks hnodup ha
    rw [List.map_cons, List.nodup_cons] at hnodup
    unfold writtenRanks
    rcases List.mem_cons.1 ha with rfl | ha
    · rw [writtenRanks_of_notMem entries _ hnodup.1, Function.update_self]
    · exact ih _ hnodup.2 ha

section Stands

variable {env : Services} {lc : String → String → Int} {x : DposBooks}
  {ranks : Address → Option Nat} {s s' : DposNode} {a : Address} {l : List Address}

/-- Writing a rank, or forgetting one. -/
theorem setRank_ranks (rank : Option Nat) (h : rank = none ∨ (x.books.1 a).isValidator = true) :
    Prog.Always (RankStands env) (x, ranks) (onWallets (update a (·.setRank rank)))
      (fun _ => True) (x, Function.update ranks a rank) := by
  intro s hs
  have hstands := setRank_always a rank s hs.1
  refine ⟨⟨hstands.1, fun b => ?_⟩, trivial⟩
  show ((s.node.repository.setWallet a ((s.node.repository.wallet a).withAccount
    ((s.node.repository.accounts a).setRank rank))).wallet b).toAccount.rank =
      Function.update ranks a rank b
  rw [wallet_setWallet, Function.update_apply]
  by_cases hb : b = a
  · rw [if_pos hb, if_pos hb]
    show ((s.node.repository.accounts a).setRank rank).rank = rank
    rcases h with rfl | hvalidator
    · exact Account.rank_forgetRank _
    · refine Account.rank_setRank ?_ rank
      rw [hs.1.read a Account.isValidator Account.core_isValidator]
      exact hvalidator
  · rw [if_neg hb, if_neg hb]
    exact hs.2 b

/-- What keeps the wallets as they are keeps the ranks. -/
theorem setActiveValidators_ranks (l : List Address) :
    Prog.Always (RankStands env) (x, ranks) (setActiveValidators l) (fun _ => True)
      ({ x with dposState := { x.dposState with activeValidators := l } }, ranks) := by
  intro s hs
  have hstands := setActiveValidators_always l s hs.1
  exact ⟨⟨hstands.1, hs.2⟩, trivial⟩

/-- The ranks after the first loop: the resigned among the wallets have none. -/
def forgottenRanks (L : Ledger) (names : List Address) (ranks : Address → Option Nat) :
    Address → Option Nat :=
  fun a => if a ∈ names ∧ (L a).isResigned = true then none else ranks a

/-- The first loop collects the validators that have not resigned, and takes the ranks of the
    others. -/
theorem collectAll_ranks (names : List Address) :
    ∀ {x : DposBooks} {ranks : Address → Option Nat},
      Prog.Always (RankStands env) (x, ranks) (Prog.forEach collect names) (fun _ => True)
        ({ x with dposState := { x.dposState with
            activeValidators := x.dposState.activeValidators ++
              names.filter fun a => !(x.books.1 a).isResigned } },
          forgottenRanks x.books.1 names ranks) := by
  induction names with
  | nil =>
    intro x ranks
    rw [List.filter_nil, List.append_nil]
    have hranks : forgottenRanks x.books.1 [] ranks = ranks :=
      funext fun a => if_neg fun h => (nomatch h.1)
    rw [hranks]
    exact Prog.Always.pure trivial
  | cons a names ih =>
    intro x ranks
    rw [Prog.forEach_cons]
    have hlook : Prog.Always (RankStands env) (x, ranks) (onWallets (account a))
        (fun w => w.isResigned = (x.books.1 a).isResigned) (x, ranks) :=
      fun s hs => ⟨hs, hs.1.read a Account.isResigned Account.core_isResigned⟩
    cases hr : (x.books.1 a).isResigned with
    | true =>
      have hskip : (a :: names).filter (fun a => !(x.books.1 a).isResigned) =
          names.filter fun a => !(x.books.1 a).isResigned :=
        List.filter_cons_of_neg (by simp [hr])
      have hranks : forgottenRanks x.books.1 (a :: names) ranks =
          forgottenRanks x.books.1 names (Function.update ranks a none) := by
        funext b
        unfold forgottenRanks
        by_cases hb : b = a
        · subst hb
          simp [hr]
        · simp [hb]
      rw [hskip, hranks]
      have hcollect : Prog.Always (RankStands env) (x, ranks) (collect a) (fun _ => True)
          (x, Function.update ranks a none) := by
        unfold collect
        refine hlook.bind fun w hw => ?_
        rw [hw, hr, if_pos rfl]
        exact setRank_ranks none (Or.inl rfl)
      exact hcollect.bind fun _ _ => ih
    | false =>
      have htake : (a :: names).filter (fun a => !(x.books.1 a).isResigned) =
          a :: names.filter fun a => !(x.books.1 a).isResigned :=
        List.filter_cons_of_pos (by simp [hr])
      have hranks : forgottenRanks x.books.1 (a :: names) ranks =
          forgottenRanks x.books.1 names ranks := by
        funext b
        unfold forgottenRanks
        by_cases hb : b = a
        · subst hb
          simp [hr]
        · simp [hb]
      rw [htake, hranks]
      have hstep := @ih { x with dposState := { x.dposState with
        activeValidators := x.dposState.activeValidators ++ [a] } } ranks
      rw [List.append_assoc] at hstep
      refine Prog.Always.bind (P := fun _ => True) ?_ fun _ _ => hstep
      unfold collect
      refine hlook.bind fun w hw => ?_
      rw [hw, hr, if_neg (by decide)]
      have hactive : Prog.Always (RankStands env) (x, ranks)
          (Prog.gets fun s => s.dposState.activeValidators : DposProg (List Address))
          (fun l => l = x.dposState.activeValidators) (x, ranks) :=
        Prog.Always.gets fun _ hs => congrArg DposState.activeValidators hs.1.dposState
      refine hactive.bind fun l hl => ?_
      subst hl
      exact setActiveValidators_ranks _

/-- The last loop writes the ranks. -/
theorem rankAll_ranks (entries : List (Address × Nat))
    (h : ∀ entry ∈ entries, (x.books.1 entry.1).isValidator = true) :
    ∀ {ranks : Address → Option Nat}, Prog.Always (RankStands env) (x, ranks)
      (Prog.forEach rank entries) (fun _ => True) (x, writtenRanks ranks entries) := by
  induction entries with
  | nil => exact Prog.Always.pure trivial
  | cons entry entries ih =>
    intro ranks
    rw [Prog.forEach_cons]
    exact (setRank_ranks _ (Or.inr (h entry List.mem_cons_self))).bind fun _ _ =>
      ih fun e he => h e (List.mem_cons_of_mem _ he)

/-! ## 2. There is a ranking -/

/-- Who has a username is a validator. -/
theorem isValidator_of_username {w : Account} (h : w.username.isSome = true) :
    w.isValidator = true := by
  unfold Account.username at h
  unfold Account.isValidator
  cases hv : w.validator with
  | none =>
    rw [hv] at h
    cases h
  | some v => rfl

/-- Two validators with different keys come one before the other. -/
theorem precedes_total (hlc : LocaleOrder lc) {L : Ledger} {keys : Address → Option PublicKey}
    {b : Address} {u v : Int} {k k' : PublicKey} (hu : (L a).voteBalance? = some u)
    (hv : (L b).voteBalance? = some v) (hk : keys a = some k) (hk' : keys b = some k')
    (hne : k ≠ k') : Precedes lc L keys a b ∨ Precedes lc L keys b a := by
  rcases lt_trichotomy u v with hlt | rfl | hlt
  · exact Or.inr ⟨v, u, hv, hu, Or.inl hlt⟩
  · rcases hlc.total _ _ (text_ne hne) with hless | hless
    · exact Or.inl ⟨u, u, hu, hv, Or.inr ⟨rfl, k, k', hk, hk', hne, hless⟩⟩
    · exact Or.inr ⟨u, u, hv, hu, Or.inr ⟨rfl, k', k, hk', hk, fun e => hne e.symm, hless⟩⟩
  · exact Or.inl ⟨u, v, hu, hv, Or.inl hlt⟩

/-- **There is a ranking** where all validators have different keys. -/
theorem exists_ranked (hlc : LocaleOrder lc) (hb : Books.Good env x.books)
    (hs : DposStands env x s)
    (hkeyed : ∀ a, (x.books.1 a).isValidator = true → ∃ k, x.keys a = some k)
    (hdistinct : ∀ a b k, x.keys a = some k → x.keys b = some k → a = b) :
    ∃ l, Ranked lc x.books.1 x.keys l := by
  obtain ⟨hnodup, hmem⟩ := collected_spec hb hs
  have hvalidator : ∀ a ∈ x.collected.dposState.activeValidators,
      (x.books.1 a).isValidator = true :=
    fun a ha => isValidator_of_username ((hmem a).1 ha).1
  have htotal : x.collected.dposState.activeValidators.Pairwise fun a b =>
      Ahead (fun a b => compareValidators lc (s.node.repository.wallet a)
        (s.node.repository.wallet b)) a b ∨
      Ahead (fun a b => compareValidators lc (s.node.repository.wallet a)
        (s.node.repository.wallet b)) b a := by
    refine hnodup.imp_of_mem fun {a b} ha hb' hne => ?_
    rw [ahead_iff hlc hs, ahead_iff hlc hs]
    obtain ⟨u, hu⟩ := Option.isSome_iff_exists.1 (hb.consistent.voteBalance a (hvalidator a ha))
    obtain ⟨v, hv⟩ := Option.isSome_iff_exists.1 (hb.consistent.voteBalance b (hvalidator b hb'))
    obtain ⟨k, hk⟩ := hkeyed a (hvalidator a ha)
    obtain ⟨k', hk'⟩ := hkeyed b (hvalidator b hb')
    refine precedes_total hlc hu hv hk hk' fun heq => hne ?_
    subst heq
    exact hdistinct a b k hk hk'
  obtain ⟨l, hperm, hsorted⟩ := exists_ahead (fun a b c hab hbc => by
    rw [ahead_iff hlc hs] at hab hbc ⊢
    exact hab.trans hlc hbc) htotal
  exact ⟨l, hsorted.imp fun hab => (ahead_iff hlc hs _ _).1 hab,
    fun a => (hperm.mem_iff).trans (hmem a)⟩

/-- **Where there is a ranking, `buildValidatorRanking` returns with it**, and the ranks are those of
    the loops. -/
theorem buildValidatorRanking_ranks (hlc : LocaleOrder lc) (hb : Books.Good env x.books)
    (h : Ranked lc x.books.1 x.keys l) (hs : RankStands env (x, ranks) s) :
    ∃ s', (buildValidatorRanking lc).run s = .done () s' ∧
      RankStands env ({ x with dposState := { x.dposState with activeValidators := l } },
        writtenRanks (forgottenRanks x.books.1 x.names ranks) (l.zipIdx 1)) s' := by
  obtain ⟨hnodup, hmem⟩ := collected_spec hb hs.1
  have hl : l.Nodup := h.sorted.imp fun {a b} hab heq => by
    subst heq
    exact hab.asymm hlc hab
  have hperm : l.Perm x.collected.dposState.activeValidators :=
    (List.perm_ext_iff_of_nodup hl hnodup).2 fun a => (h.members a).trans (hmem a).symm
  have hactive : ∀ (y : DposBooks) (ranks : Address → Option Nat),
      Prog.Always (RankStands env) (y, ranks)
        (Prog.gets fun s => s.dposState.activeValidators : DposProg (List Address))
        (fun l => l = y.dposState.activeValidators) (y, ranks) :=
    fun y ranks => Prog.Always.gets fun _ hs => congrArg DposState.activeValidators hs.1.dposState
  have hsort : ∀ ranks : Address → Option Nat, Prog.Always (RankStands env) (x.collected, ranks)
      (sortActiveValidators lc) (fun _ => True)
      ({ x with dposState := { x.dposState with activeValidators := l } }, ranks) := by
    intro ranks s₁ hs₁
    have hactive₁ : s₁.dposState.activeValidators = x.collected.dposState.activeValidators :=
      congrArg DposState.activeValidators hs₁.1.dposState
    have hsorted : sortWith (fun a b => compareValidators lc (s₁.node.repository.wallet a)
        (s₁.node.repository.wallet b)) s₁.dposState.activeValidators = .ok l := by
      rw [hactive₁]
      exact sortWith_of_ahead hperm (h.sorted.imp fun {a b} hab => (ahead_iff hlc hs₁.1 a b).2 hab)
    have hrun : (sortActiveValidators lc).run s₁ = (setActiveValidators l).run s₁ := by
      unfold sortActiveValidators
      rw [Prog.run_bind_of_done (Prog.run_gets _ _)]
      simp only [id_eq, hsorted]
      rfl
    have hset := setActiveValidators_ranks l s₁ hs₁
    unfold Prog.Spec at hset ⊢
    rw [hrun]
    exact hset
  have hnames : ∀ y : DposBooks, Prog.Always (RankStands env) (y, ranks)
      (Prog.gets fun s => s.node.repository.allByUsername : DposProg (List Address))
      (fun names => names = y.names) (y, ranks) :=
    fun y => Prog.Always.gets fun _ hs => hs.1.names
  have hall : Prog.Always (RankStands env) (x, ranks) (buildValidatorRanking lc) (fun _ => True)
      ({ x with dposState := { x.dposState with activeValidators := l } },
        writtenRanks (forgottenRanks x.books.1 x.names ranks) (l.zipIdx 1)) := by
    unfold buildValidatorRanking
    refine (setActiveValidators_ranks []).bind fun _ _ => (hnames _).bind fun names heq => ?_
    subst heq
    refine (collectAll_ranks x.names).bind fun _ _ => (hsort _).bind fun _ _ =>
      (hactive _ _).bind fun active (heq : active = l) => ?_
    rw [heq]
    refine rankAll_ranks _ fun entry hentry => ?_
    have hmember : entry.1 ∈ l := by
      have := List.mem_map_of_mem (f := Prod.fst) hentry
      rwa [List.zipIdx_map_fst] at this
    exact isValidator_of_username ((h.members _).1 hmember).1
  obtain ⟨_, s', hrun, hs', -⟩ := hall.run hs
  exact ⟨s', hrun, hs'⟩

end Stands

/-! ## 3. The validators of a round -/

section Round

variable {env : Services} {x : DposBooks} {round : Int}

/-- The loop of `setValidatorsRound`. -/
theorem chooseAll_always (l : List Address) : ∀ {x : DposBooks},
    (∀ a ∈ l, (x.books.1 a).isValidator = true) →
    Prog.Always (DposStands env) x (Prog.forEach (choose round) l) (fun _ => True)
      { x with
        rounds := fun a => if a ∈ l then some round else x.rounds a
        dposState := { x.dposState with
          roundValidators := x.dposState.roundValidators ++ l } } := by
  induction l with
  | nil =>
    intro x _
    have hrounds : (fun a => if a ∈ ([] : List Address) then some round else x.rounds a) =
        x.rounds := funext fun a => if_neg List.not_mem_nil
    rw [hrounds, List.append_nil]
    exact Prog.Always.pure trivial
  | cons a l ih =>
    intro x hvalidators
    rw [Prog.forEach_cons]
    have hround : Prog.Always (DposStands env) x
        (onWallets (update a (·.setRound (some round)))) (fun _ => True) _ :=
      setRound_always (hvalidators a List.mem_cons_self) round
    have hpush : ∀ y : DposBooks, Prog.Always (DposStands env) y
        (Prog.modify fun s : DposNode => { s with
          dposState := { s.dposState with
            roundValidators := s.dposState.roundValidators ++ [a] } } : DposProg Unit)
        (fun _ => True)
        { y with dposState := { y.dposState with
          roundValidators := y.dposState.roundValidators ++ [a] } } :=
      fun y => Prog.Always.modify fun _ hs => ⟨hs.books, hs.keys, hs.rounds, hs.names, by
        rw [← hs.dposState]⟩
    have hrounds : (fun b => if b ∈ a :: l then some round else x.rounds b) = fun b =>
        if b ∈ l then some round else Function.update x.rounds a (some round) b := by
      funext b
      rw [Function.update_apply]
      by_cases hb : b = a
      · simp [hb]
      · simp [hb]
    rw [hrounds, List.append_cons]
    exact (hround.bind fun _ _ => hpush _).bind fun _ _ =>
      ih fun b hb => hvalidators b (List.mem_cons_of_mem _ hb)

/-- **The first validators of the ranking are those of the round**, when there are enough. -/
theorem setValidatorsRound_always {roundInfo : RoundInfo}
    (h : roundInfo.maxValidators ≤ x.dposState.activeValidators.length)
    (hvalidators : ∀ a ∈ x.dposState.activeValidators, (x.books.1 a).isValidator = true) :
    Prog.Always (DposStands env) x (setValidatorsRound roundInfo) (fun _ => True)
      { x with
        rounds := fun a =>
          if a ∈ x.dposState.activeValidators.take roundInfo.maxValidators then
            some roundInfo.round
          else x.rounds a
        dposState := ⟨some roundInfo, x.dposState.activeValidators,
          x.dposState.activeValidators.take roundInfo.maxValidators⟩ } := by
  have hstart : Prog.Always (DposStands env) x
      (Prog.modify fun s : DposNode => { s with
        dposState := { s.dposState with roundInfo := some roundInfo, roundValidators := [] } } :
          DposProg Unit)
      (fun _ => True)
      { x with dposState := { x.dposState with
        roundInfo := some roundInfo, roundValidators := [] } } :=
    Prog.Always.modify fun _ hs => ⟨hs.books, hs.keys, hs.rounds, hs.names, by
      rw [← hs.dposState]⟩
  have hcheck : ∀ e, Prog.Always (DposStands env) x
      (Prog.throwIf (x.dposState.activeValidators.length < roundInfo.maxValidators) e :
        DposProg Unit) (fun _ => True) x := by
    intro e
    unfold Prog.throwIf Prog.when
    rw [if_neg (by omega)]
    exact Prog.Always.pure trivial
  unfold setValidatorsRound
  refine activeValidators_always.bind fun active hactive => ?_
  rw [hactive]
  exact (hcheck _).bind fun _ _ => hstart.bind fun _ _ =>
    chooseAll_always _ fun a ha => hvalidators a (List.mem_of_mem_take ha)

/-- **Too few validators**: nothing is changed. -/
theorem setValidatorsRound_thrown {roundInfo : RoundInfo} {s : DposNode}
    (h : s.dposState.activeValidators.length < roundInfo.maxValidators) :
    ∃ e, (setValidatorsRound roundInfo).run s = .thrown e s := by
  have hstop : ∀ e, (Prog.throwIf (s.dposState.activeValidators.length < roundInfo.maxValidators) e :
      DposProg Unit).run s = .thrown e s := by
    intro e
    unfold Prog.throwIf Prog.when
    rw [if_pos h]
    rfl
  unfold setValidatorsRound
  rw [Prog.run_bind_of_done (Prog.run_gets _ _)]
  exact ⟨_, Prog.run_bind_of_thrown (hstop _)⟩

end Round

/-! ## 4. Both -/

/-- A node whose validators have their public keys: only a sender becomes a validator, and it is
    looked up by its key. -/
structure KeyedNode (env : Services) extends ConsistentNode env where
  keyed : ∀ a, (repository.accounts a).isValidator = true →
    ∃ k, (repository.wallet a).publicKey = some k

/-- The same wallets up to notes, however they are enumerated. -/
def SameWallets {env : Services} (m n : KeyedNode env) : Prop :=
  (∀ a, (m.repository.accounts a).core = (n.repository.accounts a).core) ∧
    ∀ a, (m.repository.wallet a).publicKey = (n.repository.wallet a).publicKey

section Node

variable {env : Services} {lc : String → String → Int}

/-- What a node stands for. -/
def KeyedNode.books (n : KeyedNode env) (d : DposState) : DposBooks where
  books := n.repository.books
  store := n.store
  keys a := (n.repository.wallet a).publicKey
  rounds a := (n.repository.accounts a).round
  names := n.repository.allByUsername
  dposState := d

theorem KeyedNode.rankStands (n : KeyedNode env) (d : DposState) :
    RankStands env (n.books d, fun a => (n.repository.accounts a).rank) ⟨n.state, d⟩ :=
  ⟨⟨⟨_, rfl, n.stands⟩, fun _ => rfl, fun _ => rfl, rfl, rfl⟩, fun _ => rfl⟩

/-- The wallets of a node have different keys. -/
theorem KeyedNode.key_unique (n : KeyedNode env) {a b : Address} {k : PublicKey}
    (ha : (n.repository.wallet a).publicKey = some k)
    (hb : (n.repository.wallet b).publicKey = some k) : a = b :=
  Option.some.inj ((n.repository.sound.own a k ha).symm.trans (n.repository.sound.own b k hb))

/-- **Every state that blocks lead to is that of such a node**, applied and reverted in any order. -/
theorem keyed_of_run (n : KeyedNode env) {may : Block → List Block → Prop} {s : NodeState}
    {applied : List Block} (hrun : BlockRun env may n.state [] s applied) :
    ∃ m : KeyedNode env, m.state = s := by
  have hstanding : ∃ b st, Standing env [] s applied b st ∧ ValidatorsKeyed s.repository := by
    induction hrun with
    | start =>
      refine ⟨_, _, ⟨n.stands, n.ordered, .start n.repository.good, fun _ h => (nomatch h)⟩,
        fun a ha => ?_⟩
      exact Option.isSome_iff_exists.2 (n.keyed a ha)
    | apply block _ valid run ih =>
      obtain ⟨b, st, h, hkeyed⟩ := ih
      obtain ⟨c, st', -, -, h'⟩ := h.apply valid run
      have hkeyed' := BlockState.applyBlock_keyed valid h.recorded.good h.ordered h.stands hkeyed
      rw [run] at hkeyed'
      exact ⟨_, st', h', hkeyed'⟩
    | revert block _ _ run ih =>
      obtain ⟨b, st, h, hkeyed⟩ := ih
      obtain ⟨b₀, hbefore, valid, hled, -⟩ := h.last
      obtain ⟨_, c, -, h', -⟩ := h.revert run
      exact ⟨c, st, h', BlockState.revertBlock_keyed valid hbefore.good hled h.stands hkeyed run⟩
    | store st _ ordered ih =>
      obtain ⟨b, _, h, hkeyed⟩ := ih
      exact ⟨b, st, ⟨⟨h.stands.1, rfl⟩, ordered, h.recorded, h.generators⟩, hkeyed⟩
  obtain ⟨b, st, h, hkeyed⟩ := hstanding
  have hstore : s.store = st := h.stands.2
  refine ⟨⟨⟨.ofStands h.recorded.good h.stands.1, s.store, hstore ▸ h.ordered⟩, fun a ha => ?_⟩, rfl⟩
  exact Option.isSome_iff_exists.1 (hkeyed a ha)

/-- The ranking of a node, and the ranks it leaves. -/
theorem KeyedNode.ranking (hlc : LocaleOrder lc) (n : KeyedNode env) (d : DposState) :
    ∃ s l, (buildValidatorRanking lc).run ⟨n.state, d⟩ = .done () s ∧
      DposStands env (n.books { d with activeValidators := l }) s ∧
      Ranked lc n.repository.accounts (fun a => (n.repository.wallet a).publicKey) l ∧
      (∀ i a, l[i]? = some a → (s.node.repository.accounts a).rank = some (i + 1)) ∧
      ∀ a, a ∉ l → (s.node.repository.accounts a).rank = none := by
  have hs := n.rankStands d
  have hgood : Books.Good env (n.books d).books := n.repository.good
  obtain ⟨l, hl⟩ := exists_ranked hlc hgood hs.1 n.keyed fun a b k => n.key_unique
  obtain ⟨s, hrun, hs'⟩ := buildValidatorRanking_ranks hlc hgood hl hs
  have hnodup : ((l.zipIdx 1).map Prod.fst).Nodup := by
    rw [List.zipIdx_map_fst]
    exact hl.sorted.imp fun {a b} hab heq => by
      subst heq
      exact hab.asymm hlc hab
  have hranks : ∀ a, (s.node.repository.accounts a).rank = writtenRanks (forgottenRanks
      n.repository.accounts n.repository.allByUsername fun a => (n.repository.accounts a).rank)
      (l.zipIdx 1) a := hs'.2
  refine ⟨s, l, hrun, hs'.1, hl, fun i a hi => ?_, fun a ha => ?_⟩
  · rw [hranks]
    refine writtenRanks_of_mem _ _ hnodup ?_
    rw [List.mk_mem_zipIdx_iff_le_and_getElem?_sub]
    exact ⟨by omega, hi⟩
  · rw [hranks, writtenRanks_of_notMem _ _ (by rwa [List.zipIdx_map_fst])]
    unfold forgottenRanks
    cases hvalidator : (n.repository.accounts a).isValidator with
    | true =>
      -- a validator that is not ranked has resigned
      have husername := n.repository.good.consistent.username a hvalidator
      have hname : a ∈ n.repository.allByUsername := ((names_spec hgood hs.1).2 a).2 husername
      have hresigned : (n.repository.accounts a).isResigned = true := by
        by_contra hnot
        exact ha ((hl.members a).2 ⟨husername, Bool.eq_false_iff.2 hnot⟩)
      exact if_pos ⟨hname, hresigned⟩
    | false =>
      have hnone : (n.repository.accounts a).rank = none := by
        unfold Account.isValidator at hvalidator
        unfold Account.rank
        rw [Option.isSome_eq_false_iff, Option.isNone_iff_eq_none] at hvalidator
        rw [hvalidator]
        rfl
      dsimp only
      rw [hnone, ite_self]

/-- **The ranking is canonical**: on every node it is the strictly ordered list of the validators
    that have not resigned, with the ranks from 1 on along it and no others; every node with the
    same wallets gets the same. Then the first validators make up the round, or nothing changes. -/
theorem validatorRanking (hlc : LocaleOrder lc) (n : KeyedNode env) (d : DposState) :
    ∃ s l, (buildValidatorRanking lc).run ⟨n.state, d⟩ = .done () s ∧
      s.dposState = { d with activeValidators := l } ∧
      Ranked lc n.repository.accounts (fun a => (n.repository.wallet a).publicKey) l ∧
      (∀ i a, l[i]? = some a → (s.node.repository.accounts a).rank = some (i + 1)) ∧
      (∀ a, a ∉ l → (s.node.repository.accounts a).rank = none) ∧
      (∀ (m : KeyedNode env) (d' : DposState), SameWallets m n →
        ∃ s', (buildValidatorRanking lc).run ⟨m.state, d'⟩ = .done () s' ∧
          s'.dposState.activeValidators = l ∧
          ∀ a, (s'.node.repository.accounts a).rank = (s.node.repository.accounts a).rank) ∧
      ∀ roundInfo : RoundInfo,
        (l.length < roundInfo.maxValidators →
          ∃ e, (setValidatorsRound roundInfo).run s = .thrown e s) ∧
        (roundInfo.maxValidators ≤ l.length →
          ∃ s', (setValidatorsRound roundInfo).run s = .done () s' ∧
            s'.dposState = ⟨some roundInfo, l, l.take roundInfo.maxValidators⟩) := by
  obtain ⟨s, l, hrun, hs, hl, hranked, hunranked⟩ := n.ranking hlc d
  have hactive : s.dposState = { d with activeValidators := l } := hs.dposState
  refine ⟨s, l, hrun, hactive, hl, hranked, hunranked, fun m d' hsame => ?_, fun roundInfo =>
    ⟨fun hfew => ?_, fun henough => ?_⟩⟩
  · obtain ⟨s', l', hrun', hs', hl', hranked', hunranked'⟩ := m.ranking hlc d'
    have hcore : Ledger.core n.repository.accounts = Ledger.core m.repository.accounts :=
      funext fun a => (hsame.1 a).symm
    obtain rfl : l' = l := by
      refine (hl'.congr hcore fun a k hk => ?_).unique hlc hl
      rw [← hsame.2]
      exact hk
    refine ⟨s', hrun', congrArg DposState.activeValidators hs'.dposState, fun a => ?_⟩
    by_cases ha : a ∈ l'
    · obtain ⟨i, hi⟩ := List.mem_iff_getElem?.1 ha
      rw [hranked i a hi, hranked' i a hi]
    · rw [hunranked a ha, hunranked' a ha]
  · refine setValidatorsRound_thrown ?_
    rw [hactive]
    exact hfew
  · have hvalidators : ∀ a ∈ l, (n.repository.accounts a).isValidator = true :=
      fun a ha => isValidator_of_username ((hl.members a).1 ha).1
    have hchoose : Prog.Always (DposStands env) (n.books { d with activeValidators := l })
        (setValidatorsRound roundInfo) (fun _ => True) _ :=
      setValidatorsRound_always henough hvalidators
    obtain ⟨_, s', hround, hs', -⟩ := hchoose.run hs
    exact ⟨s', hround, hs'.dposState⟩

end Node

namespace Sample

/-- Texts by code points. -/
def codePointCompare (a b : String) : Int := if a < b then -1 else if b < a then 1 else 0

theorem codePointCompare_order : LocaleOrder codePointCompare where
  flip a b hne := by
    unfold codePointCompare
    rcases lt_trichotomy a b with hlt | rfl | hlt
    · simp [hlt, hlt.not_gt]
    · exact absurd rfl hne
    · simp [hlt, hlt.not_gt]
  total a b hne := by
    unfold codePointCompare
    rcases lt_trichotomy a b with hlt | rfl | hlt
    · simp [hlt]
    · exact absurd rfl hne
    · simp [hlt]
  trans a b c hab hbc := by
    have hless : ∀ x y, codePointCompare x y < 0 → x < y := by
      intro x y h
      unfold codePointCompare at h
      by_contra hnot
      rw [if_neg hnot] at h
      split at h <;> omega
    unfold codePointCompare
    rw [if_pos ((hless a b hab).trans (hless b c hbc))]
    decide

/-- A validator with more votes than `alice`, and a larger key. -/
def zoe : PublicKey := ⟨"zoe", by decide⟩

/-- A transaction of `zoe`. -/
def zoesTransaction (type : Nat) (nonce : Int) (asset : TransactionAsset) : Transaction where
  data :=
    { version := some 1, network := some 30, typeGroup := some 1, type := type,
      nonce := some nonce, senderPublicKey := some zoe, fee := 5, amount := 0,
      expiration := none, recipientId := none, vendorField := none, asset := some asset,
      id := some "id", signature := some "idzoe", signatures := none }
  serialized := "00"

def zoesRegistration : Transaction :=
  zoesTransaction TransactionType.validatorRegistration 1
    { TransactionAsset.empty with username := some "zoe" }

def zoesVote : Transaction :=
  zoesTransaction TransactionType.vote 2
    { TransactionAsset.empty with votes := some [zoe], unvotes := some [] }

theorem zoesRegistration_valid : zoesRegistration.data.SchemaValid :=
  ⟨rfl, rfl, rfl, rfl, by decide, by decide, fun _ => rfl, fun h => (nomatch h),
    fun _ h => (nomatch h), fun _ h => (nomatch h), fun _ h => (nomatch h)⟩

theorem zoesVote_valid : zoesVote.data.SchemaValid :=
  ⟨rfl, rfl, rfl, rfl, by decide, by decide, fun _ => rfl, fun h => (nomatch h),
    fun l h => by cases h; decide, fun l h => by cases h; decide, fun _ h => (nomatch h)⟩

/-- `zoe` is paid for a block, registers and votes for itself. -/
def zoePaid : WalletRepository :=
  ((BalanceMutator.apply Services.simple ⟨"zoe", by decide⟩
    { header 1 0 0 with generatorPublicKey := zoe }).run registered).state

def zoeRegistered : WalletRepository :=
  ((applyTransaction Services.simple zoesRegistration).run zoePaid).state

def rivals : WalletRepository :=
  ((applyTransaction Services.simple zoesVote).run zoeRegistered).state

theorem rivals_run :
    Run Services.simple .empty rivals [zoesVote, zoesRegistration, registration] :=
  .apply 1 zoesVote (.apply 1 zoesRegistration (.reward 1 ⟨"zoe", by decide⟩
    { header 1 0 0 with generatorPublicKey := zoe } registered_run (Outcome.eq_done (by decide)))
    zoesRegistration_valid (Outcome.eq_done (by decide)))
    zoesVote_valid (Outcome.eq_done (by decide))

/-- A node with both. -/
def rivalsNode : ConsistentNode Services.simple where
  repository :=
    { toWalletRepository := rivals
      sound := (consistent_of_run Services.simple_injective (.empty _) (voteBalances_empty _)
        rivals_run).1
      good := (consistent_of_run Services.simple_injective (.empty _) (voteBalances_empty _)
        rivals_run).2 }
  store := node.store
  ordered := node.ordered

/-- What a wallet of `rivals` is: one of the two, or not a validator. -/
theorem rivals_cases (a : Address) : a = ⟨"alice", by decide⟩ ∨ a = ⟨"zoe", by decide⟩ ∨
    (rivals.accounts a).username.isSome = false := by
  by_cases hknown : a ∈ rivals.addresses.keys
  · have hall : ∀ a ∈ rivals.addresses.keys, a = ⟨"alice", by decide⟩ ∨
        a = ⟨"zoe", by decide⟩ ∨ (rivals.accounts a).username.isSome = false := by decide
    exact hall a hknown
  · right; right
    show (rivals.wallet a).toAccount.username.isSome = false
    rw [WalletRepository.wallet_of_notMem hknown]
    rfl

def rivalsKeyed : KeyedNode Services.simple where
  toConsistentNode := rivalsNode
  keyed a ha := by
    by_cases hknown : a ∈ rivals.addresses.keys
    · have hall : ∀ a ∈ rivals.addresses.keys, (rivals.wallet a).publicKey.isSome = true ∨
          (rivals.accounts a).isValidator = false := by decide
      rcases hall a hknown with hkey | hnot
      · exact Option.isSome_iff_exists.1 hkey
      · exact absurd (ha.symm.trans hnot) (by decide)
    · have hnew : (rivals.wallet a).toAccount.isValidator = true := ha
      rw [wallet_of_notMem hknown] at hnew
      cases hnew

/-- `zoe` comes first. -/
theorem rivals_ranked : Ranked codePointCompare rivalsKeyed.repository.accounts
    (fun a => (rivalsKeyed.repository.wallet a).publicKey)
    [⟨"zoe", by decide⟩, ⟨"alice", by decide⟩] where
  sorted := by
    refine List.pairwise_cons.2 ⟨fun b hb => ?_, List.pairwise_singleton _ _⟩
    rw [List.mem_singleton.1 hb]
    exact ⟨90, 0, by decide, by decide, Or.inl (by decide)⟩
  members a := by
    rcases rivals_cases a with rfl | rfl | hnone
    · decide
    · decide
    · refine ⟨fun ha => ?_, fun ha => absurd (ha.1.symm.trans hnone) (by decide)⟩
      rcases List.mem_cons.1 ha with rfl | ha
      · exact absurd hnone (by decide)
      · rw [List.mem_singleton.1 ha] at hnone
        exact absurd hnone (by decide)

end Sample

/-- Two validators: the one with more votes comes first, and they make up the round. -/
theorem validatorRanking_rivals : ∃ s s',
    (buildValidatorRanking Sample.codePointCompare).run ⟨Sample.rivalsKeyed.state, new⟩ =
        .done () s ∧
      s.dposState.activeValidators = [⟨"zoe", by decide⟩, ⟨"alice", by decide⟩] ∧
      (s.node.repository.accounts ⟨"alice", by decide⟩).rank = some 2 ∧
      (setValidatorsRound ⟨2, 2, 2, 3⟩).run s = .done () s' ∧
      s'.dposState.roundValidators = [⟨"zoe", by decide⟩, ⟨"alice", by decide⟩] := by
  obtain ⟨s, l, hrun, hstate, hranked, hranks, -, -, hround⟩ :=
    validatorRanking Sample.codePointCompare_order Sample.rivalsKeyed new
  obtain rfl := hranked.unique Sample.codePointCompare_order Sample.rivals_ranked
  obtain ⟨s', hrun', hstate'⟩ := (hround ⟨2, 2, 2, 3⟩).2 (Nat.le_refl 2)
  exact ⟨s, s', hrun, congrArg DposState.activeValidators hstate, hranks 1 _ rfl, hrun',
    congrArg DposState.roundValidators hstate'⟩

end CoreEx
