/-
  File:      CoreEx/Properties/RestartOrder.lean
  Subject:   The forging order of a round when it begins, and after a restart in the round.

  A round that begins is shuffled in the order of the ranking; a node that restarts reads the round
  that has been saved in the order of the public keys, and shuffles that. The shuffle moves places,
  so the two agree exactly if the ranking is in the order of the keys.

  * `RoundMember` -- the validators of a round; `KeysInOrder` -- the condition;
  * `Begun`, **`startRound_done`** -- what a round that has begun leaves;
  * `restored_done` -- what a node makes of it that restarts;
  * `sorted_iff` -- when the stored keys are in order;
  * **`restartOrder_iff`** -- when the two are the same; **`restartOrder_not`** -- two validators.
-/
import CoreEx.Properties.ValidatorRanking
import CoreEx.Rounds.AppliedRound

namespace CoreEx

open WalletRepository DposState RoundState

/-! ## 1. The condition -/

/-- One of the first of the ranking. -/
def RoundMember (lc : String → String → Int) (L : Ledger) (keys : Address → Option PublicKey)
    (maxValidators : Nat) (a : Address) : Prop :=
  ∃ l, Ranked lc L keys l ∧ a ∈ l.take maxValidators

/-- Of two validators of the round the one that comes first has the smaller key. -/
def KeysInOrder (lc : String → String → Int) (L : Ledger) (keys : Address → Option PublicKey)
    (maxValidators : Nat) : Prop :=
  ∀ a b k k', RoundMember lc L keys maxValidators a → RoundMember lc L keys maxValidators b →
    keys a = some k → keys b = some k' → Precedes lc L keys a b → k.text < k'.text

section Node

variable {env : Services} {lc : String → String → Int} {sha256 : List String → String}
  {n m : KeyedNode env} {d : DposState} {db : Database} {forging : List ForgingValidator}
  {roundInfo : RoundInfo} {s' : RoundNode}

/-- The keys of the wallets of a node. -/
def KeyedNode.keys (n : KeyedNode env) (a : Address) : Option PublicKey :=
  (n.repository.wallet a).publicKey

/-! ## 2. A round that begins -/

/-- **What a round that has begun leaves**: its validators `l` in the forging order, and stored. -/
structure Begun (sha256 : List String → String) (keys : Address → Option PublicKey)
    (roundInfo : RoundInfo) (l : List Address) (s' : RoundNode) : Prop where
  forging : s'.forgingValidators.map ForgingValidator.publicKey =
    shuffleValidators sha256 roundInfo.round (l.map keys)
  stored : ∃ entries, s'.database.roundStorage.get? roundInfo.round = some entries ∧
    entries.map (fun entry => some entry.publicKey) = l.map keys

theorem storedEntry_eq_ok {w : Wallet} {entry : Round} (h : storedEntry w = .ok entry) :
    w.publicKey = some entry.publicKey ∧ Account.round w.toAccount = some entry.round := by
  unfold storedEntry at h
  split at h
  · rename_i hbalance hkey hround
    cases h
    exact ⟨hkey, hround⟩
  · cases h

theorem storedEntries_eq_ok {ws : List Wallet} :
    ∀ {entries : List Round}, ws.mapM storedEntry = .ok entries →
      entries.map (fun entry => some entry.publicKey) = ws.map (·.publicKey) ∧
      entries.map (fun entry => some entry.round) =
        ws.map fun w => Account.round w.toAccount := by
  induction ws with
  | nil =>
    intro entries h
    cases h
    exact ⟨rfl, rfl⟩
  | cons w ws ih =>
    intro entries h
    rw [List.mapM_cons] at h
    cases hw : storedEntry w with
    | error e =>
      rw [hw] at h
      cases h
    | ok entry =>
      rw [hw] at h
      cases hws : ws.mapM storedEntry with
      | error e =>
        rw [hws] at h
        cases h
      | ok rest =>
        rw [hws] at h
        obtain rfl : entry :: rest = entries := Except.ok.inj h
        obtain ⟨hkey, hround⟩ := storedEntry_eq_ok hw
        obtain ⟨hkeys, hrounds⟩ := ih hws
        rw [List.map_cons, List.map_cons, List.map_cons, List.map_cons, hkey, hround, hkeys,
          hrounds]
        exact ⟨rfl, rfl⟩

/-- Saving a round that is not stored. -/
theorem saveRound_done {ws : List Wallet} {s : RoundNode} {round : Int}
    (hround : ∀ w ∈ ws, Account.round w.toAccount = some round)
    (hnew : s.database.roundStorage.doesExist round = false)
    (hrun : (RoundState.saveRound ws).run s = .done () s') :
    s'.forgingValidators = s.forgingValidators ∧
      ∃ entries, s'.database.roundStorage.get? round = some entries ∧
        entries.map (fun entry => some entry.publicKey) = ws.map (·.publicKey) := by
  unfold RoundState.saveRound at hrun
  obtain ⟨entries, s₁, hentries, hsave⟩ := Prog.run_bind_done.1 hrun
  cases hmap : ws.mapM storedEntry with
  | error e =>
    rw [hmap] at hentries
    cases hentries
  | ok stored =>
    rw [hmap] at hentries
    obtain ⟨rfl, rfl⟩ : stored = entries ∧ s = s₁ := by
      cases hentries
      exact ⟨rfl, rfl⟩
    obtain ⟨hkeys, hrounds⟩ := storedEntries_eq_ok hmap
    cases stored with
    | nil => cases hsave
    | cons first rest =>
      -- the first validator tells the round
      have hfirst : first.round = round := by
        cases ws with
        | nil => cases hmap
        | cons w ws =>
          rw [List.map_cons, List.map_cons] at hrounds
          have hw := (List.cons.inj hrounds).1
          exact Option.some.inj (hw.trans (hround w List.mem_cons_self))
      have hsaved : (onDatabase (Database.saveRound (first :: rest))).run s = .done ()
          { s with database := { s.database with
            roundStorage := s.database.roundStorage.put first.round (first :: rest) } } := by
        have hknown : (Prog.gets fun db : Database => db.roundStorage.doesExist first.round :
            DatabaseProg Bool).run s.database = .done false s.database := by
          rw [Prog.run_gets, hfirst, hnew]
        unfold onDatabase
        rw [Prog.run_zoom]
        unfold Database.saveRound
        rw [Prog.run_bind_of_done hknown]
        rfl
      rw [hsaved] at hsave
      cases hsave
      refine ⟨rfl, first :: rest, ?_, hkeys⟩
      show (s.database.roundStorage.put first.round (first :: rest)).get? round = _
      rw [Storage.get?_put, if_pos hfirst.symm]

/-- **A round that has begun.** -/
theorem startRound_done (hlc : LocaleOrder lc) (hnot : isCurrent forging roundInfo.round = false)
    (hnew : db.roundStorage.doesExist roundInfo.round = false)
    (hrun : (startRound lc sha256 roundInfo).run ⟨⟨n.state, d⟩, db, forging⟩ = .done () s') :
    ∃ l, Ranked lc n.repository.accounts n.keys l ∧
      Begun sha256 n.keys roundInfo (l.take roundInfo.maxValidators) s' := by
  obtain ⟨s₁, l, hranking, hstands, hranked, _⟩ := n.ranking hlc d
  have hrank : (onDpos (buildValidatorRanking lc)).run ⟨⟨n.state, d⟩, db, forging⟩ =
      .done () ⟨s₁, db, forging⟩ := by
    unfold onDpos
    rw [Prog.run_zoom, hranking]
  unfold startRound at hrun
  rw [Prog.run_bind_of_done hrank] at hrun
  by_cases hfew : s₁.dposState.activeValidators.length < roundInfo.maxValidators
  · obtain ⟨e, hthrow⟩ := setValidatorsRound_thrown hfew
    have hstop : (onDpos (setValidatorsRound roundInfo)).run ⟨s₁, db, forging⟩ =
        .thrown e ⟨s₁, db, forging⟩ := by
      unfold onDpos
      rw [Prog.run_zoom, hthrow]
    rw [Prog.run_bind_of_thrown hstop] at hrun
    cases hrun
  · have hactive : s₁.dposState.activeValidators = l :=
      congrArg DposState.activeValidators hstands.dposState
    rw [hactive] at hfew
    have hvalidators : ∀ a ∈ l, (n.repository.accounts a).isValidator = true :=
      fun a ha => isValidator_of_username ((hranked.members a).1 ha).1
    have hchoose : Prog.Always (DposStands env) (n.books { d with activeValidators := l })
        (setValidatorsRound roundInfo) (fun _ => True) _ :=
      setValidatorsRound_always (Nat.le_of_not_lt hfew) hvalidators
    obtain ⟨_, s₂, hround, hs₂, -⟩ := hchoose.run hstands
    have hchosen : (onDpos (setValidatorsRound roundInfo)).run ⟨s₁, db, forging⟩ =
        .done () ⟨s₂, db, forging⟩ := by
      unfold onDpos
      rw [Prog.run_zoom, hround]
    have hmembers : s₂.dposState.roundValidators = l.take roundInfo.maxValidators :=
      congrArg DposState.roundValidators hs₂.dposState
    -- the wallets of the round
    have hkeys : (roundWallets ⟨s₂, db, forging⟩).map (·.publicKey) =
        (l.take roundInfo.maxValidators).map n.keys := by
      unfold roundWallets
      rw [List.map_map, hmembers]
      exact List.map_congr_left fun a _ => hs₂.keys a
    have hrounds : ∀ w ∈ roundWallets ⟨s₂, db, forging⟩,
        Account.round w.toAccount = some roundInfo.round := by
      intro w hw
      obtain ⟨a, ha, rfl⟩ := List.mem_map.1 hw
      rw [hmembers] at ha
      exact (hs₂.rounds a).trans (if_pos ha)
    have hget : (Prog.gets roundWallets : RoundProg (List Wallet)).run ⟨s₂, db, forging⟩ =
        .done (roundWallets ⟨s₂, db, forging⟩) ⟨s₂, db, forging⟩ := rfl
    have hset : (setForgingValidatorsOfRound sha256 roundInfo
        (roundWallets ⟨s₂, db, forging⟩)).run ⟨s₂, db, forging⟩ =
        .done () ⟨s₂, db, shuffleValidators sha256 roundInfo.round
          ((roundWallets ⟨s₂, db, forging⟩).map ForgingValidator.ofWallet)⟩ := by
      unfold setForgingValidatorsOfRound
      rw [Prog.run_modify, hnot]
      rfl
    rw [Prog.run_bind_of_done hchosen, Prog.run_bind_of_done hget,
      Prog.run_bind_of_done hset] at hrun
    obtain ⟨hforging, entries, hstored, hentries⟩ := saveRound_done hrounds hnew hrun
    refine ⟨l, hranked, ?_, entries, hstored, hentries.trans hkeys⟩
    rw [hforging, ← shuffleValidators_map, List.map_map]
    exact congrArg (shuffleValidators sha256 roundInfo.round) hkeys

/-! ## 3. A restart -/

/-- The validators of a stored round whose wallets have usernames. -/
theorem storedValidators_eq_some {L : Ledger} {round : Int} {entries : List Round}
    (h : ∀ entry ∈ entries,
      (L (env.addressFromPublicKey entry.publicKey)).username.isSome = true) :
    ∃ validators, storedValidators env L round entries = some validators ∧
      validators.map ForgingValidator.publicKey =
        entries.map fun entry => some entry.publicKey := by
  induction entries with
  | nil => exact ⟨[], rfl, rfl⟩
  | cons entry entries ih =>
    obtain ⟨username, husername⟩ := Option.isSome_iff_exists.1 (h entry List.mem_cons_self)
    obtain ⟨validators, hsome, hkeys⟩ := ih fun e he => h e (List.mem_cons_of_mem _ he)
    refine ⟨⟨some entry.publicKey, round, username, entry.balance⟩ :: validators, ?_, ?_⟩
    · unfold storedValidators
      rw [husername, hsome]
      rfl
    · rw [List.map_cons, List.map_cons, hkeys]

/-- **A node that restarts** has the stored validators by their keys, shuffled. -/
theorem restored_done {db' : Database} {entries : List Round} {roundInfo' : RoundInfo}
    (hstored : db'.roundStorage.get? roundInfo'.round = some entries)
    (hregistered : ∀ entry ∈ entries, (m.repository.accounts
      (env.addressFromPublicKey entry.publicKey)).username.isSome = true) :
    ∃ validators r, (getActiveValidators env sha256 db' [] roundInfo').run
        m.repository.toWalletRepository = .done validators r ∧
      validators.map ForgingValidator.publicKey = shuffleValidators sha256 roundInfo'.round
        ((Database.sortRounds entries).map fun entry => some entry.publicKey) := by
  have hread : db'.getRound roundInfo'.round = Database.sortRounds entries := by
    unfold Database.getRound
    rw [hstored]
    rfl
  obtain ⟨validators, hsome, hkeys⟩ : ∃ validators, storedValidators env m.repository.accounts
      roundInfo'.round (Database.sortRounds entries) = some validators ∧
      validators.map ForgingValidator.publicKey =
        (Database.sortRounds entries).map fun entry => some entry.publicKey :=
    storedValidators_eq_some fun entry he =>
      hregistered entry ((sortRounds_keys entries).1.mem_iff.1 he)
  have horder : forgingOrder env sha256 db' [] m.repository.accounts roundInfo'.round =
      some (shuffleValidators sha256 roundInfo'.round validators) := by
    unfold forgingOrder
    rw [if_neg (by exact Bool.false_ne_true), hread, hsome]
    rfl
  have heval : Prog.Evaluates (Stands env) m.repository.books
      (getActiveValidators env sha256 db' [] roundInfo')
      (some (shuffleValidators sha256 roundInfo'.round validators)) := by
    rw [← horder]
    exact getActiveValidators_evaluates [] roundInfo'
  have hspec := heval m.repository.toWalletRepository m.repository.stands
  unfold Prog.Spec at hspec
  cases hrun : (getActiveValidators env sha256 db' [] roundInfo').run
      m.repository.toWalletRepository with
  | thrown e r =>
    rw [hrun] at hspec
    cases hspec
  | done restored r =>
    rw [hrun] at hspec
    obtain rfl : shuffleValidators sha256 roundInfo'.round validators = restored :=
      Option.some.inj hspec.2
    refine ⟨_, r, rfl, ?_⟩
    rw [← shuffleValidators_map, hkeys]

/-! ## 4. The order of the keys -/

theorem eq_of_text {k k' : PublicKey} (h : k.text = k'.text) : k = k' := by
  by_contra hne
  exact text_ne hne h

/-- **The stored keys are in order** exactly if the ranking is. -/
theorem sorted_iff (hlc : LocaleOrder lc) {l : List Address} {N : Nat}
    (hranked : Ranked lc n.repository.accounts n.keys l) {entries : List Round}
    (hentries : entries.map (fun entry => some entry.publicKey) = (l.take N).map n.keys) :
    (Database.sortRounds entries).map (fun entry => some entry.publicKey) =
        entries.map (fun entry => some entry.publicKey) ↔
      KeysInOrder lc n.repository.accounts n.keys N := by
  obtain ⟨hperm, hsorted⟩ := sortRounds_keys entries
  have hprecedes : (l.take N).Pairwise (Precedes lc n.repository.accounts n.keys) :=
    hranked.sorted.sublist (List.take_sublist _ _)
  have hmember : ∀ a ∈ l.take N, RoundMember lc n.repository.accounts n.keys N a :=
    fun a ha => ⟨l, hranked, ha⟩
  have hunmember : ∀ a, RoundMember lc n.repository.accounts n.keys N a → a ∈ l.take N := by
    intro a ha
    obtain ⟨l', hranked', hmem⟩ := ha
    rwa [hranked'.unique hlc hranked] at hmem
  -- an order of keys, on the entries and on the addresses
  have htransfer : entries.Pairwise (fun a b => a.publicKey.text ≤ b.publicKey.text) ↔
      (l.take N).Pairwise fun a b => ∀ k k', n.keys a = some k → n.keys b = some k' →
        k.text ≤ k'.text := by
    have hboth : (entries.map fun entry => some entry.publicKey).Pairwise
          (fun o o' => ∀ k k', o = some k → o' = some k' → k.text ≤ k'.text) ↔
        ((l.take N).map n.keys).Pairwise
          fun o o' => ∀ k k', o = some k → o' = some k' → k.text ≤ k'.text := by
      rw [hentries]
    rw [List.pairwise_map, List.pairwise_map] at hboth
    refine Iff.trans ⟨fun h => h.imp fun hab k k' hk hk' => ?_,
      fun h => h.imp fun hab => hab _ _ rfl rfl⟩ hboth
    rw [← Option.some.inj hk, ← Option.some.inj hk']
    exact hab
  refine ⟨fun hsame a b k k' ha hb hk hk' hab => ?_, fun horder => ?_⟩
  · -- the entries are sorted, as what is read of them is
    have hentriesSorted : entries.Pairwise fun a b => a.publicKey.text ≤ b.publicKey.text := by
      have hkeysSorted : ((Database.sortRounds entries).map fun entry =>
          some entry.publicKey).Pairwise
          fun o o' => ∀ k k', o = some k → o' = some k' → k.text ≤ k'.text := by
        refine List.pairwise_map.2 (hsorted.imp fun hab k k' hk hk' => ?_)
        rw [← Option.some.inj hk, ← Option.some.inj hk']
        exact hab
      rw [hsame] at hkeysSorted
      exact (List.pairwise_map.1 hkeysSorted).imp fun hab => hab _ _ rfl rfl
    have hkeys := htransfer.1 hentriesSorted
    obtain ⟨i, hi, rfl⟩ := List.mem_iff_getElem.1 (hunmember a ha)
    obtain ⟨j, hj, rfl⟩ := List.mem_iff_getElem.1 (hunmember b hb)
    rcases Nat.lt_trichotomy i j with hlt | rfl | hlt
    · have hle := List.pairwise_iff_getElem.1 hkeys i j hi hj hlt k k' hk hk'
      refine lt_of_le_of_ne hle fun htext => ?_
      rw [← eq_of_text htext] at hk'
      rw [n.key_unique hk hk'] at hab
      exact hab.asymm hlc hab
    · exact absurd hab (hab.asymm hlc)
    · exact absurd (List.pairwise_iff_getElem.1 hprecedes j i hj hi hlt) (hab.asymm hlc)
  · have hkeys : (l.take N).Pairwise fun a b => ∀ k k', n.keys a = some k → n.keys b = some k' →
        k.text ≤ k'.text := hprecedes.imp_of_mem fun {a b} ha hb hab k k' hk hk' =>
      le_of_lt (horder a b k k' (hmember a ha) (hmember b hb) hk hk' hab)
    have hentriesSorted := htransfer.2 hkeys
    have heq : (Database.sortRounds entries).map Round.publicKey = entries.map Round.publicKey :=
      (hperm.map _).eq_of_pairwise
        (fun k k' _ _ hle hge => eq_of_text (le_antisymm hle hge))
        (List.pairwise_map.2 hsorted) (List.pairwise_map.2 hentriesSorted)
    have hsome := congrArg (List.map some) heq
    rw [List.map_map, List.map_map] at hsome
    exact hsome

/-! ## 5. The result -/

/-- The forging order of the round, when it has begun and after a restart. -/
theorem restored_iff (hlc : LocaleOrder lc) (hnot : isCurrent forging roundInfo.round = false)
    (hnew : db.roundStorage.doesExist roundInfo.round = false)
    (hrun : (startRound lc sha256 roundInfo).run ⟨⟨n.state, d⟩, db, forging⟩ = .done () s')
    {db' : Database} {roundInfo' : RoundInfo} (hround : roundInfo'.round = roundInfo.round)
    (hstored : db'.roundStorage.get? roundInfo.round =
      s'.database.roundStorage.get? roundInfo.round)
    (hregistered : ∀ a, (n.repository.accounts a).username.isSome = true →
      (m.repository.accounts a).username.isSome = true) :
    ∃ validators r, (getActiveValidators env sha256 db' [] roundInfo').run
        m.repository.toWalletRepository = .done validators r ∧
      (validators.map ForgingValidator.publicKey =
          s'.forgingValidators.map ForgingValidator.publicKey ↔
        KeysInOrder lc n.repository.accounts n.keys roundInfo.maxValidators) := by
  obtain ⟨l, hranked, hforging, entries, hentries, hkeys⟩ :=
    startRound_done hlc hnot hnew hrun
  have hknown : ∀ entry ∈ entries, (m.repository.accounts
      (env.addressFromPublicKey entry.publicKey)).username.isSome = true := by
    intro entry he
    have hmem : some entry.publicKey ∈ (l.take roundInfo.maxValidators).map n.keys := by
      rw [← hkeys]
      exact List.mem_map.2 ⟨entry, he, rfl⟩
    obtain ⟨a, ha, hka⟩ := List.mem_map.1 hmem
    have haddress : env.addressFromPublicKey entry.publicKey = a :=
      (n.repository.sound.keys _ _ (n.repository.sound.own a _ hka)).symm
    rw [haddress]
    exact hregistered a ((hranked.members a).1 (List.mem_of_mem_take ha)).1
  have hread : db'.roundStorage.get? roundInfo'.round = some entries := by
    rw [hround, hstored, hentries]
  obtain ⟨validators, r, hactive, hvalidators⟩ : ∃ validators r,
      (getActiveValidators env sha256 db' [] roundInfo').run
        m.repository.toWalletRepository = .done validators r ∧
      validators.map ForgingValidator.publicKey = shuffleValidators sha256 roundInfo'.round
        ((Database.sortRounds entries).map fun entry => some entry.publicKey) :=
    restored_done hread hknown
  refine ⟨validators, r, hactive, ?_⟩
  rw [hvalidators, hforging, hround, ← hkeys, ← sorted_iff hlc hranked hkeys]
  refine ⟨fun h => shuffleValidators_injective sha256 roundInfo.round ?_ h, fun h => ?_⟩
  · rw [List.length_map, List.length_map, (sortRounds_keys entries).1.length_eq]
  · rw [h]

/-- **The forging order after a restart** is that of the round when it began exactly if the keys of
    its validators are in the order of the ranking. -/
theorem restartOrder_iff (hlc : LocaleOrder lc) (configuration : MilestoneList) (height : Nat)
    (hstart : height = 1 ∨ RoundCalculator.isNewRound (height + 1) configuration = true)
    (hinfo : RoundCalculator.calculateRound (height + 1) configuration = .ok roundInfo)
    (hnot : isCurrent forging roundInfo.round = false)
    (hnew : db.roundStorage.doesExist roundInfo.round = false)
    (hrun : (applyRound lc sha256 configuration height).run ⟨⟨n.state, d⟩, db, forging⟩ =
      .done () s')
    (db' : Database) (roundInfo' : RoundInfo) (hround : roundInfo'.round = roundInfo.round)
    (hstored : db'.roundStorage.get? roundInfo.round =
      s'.database.roundStorage.get? roundInfo.round)
    (hregistered : ∀ a, (n.repository.accounts a).username.isSome = true →
      (m.repository.accounts a).username.isSome = true) :
    ∃ validators r, (getActiveValidators env sha256 db' [] roundInfo').run
        m.repository.toWalletRepository = .done validators r ∧
      (validators.map ForgingValidator.publicKey =
          s'.forgingValidators.map ForgingValidator.publicKey ↔
        KeysInOrder lc n.repository.accounts n.keys roundInfo.maxValidators) := by
  unfold applyRound at hrun
  rw [if_pos hstart, hinfo] at hrun
  exact restored_iff hlc hnot hnew hrun hround hstored hregistered

end Node

/-! ## 6. Two validators -/

namespace Sample

/-- Rounds of two validators. -/
def twoValidators : Configuration := .of ⟨1, 2, ⟨1000, 10, 0⟩, 8, 0, 100⟩ [] (by decide)

/-- The hash of the text of the number 2, all that the shuffle of two validators asks for. -/
def digestOfTwo (_ : List String) : String :=
  "d4735e3a265e16eee03f59718b9b5d03019c07d8b6c51f90da3a666eec13ab35"

/-- The node when the second round begins. -/
def secondRound : Outcome RoundNode Exception Unit :=
  (applyRound codePointCompare digestOfTwo twoValidators.toMilestoneList 2).run
    ⟨⟨rivalsKeyed.state, new⟩, ⟨.empty, .empty, .empty, .empty⟩, []⟩

theorem secondRound_done : secondRound = .done () secondRound.state :=
  Outcome.eq_done (by decide)

/-- The one that comes first has the larger key. -/
theorem not_keysInOrder :
    ¬KeysInOrder codePointCompare rivalsKeyed.repository.accounts rivalsKeyed.keys 2 := by
  intro horder
  have hprecedes := (List.pairwise_cons.1 rivals_ranked.sorted).1 _ (List.mem_singleton_self _)
  have hless := horder _ _ zoe alice ⟨_, rivals_ranked, List.mem_cons_self⟩
    ⟨_, rivals_ranked, List.mem_cons_of_mem _ (List.mem_singleton_self _)⟩
    (by decide) (by decide) hprecedes
  exact absurd hless (by decide)

end Sample

/-- The two validators in the second round, and after a restart in it. -/
theorem restartOrder_iff_rivals : ∃ validators r,
    (getActiveValidators Services.simple Sample.digestOfTwo Sample.secondRound.state.database []
      ⟨2, 2, 2, 3⟩).run Sample.rivals = .done validators r ∧
      (validators.map ForgingValidator.publicKey =
          Sample.secondRound.state.forgingValidators.map ForgingValidator.publicKey ↔
        KeysInOrder Sample.codePointCompare Sample.rivalsKeyed.repository.accounts
          Sample.rivalsKeyed.keys 2) :=
  restartOrder_iff Sample.codePointCompare_order Sample.twoValidators.toMilestoneList 2
    (Or.inr (by decide)) rfl rfl rfl Sample.secondRound_done Sample.secondRound.state.database
    ⟨2, 2, 2, 3⟩ rfl rfl fun _ h => h

/-- **Two validators** of which the one with more votes has the larger key: a node that restarts in
    their round has them in another order. -/
theorem restartOrder_not : ∃ validators r,
    Sample.secondRound = .done () Sample.secondRound.state ∧
      (getActiveValidators Services.simple Sample.digestOfTwo Sample.secondRound.state.database []
        ⟨2, 2, 2, 3⟩).run Sample.rivals = .done validators r ∧
      validators.map ForgingValidator.publicKey ≠
        Sample.secondRound.state.forgingValidators.map ForgingValidator.publicKey := by
  have hrun := Sample.secondRound_done
  unfold Sample.secondRound at hrun
  have hinfo : RoundCalculator.calculateRound 3 Sample.twoValidators.toMilestoneList =
      .ok ⟨2, 2, 2, 3⟩ := rfl
  unfold applyRound at hrun
  rw [if_pos (Or.inr (by decide)), hinfo] at hrun
  obtain ⟨validators, r, hactive, hsame⟩ :=
    restored_iff Sample.codePointCompare_order rfl rfl hrun rfl rfl fun _ h => h
  exact ⟨validators, r, Sample.secondRound_done, hactive,
    fun h => Sample.not_keysInOrder (hsame.1 h)⟩

end CoreEx
