/-
  File:      CoreEx/State/Ledger.lean
  Subject:   The accounts as an abstract ledger: what transactions are for, without the order in
             which the code gets there.

  A transaction moves amounts between accounts, the vote balances of the delegates follow, and it
  may change one thing about one account: its vote, its registration, its resignation or its
  multi-signature. Undoing is the same with the opposite amounts. The code does this with
  separate increments in the handlers, in `#updateVoteBalances` and in the mutators; that all of
  them together amount to these operations is proved with each of them.

  * `Ledger.move`, `Ledger.redelegate` -- amounts with votes following, and a change of delegate;
  * `Ledger.move_negated`, `Ledger.redelegate_back` -- they can be undone;
  * `Ledger.Consistent` -- validators have a name and a vote balance, and votes are for
    validators;
  * **`Ledger.Tallied`** -- vote balances are the sums of what stands behind them; kept by both.
-/
import CoreEx.Lib.Postings
import CoreEx.State.WalletRepository

namespace CoreEx

/-! ## 1. Vote balances of one account -/

namespace Account

/-- Add to the vote balance of a validator; other accounts stay as they are. -/
def addVoteBalance (δ : Int) (w : Account) : Account :=
  w.setValidator (w.validator.map fun v => { v with voteBalance := v.voteBalance.map (· + δ) })

@[simp] theorem addVoteBalance_zero (w : Account) : w.addVoteBalance 0 = w := by
  obtain ⟨b, n, vote, ms, v⟩ := w
  cases v with
  | none => rfl
  | some v => cases hv : v.voteBalance <;> simp [addVoteBalance, setValidator, hv] <;> rw [← hv]

theorem addVoteBalance_add (w : Account) (δ ε : Int) :
    (w.addVoteBalance δ).addVoteBalance ε = w.addVoteBalance (δ + ε) := by
  obtain ⟨b, n, vote, ms, v⟩ := w
  cases v with
  | none => rfl
  | some v =>
    cases hv : v.voteBalance <;> simp [addVoteBalance, setValidator, hv, add_assoc]

@[simp] theorem addVoteBalance_balance (w : Account) (δ : Int) :
    (w.addVoteBalance δ).balance = w.balance := rfl

@[simp] theorem addVoteBalance_nonce (w : Account) (δ : Int) :
    (w.addVoteBalance δ).nonce = w.nonce := rfl

@[simp] theorem addVoteBalance_vote (w : Account) (δ : Int) :
    (w.addVoteBalance δ).vote = w.vote := rfl

@[simp] theorem addVoteBalance_multiSignature (w : Account) (δ : Int) :
    (w.addVoteBalance δ).multiSignature = w.multiSignature := rfl

@[simp] theorem addVoteBalance_isValidator (w : Account) (δ : Int) :
    (w.addVoteBalance δ).isValidator = w.isValidator := by
  simp [addVoteBalance, isValidator, setValidator]

@[simp] theorem addVoteBalance_username (w : Account) (δ : Int) :
    (w.addVoteBalance δ).username = w.username := by
  simp only [addVoteBalance, username, setValidator]
  cases w.validator <;> rfl

@[simp] theorem addVoteBalance_isResigned (w : Account) (δ : Int) :
    (w.addVoteBalance δ).isResigned = w.isResigned := by
  simp only [addVoteBalance, isResigned, setValidator]
  cases w.validator <;> rfl

@[simp] theorem addVoteBalance_voteBalance? (w : Account) (δ : Int) :
    (w.addVoteBalance δ).voteBalance? = w.voteBalance?.map (· + δ) := by
  simp only [addVoteBalance, voteBalance?, setValidator]
  cases w.validator <;> rfl

/-- Reading the vote balance, adding and writing it back, where there is one. -/
theorem setVoteBalance_eq {w : Account} (h : w.voteBalance?.isSome = true) (δ : Int) :
    w.setVoteBalance (w.voteBalance + δ) = w.addVoteBalance δ := by
  obtain ⟨b, n, vote, ms, v⟩ := w
  cases v with
  | none => cases h
  | some v =>
    obtain ⟨x, hx⟩ := Option.isSome_iff_exists.1 h
    have hv : v.voteBalance = some x := hx
    simp [setVoteBalance, addVoteBalance, setValidator, validatorObject, voteBalance,
      voteBalance?, hv]

end Account

/-! ## 2. Operations -/

namespace Ledger

/-- The address an account's vote is for. -/
def delegate (env : Services) (L : Ledger) (a : Address) : Option Address :=
  (L a).vote.map env.addressFromPublicKey

/-- Add amounts to balances. -/
def post (ps : List (Address × Int)) (L : Ledger) : Ledger :=
  fun a => (L a).increaseBalance (posted ps a)

/-- Add amounts to vote balances. -/
def addVotes (ps : List (Address × Int)) (L : Ledger) : Ledger :=
  fun a => (L a).addVoteBalance (posted ps a)

/-- Change one account. -/
def change (a : Address) (f : Account → Account) (L : Ledger) : Ledger :=
  Function.update L a (f (L a))

/-- Add amounts to balances, with the vote balances following. -/
def move (env : Services) (ps : List (Address × Int)) (L : Ledger) : Ledger :=
  (L.post ps).addVotes (followed (L.delegate env) ps)

/-- The vote balances when an amount goes from one delegate to another. -/
def shift (before after : Option Address) (amount : Int) : List (Address × Int) :=
  before.toList.map (fun a => (a, -amount)) ++ after.toList.map (fun a => (a, amount))

/-- Change the vote of an account, with its whole balance following. -/
def redelegate (env : Services) (a : Address) (vote : Option PublicKey) (L : Ledger) : Ledger :=
  (L.change a (·.setVote vote)).addVotes
    (shift (L.delegate env a) (vote.map env.addressFromPublicKey) (L a).balance)

/-! ## 3. Small steps -/

@[simp] theorem change_self (a : Address) (f : Account → Account) (L : Ledger) :
    L.change a f a = f (L a) :=
  Function.update_self _ _ _

theorem change_of_ne {a b : Address} (h : b ≠ a) (f : Account → Account) (L : Ledger) :
    L.change a f b = L b :=
  Function.update_of_ne h _ _

theorem change_apply (a b : Address) (f : Account → Account) (L : Ledger) :
    L.change a f b = if b = a then f (L b) else L b := by
  by_cases h : b = a
  · subst h
    simp
  · rw [change_of_ne h, if_neg h]

theorem change_change (a : Address) (f g : Account → Account) (L : Ledger) :
    (L.change a f).change a g = L.change a fun w => g (f w) := by
  funext b
  simp only [change_apply]
  by_cases h : b = a <;> simp [h]

@[simp] theorem post_nil (L : Ledger) : L.post [] = L := by
  funext a
  simp [post, Account.increaseBalance, Account.setBalance]

theorem post_cons (p : Address × Int) (ps : List (Address × Int)) (L : Ledger) :
    L.post (p :: ps) = (L.change p.1 (·.increaseBalance p.2)).post ps := by
  funext a
  simp only [post, posted_cons, change_apply]
  by_cases h : p.1 = a
  · subst h
    simp [Account.increaseBalance, Account.setBalance, add_assoc]
  · have h' : ¬ a = p.1 := fun e => h e.symm
    simp [h, h']

theorem post_append (ps qs : List (Address × Int)) (L : Ledger) :
    L.post (ps ++ qs) = (L.post ps).post qs := by
  funext a
  simp [post, posted_append, Account.increaseBalance, Account.setBalance, add_assoc]

@[simp] theorem addVotes_nil (L : Ledger) : L.addVotes [] = L := by
  funext a
  simp [addVotes]

theorem addVotes_cons (p : Address × Int) (ps : List (Address × Int)) (L : Ledger) :
    L.addVotes (p :: ps) = (L.change p.1 (·.addVoteBalance p.2)).addVotes ps := by
  funext a
  simp only [addVotes, posted_cons, change_apply]
  by_cases h : p.1 = a
  · subst h
    simp [Account.addVoteBalance_add]
  · have h' : ¬ a = p.1 := fun e => h e.symm
    simp [h, h']

theorem addVotes_append (ps qs : List (Address × Int)) (L : Ledger) :
    L.addVotes (ps ++ qs) = (L.addVotes ps).addVotes qs := by
  funext a
  simp [addVotes, posted_append, Account.addVoteBalance_add]

/-- Only the totals of the postings count. -/
theorem addVotes_congr {ps qs : List (Address × Int)} (h : ∀ a, posted ps a = posted qs a)
    (L : Ledger) : L.addVotes ps = L.addVotes qs := by
  funext a
  simp [addVotes, h a]

@[simp] theorem delegate_post (env : Services) (ps : List (Address × Int)) (L : Ledger) :
    (L.post ps).delegate env = L.delegate env := rfl

@[simp] theorem delegate_addVotes (env : Services) (ps : List (Address × Int)) (L : Ledger) :
    (L.addVotes ps).delegate env = L.delegate env := rfl

@[simp] theorem delegate_move (env : Services) (ps : List (Address × Int)) (L : Ledger) :
    (L.move env ps).delegate env = L.delegate env := rfl

@[simp] theorem move_vote (env : Services) (ps : List (Address × Int)) (L : Ledger)
    (a : Address) : (L.move env ps a).vote = (L a).vote := rfl

@[simp] theorem move_nonce (env : Services) (ps : List (Address × Int)) (L : Ledger)
    (a : Address) : (L.move env ps a).nonce = (L a).nonce := rfl

@[simp] theorem move_multiSignature (env : Services) (ps : List (Address × Int)) (L : Ledger)
    (a : Address) : (L.move env ps a).multiSignature = (L a).multiSignature := rfl

@[simp] theorem move_balance (env : Services) (ps : List (Address × Int)) (L : Ledger)
    (a : Address) : (L.move env ps a).balance = (L a).balance + posted ps a := rfl

@[simp] theorem redelegate_vote (env : Services) (a : Address) (vote : Option PublicKey)
    (L : Ledger) (b : Address) :
    (L.redelegate env a vote b).vote = if b = a then vote else (L b).vote := by
  have h : (L.redelegate env a vote b).vote = (L.change a (·.setVote vote) b).vote := rfl
  rw [h, change_apply]
  split <;> rfl

@[simp] theorem redelegate_balance (env : Services) (a : Address) (vote : Option PublicKey)
    (L : Ledger) (b : Address) : (L.redelegate env a vote b).balance = (L b).balance := by
  have h : (L.redelegate env a vote b).balance = (L.change a (·.setVote vote) b).balance := rfl
  rw [h, change_apply]
  split <;> rfl

/-- What a change of delegate leaves alone, for anything read off an account that neither the vote
    nor an amount of votes decides. -/
theorem redelegate_read {β : Type} (read : Account → β)
    (hvote : ∀ w v, read (Account.setVote v w) = read w)
    (hadd : ∀ w δ, read (Account.addVoteBalance δ w) = read w) (env : Services) (a : Address)
    (vote : Option PublicKey) (L : Ledger) (b : Address) :
    read (L.redelegate env a vote b) = read (L b) := by
  have h : read (L.redelegate env a vote b) = read (L.change a (·.setVote vote) b) := hadd _ _
  rw [h, change_apply]
  split
  · exact hvote _ _
  · rfl

/-- The same for a move. -/
theorem move_read {β : Type} (read : Account → β)
    (hinc : ∀ w x, read (Account.increaseBalance x w) = read w)
    (hadd : ∀ w δ, read (Account.addVoteBalance δ w) = read w) (env : Services)
    (ps : List (Address × Int)) (L : Ledger) (b : Address) :
    read (L.move env ps b) = read (L b) :=
  (hadd _ _).trans (hinc _ _)

@[simp] theorem addVotes_isValidator (ps : List (Address × Int)) (L : Ledger) (a : Address) :
    (L.addVotes ps a).isValidator = (L a).isValidator :=
  Account.addVoteBalance_isValidator _ _

@[simp] theorem addVotes_username (ps : List (Address × Int)) (L : Ledger) (a : Address) :
    (L.addVotes ps a).username = (L a).username :=
  Account.addVoteBalance_username _ _

@[simp] theorem addVotes_isResigned (ps : List (Address × Int)) (L : Ledger) (a : Address) :
    (L.addVotes ps a).isResigned = (L a).isResigned :=
  Account.addVoteBalance_isResigned _ _

@[simp] theorem addVotes_voteBalance?_isSome (ps : List (Address × Int)) (L : Ledger)
    (a : Address) : (L.addVotes ps a).voteBalance?.isSome = (L a).voteBalance?.isSome := by
  simp [addVotes]

@[simp] theorem move_isValidator (env : Services) (ps : List (Address × Int)) (L : Ledger)
    (a : Address) : (L.move env ps a).isValidator = (L a).isValidator :=
  addVotes_isValidator _ _ a

@[simp] theorem move_username (env : Services) (ps : List (Address × Int)) (L : Ledger)
    (a : Address) : (L.move env ps a).username = (L a).username :=
  addVotes_username _ _ a

@[simp] theorem move_isResigned (env : Services) (ps : List (Address × Int)) (L : Ledger)
    (a : Address) : (L.move env ps a).isResigned = (L a).isResigned :=
  addVotes_isResigned _ _ a

theorem redelegate_delegate (env : Services) (a : Address) (vote : Option PublicKey)
    (L : Ledger) : (L.redelegate env a vote).delegate env =
      Function.update (L.delegate env) a (vote.map env.addressFromPublicKey) := by
  funext b
  unfold delegate
  rw [redelegate_vote]
  by_cases hb : b = a
  · subst hb
    simp
  · rw [if_neg hb, Function.update_of_ne hb]

/-! ## 4. Changes commute with postings -/

theorem change_comm (f g : Account → Account) (h : ∀ w, f (g w) = g (f w)) (a b : Address)
    (L : Ledger) : (L.change a f).change b g = (L.change b g).change a f := by
  funext c
  simp only [change_apply]
  by_cases ha : c = a
  · subst ha
    by_cases hb : c = b
    · simp [hb, h]
    · simp [hb]
  · simp [ha]

theorem change_addVotes (f : Account → Account)
    (h : ∀ w δ, f (w.addVoteBalance δ) = (f w).addVoteBalance δ) (a : Address)
    (ps : List (Address × Int)) (L : Ledger) :
    (L.change a f).addVotes ps = (L.addVotes ps).change a f := by
  funext c
  simp only [addVotes, change_apply]
  by_cases hc : c = a
  · simp [hc, h]
  · simp [hc]

theorem change_post (f : Account → Account)
    (h : ∀ w x, f (w.increaseBalance x) = (f w).increaseBalance x) (a : Address)
    (ps : List (Address × Int)) (L : Ledger) :
    (L.change a f).post ps = (L.post ps).change a f := by
  funext c
  simp only [post, change_apply]
  by_cases hc : c = a
  · simp [hc, h]
  · simp [hc]

theorem delegate_change (f : Account → Account) (h : ∀ w, (f w).vote = w.vote)
    (env : Services) (a : Address) (L : Ledger) : (L.change a f).delegate env = L.delegate env := by
  funext c
  simp only [delegate, change_apply]
  by_cases hc : c = a
  · simp [hc, h]
  · simp [hc]

theorem change_move (f : Account → Account) (hvote : ∀ w, (f w).vote = w.vote)
    (hbal : ∀ w x, f (w.increaseBalance x) = (f w).increaseBalance x)
    (hadd : ∀ w δ, f (w.addVoteBalance δ) = (f w).addVoteBalance δ) (env : Services)
    (a : Address) (ps : List (Address × Int)) (L : Ledger) :
    (L.change a f).move env ps = (L.move env ps).change a f := by
  unfold move
  rw [delegate_change f hvote, change_post f hbal, change_addVotes f hadd]

/-- A change that a second one takes back. -/
theorem change_back {f g : Account → Account} {a : Address} {L : Ledger}
    (h : g (f (L a)) = L a) : (L.change a f).change a g = L := by
  rw [change_change]
  funext b
  rw [change_apply]
  by_cases hb : b = a
  · subst hb
    rw [if_pos rfl, h]
  · rw [if_neg hb]

theorem change_id (a : Address) (L : Ledger) : L.change a id = L := Function.update_eq_self a L

theorem addVotes_post (ps qs : List (Address × Int)) (L : Ledger) :
    (L.addVotes ps).post qs = (L.post qs).addVotes ps := rfl

/-! ## 5. Undoing -/

/-- Moving nothing. -/
theorem move_of_zero (env : Services) {ps : List (Address × Int)} (h : ∀ p ∈ ps, p.2 = 0)
    (L : Ledger) : L.move env ps = L := by
  have hvotes : ∀ p ∈ followed (L.delegate env) ps, p.2 = 0 := by
    intro p hp
    obtain ⟨q, hq, hmap⟩ := List.mem_filterMap.1 hp
    obtain ⟨d, -, rfl⟩ := Option.map_eq_some_iff.1 hmap
    exact h q hq
  funext a
  show ((L a).increaseBalance (posted ps a)).addVoteBalance _ = L a
  rw [posted_of_zero h, posted_of_zero hvotes, Account.addVoteBalance_zero]
  simp [Account.increaseBalance, Account.setBalance]

/-- **Moving the opposite amounts takes a move back.** -/
theorem move_negated (env : Services) (ps : List (Address × Int)) (L : Ledger) :
    (L.move env ps).move env (negated ps) = L := by
  funext a
  have hvotes : posted (followed (L.delegate env) (negated ps)) a =
      -posted (followed (L.delegate env) ps) a := by
    rw [followed_negated, posted_negated]
  have hback : ∀ w : Account, ∀ x y : Int,
      (((w.increaseBalance x).addVoteBalance y).increaseBalance (-x)).addVoteBalance (-y) = w := by
    intro w x y
    have hbal : ((w.increaseBalance x).addVoteBalance y).increaseBalance (-x) =
        w.addVoteBalance y := by
      ext1 <;> simp [Account.increaseBalance, Account.setBalance, Account.addVoteBalance,
        Account.setValidator]
    rw [hbal, Account.addVoteBalance_add, add_neg_cancel, Account.addVoteBalance_zero]
  show ((((L a).increaseBalance _).addVoteBalance _).increaseBalance _).addVoteBalance _ = L a
  rw [delegate_move, posted_negated, hvotes]
  exact hback _ _ _

theorem posted_shift (before after : Option Address) (amount : Int) (a : Address) :
    posted (shift before after amount) a =
      (if after = some a then amount else 0) - (if before = some a then amount else 0) := by
  have hone : ∀ (o : Option Address) (x : Int),
      posted (o.toList.map fun b => (b, x)) a = if o = some a then x else 0 := by
    intro o x
    cases o with
    | none => rfl
    | some b => simp [posted_cons]
  unfold shift
  rw [posted_append, hone, hone]
  split <;> omega

/-- **Voting as before takes a change of vote back.** -/
theorem redelegate_back (env : Services) (a : Address) (vote : Option PublicKey) (L : Ledger) :
    (L.redelegate env a vote).redelegate env a (L a).vote = L := by
  funext b
  have hbal : (L.redelegate env a vote a).balance = (L a).balance :=
    redelegate_balance env a vote L a
  have hdel : (L.redelegate env a vote).delegate env a = vote.map env.addressFromPublicKey := by
    rw [redelegate_delegate, Function.update_self]
  have hsum : posted (shift (L.delegate env a) (vote.map env.addressFromPublicKey)
        (L a).balance) b +
      posted (shift (vote.map env.addressFromPublicKey)
        ((L a).vote.map env.addressFromPublicKey) (L a).balance) b = 0 := by
    rw [posted_shift, posted_shift]
    unfold delegate
    omega
  have hvote : ∀ w : Account, ∀ x y : Int, x + y = 0 →
      (((w.setVote vote).addVoteBalance x).setVote w.vote).addVoteBalance y = w := by
    intro w x y hxy
    have hmid : ((w.setVote vote).addVoteBalance x).setVote w.vote = w.addVoteBalance x := by
      ext1 <;> simp [Account.setVote, Account.addVoteBalance, Account.setValidator]
    rw [hmid, Account.addVoteBalance_add, hxy, Account.addVoteBalance_zero]
  unfold redelegate at hbal hdel ⊢
  rw [hbal, hdel]
  simp only [addVotes, change_apply]
  by_cases hb : b = a
  · subst hb
    simp only [if_true]
    exact hvote _ _ _ hsum
  · simp only [if_neg hb]
    rw [Account.addVoteBalance_add, hsum, Account.addVoteBalance_zero]

/-- **A change of delegate and a move commute.** -/
theorem redelegate_move (env : Services) (a : Address) (vote : Option PublicKey)
    (ps : List (Address × Int)) (L : Ledger) :
    (L.move env ps).redelegate env a vote = (L.redelegate env a vote).move env ps := by
  have hdel : (L.redelegate env a vote).delegate env =
      Function.update (L.delegate env) a (vote.map env.addressFromPublicKey) :=
    redelegate_delegate env a vote L
  unfold move
  rw [hdel]
  unfold redelegate
  rw [addVotes_post, ← addVotes_append, change_post (·.setVote vote) (by intro _ _; rfl),
    ← change_addVotes (·.setVote vote) (by intro _ _; rfl), ← addVotes_append]
  refine addVotes_congr (fun b => ?_) _
  rw [posted_append, posted_append, posted_shift, posted_shift, posted_followed_update,
    delegate_addVotes, delegate_post]
  have hbal : ((L.post ps).addVotes (followed (L.delegate env) ps) a).balance =
      (L a).balance + posted ps a := rfl
  rw [hbal]
  by_cases h₁ : L.delegate env a = some b
  · by_cases h₂ : vote.map env.addressFromPublicKey = some b
    · simp only [h₁, h₂, if_true]
      omega
    · simp only [h₁, h₂, if_true, if_false]
      omega
  · by_cases h₂ : vote.map env.addressFromPublicKey = some b
    · simp only [h₁, h₂, if_true, if_false]
      omega
    · simp only [h₁, h₂, if_false]
      omega

theorem move_append (env : Services) (ps qs : List (Address × Int)) (L : Ledger) :
    L.move env (ps ++ qs) = (L.move env ps).move env qs := by
  unfold move
  rw [delegate_addVotes, delegate_post, post_append, followed_append, addVotes_append,
    addVotes_post]

/-- Moves commute. -/
theorem move_comm (env : Services) (ps qs : List (Address × Int)) (L : Ledger) :
    (L.move env ps).move env qs = (L.move env qs).move env ps := by
  funext a
  have hpost : ∀ (w : Account) (x y u v : Int),
      (((w.increaseBalance x).addVoteBalance u).increaseBalance y).addVoteBalance v =
        (((w.increaseBalance y).addVoteBalance v).increaseBalance x).addVoteBalance u := by
    intro w x y u v
    have hswap : ∀ (w : Account) (x y u v : Int),
        (((w.increaseBalance x).addVoteBalance u).increaseBalance y).addVoteBalance v =
          (w.increaseBalance (x + y)).addVoteBalance (u + v) := by
      intro w x y u v
      rw [← Account.addVoteBalance_add]
      ext1 <;> simp [Account.increaseBalance, Account.setBalance, Account.addVoteBalance,
        Account.setValidator, add_assoc]
    rw [hswap, hswap, add_comm x y, add_comm u v]
  exact hpost _ _ _ _ _

/-! ## 6. What a ledger promises -/

/-- Every validator has a username and a vote balance, and every vote is for a validator. -/
structure Consistent (env : Services) (L : Ledger) : Prop where
  username : ∀ a, (L a).isValidator = true → (L a).username.isSome = true
  voteBalance : ∀ a, (L a).isValidator = true → (L a).voteBalance?.isSome = true
  votes : ∀ a b, L.delegate env a = some b → (L b).isValidator = true

/-- **Every vote balance is the sum of the balances behind it**, counted over the accounts of
    `S`, for the validators that have a public key. -/
def Tallied (env : Services) (S : Finset Address) (L : Ledger) : Prop :=
  ∀ k, (L (env.addressFromPublicKey k)).isValidator = true →
    (L (env.addressFromPublicKey k)).voteBalance? = some
      (tally S (L.delegate env) (fun b => (L b).balance) (env.addressFromPublicKey k))

variable {env : Services} {S : Finset Address} {L : Ledger}

/-- Changes that touch neither votes nor what makes a validator keep the promise. -/
theorem Consistent.change (h : Consistent env L) {a : Address} {f : Account → Account}
    (hvote : (f (L a)).vote = (L a).vote) (hval : (f (L a)).isValidator = (L a).isValidator)
    (huser : (f (L a)).username = (L a).username)
    (hvb : (f (L a)).voteBalance? = (L a).voteBalance?) : Consistent env (L.change a f) := by
  have hsame : ∀ b, (L.change a f b).vote = (L b).vote ∧
      (L.change a f b).isValidator = (L b).isValidator ∧
      (L.change a f b).username = (L b).username ∧
      (L.change a f b).voteBalance? = (L b).voteBalance? := by
    intro b
    rw [change_apply]
    by_cases hb : b = a
    · subst hb
      rw [if_pos rfl]
      exact ⟨hvote, hval, huser, hvb⟩
    · rw [if_neg hb]
      exact ⟨rfl, rfl, rfl, rfl⟩
  refine ⟨fun b hb => ?_, fun b hb => ?_, fun b c hc => ?_⟩
  · rw [(hsame b).2.2.1]
    exact h.username b ((hsame b).2.1 ▸ hb)
  · rw [(hsame b).2.2.2]
    exact h.voteBalance b ((hsame b).2.1 ▸ hb)
  · rw [(hsame c).2.1]
    refine h.votes b c ?_
    unfold delegate at hc ⊢
    rwa [(hsame b).1] at hc

theorem Consistent.addVotes (h : Consistent env L) (ps : List (Address × Int)) :
    Consistent env (L.addVotes ps) := by
  refine ⟨fun a ha => ?_, fun a ha => ?_, fun a b hb => ?_⟩
  · rw [addVotes_isValidator] at ha
    rw [addVotes_username]
    exact h.username a ha
  · rw [addVotes_isValidator] at ha
    rw [addVotes_voteBalance?_isSome]
    exact h.voteBalance a ha
  · rw [addVotes_isValidator]
    exact h.votes a b hb

theorem Consistent.of_addVotes {ps : List (Address × Int)} (h : Consistent env (L.addVotes ps)) :
    Consistent env L := by
  refine ⟨fun a ha => ?_, fun a ha => ?_, fun a b hb => ?_⟩
  · rw [← addVotes_username ps]
    exact h.username a (by rwa [addVotes_isValidator])
  · rw [← addVotes_voteBalance?_isSome ps]
    exact h.voteBalance a (by rwa [addVotes_isValidator])
  · rw [← addVotes_isValidator ps]
    exact h.votes a b (by rwa [delegate_addVotes])

theorem Consistent.post (h : Consistent env L) (ps : List (Address × Int)) :
    Consistent env (L.post ps) :=
  ⟨h.username, h.voteBalance, h.votes⟩

theorem Consistent.move (h : Consistent env L) (ps : List (Address × Int)) :
    Consistent env (L.move env ps) :=
  (h.post ps).addVotes _

/-- Voting for a validator, or for nobody, keeps the promise. -/
theorem Consistent.redelegate (h : Consistent env L) (a : Address) {vote : Option PublicKey}
    (hv : ∀ k, vote = some k → (L (env.addressFromPublicKey k)).isValidator = true) :
    Consistent env (L.redelegate env a vote) := by
  refine Consistent.addVotes ⟨fun b hb => ?_, fun b hb => ?_, fun b c hc => ?_⟩ _
  · rw [change_apply] at hb ⊢
    by_cases hba : b = a
    · subst hba
      rw [if_pos rfl] at hb ⊢
      exact h.username b hb
    · rw [if_neg hba] at hb ⊢
      exact h.username b hb
  · rw [change_apply] at hb ⊢
    by_cases hba : b = a
    · subst hba
      rw [if_pos rfl] at hb ⊢
      exact h.voteBalance b hb
    · rw [if_neg hba] at hb ⊢
      exact h.voteBalance b hb
  · have hval : (L.change a (·.setVote vote) c).isValidator = (L c).isValidator := by
      rw [change_apply]
      split <;> rfl
    rw [hval]
    unfold delegate at hc
    rw [change_apply] at hc
    by_cases hba : b = a
    · rw [if_pos hba] at hc
      obtain ⟨k, hk, hkc⟩ := Option.map_eq_some_iff.1 hc
      rw [← hkc]
      exact hv k hk
    · rw [if_neg hba] at hc
      exact h.votes b c hc

/-! ## 7. Vote balances follow -/

theorem Tallied.move (h : Tallied env S L) {ps : List (Address × Int)} (hps : ∀ p ∈ ps, p.1 ∈ S) :
    Tallied env S (L.move env ps) := by
  intro k ha
  have h := h k
  generalize env.addressFromPublicKey k = a at h ha ⊢
  have hval : (L a).isValidator = true := by rwa [move_isValidator] at ha
  have hvb : (L.move env ps a).voteBalance? =
      (L a).voteBalance?.map (· + posted (followed (L.delegate env) ps) a) :=
    Account.addVoteBalance_voteBalance? _ _
  rw [hvb, h hval, Option.map_some]
  exact congrArg some (tally_posted hps (L.delegate env) (fun b => (L b).balance) a).symm

theorem Tallied.redelegate (h : Tallied env S L) {a : Address} (ha : a ∈ S)
    (vote : Option PublicKey) : Tallied env S (L.redelegate env a vote) := by
  intro k hb
  have h := h k
  generalize env.addressFromPublicKey k = b at h hb ⊢
  have hval : (L b).isValidator = true := by
    have hchange : (L.change a (·.setVote vote) b).isValidator = (L b).isValidator := by
      rw [change_apply]
      split <;> rfl
    rw [← hchange]
    rwa [Ledger.redelegate, addVotes_isValidator] at hb
  have hvb : (L.redelegate env a vote b).voteBalance? = (L b).voteBalance?.map
      (· + posted (shift (L.delegate env a) (vote.map env.addressFromPublicKey)
        (L a).balance) b) := by
    refine (Account.addVoteBalance_voteBalance? _ _).trans ?_
    rw [change_apply]
    split <;> rfl
  have hbal : (fun c => (L.redelegate env a vote c).balance) = fun c => (L c).balance :=
    funext fun c => redelegate_balance env a vote L c
  rw [hvb, h hval, redelegate_delegate, hbal, Option.map_some, tally_update ha, posted_shift]
  congr 1
  omega

/-- Changes that touch neither balances, nor votes, nor vote balances keep the equation. -/
theorem Tallied.change (h : Tallied env S L) {a : Address} {f : Account → Account}
    (hbal : (f (L a)).balance = (L a).balance) (hvote : (f (L a)).vote = (L a).vote)
    (hval : (f (L a)).isValidator = (L a).isValidator)
    (hvb : (f (L a)).voteBalance? = (L a).voteBalance?) : Tallied env S (L.change a f) := by
  have hsame : ∀ b, (L.change a f b).balance = (L b).balance ∧
      (L.change a f b).vote = (L b).vote ∧
      (L.change a f b).isValidator = (L b).isValidator ∧
      (L.change a f b).voteBalance? = (L b).voteBalance? := by
    intro b
    rw [change_apply]
    by_cases hb : b = a
    · subst hb
      rw [if_pos rfl]
      exact ⟨hbal, hvote, hval, hvb⟩
    · rw [if_neg hb]
      exact ⟨rfl, rfl, rfl, rfl⟩
  intro k hb
  have h := h k
  generalize env.addressFromPublicKey k = b at h hb ⊢
  have hdel : (L.change a f).delegate env = L.delegate env := by
    funext c
    unfold delegate
    rw [(hsame c).2.1]
  have hbals : (fun c => (L.change a f c).balance) = fun c => (L c).balance :=
    funext fun c => (hsame c).1
  rw [(hsame b).2.2.2, hdel, hbals]
  exact h ((hsame b).2.2.1 ▸ hb)

end Ledger

/-! ## 8. The repository stands for a ledger and its names -/

/-- The accounts and the names of a repository. -/
abbrev Books : Type := Ledger × Names

/-- The repository is sound and has these accounts and names. -/
def Stands (env : Services) (b : Books) (r : WalletRepository) : Prop := Rep env r b.1 b.2

namespace WalletRepository

variable {env : Services} {L : Ledger} {N : Names}

theorem account_always (a : Address) :
    Prog.Always (Stands env) (L, N) (account a) (fun w => w = L a) (L, N) :=
  fun _ h => (account_spec h a).mono (fun _ _ hq => ⟨hq.2 ▸ h, hq.1⟩) fun _ _ he => he

theorem wallet_always (a : Address) :
    Prog.Always (Stands env) (L, N) (Prog.gets fun r => r.wallet a : RepositoryProg Wallet)
      (fun w => w.toAccount = L a) (L, N) :=
  Prog.Always.gets fun _ h => congrFun h.accounts a

theorem hasByUsername_always (u : String) :
    Prog.Always (Stands env) (L, N) (Prog.gets fun r => r.hasByUsername u : RepositoryProg Bool)
      (fun b => b = (N.usernames u).isSome) (L, N) := by
  refine Prog.Always.gets fun r h => ?_
  have hN : r.usernames.get = N.usernames := congrArg Names.usernames h.names
  rw [← hN]
  rfl

/-- Reading something the books do not show. -/
theorem gets_always {α : Type} (f : WalletRepository → α) :
    Prog.Always (Stands env) (L, N) (Prog.gets f : RepositoryProg α) (fun _ => True) (L, N) :=
  Prog.Always.gets fun _ _ => trivial

theorem update_always (a : Address) (f : Account → Account) :
    Prog.Always (Stands env) (L, N) (update a f) (fun _ => True) (L.change a f, N) :=
  fun _ h => ⟨rep_update h a f, trivial⟩

theorem findByAddress_always (a : Address) :
    Prog.Always (Stands env) (L, N) (findByAddress a) (fun b => b = a) (L, N) :=
  fun _ h => (findByAddress_spec h a).mono (fun _ _ hq => ⟨hq.2.1, hq.1⟩) fun _ _ he => he

theorem findByPublicKey_always (k : PublicKey) :
    Prog.Always (Stands env) (L, N) (findByPublicKey env k)
      (fun a => a = env.addressFromPublicKey k) (L, N) :=
  fun _ h => (findByPublicKey_spec h k).mono (fun _ _ hq => ⟨hq.2.1, hq.1⟩) fun _ _ he => he

theorem index_always {a : Address}
    (hu : (L a).isValidator = true → (L a).username.isSome = true) :
    Prog.Always (Stands env) (L, N) (index a) (fun _ => True) (L, N.reindex a (L a)) :=
  fun _ h => (index_spec h hu).mono (fun _ _ hq => ⟨hq, trivial⟩) fun _ _ he => he

end WalletRepository

theorem assertDefined_atomic {σ α β : Type} {R : β → σ → Prop} {b : β} (o : Option α) :
    Prog.Atomic R b (assertDefined o : Prog σ Exception α) (fun a => o = some a) b := by
  cases o with
  | none => exact Prog.Atomic.throw
  | some a =>
    have h : Prog.Always R b (pure a : Prog σ Exception α) (fun a' => some a = some a') b :=
      Prog.Always.pure rfl
    exact h.atomic

/-- An assertion on something that is there. -/
theorem assertDefined_evaluates {σ α β : Type} {R : β → σ → Prop} {b : β} (o : Option α) :
    Prog.Evaluates R b (assertDefined o : Prog σ Exception α) o := by
  cases o with
  | none => exact Prog.Evaluates.throw _
  | some a => exact Prog.Evaluates.pure a

theorem assertDefined_some {σ α β : Type} {R : β → σ → Prop} {b : β} {o : Option α} {a : α}
    (h : o = some a) :
    Prog.Always R b (assertDefined o : Prog σ Exception α) (fun a' => a' = a) b := by
  subst h
  exact Prog.Always.pure rfl

end CoreEx
