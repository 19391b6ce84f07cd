/-
  File:      CoreEx/Lib/Postings.lean
  Subject:   Postings to accounts, and tallies of the accounts that follow a delegate.

  A posting adds an amount to one account. A list of them may name an account several times, and
  the order does not matter: what counts is the total `posted` to each account. Accounts may
  delegate; the `tally` of a delegate is the sum of the balances of the accounts behind it. The
  two laws here say how a tally moves: with the postings that its followers receive
  (`tally_posted`), and by the whole balance of an account that changes its delegate
  (`tally_update`). Nothing here names the system under verification.

  * `posted`, `negated` -- totals of a list of postings, and the list that takes it back;
  * `sum_posted` -- the sum over all accounts moves by the sum of the postings;
  * `tally`, `followed` -- tallies, and the postings to delegates that follow from postings;
  * **`tally_posted`**, **`tally_update`** -- the two laws; `posted_followed_update` -- postings
    before and after a change of delegate.
-/
import Mathlib.Algebra.BigOperators.Group.Finset.Basic
import Mathlib.Algebra.BigOperators.Group.Finset.Piecewise
import Mathlib.Algebra.Order.BigOperators.Group.List
import Mathlib.Tactic.Abel

namespace CoreEx

/-! ## 1. Postings -/

section Postings

variable {α M : Type} [DecidableEq α] [AddCommGroup M]

/-- What a list of postings adds to an account in total. -/
def posted (ps : List (α × M)) (a : α) : M :=
  match ps with
  | [] => 0
  | p :: ps => (if p.1 = a then p.2 else 0) + posted ps a

/-- The postings with the opposite amounts. -/
def negated (ps : List (α × M)) : List (α × M) := ps.map fun p => (p.1, -p.2)

@[simp] theorem posted_nil (a : α) : posted ([] : List (α × M)) a = 0 := rfl

theorem posted_cons (p : α × M) (ps : List (α × M)) (a : α) :
    posted (p :: ps) a = (if p.1 = a then p.2 else 0) + posted ps a := rfl

theorem posted_append (ps qs : List (α × M)) (a : α) :
    posted (ps ++ qs) a = posted ps a + posted qs a := by
  induction ps with
  | nil => simp
  | cons p ps ih => rw [List.cons_append, posted_cons, posted_cons, ih, add_assoc]

theorem posted_negated (ps : List (α × M)) (a : α) : posted (negated ps) a = -posted ps a := by
  induction ps with
  | nil => simp [negated]
  | cons p ps ih =>
    have hcons : negated (p :: ps) = (p.1, -p.2) :: negated ps := rfl
    rw [hcons, posted_cons, posted_cons, ih, neg_add]
    by_cases h : p.1 = a <;> simp [h]

theorem posted_of_notMem {ps : List (α × M)} {a : α} (h : ∀ p ∈ ps, p.1 ≠ a) :
    posted ps a = 0 := by
  induction ps with
  | nil => rfl
  | cons p ps ih =>
    have hp : p.1 ≠ a := h p List.mem_cons_self
    rw [posted_cons, if_neg hp, zero_add]
    exact ih fun q hq => h q (List.mem_cons_of_mem _ hq)

/-- Postings of nothing. -/
theorem posted_of_zero {ps : List (α × M)} (h : ∀ p ∈ ps, p.2 = 0) (a : α) : posted ps a = 0 := by
  induction ps with
  | nil => rfl
  | cons p ps ih =>
    have hp : p.2 = 0 := h p List.mem_cons_self
    rw [posted_cons, hp, ite_self, zero_add]
    exact ih fun q hq => h q (List.mem_cons_of_mem _ hq)

/-- The sum over the accounts moves by the sum of the postings. -/
theorem sum_posted {S : Finset α} {ps : List (α × M)} (h : ∀ p ∈ ps, p.1 ∈ S) :
    ∑ a ∈ S, posted ps a = (ps.map Prod.snd).sum := by
  induction ps with
  | nil => simp
  | cons p ps ih =>
    have hp : p.1 ∈ S := h p List.mem_cons_self
    have hone : ∑ a ∈ S, (if p.1 = a then p.2 else 0) = p.2 := by
      rw [Finset.sum_ite_eq, if_pos hp]
    simp only [posted_cons, Finset.sum_add_distrib, hone, List.map_cons, List.sum_cons]
    rw [ih fun q hq => h q (List.mem_cons_of_mem _ hq)]

end Postings

/-! ## 2. Tallies -/

section Tallies

variable {α δ M : Type}

/-- The postings to delegates that follow from postings to accounts. -/
def followed (delegate : α → Option δ) (ps : List (α × M)) : List (δ × M) :=
  ps.filterMap fun p => (delegate p.1).map fun d => (d, p.2)

theorem followed_append (delegate : α → Option δ) (ps qs : List (α × M)) :
    followed delegate (ps ++ qs) = followed delegate ps ++ followed delegate qs :=
  List.filterMap_append

variable [AddCommGroup M]

theorem followed_negated (delegate : α → Option δ) (ps : List (α × M)) :
    followed delegate (negated ps) = negated (followed delegate ps) := by
  induction ps with
  | nil => rfl
  | cons p ps ih =>
    have hcons : negated (p :: ps) = (p.1, -p.2) :: negated ps := rfl
    unfold followed at ih ⊢
    rw [hcons, List.filterMap_cons, List.filterMap_cons]
    cases h : delegate p.1 with
    | none => simpa using ih
    | some e =>
      simp only [Option.map_some, ih]
      rfl

variable [DecidableEq δ]

/-- The sum of the balances, over the accounts of `S`, that stand behind the delegate `d`. -/
def tally (S : Finset α) (delegate : α → Option δ) (balance : α → M) (d : δ) : M :=
  ∑ a ∈ S, if delegate a = some d then balance a else 0

theorem posted_followed_cons (delegate : α → Option δ) (p : α × M) (ps : List (α × M)) (d : δ) :
    posted (followed delegate (p :: ps)) d =
      (if delegate p.1 = some d then p.2 else 0) + posted (followed delegate ps) d := by
  cases h : delegate p.1 with
  | none => simp [followed, h]
  | some e =>
    have hcons : followed delegate (p :: ps) = (e, p.2) :: followed delegate ps := by
      simp [followed, h]
    rw [hcons, posted_cons]
    by_cases he : e = d <;> simp [he]

/-- Accounts with nothing in them add nothing, so a tally does not depend on which of them are
    counted. -/
theorem tally_subset {S T : Finset α} (hST : S ⊆ T) {delegate : α → Option δ} {balance : α → M}
    (h : ∀ a ∈ T, a ∉ S → balance a = 0) (d : δ) :
    tally S delegate balance d = tally T delegate balance d := by
  refine Finset.sum_subset hST fun a ha hna => ?_
  simp [h a ha hna]

/-- Nobody behind a delegate: its tally is zero. -/
theorem tally_eq_zero {S : Finset α} {delegate : α → Option δ} {balance : α → M} {d : δ}
    (h : ∀ a, delegate a ≠ some d) : tally S delegate balance d = 0 :=
  Finset.sum_eq_zero fun a _ => if_neg (h a)

variable [DecidableEq α]

/-- **A tally moves with the postings its followers receive.** -/
theorem tally_posted {S : Finset α} {ps : List (α × M)} (h : ∀ p ∈ ps, p.1 ∈ S)
    (delegate : α → Option δ) (balance : α → M) (d : δ) :
    tally S delegate (fun a => balance a + posted ps a) d =
      tally S delegate balance d + posted (followed delegate ps) d := by
  induction ps with
  | nil => simp [followed]
  | cons p ps ih =>
    have hp : p.1 ∈ S := h p List.mem_cons_self
    have ih := ih fun q hq => h q (List.mem_cons_of_mem _ hq)
    have hsplit : tally S delegate (fun a => balance a + posted (p :: ps) a) d =
        tally S delegate (fun a => balance a + posted ps a) d +
          ∑ a ∈ S, if p.1 = a then (if delegate a = some d then p.2 else 0) else 0 := by
      unfold tally
      rw [← Finset.sum_add_distrib]
      refine Finset.sum_congr rfl fun a _ => ?_
      simp only [posted_cons]
      by_cases hd : delegate a = some d
      · by_cases ha : p.1 = a
        · simp only [hd, ha, if_true]
          abel
        · simp [hd, ha]
      · simp [hd]
    rw [hsplit, ih, Finset.sum_ite_eq, if_pos hp, posted_followed_cons]
    abel

/-- Postings after an account has changed its delegate: its own go to the new one. -/
theorem posted_followed_update (delegate : α → Option δ) (x : α) (e : Option δ)
    (ps : List (α × M)) (d : δ) :
    posted (followed (Function.update delegate x e) ps) d =
      posted (followed delegate ps) d - (if delegate x = some d then posted ps x else 0) +
        (if e = some d then posted ps x else 0) := by
  induction ps with
  | nil => simp [followed]
  | cons p ps ih =>
    rw [posted_followed_cons, posted_followed_cons, ih, posted_cons]
    by_cases hp : p.1 = x
    · rw [hp, Function.update_self, if_pos rfl]
      by_cases h₁ : delegate x = some d
      · by_cases h₂ : e = some d
        · simp only [h₁, h₂, if_true]
          abel
        · simp only [h₁, h₂, if_true, if_false]
          abel
      · by_cases h₂ : e = some d
        · simp only [h₁, h₂, if_true, if_false]
          abel
        · simp only [h₁, h₂, if_false]
          abel
    · rw [Function.update_of_ne hp, if_neg hp, zero_add]
      abel

/-- **A tally moves by the whole balance of an account that changes its delegate.** -/
theorem tally_update {S : Finset α} {x : α} (hx : x ∈ S) (delegate : α → Option δ)
    (balance : α → M) (e : Option δ) (d : δ) :
    tally S (Function.update delegate x e) balance d =
      tally S delegate balance d - (if delegate x = some d then balance x else 0) +
        (if e = some d then balance x else 0) := by
  unfold tally
  rw [← Finset.add_sum_erase S _ hx, ← Finset.add_sum_erase S
    (fun a => if delegate a = some d then balance a else 0) hx]
  have hrest : ∑ a ∈ S.erase x,
      (if Function.update delegate x e a = some d then balance a else 0) =
      ∑ a ∈ S.erase x, if delegate a = some d then balance a else 0 := by
    refine Finset.sum_congr rfl fun a ha => ?_
    rw [Function.update_of_ne (Finset.ne_of_mem_erase ha)]
  rw [hrest, Function.update_self]
  abel

end Tallies

end CoreEx
