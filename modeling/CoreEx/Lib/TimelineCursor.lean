/-
  File:      CoreEx/Lib/TimelineCursor.lean
  Subject:   A pointer into a list of settings that is moved to the one in force.

  The pointer keeps its place between two look-ups. It is first moved forward over everything that
  has begun, then back over what has not. Whether a step stays inside the list is checked at every
  step, so that leaving it is an outcome of its own. Nothing here names the system under
  verification.

  * `Pointer`, `advance`, `retreat`, `moveTo` -- the pointer and its two loops;
  * `Pointer.At` -- it points at an entry and has that entry;
  * `advance_spec`, `retreat_spec` -- one loop;
  * **`moveTo_inForce`** -- wherever it points, it gets to the entry in force.
-/
import CoreEx.Lib.Timeline

namespace CoreEx

namespace Timeline

/-- A place in a list, and the entry that was there when the pointer came. -/
structure Pointer (α : Type) where
  index : Int
  data : Option α
  deriving DecidableEq, Repr

section

variable {α : Type}

/-- Forward over the entries that have begun; `rest` is what comes after the pointer. -/
def advance (start : α → Nat) (x : Nat) (p : Pointer α) : List α → Pointer α
  | [] => p
  | next :: rest => if start next ≤ x then advance start x ⟨p.index + 1, some next⟩ rest else p

/-- Back over the entries that have not begun; an error is a pointer outside the list. -/
def retreat (start : α → Nat) (l : List α) (x : Nat) :
    Nat → Option α → Except (Pointer α) (Pointer α)
  | 0, data =>
    match l[0]? with
    | none => .error ⟨0, data⟩
    | some a => if x < start a then .error ⟨-1, none⟩ else .ok ⟨0, data⟩
  | i + 1, data =>
    match l[i + 1]? with
    | none => .error ⟨i + 1, data⟩
    | some a => if x < start a then retreat start l x i l[i]? else .ok ⟨i + 1, data⟩

/-- Both loops. -/
def moveTo (start : α → Nat) (l : List α) (x : Nat) (p : Pointer α) :
    Except (Pointer α) (Pointer α) :=
  let p' := advance start x p (l.drop (p.index + 1).toNat)
  match p'.index with
  | .ofNat i => retreat start l x i p'.data
  | .negSucc _ => .error p'

/-- The pointer has the entry it points at. -/
structure Pointer.At (l : List α) (p : Pointer α) (i : Nat) (a : α) : Prop where
  index : p.index = i
  entry : l[i]? = some a
  data : p.data = some a

end

variable {α : Type} {start : α → Nat} {l : List α} {x : Nat}

/-- Forward: everything after the new place has not begun. -/
theorem advance_spec (hsorted : l.Pairwise (start · ≤ start ·)) (rest : List α) :
    ∀ {p : Pointer α} {i : Nat} {a : α}, p.At l i a → rest = l.drop (i + 1) →
      ∃ j b, (advance start x p rest).At l j b ∧ ∀ c ∈ l.drop (j + 1), x < start c := by
  induction rest with
  | nil =>
    intro p i a hp hrest
    refine ⟨i, a, hp, fun c hc => ?_⟩
    rw [← hrest] at hc
    cases hc
  | cons next rest ih =>
    intro p i a hp hrest
    have hnext : l[i + 1]? = some next := by
      have h := congrArg List.head? hrest
      rw [List.head?_drop] at h
      exact h.symm
    unfold advance
    by_cases hbegun : start next ≤ x
    · rw [if_pos hbegun]
      have hp' : Pointer.At l ⟨p.index + 1, some next⟩ (i + 1) next :=
        ⟨by rw [hp.index]; rfl, hnext, rfl⟩
      refine ih hp' ?_
      have h := congrArg List.tail hrest
      rw [List.tail_drop] at h
      exact h
    · rw [if_neg hbegun]
      refine ⟨i, a, hp, fun c hc => ?_⟩
      have hpairwise := hsorted.sublist (List.drop_sublist (i + 1) l)
      rw [← hrest] at hc hpairwise
      rcases List.mem_cons.1 hc with rfl | hc
      · omega
      · have := (List.pairwise_cons.1 hpairwise).1 c hc
        omega

/-- Back: to the last entry that has begun, if the first one has. -/
theorem retreat_spec (hfirst : ∃ a, l[0]? = some a ∧ start a ≤ x) :
    ∀ {i : Nat} {a : α}, l[i]? = some a → (∀ c ∈ l.drop (i + 1), x < start c) →
      ∃ j b p, retreat start l x i (some a) = .ok p ∧ p.At l j b ∧ InForce start l x b := by
  have hhere : ∀ {i : Nat} {a : α}, l[i]? = some a → start a ≤ x →
      (∀ c ∈ l.drop (i + 1), x < start c) → InForce start l x a := by
    intro i a ha hbegun hlater
    obtain ⟨hi, hget⟩ := List.getElem?_eq_some_iff.1 ha
    refine ⟨l.take i, l.drop (i + 1), ?_, hbegun, hlater⟩
    rw [← hget, List.getElem_cons_drop, List.take_append_drop]
  intro i
  induction i with
  | zero =>
    intro a ha hlater
    obtain ⟨first, hget, hbegun⟩ := hfirst
    obtain rfl := Option.some.inj (hget.symm.trans ha)
    unfold retreat
    rw [ha]
    dsimp only
    rw [if_neg (by omega)]
    exact ⟨0, first, _, rfl, ⟨rfl, ha, rfl⟩, hhere ha hbegun hlater⟩
  | succ i ih =>
    intro a ha hlater
    unfold retreat
    rw [ha]
    dsimp only
    by_cases hx : x < start a
    · obtain ⟨hi, hget⟩ := List.getElem?_eq_some_iff.1 ha
      have hprevious : l[i]? = some l[i] := List.getElem?_eq_getElem (by omega)
      rw [if_pos hx, hprevious]
      refine ih hprevious fun c hc => ?_
      rw [List.drop_eq_getElem_cons hi, hget] at hc
      rcases List.mem_cons.1 hc with rfl | hc
      · exact hx
      · exact hlater c hc
    · rw [if_neg hx]
      exact ⟨i + 1, a, _, rfl, ⟨rfl, ha, rfl⟩, hhere ha (by omega) hlater⟩

/-- **Wherever it points, the pointer gets to the entry in force**, and does not leave the list. -/
theorem moveTo_inForce (hsorted : l.Pairwise (start · ≤ start ·))
    (hfirst : ∃ a, l[0]? = some a ∧ start a ≤ x) {p : Pointer α} {i : Nat} {a : α}
    (hp : p.At l i a) :
    ∃ j b p', moveTo start l x p = .ok p' ∧ p'.At l j b ∧ InForce start l x b := by
  have hindex : (p.index + 1).toNat = i + 1 := by
    have := hp.index
    omega
  obtain ⟨j, b, hat, hlater⟩ := advance_spec hsorted _ hp rfl
  unfold moveTo
  rw [hindex]
  generalize advance start x p (l.drop (i + 1)) = p' at hat ⊢
  obtain ⟨index, data⟩ := p'
  obtain rfl : index = (j : Int) := hat.index
  obtain rfl : data = some b := hat.data
  exact retreat_spec hfirst hat.entry hlater

end Timeline

end CoreEx
