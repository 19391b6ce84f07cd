/-
  File:      CoreEx/Lib/Double.lean
  Subject:   Numbers with fractions, infinities and `NaN`.

  Sums are exact; a comparison with `NaN` is false, and a sum with `NaN` is `NaN`. Nothing here names
  the system under verification.

  * `Double` -- a rational number, an infinity, or `NaN`; sums, negatives, `lt`;
  * `Double.trunc` -- the number without its fraction;
  * `Double.index?` -- the number as a position;
  * `lt_rat`, `rat_add`, `index?_eq_some` -- what they come to.
-/
import Mathlib.Algebra.Order.Ring.Rat
import Mathlib.Data.Rat.Floor
import Mathlib.Tactic.Common

namespace CoreEx

/-- A number. -/
inductive Double
  | rat (q : ℚ)
  | inf
  | negInf
  | nan
  deriving DecidableEq

namespace Double

/-- `a + b`. -/
def add : Double → Double → Double
  | rat p, rat q => rat (p + q)
  | nan, _ => nan
  | _, nan => nan
  | inf, negInf => nan
  | negInf, inf => nan
  | inf, _ => inf
  | _, inf => inf
  | negInf, _ => negInf
  | _, negInf => negInf

/-- `-a`. -/
def neg : Double → Double
  | rat q => rat (-q)
  | inf => negInf
  | negInf => inf
  | nan => nan

instance : Add Double := ⟨add⟩

instance : Neg Double := ⟨neg⟩

instance : Sub Double := ⟨fun a b => a + -b⟩

/-- An integer. -/
def ofInt (n : Int) : Double := rat n

/-- `a < b`. -/
def lt : Double → Double → Bool
  | rat p, rat q => p < q
  | rat _, inf => true
  | negInf, rat _ => true
  | negInf, inf => true
  | _, _ => false

/-- `Math.trunc` of a number that is one. -/
def trunc (q : ℚ) : Int := if 0 ≤ q then q.floor else q.ceil

/-- The number as a position below `n`; there is none at a fraction. -/
def index? (n : Nat) : Double → Option Nat
  | rat q => if q.den = 1 ∧ 0 ≤ q.num ∧ q.num < n then some q.num.toNat else none
  | _ => none

@[simp] theorem rat_add (p q : ℚ) : rat p + rat q = rat (p + q) := rfl

@[simp] theorem rat_neg (q : ℚ) : -rat q = rat (-q) := rfl

@[simp] theorem rat_sub (p q : ℚ) : rat p - rat q = rat (p - q) := by
  show rat (p + -q) = _
  rw [sub_eq_add_neg]

@[simp] theorem lt_rat (p q : ℚ) : lt (rat p) (rat q) = decide (p < q) := rfl

/-- **Only an integer is a position.** -/
theorem index?_eq_some {n i : Nat} {a : Double} (h : a.index? n = some i) :
    a = rat i ∧ i < n := by
  cases a with
  | rat q =>
    unfold index? at h
    dsimp only at h
    split at h
    · rename_i hq
      obtain ⟨hden, hpos, hlt⟩ := hq
      have hi : q.num.toNat = i := Option.some.inj h
      have hnum : q.num = (i : Int) := by omega
      have hq : q = (i : ℚ) := by
        rw [← (Rat.den_eq_one_iff q).1 hden, hnum]
        rfl
      exact ⟨congrArg rat hq, by omega⟩
    · cases h
  | inf => cases h
  | negInf => cases h
  | nan => cases h

theorem index?_natCast {n i : Nat} (h : i < n) : (rat i).index? n = some i := by
  unfold index?
  dsimp only
  rw [if_pos]
  · rw [Rat.num_natCast, Int.toNat_natCast]
  · rw [Rat.den_natCast, Rat.num_natCast]
    exact ⟨rfl, by omega, by omega⟩

theorem trunc_natCast (n : Nat) : trunc (n : ℚ) = n := by
  unfold trunc
  rw [if_pos (Nat.cast_nonneg n)]
  have hfloor : ⌊(n : ℚ)⌋ = (n : Int) := Int.floor_natCast n
  exact hfloor

end Double

end CoreEx
