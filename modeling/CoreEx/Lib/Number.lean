/-
  File:      CoreEx/Lib/Number.lean
  Subject:   The integers of a language whose numbers include `NaN`.

  An operation on something that is no number gives `NaN`, and from there it is `NaN` to the end:
  every operation on it gives it back, and every comparison with it is false. Used as an index it
  names no element. Nothing here names the system under verification.

  * `Number` -- an integer or `NaN`; sums, differences, `floorDiv`, `rem`, `lt`, `min`;
  * `Number.index`, `Number.range` -- the element of a list at a number, and the passes of a loop
    that counts up to it;
  * `Promise.toNumber` -- what arithmetic makes of a promise;
  * **`Number.index_rem`** -- a remainder as an index, for a dividend of either sign.
-/
import CoreEx.Lib.Promise
import Mathlib.Tactic.Common
import Mathlib.Data.Int.Order.Basic
import Mathlib.Algebra.Order.Group.Int

namespace CoreEx

/-- An integer, or `NaN`. -/
inductive Number where
  | int (n : Int)
  | nan
  deriving DecidableEq, Repr

namespace Number

variable {α : Type}

/-- Apply an operation of the integers; `NaN` stays `NaN`. -/
def lift₂ (f : Int → Int → Number) : Number → Number → Number
  | int m, int n => f m n
  | _, _ => nan

instance : Add Number := ⟨lift₂ fun m n => int (m + n)⟩

instance : Sub Number := ⟨lift₂ fun m n => int (m - n)⟩

instance : Mul Number := ⟨lift₂ fun m n => int (m * n)⟩

/-- `Math.floor(a / b)`; a division by zero has no integer. -/
def floorDiv : Number → Number → Number :=
  lift₂ fun m n => if n = 0 then nan else int (m.fdiv n)

/-- `a % b`: the remainder has the sign of `a`. -/
def rem : Number → Number → Number := lift₂ fun m n => if n = 0 then nan else int (m.tmod n)

/-- `a < b`. -/
def lt : Number → Number → Bool
  | int m, int n => m < n
  | _, _ => false

/-- `Math.min(a, b)`. -/
def min : Number → Number → Number := lift₂ fun m n => int (Min.min m n)

/-- The values of `i` in `for (let i = 0; i < n; i++)`. -/
def range : Number → List Nat
  | int n => List.range n.toNat
  | nan => []

/-- `values[n]`; `none` is `undefined`. -/
def index (values : List α) : Number → Option α
  | int (Int.ofNat n) => values[n]?
  | _ => none

@[simp] theorem int_add (m n : Int) : int m + int n = int (m + n) := rfl

@[simp] theorem int_sub (m n : Int) : int m - int n = int (m - n) := rfl

@[simp] theorem int_mul (m n : Int) : int m * int n = int (m * n) := rfl

@[simp] theorem nan_add (a : Number) : nan + a = nan := rfl

@[simp] theorem add_nan (a : Number) : a + nan = nan := by cases a <;> rfl

@[simp] theorem nan_sub (a : Number) : nan - a = nan := rfl

@[simp] theorem sub_nan (a : Number) : a - nan = nan := by cases a <;> rfl

@[simp] theorem floorDiv_nan (b : Number) : floorDiv nan b = nan := rfl

@[simp] theorem rem_nan (b : Number) : rem nan b = nan := rfl

theorem floorDiv_int (m : Int) {n : Int} (hn : n ≠ 0) :
    floorDiv (int m) (int n) = int (m.fdiv n) := by
  show (if n = 0 then nan else int (m.fdiv n)) = _
  rw [if_neg hn]

theorem rem_int (m : Int) {n : Int} (hn : n ≠ 0) : rem (int m) (int n) = int (m.tmod n) := by
  show (if n = 0 then nan else int (m.tmod n)) = _
  rw [if_neg hn]

@[simp] theorem index_nan (values : List α) : index values nan = none := rfl

/-- A natural number as an index. -/
theorem index_natCast (values : List α) (n : Nat) : index values (int n) = values[n]? := rfl

/-- Below zero there is nothing. -/
theorem index_neg (values : List α) {n : Int} (hn : n < 0) : index values (int n) = none := by
  cases n with
  | ofNat n => exact absurd hn (by simp)
  | negSucc n => rfl

/-- **The remainder as an index** reaches the element the euclidean remainder names, except for
    negative dividends that the divisor does not divide: those reach nothing. -/
theorem index_rem (values : List α) (m : Int) {n : Nat} (hn : n ≠ 0) :
    index values (rem (int m) (int n)) =
      if m < 0 ∧ m % n ≠ 0 then none else values[(m % n).toNat]? := by
  have hn' : (n : Int) ≠ 0 := by omega
  rw [rem_int m hn']
  by_cases hm : 0 ≤ m
  · have hmod : 0 ≤ m % (n : Int) := Int.emod_nonneg m hn'
    rw [if_neg (by omega), Int.tmod_eq_emod_of_nonneg hm]
    conv_lhs => rw [← Int.toNat_of_nonneg hmod]
    exact index_natCast values _
  · have hneg : m < 0 := by omega
    by_cases hdvd : m % (n : Int) = 0
    · have hzero : m.tmod n = 0 := Int.tmod_eq_zero_of_dvd (Int.dvd_of_emod_eq_zero hdvd)
      rw [if_neg (by simp [hdvd]), hzero, hdvd]
      rfl
    · rw [if_pos ⟨hneg, hdvd⟩]
      refine index_neg values ?_
      have hle : 0 ≤ (-m).tmod n := Int.tmod_nonneg (n : Int) (by omega)
      rw [Int.neg_tmod] at hle
      have hne : m.tmod n ≠ 0 := fun hzero =>
        hdvd (Int.emod_eq_zero_of_dvd (Int.dvd_of_tmod_eq_zero hzero))
      omega

end Number

/-- A promise in an arithmetic expression: an object, and no number. -/
def Promise.toNumber {ε α : Type} (_ : Promise ε α) : Number := .nan

end CoreEx
