import Mathlib.Algebra.Group.Int.Defs
import Mathlib.Algebra.Group.Nat.Defs
import Mathlib.Tactic.Common
/-!
# C integers

Values are unbounded `Int`s; a conversion to a 32-bit type is explicit, and the
lemmas here drop it where the value fits. Division and remainder of signed
numbers round to zero (`Int.tdiv`, `Int.tmod`); the usual correction of a
negative remainder turns them into the floored ones.
-/

namespace NodeLib

/-- `(int)x`. -/
def toInt32 (x : Int) : Int := Int.bmod x (2 ^ 32)

/-- `(uint32_t)x`. -/
def toUInt32 (x : Int) : Int := x % 2 ^ 32

theorem toInt32_of_fits {x : Int} (h : -2147483648 ≤ x) (h' : x < 2147483648) : toInt32 x = x :=
  Int.bmod_eq_of_le (by omega) (by omega)

theorem toUInt32_of_fits {x : Int} (h : 0 ≤ x) (h' : x < 4294967296) : toUInt32 x = x :=
  Int.emod_eq_of_lt h (by omega)

/-- A negative remainder moved up by one divisor is the floored remainder. -/
theorem tmod_corrected (t : Int) {n : Int} (hn : 0 < n) :
    (if t.tmod n < 0 then t.tmod n + n else t.tmod n) = t % n := by
  have h0 := Int.emod_nonneg t (Int.ne_of_gt hn)
  have h1 := Int.emod_lt_of_pos t hn
  rw [Int.tmod_eq_emod]
  by_cases h : 0 ≤ t ∨ n ∣ t
  · rw [if_pos h]; simp; omega
  · rw [if_neg h]
    have h2 : t % n ≠ 0 := fun he => h (.inr (Int.dvd_of_emod_eq_zero he))
    omega

/-- The quotient that goes with `tmod_corrected`. -/
theorem tdiv_corrected (t : Int) {n : Int} (hn : 0 < n) :
    (if t.tmod n < 0 then t.tdiv n - 1 else t.tdiv n) = t / n := by
  have h0 := Int.emod_nonneg t (Int.ne_of_gt hn)
  have h1 := Int.emod_lt_of_pos t hn
  rw [Int.tmod_eq_emod, Int.tdiv_eq_ediv]
  by_cases h : 0 ≤ t ∨ n ∣ t
  · rw [if_pos h, if_pos h]; simp; omega
  · rw [if_neg h, if_neg h, Int.sign_eq_one_of_pos hn]
    have h2 : t % n ≠ 0 := fun he => h (.inr (Int.dvd_of_emod_eq_zero he))
    rw [if_pos (by omega)]; omega

/-- Rounding to zero after moving a negative number down is rounding down. -/
theorem tdiv_shifted (t : Int) {n : Int} (hn : 0 < n) :
    (if t ≥ 0 then t else t - (n - 1)).tdiv n = t / n := by
  split
  · next h => exact Int.tdiv_eq_ediv_of_nonneg h
  · next h =>
    have h0 := Int.emod_nonneg t (Int.ne_of_gt hn)
    have h1 := Int.emod_lt_of_pos t hn
    have hdiv := Int.mul_ediv_add_emod t n
    have e : -(t - (n - 1)) = (n - 1 - t % n) + n * -(t / n) := by rw [Int.mul_neg]; omega
    rw [← Int.neg_neg (t - (n - 1)), Int.neg_tdiv, Int.tdiv_eq_ediv_of_nonneg (by omega), e,
      Int.add_mul_ediv_left _ _ (Int.ne_of_gt hn), Int.ediv_eq_zero_of_lt (by omega) (by omega)]
    omega

/-! ## Operations that may overflow -/

/-- The value of an `int` operation or conversion, unless it overflows. -/
def intOp (x : Int) : Option Int := if -2147483648 ≤ x ∧ x < 2147483648 then some x else none

/-- The value of a `uint32_t` operation or conversion, unless it wraps around. -/
def uintOp (x : Int) : Option Int := if 0 ≤ x ∧ x < 4294967296 then some x else none

theorem intOp_bind {α : Type} {x : Int} (h : -2147483648 ≤ x) (h' : x < 2147483648) (f : Int → Option α) :
    (intOp x >>= f) = f x := by
  rw [intOp, if_pos ⟨h, h'⟩]
  rfl

theorem uintOp_bind {α : Type} {x : Int} (h : 0 ≤ x) (h' : x < 4294967296) (f : Int → Option α) :
    (uintOp x >>= f) = f x := by
  rw [uintOp, if_pos ⟨h, h'⟩]
  rfl

end NodeLib
