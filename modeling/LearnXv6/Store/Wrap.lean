import Mathlib.Tactic

/-! Arithmetic of 32-bit `int`. -/
namespace Store

def wrap (x : ℤ) : ℤ := x.bmod (2 ^ 32)

def INT_MAX : ℤ := 2 ^ 31 - 1

lemma wrap_bounds (x : ℤ) : -2 ^ 31 ≤ wrap x ∧ wrap x ≤ INT_MAX := by
  have hlo := Int.le_bmod (x := x) (m := 2 ^ 32) (by decide)
  have hhi := Int.bmod_lt (x := x) (m := 2 ^ 32) (by decide)
  unfold wrap INT_MAX
  omega

lemma wrap_eq {x : ℤ} (hlo : -2 ^ 31 ≤ x) (hhi : x ≤ INT_MAX) : wrap x = x := by
  unfold INT_MAX at hhi
  exact Int.bmod_eq_of_le (by omega) (by omega)

lemma wrap_of_lt {x : ℤ} (hlo : -2 ^ 31 ≤ x) (hhi : x < 2 ^ 31) : wrap x = x :=
  wrap_eq hlo (by unfold INT_MAX; omega)

end Store
