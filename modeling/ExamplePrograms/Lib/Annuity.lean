import Mathlib.Algebra.Field.GeomSum
import Mathlib.Algebra.Order.BigOperators.Ring.Finset
import Mathlib.Tactic.FieldSimp
import Mathlib.Tactic.Linarith
import Mathlib.Tactic.Positivity

/-!
# Annuities

A debt of 1 that bears interest at the rate `x` in each period is paid off by `n` equal payments of
`annuity x n`. The payment rises with the rate, by at least half of what the rate rises
(`half_sub_le_annuity_sub`). The number of periods is an integer; for a negative one the formula has
no such meaning.
-/

set_option autoImplicit false

namespace ExamplePrograms.Lib.Annuity

open Finset

universe u

variable {K : Type u} [Field K]

/-- What is paid in each of `n` periods for a debt of 1 at the rate `x`. -/
def annuity (x : K) (n : ℤ) : K := x * (1 + x) ^ n / ((1 + x) ^ n - 1)

variable [LinearOrder K] [IsStrictOrderedRing K]

/-- A difference of powers grows with the exponent. -/
theorem pow_sub_pow_le_succ {u v : K} (hu : 1 ≤ u) (huv : u ≤ v) (i : ℕ) :
    v ^ i - u ^ i ≤ v ^ (i + 1) - u ^ (i + 1) := by
  have hpow : u ^ i ≤ v ^ i := pow_le_pow_left₀ (by linarith) huv i
  have hpos : 0 ≤ u ^ i := by positivity
  have hmul : u ^ i * (u - 1) ≤ v ^ i * (v - 1) :=
    mul_le_mul hpow (by linarith) (by linarith) (le_trans hpos hpow)
  rw [pow_succ, pow_succ]
  linarith

/-- Of the powers below `n` with the factor of the other base, the greater base has the greater sum. -/
theorem sum_pow_sub_pow_le {u v : K} (hu : 1 ≤ u) (huv : u ≤ v) (n : ℕ) :
    ∑ i ∈ range n, (v ^ i - u ^ i) ≤ ∑ i ∈ range n, (v ^ n * u ^ i - u ^ n * v ^ i) := by
  have hstep : ∑ i ∈ range n, (v ^ i - u ^ i) ≤ ∑ i ∈ range n, (v ^ (i + 1) - u ^ (i + 1)) :=
    sum_le_sum fun i _ => pow_sub_pow_le_succ hu huv i
  refine le_trans hstep ?_
  rw [← sum_range_reflect]
  refine sum_le_sum fun i hi => ?_
  have hlt := mem_range.1 hi
  have hexp : n - 1 - i + 1 = n - i := by omega
  have hsplit : ∀ w : K, w ^ n = w ^ (n - i) * w ^ i := fun w => by
    rw [← pow_add, Nat.sub_add_cancel (le_of_lt hlt)]
  -- the common factor of a pair of powers is at least 1
  have hone : 1 ≤ (u * v) ^ i := one_le_pow₀ (by nlinarith)
  have hpow : u ^ (n - i) ≤ v ^ (n - i) := pow_le_pow_left₀ (by linarith) huv _
  have hle := mul_le_mul_of_nonneg_right hone (sub_nonneg.2 hpow)
  rw [hexp, hsplit u, hsplit v]
  rw [mul_pow] at hle
  linarith

/-- The geometric sum is positive. -/
theorem sum_pow_pos {u : K} (hu : 0 < u) {n : ℕ} (hn : 1 ≤ n) : 0 < ∑ i ∈ range n, u ^ i :=
  sum_pos (fun i _ => pow_pos hu i) (nonempty_range_iff.2 (by omega))

/-- The part of the payment that is not half of the rate. -/
theorem annuity_eq {x : K} (hx : 0 < x) {n : ℕ} (hn : 1 ≤ n) :
    annuity x n = x / 2 + ((1 + x) ^ n + 1) / (2 * ∑ i ∈ range n, (1 + x) ^ i) := by
  have hsum := sum_pow_pos (u := 1 + x) (by linarith) hn
  have hgeom : (1 + x) ^ n - 1 = x * ∑ i ∈ range n, (1 + x) ^ i := by
    rw [← mul_geom_sum, add_sub_cancel_left]
  rw [annuity, zpow_natCast, hgeom, mul_div_mul_left _ _ (ne_of_gt hx)]
  field_simp
  linarith

/-- The bound on the remainder grows with the growth factor. -/
theorem remainder_le {u v : K} (hu : 1 ≤ u) (huv : u ≤ v) {n : ℕ} (hn : 1 ≤ n) :
    (u ^ n + 1) / (2 * ∑ i ∈ range n, u ^ i) ≤ (v ^ n + 1) / (2 * ∑ i ∈ range n, v ^ i) := by
  have hsumu := sum_pow_pos (lt_of_lt_of_le zero_lt_one hu) hn
  have hsumv := sum_pow_pos (lt_of_lt_of_le zero_lt_one (le_trans hu huv)) hn
  have hle := sum_pow_sub_pow_le hu huv n
  simp only [sum_sub_distrib, ← mul_sum] at hle
  rw [div_le_div_iff₀ (by positivity) (by positivity)]
  linarith

/-- The payment rises by at least half of what the rate rises. -/
theorem half_sub_le_annuity_sub {x y : K} (hy : 0 < y) (hyx : y ≤ x) {n : ℕ} (hn : 1 ≤ n) :
    (x - y) / 2 ≤ annuity x n - annuity y n := by
  have hle := remainder_le (u := 1 + y) (v := 1 + x) (by linarith) (by linarith) hn
  rw [annuity_eq (lt_of_lt_of_le hy hyx) hn, annuity_eq hy hn]
  linarith

/-- An annuity factor is positive. -/
theorem annuity_pos {x : K} (hx : 0 < x) {n : ℕ} (hn : 1 ≤ n) : 0 < annuity x n := by
  have hsum := sum_pow_pos (u := 1 + x) (by linarith) hn
  rw [annuity_eq hx hn]
  positivity

end ExamplePrograms.Lib.Annuity
