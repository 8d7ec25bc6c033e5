import Mathlib.Algebra.Order.Floor.Ring
import Mathlib.Algebra.Order.Field.Basic
import Mathlib.Tactic.Linarith

/-!
# Rounding half away from zero

The nearest integer, with a half rounded away from zero. The rounding is odd and monotone.
-/

set_option autoImplicit false

namespace ExamplePrograms.Lib.Rounding

universe u

variable {K : Type u} [Field K] [LinearOrder K] [FloorRing K]

/-- The nearest integer, halves away from zero. -/
def roundAway (x : K) : Int := if 0 ≤ x then ⌊x + 1 / 2⌋ else -⌊-x + 1 / 2⌋

theorem roundAway_of_nonneg {x : K} (h : 0 ≤ x) : roundAway x = ⌊x + 1 / 2⌋ := if_pos h

theorem roundAway_of_neg {x : K} (h : x < 0) : roundAway x = -⌊-x + 1 / 2⌋ :=
  if_neg (not_le.2 h)

variable [IsStrictOrderedRing K]

/-- Rounding keeps a number that is not negative so. -/
theorem roundAway_nonneg {x : K} (h : 0 ≤ x) : 0 ≤ roundAway x := by
  rw [roundAway_of_nonneg h, Int.floor_nonneg]
  linarith

/-- Rounding makes no negative number positive. -/
theorem roundAway_nonpos {x : K} (h : x < 0) : roundAway x ≤ 0 := by
  rw [roundAway_of_neg h, Left.neg_nonpos_iff, Int.floor_nonneg]
  linarith

/-- Rounding keeps the order. -/
theorem roundAway_mono {x y : K} (h : x ≤ y) : roundAway x ≤ roundAway y := by
  rcases lt_or_ge x 0 with hx | hx
  · rcases lt_or_ge y 0 with hy | hy
    · rw [roundAway_of_neg hx, roundAway_of_neg hy, neg_le_neg_iff]
      apply Int.floor_le_floor
      linarith
    · exact le_trans (roundAway_nonpos hx) (roundAway_nonneg hy)
  · rw [roundAway_of_nonneg hx, roundAway_of_nonneg (le_trans hx h)]
    apply Int.floor_le_floor
    linarith

/-- Numbers that are 1 apart are rounded to different integers. -/
theorem roundAway_lt {x y : K} (hx : 0 ≤ x) (h : x + 1 ≤ y) : roundAway x < roundAway y := by
  rw [roundAway_of_nonneg hx, roundAway_of_nonneg (by linarith), ← Int.add_one_le_iff, Int.le_floor]
  have hfloor := Int.floor_le (x + 1 / 2)
  push_cast
  linarith

end ExamplePrograms.Lib.Rounding
