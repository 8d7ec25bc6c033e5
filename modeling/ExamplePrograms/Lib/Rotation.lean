import Mathlib.Data.List.Basic
import Mathlib.Logic.Function.Iterate
import Mathlib.Tactic.Common

/-!
# Rotating windows

A rotating window is an array with a counter that points at its newest cell. `rotate` moves the counter
to the next cell, from the last one to the first, and overwrites that cell, which was the oldest one.
The lemmas read the window by age: `behind l c j` is the cell `j` places behind the counter.
-/

set_option autoImplicit false

namespace ExamplePrograms.Lib.Rotation

universe u

variable {α : Type u}

/-- The place behind the place `c` of an array of length `n`. -/
def advance (c n : Nat) : Nat := if n ≤ c + 1 then 0 else c + 1

/-- The cell `j` places behind the place `c`. -/
def behind (l : List α) (c j : Nat) : Option α := l[(c + (l.length - j)) % l.length]?

/-- Move the counter and write `x` to the cell that it then points at. -/
def rotate (x : α) (w : List α × Nat) : List α × Nat :=
  (w.1.set (advance w.2 w.1.length) x, advance w.2 w.1.length)

/-- The cursor stays inside the ring. -/
theorem advance_lt {c n : Nat} (hn : 0 < n) : advance c n < n := by
  rw [advance]
  split <;> omega

/-- The cursor runs through the ring modulo its size. -/
theorem advance_eq_mod {c n : Nat} (hc : c < n) : advance c n = (c + 1) % n := by
  rw [advance]
  split
  · next h =>
    obtain rfl : n = c + 1 := by omega
    rw [Nat.mod_self]
  · rw [Nat.mod_eq_of_lt (by omega)]

/-- The slot at the cursor. -/
theorem behind_zero {l : List α} {c : Nat} (hc : c < l.length) : behind l c 0 = l[c]? := by
  rw [behind, Nat.sub_zero, Nat.add_mod_right, Nat.mod_eq_of_lt hc]

/-- The place of an older cell is another one. -/
theorem behind_place_ne {c j n : Nat} (hc : c < n) (hj : 0 < j) (hjn : j < n) :
    (c + (n - j)) % n ≠ c := by
  rcases Nat.lt_or_ge (c + (n - j)) n with h | h
  · rw [Nat.mod_eq_of_lt h]
    omega
  · rw [Nat.mod_eq_sub_mod h, Nat.mod_eq_of_lt (by omega)]
    omega

/-- Every cell has an age. -/
theorem mem_iff_behind {l : List α} {c : Nat} (hc : c < l.length) (x : α) :
    x ∈ l ↔ ∃ j < l.length, behind l c j = some x := by
  constructor
  · intro hx
    obtain ⟨i, hi⟩ := List.mem_iff_getElem?.1 hx
    have hlt : i < l.length := (List.getElem?_eq_some_iff.1 hi).1
    rcases Nat.lt_or_ge c i with h | h
    · refine ⟨c + (l.length - i), by omega, ?_⟩
      rw [behind, Nat.mod_eq_of_lt (by omega), ← hi]
      congr 1
      omega
    · refine ⟨c - i, by omega, ?_⟩
      rw [behind, Nat.mod_eq_sub_mod (by omega), Nat.mod_eq_of_lt (by omega), ← hi]
      congr 1
      omega
  · rintro ⟨j, -, hj⟩
    exact List.mem_of_getElem? hj

/-- A change of the current slot. -/
theorem behind_modify_zero {l : List α} {c : Nat} (hc : c < l.length) (f : α → α) :
    behind (l.modify c f) c 0 = (behind l c 0).map f := by
  rw [behind_zero (by simpa using hc), behind_zero hc, List.getElem?_modify_eq]
  rfl

/-- A change of the current slot leaves the slots behind it. -/
theorem behind_modify_succ {l : List α} {c j : Nat} (hc : c < l.length) (hj : 0 < j)
    (hjn : j < l.length) (f : α → α) : behind (l.modify c f) c j = behind l c j := by
  rw [behind, behind, List.length_modify,
    List.getElem?_modify_ne _ _ (Ne.symm (behind_place_ne hc hj hjn))]

section Rotate

variable {x : α} {w : List α × Nat}

@[simp] theorem length_rotate : (rotate x w).1.length = w.1.length := by
  rw [rotate, List.length_set]

/-- A rotation keeps the cursor inside the ring. -/
theorem rotate_lt (h : w.2 < w.1.length) : (rotate x w).2 < (rotate x w).1.length := by
  rw [length_rotate]
  exact advance_lt (by omega)

/-- A rotation puts the new value at the cursor. -/
theorem behind_rotate_zero (h : w.2 < w.1.length) :
    behind (rotate x w).1 (rotate x w).2 0 = some x := by
  rw [behind_zero (rotate_lt h)]
  exact List.getElem?_set_self (advance_lt (by omega))

/-- The other cells are one place older. -/
theorem behind_rotate_succ (h : w.2 < w.1.length) {j : Nat} (hj : j + 1 < w.1.length) :
    behind (rotate x w).1 (rotate x w).2 (j + 1) = behind w.1 w.2 j := by
  have hne := behind_place_ne (rotate_lt (x := x) h) (Nat.succ_pos j) (by simpa using hj)
  rw [length_rotate] at hne
  rw [behind, length_rotate]
  have hplace : ((rotate x w).2 + (w.1.length - (j + 1))) % w.1.length =
      (w.2 + (w.1.length - j)) % w.1.length := by
    show (advance w.2 w.1.length + (w.1.length - (j + 1))) % w.1.length = _
    rw [advance_eq_mod h, Nat.mod_add_mod]
    congr 1
    omega
  rw [hplace] at hne ⊢
  exact List.getElem?_set_ne fun hc => hne hc.symm

/-- Rotations keep the size of the ring. -/
theorem length_iterate_rotate (n : Nat) : ((rotate x)^[n] w).1.length = w.1.length := by
  induction n generalizing w with
  | zero => rfl
  | succ n ih => rw [Function.iterate_succ_apply, ih, length_rotate]

/-- Rotations keep the cursor inside the ring. -/
theorem iterate_rotate_lt (h : w.2 < w.1.length) (n : Nat) :
    ((rotate x)^[n] w).2 < ((rotate x)^[n] w).1.length := by
  induction n generalizing w with
  | zero => exact h
  | succ n ih =>
    rw [Function.iterate_succ_apply]
    exact ih (rotate_lt h)

/-- After `n` rotations the newest `n` cells hold `x` and the others are `n` places older. -/
theorem behind_iterate_rotate (h : w.2 < w.1.length) (n : Nat) {j : Nat} (hj : j < w.1.length) :
    behind ((rotate x)^[n] w).1 ((rotate x)^[n] w).2 j =
      if j < n then some x else behind w.1 w.2 (j - n) := by
  induction n generalizing j with
  | zero => rfl
  | succ n ih =>
    have hlt := iterate_rotate_lt (x := x) h n
    rw [Function.iterate_succ_apply']
    cases j with
    | zero => rw [behind_rotate_zero hlt, if_pos (Nat.succ_pos n)]
    | succ j =>
      rw [behind_rotate_succ hlt (by rw [length_iterate_rotate]; exact hj), ih (by omega)]
      simp only [Nat.add_lt_add_iff_right, Nat.add_sub_add_right]

/-- Rotations beyond the length of the window are not seen. -/
theorem behind_iterate_rotate_min (h : w.2 < w.1.length) (n : Nat) {j : Nat} (hj : j < w.1.length) :
    behind ((rotate x)^[min n w.1.length] w).1 ((rotate x)^[min n w.1.length] w).2 j =
      behind ((rotate x)^[n] w).1 ((rotate x)^[n] w).2 j := by
  rw [behind_iterate_rotate h _ hj, behind_iterate_rotate h n hj]
  rcases Nat.le_total n w.1.length with hle | hle
  · rw [Nat.min_eq_left hle]
  · rw [Nat.min_eq_right hle, if_pos hj, if_pos (Nat.lt_of_lt_of_le hj hle)]

end Rotate

end ExamplePrograms.Lib.Rotation
