import Mathlib.Algebra.Group.Nat.Defs
import Mathlib.Tactic.Common

/-!
# Numerals

The digits of a number in a base, as `Nat.toDigits` gives them: without leading zeros, and one digit for
zero. `numeral` is the same text in bytes, and `readNumeral` reads it back in a base up to ten.
-/

set_option autoImplicit false

namespace ExamplePrograms.Lib.Numerals

variable {b n : Nat}

/-- The digits of a number with two digits. -/
theorem toDigits_two (hb : 1 < b) (hlow : b ≤ n) (hhigh : n / b < b) :
    Nat.toDigits b n = [(n / b).digitChar, (n % b).digitChar] := by
  rw [Nat.toDigits_of_base_le hb hlow, Nat.toDigits_of_lt_base hhigh]
  rfl

/-- The last two digits. -/
theorem toDigits_last_two (hb : 1 < b) (hlow : b ≤ n / b) :
    Nat.toDigits b n = Nat.toDigits b (n / (b * b)) ++ [(n / b % b).digitChar, (n % b).digitChar] := by
  have hn : b ≤ n := Nat.le_trans hlow (Nat.div_le_self n b)
  rw [Nat.toDigits_of_base_le hb hn, Nat.toDigits_of_base_le hb hlow, Nat.div_div_eq_div_mul,
    List.append_assoc]
  rfl

/-- Digits are below the base. -/
theorem mem_toDigits {c : Char} (hb : 1 < b) (h : c ∈ Nat.toDigits b n) :
    ∃ d < b, c = d.digitChar := by
  induction n using Nat.strongRecOn with
  | ind n ih =>
    rw [Nat.toDigits_eq_if hb] at h
    split at h
    · next hlt => exact ⟨n, hlt, List.mem_singleton.1 h⟩
    · next hlt =>
      rcases List.mem_append.1 h with h | h
      · exact ih (n / b) (Nat.div_lt_self (by omega) hb) h
      · exact ⟨n % b, Nat.mod_lt n (by omega), List.mem_singleton.1 h⟩

/-- The bytes of a numeral. -/
def numeral (b n : Nat) : List UInt8 := (Nat.toDigits b n).map fun c => UInt8.ofNat c.toNat

/-- The length of a numeral, read as a bound on the number. -/
theorem length_numeral_le_iff {k : Nat} (hb : 1 < b) (hk : 0 < k) :
    (numeral b n).length ≤ k ↔ n < b ^ k := by
  rw [numeral, List.length_map]
  exact Nat.length_toDigits_le_iff hb hk

/-- A numeral has no NUL. -/
theorem noNul_numeral (hb : 1 < b) (hb' : b ≤ 16) : 0 ∉ numeral b n := by
  have hdigit : ∀ d < 16, UInt8.ofNat d.digitChar.toNat ≠ 0 := by decide
  intro h
  obtain ⟨c, hc, hzero⟩ := List.mem_map.1 h
  obtain ⟨d, hd, rfl⟩ := mem_toDigits hb hc
  exact hdigit d (Nat.lt_of_lt_of_le hd hb') hzero

/-- The characters of a numeral are digits. -/
theorem mem_numeral {c : UInt8} (hb : 1 < b) (h : c ∈ numeral b n) :
    ∃ d < b, c = UInt8.ofNat d.digitChar.toNat := by
  obtain ⟨digit, hdigit, rfl⟩ := List.mem_map.1 h
  obtain ⟨d, hd, rfl⟩ := mem_toDigits hb hdigit
  exact ⟨d, hd, rfl⟩

/-- The number of a text of digits `0` to `9`. -/
def readNumeral (b : Nat) (s : List UInt8) : Nat := s.foldl (fun n c => b * n + (c.toNat - 48)) 0

/-- **Round trip of numerals** up to base ten. -/
theorem readNumeral_numeral (hb : 1 < b) (hb' : b ≤ 10) (n : Nat) : readNumeral b (numeral b n) = n := by
  have hdigit : ∀ d < 10, (UInt8.ofNat d.digitChar.toNat).toNat - 48 = d := by decide
  induction n using Nat.strongRecOn with
  | ind n ih =>
    by_cases hlt : n < b
    · rw [numeral, Nat.toDigits_of_lt_base hlt]
      show b * 0 + _ = n
      rw [hdigit n (by omega)]
      omega
    · have hlast := hdigit (n % b) (Nat.lt_of_lt_of_le (Nat.mod_lt n (by omega)) hb')
      have hhead := ih (n / b) (Nat.div_lt_self (by omega) hb)
      rw [readNumeral, numeral] at hhead
      rw [numeral, Nat.toDigits_of_base_le hb (by omega), List.map_append, readNumeral, List.foldl_append,
        hhead]
      show b * (n / b) + _ = n
      rw [hlast, Nat.div_add_mod]

end ExamplePrograms.Lib.Numerals
