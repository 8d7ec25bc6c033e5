import Mathlib.Data.Nat.Bitwise
import ExamplePrograms.Lib.Dyadic

/-!
# Range to CIDR blocks

`cidr(first, last)` of `bysin_cidr.c` prints the blocks that make up a range of addresses. It finds the
highest bit in which the two ends differ; when the range is not all of the block around that bit it
goes on with the part below the middle of the block and the part above.

An `unsigned long` has 64 bits and an `unsigned int` has 32, and `1<<31` is `INT_MIN`. A shift by 32 or
more positions of an `int` is undefined. The output is the list of the arguments of `printf`.

`cidr_exact_minimal` says that the blocks are aligned, ascending and disjoint, that their union is the
range, and that no shorter list of blocks has it.
-/

set_option autoImplicit false

namespace ExamplePrograms.Other

open ExamplePrograms.Lib.Dyadic

/-- A value as an `unsigned int`. -/
def uint (x : Int) : Nat := (x % 2 ^ 32).toNat

/-- A value as an `unsigned long`. -/
def ulong (x : Int) : Nat := (x % 2 ^ 64).toNat

/-- `1<<pos` for a `pos` below 32. -/
def shl1 (pos : Nat) : Int := if pos = 31 then -2147483648 else 2 ^ pos

/-- `mpow`: powers by repeated squaring, in `unsigned int`. -/
def mpow (x n : Nat) : Nat :=
  if h : n = 0 then 1
  else if n % 2 = 1 then uint (x * mpow x (n - 1))
  else mpow (uint (x * x)) (n / 2)
termination_by n
decreasing_by
  · omega
  · omega

/-- `!!(x&(1<<pos))`. -/
def bit (x pos : Nat) : Bool := decide (x &&& ulong (shl1 pos) ≠ 0)

/-- `while (bit(first,idx1) == bit(last,idx1)) idx1--;`. Below 0 the shift is undefined. -/
def findIdx1 (first last : Nat) : Nat → Option Nat
  | 0 => if bit first 0 = bit last 0 then none else some 0
  | idx1 + 1 =>
      if bit first (idx1 + 1) = bit last (idx1 + 1) then findIdx1 first last idx1
      else some (idx1 + 1)

/-- `while (idx2 <= idx1 && bit(first,idx2) == 0 && bit(last,idx2) == 1) idx2++;`, in `n` rounds. -/
def findIdx2 (first last idx1 : Nat) : Nat → Nat → Nat
  | 0, idx2 => idx2
  | n + 1, idx2 =>
      if idx2 ≤ idx1 ∧ bit first idx2 = false ∧ bit last idx2 = true then
        findIdx2 first last idx1 n (idx2 + 1)
      else idx2

/-- A block as it is printed: its network address and the length of its prefix. -/
structure Block where
  network : Nat
  length : Nat
  deriving DecidableEq, Repr

/-- `prefix=(first>>idx1+1)<<idx1+1`. -/
def prefixOf (first idx1 : Nat) : Nat := uint (ulong ((first >>> (idx1 + 1)) <<< (idx1 + 1) : Nat))

/-- `cidr(first, last)` with at most `n` calls on the stack. -/
def cidr : Nat → Nat → Nat → Option (List Block)
  | 0, _, _ => none
  | n + 1, first, last =>
      if first < last then
        match findIdx1 first last 31 with
        | none => none
        | some idx1 =>
            let net := prefixOf first idx1
            let idx2 := findIdx2 first last idx1 (idx1 + 1) 0
            if idx2 ≤ idx1 then do
              let low ← cidr n first (net ||| ulong (mpow 2 idx1 - 1))
              let high ← cidr n (net ||| uint (shl1 idx1)) last
              return low ++ high
            else some [⟨net, uint (32 - idx2)⟩]
      else some [⟨uint first, 32⟩]

/-! ## Machine words -/

/-- An `unsigned int` from a natural number. -/
theorem uint_natCast (x : Nat) : uint x = x % 2 ^ 32 := by
  rw [uint]
  omega

/-- An `unsigned long` from a natural number. -/
theorem ulong_natCast (x : Nat) : ulong x = x % 2 ^ 64 := by
  rw [ulong]
  omega

/-- Repeated squaring is a power modulo the word. -/
theorem mpow_eq (x n : Nat) : mpow x n = x ^ n % 2 ^ 32 := by
  induction n using Nat.strong_induction_on generalizing x with
  | _ n ih =>
    rw [mpow]
    split
    · next h =>
      subst h
      rfl
    · next h =>
      split
      · next hodd =>
        have hpow : x ^ n = x * x ^ (n - 1) := by
          rw [← Nat.pow_succ', Nat.succ_eq_add_one, Nat.sub_add_cancel (by omega)]
        rw [ih (n - 1) (by omega), ← Int.natCast_mul, uint_natCast, Nat.mul_mod_mod, hpow]
      · next hodd =>
        have hn : n = 2 * (n / 2) := by omega
        rw [ih (n / 2) (by omega), ← Int.natCast_mul, uint_natCast, ← Nat.pow_mod, ← Nat.pow_two,
          ← Nat.pow_mul, ← hn]

/-- Powers of two below the width. -/
theorem mpow_two {n : Nat} (h : n < 32) : mpow 2 n = 2 ^ n := by
  rw [mpow_eq, Nat.mod_eq_of_lt (Nat.pow_lt_pow_right (by decide) h)]

/-- A single bit below the sign, as an `unsigned long`. -/
theorem ulong_shl1 {pos : Nat} (h : pos < 31) : ulong (shl1 pos) = 2 ^ pos := by
  have hlt : 2 ^ pos < 2 ^ 64 := Nat.pow_lt_pow_right (by decide) (by omega)
  have hcast : shl1 pos = ((2 ^ pos : Nat) : Int) := by
    rw [shl1, if_neg (by omega), Int.natCast_pow]
    rfl
  rw [hcast, ulong_natCast, Nat.mod_eq_of_lt hlt]

/-- A single bit, as an `unsigned int`. -/
theorem uint_shl1 {pos : Nat} (h : pos < 32) : uint (shl1 pos) = 2 ^ pos := by
  by_cases h31 : pos = 31
  · subst h31
    rfl
  · have hlt : 2 ^ pos < 2 ^ 32 := Nat.pow_lt_pow_right (by decide) h
    have hcast : shl1 pos = ((2 ^ pos : Nat) : Int) := by
      rw [shl1, if_neg h31, Int.natCast_pow]
      rfl
    rw [hcast, uint_natCast, Nat.mod_eq_of_lt hlt]

/-- The mask of bit 31 is the sign-extended `INT_MIN`. Its bits above 31 meet no bit of an address. -/
theorem and_ulong_intMin {x : Nat} (hx : x < 2 ^ 32) : x &&& ulong (shl1 31) = x &&& 2 ^ 31 := by
  have hmask : ulong (shl1 31) = 2 ^ 31 * (2 ^ 33 - 1) := rfl
  apply Nat.eq_of_testBit_eq
  intro i
  rw [hmask, Nat.testBit_and, Nat.testBit_and, Nat.testBit_two_pow_mul,
    Nat.testBit_two_pow_sub_one, Nat.testBit_two_pow]
  by_cases hi : i < 32
  · by_cases h31 : i = 31
    · subst h31
      rfl
    -- below bit 31 both masks are clear
    · simp [show ¬ 31 ≤ i by omega, show ¬ 31 = i by omega]
  -- an address has no bit from 32 on
  · have hbit : x.testBit i = false :=
      Nat.testBit_lt_two_pow (Nat.lt_of_lt_of_le hx (Nat.pow_le_pow_right (by decide) (by omega)))
    rw [hbit, Bool.false_and, Bool.false_and]

/-- `bit` reads a bit of an address. -/
theorem bit_eq_testBit {x pos : Nat} (hx : x < 2 ^ 32) (hpos : pos < 32) :
    bit x pos = x.testBit pos := by
  have hmask : x &&& ulong (shl1 pos) = x &&& 2 ^ pos := by
    by_cases h31 : pos = 31
    · subst h31
      exact and_ulong_intMin hx
    · rw [ulong_shl1 (by omega)]
  rw [bit, hmask, Nat.and_two_pow]
  cases x.testBit pos with
  | true => simp
  | false => simp

/-! ## The loops -/

/-- The ends of a range as the loops see them: two addresses, the first below the second. -/
structure Ends (first last : Nat) : Prop where
  lt : first < last
  bound : last < 2 ^ 32

/-- `idx1` is the highest bit in which the ends differ. -/
structure Splits (first last idx1 : Nat) : Prop where
  small : idx1 < 32
  above : first / 2 ^ (idx1 + 1) = last / 2 ^ (idx1 + 1)
  differ : first / 2 ^ idx1 ≠ last / 2 ^ idx1

/-- One bit more is cut off by another halving. -/
theorem div_two_pow_succ (x i : Nat) : x / 2 ^ (i + 1) = x / 2 ^ i / 2 := by
  rw [Nat.pow_succ, Nat.div_div_eq_div_mul]

/-- Below a common quotient the ends agree in the next bit when they have the next quotient in
common. -/
theorem testBit_eq_iff_div_eq {x y i : Nat} (h : x / 2 ^ (i + 1) = y / 2 ^ (i + 1)) :
    x.testBit i = y.testBit i ↔ x / 2 ^ i = y / 2 ^ i := by
  rw [div_two_pow_succ, div_two_pow_succ] at h
  rw [Nat.testBit_eq_decide_div_mod_eq, Nat.testBit_eq_decide_div_mod_eq, decide_eq_decide]
  constructor
  · intro hbit
    omega
  · intro hdiv
    rw [hdiv]

/-- The first loop finds the highest bit in which the two ends differ. -/
theorem findIdx1_splits {first last : Nat} (h : Ends first last) (i : Nat) (hi : i < 32)
    (habove : first / 2 ^ (i + 1) = last / 2 ^ (i + 1)) :
    ∃ idx1, findIdx1 first last i = some idx1 ∧ Splits first last idx1 := by
  have hfirst : first < 2 ^ 32 := Nat.lt_trans h.lt h.bound
  have hbit : bit first i = bit last i ↔ first / 2 ^ i = last / 2 ^ i := by
    rw [bit_eq_testBit hfirst hi, bit_eq_testBit h.bound hi, testBit_eq_iff_div_eq habove]
  induction i with
  | zero =>
    -- the ends would be equal if they agreed in bit 0 too
    have hne : ¬ first / 2 ^ 0 = last / 2 ^ 0 := by
      rw [Nat.pow_zero, Nat.div_one, Nat.div_one]
      exact Nat.ne_of_lt h.lt
    refine ⟨0, ?_, hi, habove, hne⟩
    rw [findIdx1, if_neg (mt hbit.1 hne)]
  | succ i ih =>
    rw [findIdx1]
    split
    · next heq =>
      have hdiv := hbit.1 heq
      apply ih (by omega) hdiv
      rw [bit_eq_testBit hfirst (by omega), bit_eq_testBit h.bound (by omega),
        testBit_eq_iff_div_eq hdiv]
    · next hne => exact ⟨i + 1, rfl, hi, habove, mt hbit.2 hne⟩

/-- The range is all of the block around bit `i`. -/
def Full (first last i : Nat) : Prop :=
  first % 2 ^ (i + 1) = 0 ∧ last % 2 ^ (i + 1) = 2 ^ (i + 1) - 1

/-- The second loop either passes `idx1` or stops at a bit that is not at its end of the block. -/
theorem findIdx2_cases (first last idx1 : Nat) (n idx2 : Nat) (hn : n + idx2 = idx1 + 1) :
    (findIdx2 first last idx1 n idx2 = idx1 + 1 ∧
      ∀ j, idx2 ≤ j → j ≤ idx1 → bit first j = false ∧ bit last j = true) ∨
    (findIdx2 first last idx1 n idx2 ≤ idx1 ∧
      ∃ j ≤ idx1, ¬ (bit first j = false ∧ bit last j = true)) := by
  induction n generalizing idx2 with
  | zero =>
    refine Or.inl ⟨by rw [findIdx2]; omega, ?_⟩
    intro j hj hle
    omega
  | succ n ih =>
    rw [findIdx2]
    split
    · next hcond =>
      apply Or.imp ?_ id (ih (idx2 + 1) (by omega))
      rintro ⟨hres, hbits⟩
      refine ⟨hres, ?_⟩
      intro j hj hle
      rcases Nat.eq_or_lt_of_le hj with rfl | hlt
      · exact hcond.2
      · exact hbits j hlt hle
    · next hcond =>
      have hle : idx2 ≤ idx1 := by omega
      exact Or.inr ⟨hle, idx2, hle, fun hbits => hcond ⟨hle, hbits⟩⟩

/-- All bits up to `i` are clear in the first end and set in the last when the range is full. -/
theorem full_iff_testBit {first last i : Nat} :
    Full first last i ↔ ∀ j ≤ i, first.testBit j = false ∧ last.testBit j = true := by
  constructor
  · rintro ⟨hfirst, hlast⟩ j hj
    have hlow : ∀ x : Nat, x.testBit j = (x % 2 ^ (i + 1)).testBit j := by
      intro x
      rw [Nat.testBit_mod_two_pow, decide_eq_true (by omega), Bool.true_and]
    rw [hlow first, hlow last, hfirst, hlast, Nat.zero_testBit, Nat.testBit_two_pow_sub_one]
    exact ⟨rfl, decide_eq_true (by omega)⟩
  · intro hbits
    constructor
    · apply Nat.eq_of_testBit_eq
      intro j
      rw [Nat.testBit_mod_two_pow, Nat.zero_testBit]
      by_cases hj : j ≤ i
      · rw [(hbits j hj).1, Bool.and_false]
      · rw [decide_eq_false (by omega), Bool.false_and]
    · apply Nat.eq_of_testBit_eq
      intro j
      rw [Nat.testBit_mod_two_pow, Nat.testBit_two_pow_sub_one]
      by_cases hj : j ≤ i
      · rw [(hbits j hj).2, Bool.and_true]
      · rw [decide_eq_false (by omega), Bool.false_and]

/-- The second loop stops early exactly when the range does not fill the block. -/
theorem findIdx2_le_iff {first last idx1 : Nat} (h : Ends first last) (hidx : idx1 < 32) :
    findIdx2 first last idx1 (idx1 + 1) 0 ≤ idx1 ↔ ¬ Full first last idx1 := by
  have hfirst : first < 2 ^ 32 := Nat.lt_trans h.lt h.bound
  rw [full_iff_testBit]
  rcases findIdx2_cases first last idx1 (idx1 + 1) 0 rfl with ⟨hres, hbits⟩ | ⟨hres, j, hj, hbits⟩
  · constructor
    · intro hle
      omega
    · intro hnot
      apply absurd ?_ hnot
      intro j hj
      rw [← bit_eq_testBit hfirst (by omega), ← bit_eq_testBit h.bound (by omega)]
      exact hbits j (Nat.zero_le j) hj
  -- the bit at which the loop stopped is not at its end of the block
  · refine iff_of_true hres ?_
    intro hall
    rw [bit_eq_testBit hfirst (by omega), bit_eq_testBit h.bound (by omega)] at hbits
    exact hbits (hall j hj)

/-- The second loop runs to its end when the range fills the block. -/
theorem findIdx2_of_full {first last idx1 : Nat} (h : Ends first last) (hidx : idx1 < 32)
    (hfull : Full first last idx1) : findIdx2 first last idx1 (idx1 + 1) 0 = idx1 + 1 := by
  rcases findIdx2_cases first last idx1 (idx1 + 1) 0 rfl with ⟨hres, -⟩ | ⟨hres, -⟩
  · exact hres
  · exact absurd hfull ((findIdx2_le_iff h hidx).1 hres)

/-! ## The two halves -/

/-- The start of the block of order `i + 1` around an address. -/
def start (first i : Nat) : Nat := first / 2 ^ (i + 1) * 2 ^ (i + 1)

/-- The middle of that block. -/
def middle (first i : Nat) : Nat := start first i + 2 ^ i

/-- A block consists of two halves of the order below. -/
theorem two_pow_order (i : Nat) : 2 ^ (i + 1) = 2 ^ i + 2 ^ i := by
  rw [Nat.pow_succ, Nat.mul_two]

/-- The halves of the block hold the two ends of the range. -/
structure Halves (first last i : Nat) : Prop where
  first_ge : start first i ≤ first
  first_lt : first < middle first i
  last_ge : middle first i ≤ last
  last_lt : last < start first i + 2 ^ (i + 1)

/-- At the highest bit that differs the ends lie in different halves. -/
theorem Splits.halves {first last i : Nat} (h : Splits first last i) (hlt : first < last) :
    Halves first last i := by
  have habove := h.above
  have hle : first / 2 ^ i ≤ last / 2 ^ i := Nat.div_le_div_right (Nat.le_of_lt hlt)
  have hdiffer := h.differ
  rw [div_two_pow_succ, div_two_pow_succ] at habove
  -- the next quotients are the even and the odd one above the common quotient
  have hfirst : first / 2 ^ i = 2 * (first / 2 ^ i / 2) := by omega
  have hlast : last / 2 ^ i = 2 * (first / 2 ^ i / 2) + 1 := by omega
  have hstart : start first i = 2 * (first / 2 ^ i / 2) * 2 ^ i := by
    rw [start, div_two_pow_succ, Nat.pow_succ, Nat.mul_comm (2 ^ i) 2, ← Nat.mul_assoc,
      Nat.mul_comm _ 2]
  rw [Nat.div_eq_iff (Nat.two_pow_pos i), ← hstart] at hfirst
  rw [Nat.div_eq_iff (Nat.two_pow_pos i), Nat.add_mul, ← hstart, Nat.one_mul] at hlast
  have hpos := Nat.two_pow_pos i
  have hmiddle : middle first i = start first i + 2 ^ i := rfl
  have horder := two_pow_order i
  exact ⟨by omega, by omega, by omega, by omega⟩

/-- The block around the range is aligned. -/
theorem start_dvd (first i : Nat) : 2 ^ (i + 1) ∣ start first i :=
  Nat.dvd_mul_left _ _

/-- Its upper half is aligned. -/
theorem middle_dvd (first i : Nat) : 2 ^ i ∣ middle first i := by
  apply Nat.dvd_add ?_ (Nat.dvd_refl _)
  exact Nat.dvd_trans (Nat.pow_dvd_pow 2 (Nat.le_succ i)) (start_dvd first i)

/-- Addresses in one aligned block of order `i` have one quotient. -/
theorem div_eq_div_of_dvd {a x i : Nat} (hdvd : 2 ^ i ∣ a) (hge : a ≤ x) (hlt : x < a + 2 ^ i) :
    x / 2 ^ i = a / 2 ^ i := by
  have hpos := Nat.two_pow_pos i
  obtain ⟨q, rfl⟩ := hdvd
  rw [Nat.mul_div_cancel_left q hpos, Nat.div_eq_iff hpos, Nat.mul_comm q]
  omega

/-- The prefix is the start of the block. -/
theorem prefixOf_eq {first i : Nat} (h : first < 2 ^ 32) : prefixOf first i = start first i := by
  have hle : start first i ≤ first := Nat.div_mul_le_self _ _
  rw [prefixOf, Nat.shiftLeft_eq, Nat.shiftRight_eq_div_pow, ulong_natCast, uint_natCast]
  change start first i % 2 ^ 64 % 2 ^ 32 = start first i
  rw [Nat.mod_eq_of_lt (by omega), Nat.mod_eq_of_lt (by omega)]

/-- An `or` with bits below the start of a block is a sum. -/
theorem start_or {first i x : Nat} (hx : x < 2 ^ (i + 1)) :
    start first i ||| x = start first i + x := by
  rw [start, ← Nat.shiftLeft_eq, ← Nat.shiftLeft_add_eq_or_of_lt hx]

/-- The last address of the lower half. -/
theorem low_last {first i : Nat} (hi : i < 32) :
    start first i ||| ulong (mpow 2 i - 1) = middle first i - 1 := by
  have hpos := Nat.two_pow_pos i
  have hlt : 2 ^ i < 2 ^ 32 := Nat.pow_lt_pow_right (by decide) hi
  have hword : ulong (mpow 2 i - 1) = 2 ^ i - 1 := by
    rw [mpow_two hi, ulong]
    omega
  have horder := two_pow_order i
  have hmiddle : middle first i = start first i + 2 ^ i := rfl
  rw [hword, start_or (by omega)]
  omega

/-- The first address of the upper half. -/
theorem high_first {first i : Nat} (hi : i < 32) :
    start first i ||| uint (shl1 i) = middle first i := by
  have hpos := Nat.two_pow_pos i
  have horder := two_pow_order i
  rw [uint_shl1 hi, start_or (by omega), middle]

/-- What one call does with a range of two or more addresses. -/
theorem cidr_of_splits {first last i : Nat} (h : Ends first last)
    (hidx : findIdx1 first last 31 = some i) (hi : i < 32) (n : Nat) :
    (Full first last i → cidr (n + 1) first last = some [⟨start first i, 32 - (i + 1)⟩]) ∧
    (¬ Full first last i → ∀ low high, cidr n first (middle first i - 1) = some low →
      cidr n (middle first i) last = some high → cidr (n + 1) first last = some (low ++ high)) := by
  have hfirst : first < 2 ^ 32 := Nat.lt_trans h.lt h.bound
  have hcidr : cidr (n + 1) first last =
      if findIdx2 first last i (i + 1) 0 ≤ i then do
        let low ← cidr n first (middle first i - 1)
        let high ← cidr n (middle first i) last
        return low ++ high
      else some [⟨start first i, uint (32 - findIdx2 first last i (i + 1) 0)⟩] := by
    rw [cidr, if_pos h.lt, hidx]
    simp only [prefixOf_eq hfirst, low_last hi, high_first hi]
  constructor
  · intro hfull
    rw [hcidr, if_neg (fun hle => (findIdx2_le_iff h hi).1 hle hfull), findIdx2_of_full h hi hfull]
    have hlength : uint (32 - (i + 1 : Nat)) = 32 - (i + 1) := by
      rw [uint]
      omega
    rw [hlength]
  · intro hfull low high hlow hhigh
    rw [hcidr, if_pos ((findIdx2_le_iff h hi).2 hfull), hlow, hhigh]
    rfl

/-! ## Blocks -/

/-- The addresses of a block. -/
instance : Membership Nat Block where
  mem b x := b.network ≤ x ∧ x < b.network + 2 ^ (32 - b.length)

/-- Membership in a block, spelled out. -/
theorem Block.mem_iff {b : Block} {x : Nat} :
    x ∈ b ↔ b.network ≤ x ∧ x < b.network + 2 ^ (32 - b.length) := Iff.rfl

/-- An aligned block: an address and a prefix length with no bit of the address behind the prefix. -/
structure Block.Aligned (b : Block) : Prop where
  network_lt : b.network < 2 ^ 32
  length_le : b.length ≤ 32
  dvd : 2 ^ (32 - b.length) ∣ b.network

/-- The block as an aligned interval. -/
def Block.interval (b : Block) : Interval :=
  ⟨b.network / 2 ^ (32 - b.length), 32 - b.length⟩

/-- An aligned block has the addresses of its interval. -/
theorem Block.Aligned.mem_interval {b : Block} (h : b.Aligned) {x : Nat} :
    x ∈ b.interval ↔ x ∈ b := by
  rw [Lib.Dyadic.mem_iff, Block.mem_iff, Block.interval, Nat.add_mul, Nat.one_mul,
    Nat.div_mul_cancel h.dvd]

/-- The blocks `bs` for a range: aligned, each behind the one before, with the range as their union
and in the least number. -/
structure Decomposes (first last : Nat) (bs : List Block) : Prop where
  aligned : ∀ b ∈ bs, b.Aligned
  ascending : bs.Pairwise fun b c => ∀ x ∈ b, ∀ y ∈ c, x < y
  union : ∀ x, (∃ b ∈ bs, x ∈ b) ↔ first ≤ x ∧ x ≤ last
  minimal : ∀ cs, Covers cs first last → bs.length ≤ cs.length

/-- A range that is a block is decomposed by that block alone. -/
theorem decomposes_block {b : Block} {last : Nat} (h : b.Aligned)
    (hlast : last = b.network + 2 ^ (32 - b.length) - 1) : Decomposes b.network last [b] := by
  have hpos := Nat.two_pow_pos (32 - b.length)
  constructor
  · intro c hc
    rw [List.mem_singleton.1 hc]
    exact h
  · exact List.pairwise_singleton _ _
  · intro x
    simp only [List.mem_singleton, exists_eq_left, Block.mem_iff]
    omega
  · intro cs hcs
    exact hcs.length_pos (by omega)

/-- Blocks for the two sides of a boundary make blocks for the range when no interval in it is across
the boundary. -/
theorem Decomposes.append {first last m : Nat} {low high : List Block}
    (hlow : Decomposes first (m - 1) low) (hhigh : Decomposes m last high) (hfirst : first < m)
    (hlast : m ≤ last)
    (hacross : ∀ cs, Covers cs first last → ∀ c ∈ cs, m - 1 ∈ c → m ∉ c) :
    Decomposes first last (low ++ high) := by
  constructor
  · intro b hb
    rcases List.mem_append.1 hb with hb | hb
    · exact hlow.aligned b hb
    · exact hhigh.aligned b hb
  · apply List.pairwise_append.2 ⟨hlow.ascending, hhigh.ascending, ?_⟩
    intro b hb c hc x hx y hy
    -- the low blocks are below the boundary and the high ones are not
    have hbelow := (hlow.union x).1 ⟨b, hb, hx⟩
    have habove := (hhigh.union y).1 ⟨c, hc, hy⟩
    omega
  · intro x
    simp only [List.mem_append, or_and_right, exists_or]
    rw [hlow.union x, hhigh.union x]
    omega
  · intro cs hcs
    rw [List.length_append]
    exact hcs.length_split (hacross cs hcs) hfirst hlast hlow.minimal hhigh.minimal

/-- An interval across the middle of the block holds the block, so the range is full. -/
theorem not_across_of_not_full {first last i : Nat} (h : Halves first last i)
    (hfull : ¬ Full first last i) (cs : List Interval) (hcs : Covers cs first last) :
    ∀ c ∈ cs, middle first i - 1 ∈ c → middle first i ∉ c := by
  intro c hc hleft hright
  apply hfull
  have hpos := Nat.two_pow_pos i
  have horder := two_pow_order i
  have hmiddle : middle first i = start first i + 2 ^ i := rfl
  -- the interval is aligned, so with both sides of the middle it holds the whole block
  have hin : ∀ x, start first i ≤ x → x < start first i + 2 ^ (i + 1) → x ∈ c := by
    intro x hge hlt
    apply mem_of_straddles (by omega) (middle_dvd first i) hleft hright
    rw [div_eq_div_of_dvd (start_dvd first i) hge hlt,
      div_eq_div_of_dvd (start_dvd first i) (x := middle first i) (by omega) (by omega)]
  -- so its two ends are in the range
  have hstart := (hcs _).1 ⟨c, hc, hin (start first i) (Nat.le_refl _) (by omega)⟩
  have hend := (hcs _).1 ⟨c, hc, hin (start first i + 2 ^ (i + 1) - 1) (by omega) (by omega)⟩
  have hfirst_eq : first = start first i := Nat.le_antisymm hstart.1 h.first_ge
  have hlast_eq : last = start first i + (2 ^ (i + 1) - 1) := by
    have hlt := h.last_lt
    omega
  have hmod : start first i % 2 ^ (i + 1) = 0 := Nat.mod_eq_zero_of_dvd (start_dvd first i)
  constructor
  · rw [hfirst_eq]
    exact hmod
  · rw [hlast_eq, Nat.add_mod, hmod, Nat.zero_add, Nat.mod_mod]
    exact Nat.mod_eq_of_lt (by omega)

/-- The ends have the quotients of their halves. -/
theorem Halves.quotients {first last i : Nat} (h : Halves first last i) :
    first / 2 ^ i = (middle first i - 1) / 2 ^ i ∧ middle first i / 2 ^ i = last / 2 ^ i := by
  have hpos := Nat.two_pow_pos i
  have horder := two_pow_order i
  have hmiddle : middle first i = start first i + 2 ^ i := rfl
  have hge := h.first_ge
  have hlt := h.first_lt
  have hend := h.last_lt
  have hstart : 2 ^ i ∣ start first i :=
    Nat.dvd_trans (Nat.pow_dvd_pow 2 (Nat.le_succ i)) (start_dvd first i)
  constructor
  · rw [div_eq_div_of_dvd hstart hge hlt,
      div_eq_div_of_dvd hstart (x := middle first i - 1) (by omega) (by omega)]
  · exact (div_eq_div_of_dvd (middle_dvd first i) h.last_ge (by omega)).symm

/-- A full range is the block. -/
theorem Splits.decomposes_full {first last i : Nat} (hs : Splits first last i)
    (h : Ends first last) (hfull : Full first last i) :
    Decomposes first last [⟨start first i, 32 - (i + 1)⟩] := by
  have hsmall := hs.small
  have hbound := h.bound
  have hlt := h.lt
  have hfirst : first = start first i := by
    have hdiv := Nat.div_add_mod' first (2 ^ (i + 1))
    rw [hfull.1] at hdiv
    exact hdiv.symm
  have hlast : last = start first i + 2 ^ (i + 1) - 1 := by
    have hdiv := Nat.div_add_mod' last (2 ^ (i + 1))
    have hpos := Nat.two_pow_pos (i + 1)
    rw [hfull.2, ← hs.above] at hdiv
    change start first i + (2 ^ (i + 1) - 1) = last at hdiv
    omega
  have horder : 32 - (32 - (i + 1)) = i + 1 := by omega
  have haligned : Block.Aligned ⟨start first i, 32 - (i + 1)⟩ := by
    constructor
    · change start first i < 2 ^ 32
      omega
    · exact Nat.sub_le _ _
    · change 2 ^ (32 - (32 - (i + 1))) ∣ start first i
      rw [horder]
      exact start_dvd first i
  have hblock : last = start first i + 2 ^ (32 - (32 - (i + 1))) - 1 := by
    rw [horder]
    exact hlast
  have hd := decomposes_block haligned hblock
  rw [← hfirst] at hd ⊢
  exact hd

/-! ## The recursion -/

/-- **The recursion decomposes the range** after as many levels as the two ends have different bits. -/
theorem cidr_decomposes (k : Nat) : ∀ first last, first ≤ last → last < 2 ^ 32 →
    first / 2 ^ k = last / 2 ^ k →
      ∃ bs, (∀ n, k + 1 ≤ n → cidr n first last = some bs) ∧ Decomposes first last bs := by
  induction k using Nat.strong_induction_on with
  | _ k ih =>
    intro first last hle hlast hquot
    rcases Nat.eq_or_lt_of_le hle with rfl | hlt
    -- a single address
    · have haligned : Block.Aligned ⟨first, 32⟩ := ⟨hlast, Nat.le_refl _, Nat.one_dvd _⟩
      refine ⟨[⟨first, 32⟩], ?_, decomposes_block haligned rfl⟩
      intro n hn
      obtain ⟨n, rfl⟩ : ∃ m, n = m + 1 := ⟨n - 1, by omega⟩
      rw [cidr, if_neg (Nat.lt_irrefl _), uint_natCast, Nat.mod_eq_of_lt hlast]
    · have hends : Ends first last := ⟨hlt, hlast⟩
      have htop : first / 2 ^ 32 = last / 2 ^ 32 := by omega
      obtain ⟨i, hidx, hs⟩ := findIdx1_splits hends 31 (by decide) htop
      -- the ends have the quotient by `2 ^ k` in common, so they differ in a lower bit
      have hik : i < k := by
        by_contra hge
        obtain ⟨d, rfl⟩ : ∃ d, i = k + d := ⟨i - k, by omega⟩
        apply hs.differ
        rw [Nat.pow_add, ← Nat.div_div_eq_div_mul, hquot, Nat.div_div_eq_div_mul]
      have hh := hs.halves hlt
      by_cases hfull : Full first last i
      · refine ⟨[⟨start first i, 32 - (i + 1)⟩], ?_, hs.decomposes_full hends hfull⟩
        intro n hn
        obtain ⟨n, rfl⟩ : ∃ m, n = m + 1 := ⟨n - 1, by omega⟩
        exact (cidr_of_splits hends hidx hs.small n).1 hfull
      · -- each half has one quotient by the smaller power
        obtain ⟨hlowq, hhighq⟩ := hh.quotients
        have hmid := hh.first_lt
        have hmid' := hh.last_ge
        obtain ⟨low, hlow, hdlow⟩ := ih i hik first (middle first i - 1) (by omega) (by omega) hlowq
        obtain ⟨high, hhigh, hdhigh⟩ := ih i hik (middle first i) last hmid' hlast hhighq
        refine ⟨low ++ high, ?_, hdlow.append hdhigh hmid hmid' (not_across_of_not_full hh hfull)⟩
        intro n hn
        obtain ⟨n, rfl⟩ : ∃ m, n = m + 1 := ⟨n - 1, by omega⟩
        exact (cidr_of_splits hends hidx hs.small n).2 hfull low high (hlow n (by omega))
          (hhigh n (by omega))

/-- For every range of addresses the recursion ends, at a depth of 33 calls, and prints aligned blocks
in ascending order, pairwise disjoint, whose union is the range. No shorter list of aligned blocks has
that union. -/
theorem cidr_exact_minimal {first last : Nat} (hle : first ≤ last) (hlast : last < 2 ^ 32) :
    ∃ bs, (∀ n, 33 ≤ n → cidr n first last = some bs) ∧
      (∀ b ∈ bs, b.Aligned) ∧
      (bs.Pairwise fun b c => ∀ x ∈ b, ∀ y ∈ c, x < y) ∧
      (∀ x, (∃ b ∈ bs, x ∈ b) ↔ first ≤ x ∧ x ≤ last) ∧
      ∀ cs : List Block, (∀ c ∈ cs, c.Aligned) →
        (∀ x, (∃ c ∈ cs, x ∈ c) ↔ first ≤ x ∧ x ≤ last) → bs.length ≤ cs.length := by
  obtain ⟨bs, hbs, hd⟩ := cidr_decomposes 32 first last hle hlast (by omega)
  refine ⟨bs, hbs, hd.aligned, hd.ascending, hd.union, ?_⟩
  intro cs hcs hunion
  have hlength : (cs.map Block.interval).length = cs.length := List.length_map _
  rw [← hlength]
  apply hd.minimal
  intro x
  rw [← hunion x]
  constructor
  · rintro ⟨b, hb, hx⟩
    obtain ⟨c, hc, rfl⟩ := List.mem_map.1 hb
    exact ⟨c, hc, (hcs c hc).mem_interval.1 hx⟩
  · rintro ⟨c, hc, hx⟩
    exact ⟨c.interval, List.mem_map_of_mem hc, (hcs c hc).mem_interval.2 hx⟩

/-- All addresses but the first and the last, a range with ends that differ in bit 31. -/
theorem cidr_inner_addresses :
    ∃ bs, (∀ n, 33 ≤ n → cidr n 1 4294967294 = some bs) ∧
      (∀ b ∈ bs, b.Aligned) ∧
      (bs.Pairwise fun b c => ∀ x ∈ b, ∀ y ∈ c, x < y) ∧
      (∀ x, (∃ b ∈ bs, x ∈ b) ↔ 1 ≤ x ∧ x ≤ 4294967294) ∧
      ∀ cs : List Block, (∀ c ∈ cs, c.Aligned) →
        (∀ x, (∃ c ∈ cs, x ∈ c) ↔ 1 ≤ x ∧ x ≤ 4294967294) → bs.length ≤ cs.length :=
  cidr_exact_minimal (by decide) (by decide)

end ExamplePrograms.Other
