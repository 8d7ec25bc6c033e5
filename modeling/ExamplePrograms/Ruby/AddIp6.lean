import ExamplePrograms.Lib.Numerals

/-!
# Encoded record data of an IPv6 address

`add-ip6.rb` writes the 16 bytes of an IPv6 address as octal escapes. It takes them from the hexadecimal
numeral of the address, which it cuts into pairs of digits from the left.

A numeral has no leading zeros. `rdata_eq_iff` says for which addresses the escapes are those of the
address: the ones whose numeral has all 32 digits.
-/

set_option autoImplicit false

namespace ExamplePrograms.Ruby.AddIp6

open ExamplePrograms.Lib.Numerals

/-- An IPv6 address, as the number that `IPAddr#to_i` gives. -/
abbrev IPAddr := BitVec 128

/-- `scan(/../)`: the pairs of characters, without a last character that has no other. -/
def scanPairs : List Char → List (Char × Char)
  | a :: b :: rest => (a, b) :: scanPairs rest
  | _ => []

/-- The value of a digit of `to_s(16)`. -/
def hexValue (c : Char) : Nat := if c ≤ '9' then c.toNat - 48 else c.toNat - 87

/-- `to_i(16)` of a pair of digits. -/
def toI16 (i : Char × Char) : Nat := 16 * hexValue i.1 + hexValue i.2

/-- `'\\%03o' % n`. -/
def escape (n : Nat) : List Char := '\\' :: (Nat.toDigits 8 n).leftpad 3 '0'

/-- The bytes that the pairs stand for. -/
def pairValues (n : Nat) : List Nat := (scanPairs (Nat.toDigits 16 n)).map toI16

/-- The octal escapes of the address. -/
def rdata (ip : IPAddr) : List Char := (pairValues ip.toNat).flatMap escape

/-! ## What the escapes stand for -/

/-- The bytes of an address in network order. -/
def networkBytes (ip : IPAddr) : List (BitVec 8) :=
  (List.range 16).map fun i => ip.extractLsb' (8 * (15 - i)) 8

/-- The value of an octal digit. -/
def octalValue (c : Char) : Option Nat :=
  if '0' ≤ c ∧ c ≤ '7' then some (c.toNat - 48) else none

/-- The values of a string that consists of three-digit octal escapes. -/
def unescape : List Char → Option (List Nat)
  | [] => some []
  | '\\' :: a :: b :: c :: rest => do
      let a ← octalValue a
      let b ← octalValue b
      let c ← octalValue c
      return (64 * a + 8 * b + c) :: (← unescape rest)
  | _ => none

/-- The last `k` bytes of a number, the highest one first. -/
def bigEndian : Nat → Nat → List Nat
  | 0, _ => []
  | k + 1, n => bigEndian k (n / 256) ++ [n % 256]

/-! ## Escapes -/

/-- Octal digits are read back. -/
theorem octalValue_digitChar {d : Nat} (h : d < 8) : octalValue d.digitChar = some d := by
  have hall : ∀ d < 8, octalValue d.digitChar = some d := by decide
  exact hall d h

/-- An escape has three octal digits. -/
theorem escape_eq {n : Nat} (h : n < 256) :
    escape n = ['\\', (n / 64).digitChar, (n / 8 % 8).digitChar, (n % 8).digitChar] := by
  rw [escape]
  congr 1
  by_cases h8 : n < 8
  · rw [Nat.toDigits_of_lt_base h8, Nat.div_eq_of_lt (by omega), Nat.div_eq_of_lt h8,
      Nat.mod_eq_of_lt h8]
    rfl
  · by_cases h64 : n < 64
    · rw [toDigits_two (by decide) (by omega) (by omega), Nat.div_eq_of_lt h64,
        Nat.mod_eq_of_lt (show n / 8 < 8 by omega)]
      rfl
    · rw [Nat.toDigits_of_base_le (by decide) (by omega),
        toDigits_two (by decide) (by omega) (by omega), Nat.div_div_eq_div_mul]
      rfl

/-- An escape is read back, before any other text. -/
theorem unescape_escape {n : Nat} (h : n < 256) (rest : List Char) :
    unescape (escape n ++ rest) = (unescape rest).map (n :: ·) := by
  have hvalue : 64 * (n / 64) + 8 * (n / 8 % 8) + n % 8 = n := by omega
  rw [escape_eq h, List.cons_append, List.cons_append, List.cons_append, List.cons_append,
    List.nil_append, unescape, octalValue_digitChar (show n / 64 < 8 by omega),
    octalValue_digitChar (show n / 8 % 8 < 8 by omega),
    octalValue_digitChar (show n % 8 < 8 by omega)]
  cases unescape rest with
  | none => rfl
  | some values => simp [hvalue]

/-- Octal escapes are read back. -/
theorem unescape_flatMap_escape {bytes : List Nat} (h : ∀ n ∈ bytes, n < 256) :
    unescape (bytes.flatMap escape) = some bytes := by
  induction bytes with
  | nil => rfl
  | cons n bytes ih =>
    rw [List.forall_mem_cons] at h
    rw [List.flatMap_cons, unescape_escape h.1, ih h.2]
    rfl

/-! ## Pairs of digits -/

/-- Hexadecimal digits are read back. -/
theorem hexValue_digitChar {d : Nat} (h : d < 16) : hexValue d.digitChar = d := by
  have hall : ∀ d < 16, hexValue d.digitChar = d := by decide
  exact hall d h

/-- Two hexadecimal digits are read as a byte. -/
theorem toI16_digitChar (n : Nat) :
    toI16 ((n / 16 % 16).digitChar, (n % 16).digitChar) = n % 256 := by
  rw [toI16, hexValue_digitChar (Nat.mod_lt _ (by decide)),
    hexValue_digitChar (Nat.mod_lt _ (by decide))]
  omega

@[simp] theorem length_scanPairs : ∀ ds : List Char, (scanPairs ds).length = ds.length / 2
  | [] => rfl
  | [a] => by simp [scanPairs]
  | a :: b :: rest => by
      rw [scanPairs, List.length_cons, length_scanPairs rest, List.length_cons, List.length_cons]
      omega

/-- Two more characters behind an even number of them are one more pair. -/
theorem scanPairs_append (a b : Char) : ∀ {ds : List Char}, ds.length % 2 = 0 →
    scanPairs (ds ++ [a, b]) = scanPairs ds ++ [(a, b)]
  | [], _ => rfl
  | [c], h => absurd h (by simp)
  | c :: d :: rest, h => by
      have hrest : rest.length % 2 = 0 := by
        rw [List.length_cons, List.length_cons] at h
        omega
      rw [List.cons_append, List.cons_append, scanPairs, scanPairs, List.cons_append,
        scanPairs_append a b hrest]

/-- A numeral with an even number of digits is cut into the bytes of its number. -/
theorem pairValues_eq_bigEndian {k n : Nat} (h : (Nat.toDigits 16 n).length = 2 * k) :
    pairValues n = bigEndian k n := by
  induction k generalizing n with
  | zero => exact absurd h (Nat.ne_of_gt Nat.length_toDigits_pos)
  | succ k ih =>
    have hlow : 16 ≤ n := by
      refine Nat.le_of_not_lt fun hlt => ?_
      rw [Nat.toDigits_of_lt_base hlt, List.length_singleton] at h
      omega
    rw [pairValues, bigEndian]
    by_cases hbyte : n / 16 < 16
    · rw [toDigits_two (by decide) hlow hbyte] at h ⊢
      obtain rfl : k = 0 := by
        rw [List.length_cons, List.length_singleton] at h
        omega
      have hvalue := toI16_digitChar n
      rw [Nat.mod_eq_of_lt hbyte] at hvalue
      exact congrArg (fun value => [value]) hvalue
    · have hdigits : Nat.toDigits 16 n =
          Nat.toDigits 16 (n / 256) ++ [(n / 16 % 16).digitChar, (n % 16).digitChar] :=
        toDigits_last_two (by decide) (Nat.le_of_not_lt hbyte)
      rw [hdigits] at h ⊢
      have hlen : (Nat.toDigits 16 (n / 256)).length = 2 * k := by
        rw [List.length_append, List.length_cons, List.length_singleton] at h
        omega
      rw [scanPairs_append _ _ (by omega), List.map_append, ← ih hlen]
      exact congrArg (fun value => pairValues (n / 256) ++ [value]) (toI16_digitChar n)

/-- A pair consists of characters of the text. -/
theorem mem_of_mem_scanPairs {a b : Char} : ∀ {ds : List Char}, (a, b) ∈ scanPairs ds → a ∈ ds ∧ b ∈ ds
  | [], h => absurd h List.not_mem_nil
  | [_], h => absurd h List.not_mem_nil
  | c :: d :: rest, h => by
      rw [scanPairs, List.mem_cons] at h
      rcases h with h | h
      · cases h
        simp
      · have hrest := mem_of_mem_scanPairs h
        exact ⟨.tail c (.tail d hrest.1), .tail c (.tail d hrest.2)⟩

/-- The values of the pairs are bytes. -/
theorem pairValues_lt (n : Nat) : ∀ value ∈ pairValues n, value < 256 := by
  rw [pairValues, List.forall_mem_map]
  rintro ⟨a, b⟩ hpair
  obtain ⟨ha, hb⟩ := mem_of_mem_scanPairs hpair
  obtain ⟨x, hx, rfl⟩ := mem_toDigits (by decide) ha
  obtain ⟨y, hy, rfl⟩ := mem_toDigits (by decide) hb
  rw [toI16, hexValue_digitChar hx, hexValue_digitChar hy]
  omega

/-- The number of pairs. -/
theorem length_pairValues (n : Nat) :
    (pairValues n).length = (Nat.toDigits 16 n).length / 2 := by
  rw [pairValues, List.length_map, length_scanPairs]

/-! ## The escapes of an address -/

/-- The number of bytes. -/
theorem length_bigEndian (k n : Nat) : (bigEndian k n).length = k := by
  induction k generalizing n with
  | zero => rfl
  | succ k ih => rw [bigEndian, List.length_append, ih, List.length_singleton]

/-- The bytes of a number, by their positions. -/
theorem bigEndian_eq_map (k n : Nat) :
    bigEndian k n = (List.range k).map fun i => n / 2 ^ (8 * (k - 1 - i)) % 256 := by
  induction k generalizing n with
  | zero => rfl
  | succ k ih =>
    rw [bigEndian, ih, List.range_succ, List.map_append, List.map_singleton, Nat.add_sub_cancel,
      Nat.sub_self, Nat.mul_zero, Nat.pow_zero, Nat.div_one]
    congr 1
    refine List.map_congr_left fun i hi => ?_
    have hlt := List.mem_range.1 hi
    rw [Nat.div_div_eq_div_mul, show (256 : Nat) = 2 ^ 8 from rfl, ← Nat.pow_add]
    congr 3
    omega

/-- The bytes of an address in network order. -/
theorem toNat_networkBytes (ip : IPAddr) :
    (networkBytes ip).map BitVec.toNat = bigEndian 16 ip.toNat := by
  rw [bigEndian_eq_map, networkBytes, List.map_map]
  refine List.map_congr_left fun i _ => ?_
  show (ip.extractLsb' (8 * (15 - i)) 8).toNat = _
  rw [BitVec.extractLsb'_toNat, Nat.shiftRight_eq_div_pow]


/-- **The addresses whose record data is right.** The escapes are sixteen and their values the bytes of
the address exactly when the first digit of the address is not zero. -/
theorem rdata_eq_iff (ip : IPAddr) :
    unescape (rdata ip) = some ((networkBytes ip).map BitVec.toNat) ↔ 2 ^ 124 ≤ ip.toNat := by
  have hlt : ip.toNat < 16 ^ 32 := ip.isLt
  have hle := (Nat.length_toDigits_le_iff (b := 16) (by decide) (by decide)).2 hlt
  have hfull := Nat.length_toDigits_le_iff (b := 16) (n := ip.toNat) (k := 31) (by decide) (by decide)
  rw [rdata, unescape_flatMap_escape (pairValues_lt ip.toNat), Option.some_inj, toNat_networkBytes]
  constructor
  · intro h
    have hlen := congrArg List.length h
    rw [length_pairValues, length_bigEndian] at hlen
    omega
  · intro h
    exact pairValues_eq_bigEndian (by omega)

/-- The record data of `::1` is empty. -/
theorem rdata_loopback :
    ¬ (∀ ip : IPAddr, unescape (rdata ip) = some ((networkBytes ip).map BitVec.toNat)) ∧
      rdata 1#128 = [] := by
  have hempty : rdata 1#128 = [] := by decide
  refine ⟨fun h => ?_, hempty⟩
  have hone := h 1#128
  rw [hempty, unescape] at hone
  exact absurd (congrArg List.length (Option.some.inj hone)) (by decide)

end ExamplePrograms.Ruby.AddIp6
