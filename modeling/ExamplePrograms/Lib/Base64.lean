import Mathlib.Data.List.Basic
import Mathlib.Tactic.Common

/-!
# Base 64

Three bytes are four symbols of an alphabet of 64; one or two bytes at the end are padded. `decode`
inverts `encode` (`decode_encode`), and the symbols are printable ASCII (`encode_printable`).
-/

set_option autoImplicit false

namespace ExamplePrograms.Lib.Base64

/-- The character for a value below 64. -/
def symbol (i : Nat) : UInt8 :=
  if i < 26 then .ofNat (65 + i)
  else if i < 52 then .ofNat (97 + (i - 26))
  else if i < 62 then .ofNat (48 + (i - 52))
  else if i = 62 then 43
  else 47

/-- The value of a character of the alphabet. -/
def value (c : UInt8) : Option Nat :=
  if 65 ≤ c ∧ c ≤ 90 then some (c.toNat - 65)
  else if 97 ≤ c ∧ c ≤ 122 then some (c.toNat - 97 + 26)
  else if 48 ≤ c ∧ c ≤ 57 then some (c.toNat - 48 + 52)
  else if c = 43 then some 62
  else if c = 47 then some 63
  else none

/-- The character `=` that fills the last group. -/
def pad : UInt8 := 61

/-- Groups of three bytes as four characters. -/
def encode : List UInt8 → List UInt8
  | [] => []
  | [a] => [symbol (a.toNat / 4), symbol (a.toNat % 4 * 16), pad, pad]
  | [a, b] =>
      [symbol (a.toNat / 4), symbol (a.toNat % 4 * 16 + b.toNat / 16), symbol (b.toNat % 16 * 4), pad]
  | a :: b :: c :: rest =>
      symbol (a.toNat / 4) :: symbol (a.toNat % 4 * 16 + b.toNat / 16) ::
        symbol (b.toNat % 16 * 4 + c.toNat / 64) :: symbol (c.toNat % 64) :: encode rest

/-- The first byte of a group, from the values of its first two characters. -/
def firstByte (w x : Nat) : UInt8 := .ofNat (w * 4 + x / 16)

/-- The second byte of a group, from the values in the middle. -/
def secondByte (x y : Nat) : UInt8 := .ofNat (x % 16 * 16 + y / 4)

/-- The third byte of a group, from the values of its last two characters. -/
def thirdByte (y z : Nat) : UInt8 := .ofNat (y % 4 * 64 + z)

/-- Groups of four characters as up to three bytes. Characters outside the alphabet are refused. -/
def decode : List UInt8 → Option (List UInt8)
  | [] => some []
  | w :: x :: y :: z :: rest =>
      (value w).bind fun w => (value x).bind fun x =>
        if y = pad then some [firstByte w x]
        else (value y).bind fun y =>
          if z = pad then some [firstByte w x, secondByte x y]
          else (value z).bind fun z => (decode rest).map fun bytes =>
            firstByte w x :: secondByte x y :: thirdByte y z :: bytes
  | _ => none

/-- Every value is read back from its character. -/
theorem value_symbol : ∀ i < 64, value (symbol i) = some i := by decide

/-- The filling character stands for no value. -/
theorem symbol_ne_pad : ∀ i < 64, symbol i ≠ pad := by decide

/-- A symbol is printable. -/
theorem symbol_printable : ∀ i < 64, 32 < symbol i ∧ symbol i < 127 := by decide

/-- The first byte is put together again from its two parts. -/
theorem firstByte_eq (a : UInt8) {low : Nat} (h : low < 16) :
    firstByte (a.toNat / 4) (a.toNat % 4 * 16 + low) = a := by
  have hnumber : a.toNat / 4 * 4 + (a.toNat % 4 * 16 + low) / 16 = a.toNat := by omega
  rw [firstByte, hnumber, UInt8.ofNat_toNat]

/-- The second byte is put together again from its two parts. -/
theorem secondByte_eq (b : UInt8) (high : Nat) {low : Nat} (h : low < 4) :
    secondByte (high * 16 + b.toNat / 16) (b.toNat % 16 * 4 + low) = b := by
  have hb := b.toNat_lt
  have hnumber : (high * 16 + b.toNat / 16) % 16 * 16 + (b.toNat % 16 * 4 + low) / 4 = b.toNat := by
    omega
  rw [secondByte, hnumber, UInt8.ofNat_toNat]

/-- The third byte is put together again from its two parts. -/
theorem thirdByte_eq (c : UInt8) (high : Nat) :
    thirdByte (high * 4 + c.toNat / 64) (c.toNat % 64) = c := by
  have hc := c.toNat_lt
  have hnumber : (high * 4 + c.toNat / 64) % 4 * 64 + c.toNat % 64 = c.toNat := by omega
  rw [thirdByte, hnumber, UInt8.ofNat_toNat]

/-- **Round trip of the encoding.** -/
theorem decode_encode (bytes : List UInt8) : decode (encode bytes) = some bytes := by
  induction bytes using encode.induct with
  | case1 => rfl
  | case2 a =>
    have ha := a.toNat_lt
    rw [encode, decode, value_symbol _ (by omega), value_symbol _ (by omega), Option.bind_some,
      Option.bind_some, if_pos rfl]
    exact congrArg (fun x => some [x]) (firstByte_eq a (by decide : 0 < 16))
  | case3 a b =>
    have ha := a.toNat_lt
    have hb := b.toNat_lt
    rw [encode, decode, value_symbol _ (by omega), value_symbol _ (by omega),
      value_symbol _ (by omega), Option.bind_some, Option.bind_some,
      if_neg (symbol_ne_pad _ (by omega)), Option.bind_some, if_pos rfl, firstByte_eq a (by omega)]
    exact congrArg (fun x => some [a, x]) (secondByte_eq b _ (by decide : 0 < 4))
  | case4 a b c rest ih =>
    have ha := a.toNat_lt
    have hb := b.toNat_lt
    have hc := c.toNat_lt
    rw [encode, decode, value_symbol _ (by omega), value_symbol _ (by omega),
      value_symbol _ (by omega), value_symbol _ (by omega), Option.bind_some, Option.bind_some,
      if_neg (symbol_ne_pad _ (by omega)), Option.bind_some, if_neg (symbol_ne_pad _ (by omega)),
      Option.bind_some, ih, Option.map_some, firstByte_eq a (by omega), secondByte_eq b _ (by omega),
      thirdByte_eq c]

/-- An encoding consists of visible ASCII characters. -/
theorem encode_printable (bytes : List UInt8) : ∀ c ∈ encode bytes, 32 < c ∧ c < 127 := by
  have hpad : 32 < pad ∧ pad < 127 := by decide
  induction bytes using encode.induct with
  | case1 => exact fun c hc => nomatch hc
  | case2 a =>
    have ha := a.toNat_lt
    simp only [encode, List.forall_mem_cons]
    exact ⟨symbol_printable _ (by omega), symbol_printable _ (by omega), hpad, hpad,
      fun c hc => nomatch hc⟩
  | case3 a b =>
    have ha := a.toNat_lt
    have hb := b.toNat_lt
    simp only [encode, List.forall_mem_cons]
    exact ⟨symbol_printable _ (by omega), symbol_printable _ (by omega),
      symbol_printable _ (by omega), hpad, fun c hc => nomatch hc⟩
  | case4 a b c rest ih =>
    have ha := a.toNat_lt
    have hb := b.toNat_lt
    have hc := c.toNat_lt
    simp only [encode, List.forall_mem_cons]
    exact ⟨symbol_printable _ (by omega), symbol_printable _ (by omega),
      symbol_printable _ (by omega), symbol_printable _ (by omega), ih⟩

end ExamplePrograms.Lib.Base64
