import Mathlib.Algebra.Group.Nat.Defs
import Mathlib.Algebra.Ring.Int.Defs
import Mathlib.Tactic.Common

/-!
# The CIDR calculators

`cidr.c` and the Rust program `cidr` print the netmask, the network, the broadcast address and the
number of usable addresses of an address and the length of a prefix. The C program works on words in
network byte order, whose bytes a host may load either way; the Rust program works on the value of the
address.

A shift by the width of a word or more is undefined in C and an overflow in Rust, as is a difference
below zero there: then a program halts without a result. The arguments are the bytes that `inet_aton`
and `parse` read from the part before the slash and the number that `atoi` and `parse` read from the
part behind it.
-/

set_option autoImplicit false

namespace ExamplePrograms.Other.Netmask

/-- The four bytes of an address, in the order in which they are written. -/
structure Ipv4Addr where
  a : BitVec 8
  b : BitVec 8
  c : BitVec 8
  d : BitVec 8
  deriving DecidableEq, Repr

namespace Ipv4Addr

/-- The word whose bytes, from the highest on, are those of the address. -/
def fromBeBytes (ip : Ipv4Addr) : BitVec 32 := ip.a ++ ip.b ++ ip.c ++ ip.d

/-- The address with the bytes of the word. -/
def toBeBytes (x : BitVec 32) : Ipv4Addr :=
  ⟨x.extractLsb' 24 8, x.extractLsb' 16 8, x.extractLsb' 8 8, x.extractLsb' 0 8⟩

/-- The bytes in the other order. -/
def reverse (ip : Ipv4Addr) : Ipv4Addr := ⟨ip.d, ip.c, ip.b, ip.a⟩

/-- A bitwise operation, byte by byte. -/
def zip (f : BitVec 8 → BitVec 8 → BitVec 8) (ip ip' : Ipv4Addr) : Ipv4Addr :=
  ⟨f ip.a ip'.a, f ip.b ip'.b, f ip.c ip'.c, f ip.d ip'.d⟩

end Ipv4Addr

/-- The order in which a host keeps the bytes of a word in memory. -/
inductive ByteOrder where
  | big
  | little
  deriving DecidableEq, Repr

namespace ByteOrder

/-- The word whose bytes in memory are those of `ip`. -/
def load : ByteOrder → Ipv4Addr → BitVec 32
  | .big, ip => ip.fromBeBytes
  | .little, ip => ip.reverse.fromBeBytes

/-- The bytes of a word in memory. -/
def store : ByteOrder → BitVec 32 → Ipv4Addr
  | .big, x => .toBeBytes x
  | .little, x => (Ipv4Addr.toBeBytes x).reverse

end ByteOrder

/-- `ntohl`. -/
def ntohl (order : ByteOrder) (x : BitVec 32) : BitVec 32 := (order.store x).fromBeBytes

/-- How a program ends that prints no result. -/
inductive Halt where
  | errorInInput
  | undefined
  | overflow
  deriving DecidableEq, Repr

/-- `BROADCAST`. -/
def broadcastAll : BitVec 32 := 0xffffffff

/-- `x << n`. -/
def shl (halt : Halt) (x : BitVec 32) (n : Int) : Except Halt (BitVec 32) :=
  if 0 ≤ n ∧ n < 32 then .ok (x <<< n.toNat) else .error halt

/-- `x >> n`. -/
def shr (halt : Halt) (x : BitVec 32) (n : Int) : Except Halt (BitVec 32) :=
  if 0 ≤ n ∧ n < 32 then .ok (x >>> n.toNat) else .error halt

/-- What both programs print. -/
structure Range where
  netmask : Ipv4Addr
  network : Ipv4Addr
  broadcast : Ipv4Addr
  usable : Int
  deriving DecidableEq, Repr

/-- `main` of `cidr.c`. -/
def mainC (order : ByteOrder) (addr : Ipv4Addr) (maskbits : Int) : Except Halt Range :=
  if maskbits > 30 then .error .errorInInput
  else do
    let sAddr := order.load addr
    let netmask := ntohl order (← shl .undefined broadcastAll (32 - maskbits))
    let network := sAddr &&& netmask
    let hostmask ← shr .undefined broadcastAll maskbits
    let broadcast := network ||| ntohl order hostmask
    return {
      netmask := order.store netmask
      network := order.store network
      broadcast := order.store broadcast
      -- an `unsigned int`, printed with `%d`
      usable := (hostmask - 1).toInt }

/-- `x + y` of the type `u32`. -/
def addU32 (x y : BitVec 32) : Except Halt (BitVec 32) :=
  if x.toNat + y.toNat < 2 ^ 32 then .ok (x + y) else .error .overflow

/-- `x - y` of the type `u32`. -/
def subU32 (x y : BitVec 32) : Except Halt (BitVec 32) :=
  if y.toNat ≤ x.toNat then .ok (x - y) else .error .overflow

/-- What the Rust program prints. -/
structure Report extends Range where
  gateway : Ipv4Addr
  deriving DecidableEq, Repr

/-- `main` of the Rust program. -/
def mainRust (ip : Ipv4Addr) (maskbits : BitVec 32) : Except Halt Report := do
  let addr := ip.fromBeBytes
  let netmask ← shl .overflow broadcastAll (← subU32 32 maskbits).toNat
  let network := netmask &&& addr
  let hostmask ← shr .overflow broadcastAll maskbits.toNat
  let broadcast := network ||| hostmask
  let gateway ← addU32 network 1
  let usable ← subU32 hostmask 1
  return {
    netmask := .toBeBytes netmask
    network := .toBeBytes network
    broadcast := .toBeBytes broadcast
    usable := usable.toNat
    gateway := .toBeBytes gateway }

/-! ## Bytes and words -/

section Bytes

open Ipv4Addr

/-- An address is the word of its bytes. -/
theorem toBeBytes_fromBeBytes (ip : Ipv4Addr) : toBeBytes ip.fromBeBytes = ip := by
  cases ip with
  | mk a b c d =>
    simp only [toBeBytes, fromBeBytes, mk.injEq]
    refine ⟨?_, ?_, ?_, ?_⟩
    · rw [BitVec.extractLsb'_append_eq_of_le (by decide),
        BitVec.extractLsb'_append_eq_of_le (by decide)]
      exact BitVec.extractLsb'_append_eq_left
    · rw [BitVec.extractLsb'_append_eq_of_le (by decide),
        BitVec.extractLsb'_append_eq_of_le (by decide)]
      exact BitVec.extractLsb'_append_eq_right
    · rw [BitVec.extractLsb'_append_eq_of_le (by decide)]
      exact BitVec.extractLsb'_append_eq_right
    · exact BitVec.extractLsb'_append_eq_right

/-- A word is the address of its bytes. -/
theorem fromBeBytes_toBeBytes (x : BitVec 32) : (toBeBytes x).fromBeBytes = x := by
  simp only [toBeBytes, fromBeBytes]
  rw [BitVec.extractLsb'_append_extractLsb'_eq_extractLsb' (by decide),
    BitVec.extractLsb'_append_extractLsb'_eq_extractLsb' (by decide),
    BitVec.extractLsb'_append_extractLsb'_eq_extractLsb' (by decide)]
  exact BitVec.extractLsb'_eq_self

/-- Conjunction works on the bytes. -/
theorem toBeBytes_and (x y : BitVec 32) :
    toBeBytes (x &&& y) = zip (· &&& ·) (toBeBytes x) (toBeBytes y) := by
  simp only [toBeBytes, zip, BitVec.extractLsb'_and]

/-- Disjunction works on the bytes. -/
theorem toBeBytes_or (x y : BitVec 32) :
    toBeBytes (x ||| y) = zip (· ||| ·) (toBeBytes x) (toBeBytes y) := by
  simp only [toBeBytes, zip, BitVec.extractLsb'_or]

variable (order : ByteOrder)

/-- `inet_aton` stores the bytes that `inet_ntoa` prints. -/
theorem store_load (ip : Ipv4Addr) : order.store (order.load ip) = ip := by
  cases order with
  | big => exact toBeBytes_fromBeBytes ip
  | little =>
    rw [ByteOrder.load, ByteOrder.store, toBeBytes_fromBeBytes]
    rfl

/-- `ntohl` puts the bytes of a value into the order in which they are written. -/
theorem store_ntohl (x : BitVec 32) : order.store (ntohl order x) = toBeBytes x := by
  cases order with
  | big => exact toBeBytes_fromBeBytes _
  | little =>
    rw [ntohl, ByteOrder.store, ByteOrder.store, toBeBytes_fromBeBytes]
    rfl

/-- Conjunction works on the bytes in memory. -/
theorem store_and (x y : BitVec 32) :
    order.store (x &&& y) = zip (· &&& ·) (order.store x) (order.store y) := by
  cases order with
  | big => exact toBeBytes_and x y
  | little =>
    rw [ByteOrder.store, toBeBytes_and]
    rfl

/-- Disjunction works on the bytes in memory. -/
theorem store_or (x y : BitVec 32) :
    order.store (x ||| y) = zip (· ||| ·) (order.store x) (order.store y) := by
  cases order with
  | big => exact toBeBytes_or x y
  | little =>
    rw [ByteOrder.store, toBeBytes_or]
    rfl

end Bytes

/-! ## The result of both programs -/

/-- The first `m` bits. -/
def prefixBits (m : Nat) : BitVec 32 := broadcastAll <<< (32 - m)

/-- The other bits. -/
def hostBits (m : Nat) : BitVec 32 := broadcastAll >>> m

/-- The broadcast address of everything has all bits. -/
theorem broadcastAll_eq : broadcastAll = BitVec.allOnes 32 := by decide

/-- The bits of the host as a number. -/
theorem toNat_hostBits {m : Nat} (hm : m ≤ 32) : (hostBits m).toNat = 2 ^ (32 - m) - 1 := by
  rw [hostBits, broadcastAll_eq, BitVec.toNat_ushiftRight, BitVec.toNat_allOnes,
    Nat.shiftRight_eq_div_pow]
  have hpow : 2 ^ (32 - m) * 2 ^ m = 2 ^ 32 := by rw [← Nat.pow_add, Nat.sub_add_cancel hm]
  have hpos := Nat.two_pow_pos m
  rw [Nat.div_eq_iff hpos, Nat.sub_mul, Nat.one_mul, hpow]
  have hle : 2 ^ m ≤ 2 ^ 32 := Nat.pow_le_pow_right (by decide) hm
  omega

/-- The network is the address rounded down to a multiple of the size of the range. -/
theorem toNat_and_prefixBits (x : BitVec 32) (m : Nat) :
    (x &&& prefixBits m).toNat = x.toNat / 2 ^ (32 - m) * 2 ^ (32 - m) := by
  have hlt : x.toNat / 2 ^ (32 - m) * 2 ^ (32 - m) < 2 ^ 32 :=
    Nat.lt_of_le_of_lt (Nat.div_mul_le_self _ _) x.isLt
  rw [prefixBits, broadcastAll_eq, ← BitVec.shiftLeft_ushiftRight, BitVec.toNat_shiftLeft,
    BitVec.toNat_ushiftRight, Nat.shiftRight_eq_div_pow, Nat.shiftLeft_eq, Nat.mod_eq_of_lt hlt]

/-- The broadcast address is the last one of the range. -/
theorem toNat_or_hostBits (x : BitVec 32) {m : Nat} (hm : m ≤ 32) :
    (x &&& prefixBits m ||| hostBits m).toNat =
      (x &&& prefixBits m).toNat + (2 ^ (32 - m) - 1) := by
  have hlt : 2 ^ (32 - m) - 1 < 2 ^ (32 - m) := Nat.sub_lt (Nat.two_pow_pos _) (by decide)
  rw [BitVec.toNat_or, toNat_and_prefixBits, toNat_hostBits hm, ← Nat.shiftLeft_eq,
    ← Nat.shiftLeft_add_eq_or_of_lt hlt]

/-- The range that both programs print. -/
def rangeOf (ip : Ipv4Addr) (m : Nat) : Range where
  netmask := .toBeBytes (prefixBits m)
  network := .toBeBytes (ip.fromBeBytes &&& prefixBits m)
  broadcast := .toBeBytes (ip.fromBeBytes &&& prefixBits m ||| hostBits m)
  usable := 2 ^ (32 - m) - 2

/-- A difference that does not overflow. -/
theorem subU32_of_le {x y : BitVec 32} (h : y.toNat ≤ x.toNat) : subU32 x y = .ok (x - y) :=
  if_pos h

section Defined

variable {m : Nat} (hpos : 1 ≤ m) (hm : m ≤ 30)

include hpos hm

/-- Between two and thirty-one bits are left for the host. -/
theorem hostBits_bounds : 2 ^ 2 ≤ 2 ^ (32 - m) ∧ 2 ^ (32 - m) ≤ 2 ^ 31 :=
  ⟨Nat.pow_le_pow_right (by decide) (by omega), Nat.pow_le_pow_right (by decide) (by omega)⟩

/-- The shift that gives the netmask. -/
theorem shl_prefixBits (halt : Halt) (n : Int) (hn : n = 32 - m) :
    shl halt broadcastAll n = .ok (prefixBits m) := by
  have hnat : n.toNat = 32 - m := by omega
  rw [shl, if_pos (by omega), prefixBits, hnat]

/-- The shift that gives the bits of the host. -/
theorem shr_hostBits (halt : Halt) : shr halt broadcastAll m = .ok (hostBits m) := by
  rw [shr, if_pos (by omega), hostBits, Int.toNat_natCast]

/-- The number of usable hosts. -/
theorem toNat_hostBits_sub_one : (hostBits m - 1).toNat = 2 ^ (32 - m) - 2 := by
  have hbounds := hostBits_bounds hpos hm
  have hbits := toNat_hostBits (m := m) (by omega)
  rw [BitVec.toNat_sub_of_le]
  · rw [hbits]
    rfl
  · rw [BitVec.le_def, hbits]
    show 1 ≤ _
    omega

/-- **The C program** prints the range, with any byte order. -/
theorem mainC_eq (order : ByteOrder) (ip : Ipv4Addr) :
    mainC order ip m = .ok (rangeOf ip m) := by
  have husable : (hostBits m - 1).toInt = 2 ^ (32 - m) - 2 := by
    have hbounds := hostBits_bounds hpos hm
    have hval := toNat_hostBits_sub_one hpos hm
    have hcast : ((2 ^ (32 - m) : Nat) : Int) = 2 ^ (32 - m) := by push_cast; rfl
    rw [BitVec.toInt_eq_toNat_of_lt (by omega), hval]
    omega
  rw [mainC, if_neg (by omega), shl_prefixBits hpos hm _ _ rfl, shr_hostBits hpos hm]
  show Except.ok _ = _
  -- the words of the C program are stored in the order in which they are written
  simp only [store_ntohl, store_and, store_or, store_load, husable, rangeOf, toBeBytes_and,
    toBeBytes_or, toBeBytes_fromBeBytes]

/-- The range ends within the addresses, so that there is one behind the network. -/
theorem toNat_network_add (x : BitVec 32) :
    (x &&& prefixBits m).toNat + 2 ^ (32 - m) ≤ 2 ^ 32 := by
  have hpow : 2 ^ (32 - m) * 2 ^ m = 2 ^ 32 := by rw [← Nat.pow_add, Nat.sub_add_cancel (by omega)]
  have hq : x.toNat / 2 ^ (32 - m) < 2 ^ m := by
    rw [Nat.div_lt_iff_lt_mul (Nat.two_pow_pos _), Nat.mul_comm, hpow]
    exact x.isLt
  have hmul := Nat.mul_le_mul_left (2 ^ (32 - m)) hq
  rw [hpow] at hmul
  rw [toNat_and_prefixBits, Nat.mul_comm]
  exact hmul

/-- **The Rust program** prints the range, and a gateway. -/
theorem mainRust_eq (ip : Ipv4Addr) :
    mainRust ip (BitVec.ofNat 32 m) =
      .ok ⟨rangeOf ip m, .toBeBytes ((ip.fromBeBytes &&& prefixBits m) + 1)⟩ := by
  have hbounds := hostBits_bounds hpos hm
  have hbits : (BitVec.ofNat 32 m).toNat = m := by
    rw [BitVec.toNat_ofNat, Nat.mod_eq_of_lt (by omega)]
  have hle : (BitVec.ofNat 32 m).toNat ≤ (32 : BitVec 32).toNat := by
    rw [hbits]
    show m ≤ 32
    omega
  have hdiff : ((32 - BitVec.ofNat 32 m : BitVec 32).toNat : Int) = 32 - m := by
    rw [BitVec.toNat_sub_of_le hle, hbits]
    show ((32 - m : Nat) : Int) = 32 - m
    omega
  have hone : (1 : BitVec 32).toNat ≤ (hostBits m).toNat := by
    rw [toNat_hostBits (by omega)]
    show 1 ≤ _
    omega
  have hgateway : addU32 (ip.fromBeBytes &&& prefixBits m) 1 =
      .ok ((ip.fromBeBytes &&& prefixBits m) + 1) := by
    have hend := toNat_network_add hpos hm ip.fromBeBytes
    refine if_pos ?_
    show _ + 1 < _
    omega
  have husable : ((hostBits m - 1).toNat : Int) = 2 ^ (32 - m) - 2 := by
    have hcast : ((2 ^ (32 - m) : Nat) : Int) = 2 ^ (32 - m) := by push_cast; rfl
    rw [toNat_hostBits_sub_one hpos hm]
    omega
  rw [mainRust, subU32_of_le hle]
  show (shl .overflow broadcastAll _ >>= _) = _
  rw [shl_prefixBits hpos hm _ _ hdiff, hbits, shr_hostBits hpos hm, BitVec.and_comm]
  show (addU32 (prefixBits m &&& ip.fromBeBytes) 1 >>= _) = _
  rw [BitVec.and_comm, hgateway]
  show (subU32 (hostBits m) 1 >>= _) = _
  rw [subU32_of_le hone]
  show Except.ok _ = _
  rw [husable]
  rfl

end Defined

/-- What a calculator is to print for an address and the length of its prefix. -/
structure Describes (ip : Ipv4Addr) (m : Nat) (r : Range) : Prop where
  netmask : ∀ i < 32, r.netmask.fromBeBytes.getMsbD i = decide (i < m)
  network : r.network.fromBeBytes = ip.fromBeBytes &&& r.netmask.fromBeBytes
  network_le : r.network.fromBeBytes ≤ ip.fromBeBytes
  le_broadcast : ip.fromBeBytes ≤ r.broadcast.fromBeBytes
  size : (r.broadcast.fromBeBytes.toNat : Int) - r.network.fromBeBytes.toNat + 1 = 2 ^ (32 - m)
  usable : r.usable = 2 ^ (32 - m) - 2

/-- **The range describes the network.** -/
theorem describes_rangeOf (ip : Ipv4Addr) {m : Nat} (hm : m ≤ 32) : Describes ip m (rangeOf ip m) := by
  have hpos := Nat.two_pow_pos (32 - m)
  have hcast : ((2 ^ (32 - m) : Nat) : Int) = 2 ^ (32 - m) := by push_cast; rfl
  have hnetwork := toNat_and_prefixBits ip.fromBeBytes m
  have hbroadcast := toNat_or_hostBits ip.fromBeBytes hm
  -- the address lies between two multiples of the size
  have hdiv := Nat.div_add_mod ip.fromBeBytes.toNat (2 ^ (32 - m))
  have hmod := Nat.mod_lt ip.fromBeBytes.toNat hpos
  rw [Nat.mul_comm] at hdiv
  constructor
  · intro i hi
    rw [rangeOf, fromBeBytes_toBeBytes, prefixBits, broadcastAll_eq, BitVec.getMsbD_shiftLeft,
      BitVec.getMsbD_allOnes, decide_eq_decide]
    omega
  · simp only [rangeOf, fromBeBytes_toBeBytes]
  · rw [BitVec.le_def, rangeOf, fromBeBytes_toBeBytes, hnetwork]
    exact Nat.div_mul_le_self _ _
  · rw [BitVec.le_def, rangeOf, fromBeBytes_toBeBytes, hbroadcast, hnetwork]
    omega
  · simp only [rangeOf, fromBeBytes_toBeBytes, hbroadcast]
    omega
  · rfl

/-- **The two calculators agree**, and print the range that the address and the prefix describe,
exactly when the prefix is not empty. With an empty prefix both shift by the width of the word. -/
theorem calculators_agree_iff (order : ByteOrder) (ip : Ipv4Addr) {m : Nat} (hm : m ≤ 30) :
    (∃ r gateway, mainC order ip m = .ok r ∧
      mainRust ip (BitVec.ofNat 32 m) = .ok ⟨r, gateway⟩ ∧ Describes ip m r) ↔ 1 ≤ m := by
  constructor
  · rintro ⟨r, gateway, hc, -⟩
    by_contra hzero
    obtain rfl : m = 0 := by omega
    cases hc
  · intro hpos
    exact ⟨rangeOf ip m, _, mainC_eq hpos hm order ip, mainRust_eq hpos hm ip,
      describes_rangeOf ip (by omega)⟩

/-- A class A network. -/
theorem calculators_agree_class_a :
    ∃ r gateway, mainC .little ⟨10, 1, 2, 3⟩ (8 : Nat) = .ok r ∧
      mainRust ⟨10, 1, 2, 3⟩ (BitVec.ofNat 32 8) = .ok ⟨r, gateway⟩ ∧
      Describes ⟨10, 1, 2, 3⟩ 8 r :=
  (calculators_agree_iff .little ⟨10, 1, 2, 3⟩ (m := 8) (by decide)).2 (by decide)

/-- Both programs take an empty prefix, for the range of all addresses, and shift by 32. -/
theorem empty_prefix_undefined :
    mainC .little ⟨10, 1, 2, 3⟩ (0 : Nat) = .error .undefined ∧
      mainRust ⟨10, 1, 2, 3⟩ (BitVec.ofNat 32 0) = .error .overflow ∧
      ¬ ∃ r gateway, mainC .little ⟨10, 1, 2, 3⟩ (0 : Nat) = .ok r ∧
        mainRust ⟨10, 1, 2, 3⟩ (BitVec.ofNat 32 0) = .ok ⟨r, gateway⟩ ∧
        Describes ⟨10, 1, 2, 3⟩ 0 r := by
  refine ⟨rfl, rfl, ?_⟩
  rintro ⟨r, gateway, hc, -⟩
  cases hc

end ExamplePrograms.Other.Netmask
