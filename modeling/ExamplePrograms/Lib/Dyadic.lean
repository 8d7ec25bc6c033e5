import Mathlib.Algebra.Group.Nat.Defs
import Mathlib.Data.List.Basic
import Mathlib.Tactic.Common

/-!
# Dyadic intervals

A dyadic interval of order `e` is a set of numbers with a common quotient by `2 ^ e`. Two of them are
nested or disjoint; in the form used here, one that holds both neighbours of a boundary `m` is of a
higher order than any power of two that divides `m` (`order_lt_of_straddles`).

`Covers bs lo hi` says that the union of the list `bs` is the interval from `lo` to `hi`. A list that
covers an interval and has no member across a boundary splits into one for each side
(`Covers.length_split`), which is how a lower bound on the number of members is proved.
-/

set_option autoImplicit false

namespace ExamplePrograms.Lib.Dyadic

/-- The numbers with quotient `index` by `2 ^ order`. -/
structure Interval where
  index : Nat
  order : Nat
  deriving DecidableEq, Repr

instance : Membership Nat Interval where
  mem b x := x / 2 ^ b.order = b.index

/-- Membership read off the leading bits. -/
theorem mem_iff_div {b : Interval} {x : Nat} : x ∈ b ↔ x / 2 ^ b.order = b.index := Iff.rfl

/-- A dyadic interval as an interval. -/
theorem mem_iff {b : Interval} {x : Nat} :
    x ∈ b ↔ b.index * 2 ^ b.order ≤ x ∧ x < (b.index + 1) * 2 ^ b.order := by
  rw [mem_iff_div, Nat.div_eq_iff (Nat.two_pow_pos b.order), Nat.add_mul, Nat.one_mul]
  have hpos := Nat.two_pow_pos b.order
  omega

instance (b : Interval) (x : Nat) : Decidable (x ∈ b) :=
  inferInstanceAs (Decidable (x / 2 ^ b.order = b.index))

/-- A dyadic interval holds all numbers between two of its members. -/
theorem mem_of_between {b : Interval} {x y z : Nat} (hx : x ∈ b) (hz : z ∈ b) (hxy : x ≤ y)
    (hyz : y ≤ z) : y ∈ b := by
  rw [mem_iff] at *
  omega

/-- An interval with members on both sides of a boundary is of a higher order than the powers of two
that divide it. -/
theorem order_lt_of_straddles {b : Interval} {m k : Nat} (hm : 0 < m) (hk : 2 ^ k ∣ m)
    (hleft : m - 1 ∈ b) (hright : m ∈ b) : k < b.order := by
  by_contra hle
  have hdvd : 2 ^ b.order ∣ m := Nat.dvd_trans (Nat.pow_dvd_pow 2 (Nat.not_lt.1 hle)) hk
  obtain ⟨q, rfl⟩ := hdvd
  have hpos := Nat.two_pow_pos b.order
  rw [mem_iff_div, Nat.mul_div_cancel_left q hpos] at hright
  -- the member before the boundary has the quotient before
  rw [mem_iff, ← hright, Nat.mul_comm q] at hleft
  omega

/-- Such an interval holds the whole dyadic interval of the next order around the boundary. -/
theorem mem_of_straddles {b : Interval} {m k x : Nat} (hm : 0 < m) (hk : 2 ^ k ∣ m)
    (hleft : m - 1 ∈ b) (hright : m ∈ b) (hx : x / 2 ^ (k + 1) = m / 2 ^ (k + 1)) : x ∈ b := by
  have hlt := order_lt_of_straddles hm hk hleft hright
  obtain ⟨d, hd⟩ : ∃ d, b.order = k + 1 + d := ⟨b.order - (k + 1), by omega⟩
  rw [mem_iff_div] at hright ⊢
  rw [← hright, hd, Nat.pow_add, ← Nat.div_div_eq_div_mul, hx, Nat.div_div_eq_div_mul]

/-- The union of the intervals is the interval from `lo` to `hi`. -/
def Covers (bs : List Interval) (lo hi : Nat) : Prop :=
  ∀ x, (∃ b ∈ bs, x ∈ b) ↔ lo ≤ x ∧ x ≤ hi

/-- A covering of a nonempty range has a block. -/
theorem Covers.length_pos {bs : List Interval} {lo hi : Nat} (h : Covers bs lo hi) (hle : lo ≤ hi) :
    1 ≤ bs.length := by
  obtain ⟨b, hb, -⟩ := (h lo).2 ⟨Nat.le_refl _, hle⟩
  exact List.length_pos_of_mem hb

/-- The interval starts before the boundary. -/
def startsBefore (m : Nat) (b : Interval) : Bool := decide (b.index * 2 ^ b.order < m)

/-- An interval that starts before the boundary and is not across it stays before it. -/
theorem lt_of_startsBefore {b : Interval} {m x : Nat} (hm : m - 1 ∈ b → m ∉ b)
    (hs : startsBefore m b = true) (hx : x ∈ b) : x < m := by
  have hlt : b.index * 2 ^ b.order < m := of_decide_eq_true hs
  have hstart : b.index * 2 ^ b.order ∈ b := by
    rw [mem_iff_div, Nat.mul_div_cancel _ (Nat.two_pow_pos b.order)]
  by_contra hge
  exact hm (mem_of_between hstart hx (by omega) (by omega))
    (mem_of_between hstart hx (by omega) (by omega))

section Split

variable {bs : List Interval} {lo m hi : Nat} (h : Covers bs lo hi)
  (hm : ∀ b ∈ bs, m - 1 ∈ b → m ∉ b)

include h hm

/-- The blocks before a border cover the part of the range before it. -/
theorem Covers.left (hlo : lo < m) (hhi : m ≤ hi) :
    Covers (bs.filter (startsBefore m)) lo (m - 1) := by
  intro x
  constructor
  · rintro ⟨b, hb, hx⟩
    obtain ⟨hmem, hs⟩ := List.mem_filter.1 hb
    have hlt := lt_of_startsBefore (hm b hmem) hs hx
    have hin := (h x).1 ⟨b, hmem, hx⟩
    omega
  · intro hx
    obtain ⟨b, hb, hxb⟩ := (h x).2 (by omega)
    refine ⟨b, List.mem_filter.2 ⟨hb, ?_⟩, hxb⟩
    have hstart := (mem_iff.1 hxb).1
    exact decide_eq_true (by omega)

/-- The blocks from a border on cover the rest of the range. -/
theorem Covers.right (hlo : lo < m) :
    Covers (bs.filter fun b => !startsBefore m b) m hi := by
  intro x
  constructor
  · rintro ⟨b, hb, hx⟩
    obtain ⟨hmem, hs⟩ := List.mem_filter.1 hb
    have hge : ¬ b.index * 2 ^ b.order < m := by
      simpa [startsBefore] using hs
    have hstart := (mem_iff.1 hx).1
    have hin := (h x).1 ⟨b, hmem, hx⟩
    omega
  · intro hx
    obtain ⟨b, hb, hxb⟩ := (h x).2 (by omega)
    refine ⟨b, List.mem_filter.2 ⟨hb, ?_⟩, hxb⟩
    cases hs : startsBefore m b with
    | false => rfl
    | true =>
      have hlt := lt_of_startsBefore (hm b hb) hs hxb
      omega

/-- A list that covers both sides of a boundary and has no member across it is as long as the lists
for the two sides together. -/
theorem Covers.length_split (hlo : lo < m) (hhi : m ≤ hi) {n₁ n₂ : Nat}
    (hleft : ∀ cs, Covers cs lo (m - 1) → n₁ ≤ cs.length)
    (hright : ∀ cs, Covers cs m hi → n₂ ≤ cs.length) : n₁ + n₂ ≤ bs.length := by
  rw [List.length_eq_length_filter_add (startsBefore m)]
  exact Nat.add_le_add (hleft _ (h.left hm hlo hhi)) (hright _ (h.right hm hlo))

end Split

end ExamplePrograms.Lib.Dyadic
