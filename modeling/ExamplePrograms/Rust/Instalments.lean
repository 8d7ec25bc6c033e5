import ExamplePrograms.Lib.Annuity
import ExamplePrograms.Rust.Loan

/-!
# The instalments of a loan

Two properties of the loan calculator. `main` and `Loan::new` both take a rate from 1/5 on for a
percentage, and `Loan::new` computes the payment from the rate that it is given, not from the rate that
it stores: from 20 on the payment is not the one for the rate of the schedule
(`payment_at_period_rate_iff`). The last payment takes what is left with its interest, and is compared
with the payment without the interest (`instalments_within_payment_iff`).
-/

set_option autoImplicit false

namespace ExamplePrograms.Rust

open ExamplePrograms.Lib.Annuity ExamplePrograms.Lib.Iterator ExamplePrograms.Lib.Rounding

/-! ## The rate of the payment -/

/-- The rate that `main` hands to `Loan::new`. -/
def mainRate : Option ℚ → ℚ
  | some r => if r ≥ 1 / 5 then r / 100 else r
  | none => 4 / 100

/-- The payment is that of the rate with which the iterator charges interest. -/
def Loan.AtPeriodRate (loan : Loan) : Prop :=
  ((Loan.discount (12 * loan.periodRate) loan.periods).bind (quotient loan.amount)).map cents =
    some loan.payment

instance (loan : Loan) : Decidable loan.AtPeriodRate := by
  unfold Loan.AtPeriodRate
  infer_instance

/-- The number of periods as an `i32` is not zero. -/
theorem asI32_ne_zero {periods : Nat} (hpos : 1 ≤ periods) (hlt : periods < 2 ^ 32) :
    asI32 periods ≠ 0 := by
  intro h
  rw [asI32] at h
  have h0 := congrArg (BitVec.ofInt 32) h
  rw [BitVec.ofInt_toInt] at h0
  have h1 := congrArg BitVec.toNat h0
  rw [BitVec.toNat_ofNat, Nat.mod_eq_of_lt hlt] at h1
  simp at h1
  omega

/-- The cast of a small number of periods. -/
theorem asI32_of_lt {periods : Nat} (hlt : periods < 2 ^ 31) : asI32 periods = periods := by
  rw [asI32, BitVec.toInt_eq_toNat_of_lt]
  · rw [BitVec.toNat_ofNat, Nat.mod_eq_of_lt (by omega)]
  · rw [BitVec.toNat_ofNat, Nat.mod_eq_of_lt (by omega)]
    omega

/-- The payment without the rounding is that of an annuity. -/
theorem discounted_eq (amount : ℚ) {rate : ℚ} {periods : Nat} (hrate : 0 < rate) (hpos : 1 ≤ periods)
    (hlt : periods < 2 ^ 32) :
    (Loan.discount rate periods).bind (quotient amount) =
      some (amount * annuity (rate / 12) (asI32 periods)) := by
  have hbase : 0 < rate / 12 + 1 := by linarith
  have hdaily : 0 < (rate / 12 + 1) ^ asI32 periods := zpow_pos hbase _
  have hne : (rate / 12 + 1) ^ asI32 periods - 1 ≠ 0 := by
    intro h
    have hone := sub_eq_zero.1 h
    rw [zpow_eq_one_iff_right₀ (le_of_lt hbase) (by linarith)] at hone
    exact asI32_ne_zero hpos hlt hone
  have hden : rate / 12 * (rate / 12 + 1) ^ asI32 periods ≠ 0 := by positivity
  have hdiscount := div_ne_zero hne hden
  rw [Loan.discount, quotient, if_neg hden, Option.bind_some, quotient, if_neg hdiscount, annuity,
    add_comm 1 (rate / 12), div_div_eq_mul_div, mul_div_assoc]

/-- The loan that `new` makes for a rate above 0. -/
theorem new_eq (amount : ℚ) {rate : ℚ} {periods : Nat} (hrate : 0 < rate) (hpos : 1 ≤ periods)
    (hlt : periods < 2 ^ 32) :
    Loan.new amount rate periods =
      some {
        amount := amount
        periods := periods
        periodRate := (if rate ≥ 1 / 5 then rate / 100 else rate) / 12
        fixedRate := if rate ≥ 1 / 5 then rate / 100 else rate
        payment := cents (amount * annuity (rate / 12) (asI32 periods)) } := by
  have hpayment := discounted_eq amount hrate hpos hlt
  obtain ⟨discount, hdiscount, hquotient⟩ := Option.bind_eq_some_iff.1 hpayment
  rw [Loan.new, hdiscount]
  show (quotient amount discount).bind _ = _
  rw [hquotient]
  rfl

/-- The payment for the rate of the schedule. -/
theorem atPeriodRate_iff {loan : Loan} (hrate : 0 < loan.periodRate) (hpos : 1 ≤ loan.periods)
    (hlt : loan.periods < 2 ^ 32) :
    loan.AtPeriodRate ↔
      loan.payment = cents (loan.amount * annuity loan.periodRate (asI32 loan.periods)) := by
  have hyear : 0 < 12 * loan.periodRate := by linarith
  have hmonth : 12 * loan.periodRate / 12 = loan.periodRate := by ring
  rw [Loan.AtPeriodRate, discounted_eq loan.amount hyear hpos hlt, hmonth, Option.map_some,
    Option.some.injEq, eq_comm]

/-- Amounts that are a cent apart have different cents. -/
theorem cents_lt {x y : ℚ} (hx : 0 ≤ x) (h : x + 1 / 100 ≤ y) : cents x < cents y := by
  have hround : roundAway (x * 100) < roundAway (y * 100) := roundAway_lt (by linarith) (by linarith)
  have hcast : (roundAway (x * 100) : ℚ) < roundAway (y * 100) := by exact_mod_cast hround
  rw [cents, cents]
  linarith

/-- The payments at a rate and at a hundredth of it are a cent apart unless the amount is small. -/
theorem small_of_cents_eq {amount rate : ℚ} {n : Nat} (hamount : 0 < amount) (hrate : 0 < rate)
    (hn : 1 ≤ n)
    (h : cents (amount * annuity (rate / 1200) n) = cents (amount * annuity (rate / 120000) n)) :
    amount * rate < 800 / 33 := by
  by_contra hle
  rw [not_lt] at hle
  have hgap := half_sub_le_annuity_sub (x := rate / 1200) (y := rate / 120000) (by linarith)
    (by linarith) hn
  have hpos := annuity_pos (x := rate / 120000) (by linarith) hn
  have hmul := mul_le_mul_of_nonneg_left hgap (le_of_lt hamount)
  refine absurd h (ne_of_gt (cents_lt (by positivity) ?_))
  linarith

/-- A rate that is given and positive stays so. -/
theorem mainRate_pos {rate : ℚ} (hrate : 0 < rate) : 0 < mainRate (some rate) := by
  rw [mainRate]
  split
  · linarith
  · exact hrate

/-- Below 20 the rate that `main` hands over is not normalised again. -/
theorem mainRate_lt_iff {rate : ℚ} : mainRate (some rate) < 1 / 5 ↔ rate < 20 := by
  rw [mainRate]
  split
  · constructor <;> intro h <;> linarith
  · constructor <;> intro h <;> linarith

/-- A rate from 20 on is a percentage. -/
theorem mainRate_of_ge {rate : ℚ} (h : 20 ≤ rate) : mainRate (some rate) = rate / 100 := by
  rw [mainRate, if_pos (by linarith)]

/-- **The payment is the one for the rate of the schedule** exactly when the rate is below 20, or the
payments at the two rates have the same cents, which holds of small amounts only unless the number of
periods is negative as an `i32`. -/
theorem payment_at_period_rate_iff {amount rate : ℚ} {periods : Nat} (hamount : 0 < amount)
    (hrate : 0 < rate) (hpos : 1 ≤ periods) (hlt : periods < 2 ^ 32) :
    (∃ loan, Loan.new amount (mainRate (some rate)) periods = some loan ∧ loan.AtPeriodRate) ↔
      rate < 20 ∨
        (amount * rate < 800 / 33 ∨ 2 ^ 31 ≤ periods) ∧
          cents (amount * annuity (rate / 1200) (asI32 periods)) =
            cents (amount * annuity (rate / 120000) (asI32 periods)) := by
  have hmain := mainRate_pos hrate
  rw [new_eq amount hmain hpos hlt]
  simp only [Option.some.injEq, exists_eq_left']
  rw [atPeriodRate_iff (by dsimp only; split <;> linarith) hpos hlt]
  dsimp only
  by_cases h20 : rate < 20
  -- normalised once at most: both rates are the one that `main` hands over
  · have hnot : ¬ mainRate (some rate) ≥ 1 / 5 := not_le.2 (mainRate_lt_iff.2 h20)
    rw [if_neg hnot]
    exact iff_of_true rfl (Or.inl h20)
  -- normalised twice
  · rw [not_lt] at h20
    have hge : mainRate (some rate) ≥ 1 / 5 := not_lt.1 fun h => not_lt.2 h20 (mainRate_lt_iff.1 h)
    have hpayment : rate / 100 / 12 = rate / 1200 := by ring
    have hschedule : rate / 100 / 100 / 12 = rate / 120000 := by ring
    rw [if_pos hge, mainRate_of_ge h20, hpayment, hschedule]
    constructor
    · intro h
      refine Or.inr ⟨?_, h⟩
      by_cases hneg : 2 ^ 31 ≤ periods
      · exact Or.inr hneg
      · rw [asI32_of_lt (not_le.1 hneg)] at h
        exact Or.inl (small_of_cents_eq hamount hrate hpos h)
    · rintro (h | ⟨-, h⟩)
      · exact absurd h (not_lt.2 h20)
      · exact h

/-- A thousand over a year at 12 percent. -/
theorem payment_at_period_rate_twelve :
    (∃ loan, Loan.new 1000 (mainRate (some 12)) 12 = some loan ∧ loan.AtPeriodRate) ↔
      (12 : ℚ) < 20 ∨
        ((1000 : ℚ) * 12 < 800 / 33 ∨ 2 ^ 31 ≤ 12) ∧
          cents (1000 * annuity ((12 : ℚ) / 1200) (asI32 12)) =
            cents (1000 * annuity ((12 : ℚ) / 120000) (asI32 12)) :=
  payment_at_period_rate_iff (by norm_num) (by norm_num) (by decide) (by decide)

/-- A thousand over a single month at 20 percent: 1016.67 are to be paid, and the interest that the
iterator charges is 17 cents. -/
theorem payment_of_unnormalised_rate :
    ∃ loan, Loan.new 1000 (mainRate (some 20)) 1 = some loan ∧ loan.payment = 101667 / 100 ∧
      cents (loan.amount * loan.periodRate) = 17 / 100 ∧ ¬ loan.AtPeriodRate :=
  ⟨⟨1000, 1, 1 / 6000, 101667 / 100, 1 / 500⟩, by decide +kernel, by decide +kernel,
    by decide +kernel, by decide +kernel⟩

/-! ## The last instalment -/

/-- What is left behind `k` payments in full. -/
def Loan.outstanding (loan : Loan) : Nat → ℚ
  | 0 => loan.amount
  | k + 1 => loan.outstanding k - loan.payment + cents (loan.outstanding k * loan.periodRate)

/-- The first amount that is left which is not above the payment is not above it with its interest
either. -/
def Loan.EndsWithin (loan : Loan) : Prop :=
  ∀ k, (∀ j < k, loan.payment < loan.outstanding j) → loan.outstanding k ≤ loan.payment →
    loan.outstanding k + cents (loan.outstanding k * loan.periodRate) ≤ loan.payment

/-- Behind a payment in full the same amounts are left, one payment earlier. -/
theorem outstanding_succ {loan loan' : Loan} {p : Payment} (hp : Pays loan p loan')
    (hlt : loan.payment < loan.amount) (k : Nat) :
    loan'.outstanding k = loan.outstanding (k + 1) := by
  induction k with
  | zero =>
    rw [Loan.outstanding, hp.left, if_pos hlt]
    rfl
  | succ k ih =>
    rw [Loan.outstanding, ih, hp.payment, hp.rate]
    rfl

/-- A payment in full leaves the question to the rest of the schedule. -/
theorem endsWithin_iff_of_lt {loan loan' : Loan} {p : Payment} (hp : Pays loan p loan')
    (hlt : loan.payment < loan.amount) : loan.EndsWithin ↔ loan'.EndsWithin := by
  constructor
  · intro h k hfull hle
    rw [hp.payment] at hle ⊢
    rw [outstanding_succ hp hlt, hp.rate]
    rw [outstanding_succ hp hlt] at hle
    refine h (k + 1) (fun j hj => ?_) hle
    cases j with
    | zero => exact hlt
    | succ j =>
      have hj' := hfull j (Nat.lt_of_succ_lt_succ hj)
      rwa [hp.payment, outstanding_succ hp hlt] at hj'
  · intro h k hfull hle
    cases k with
    | zero => exact absurd hlt (not_lt.2 hle)
    | succ k =>
      have hk := h k (fun j hj => ?_) ?_
      · rwa [hp.payment, hp.rate, outstanding_succ hp hlt] at hk
      · rw [hp.payment, outstanding_succ hp hlt]
        exact hfull (j + 1) (Nat.succ_lt_succ hj)
      · rwa [hp.payment, outstanding_succ hp hlt]

/-- The last payment decides. -/
theorem endsWithin_iff_of_le {loan : Loan} (hle : loan.amount ≤ loan.payment) :
    loan.EndsWithin ↔ loan.amount + loan.interest ≤ loan.payment := by
  constructor
  · intro h
    exact h 0 (fun j hj => absurd hj (Nat.not_lt_zero j)) hle
  · intro h k hfull _
    cases k with
    | zero => exact h
    | succ k => exact absurd (hfull 0 (Nat.succ_pos k)) (not_lt.2 hle)

/-- The amount of the next payment. -/
theorem amount_of_next {loan loan' : Loan} {p : Payment} (h : loan.next = some (p, loan')) :
    p.amount = if loan.payment < loan.amount then loan.payment else loan.amount + loan.interest := by
  rw [Loan.next] at h
  split at h
  · cases h
  · cases h
    rfl

/-- The instalments stay within the payment exactly when the last one does. -/
theorem amounts_le_iff {loan : Loan} {ps : List Payment} (h : Yields Loan.next loan ps)
    (hamount : 0 < loan.amount) (hrate : 0 ≤ loan.periodRate) :
    (∀ p ∈ ps, p.amount ≤ loan.payment) ↔ loan.EndsWithin := by
  induction h with
  | done hnone => exact absurd (next_none_iff.1 hnone) (not_le.2 hamount)
  | @item loan loan' p ps hnext hrest ih =>
    obtain ⟨-, hp⟩ := pays_of_next hnext
    have hpaid := amount_of_next hnext
    have hleft := hp.left
    rw [List.forall_mem_cons]
    by_cases hlt : loan.payment < loan.amount
    -- a payment in full, with something left behind it
    · rw [if_pos hlt] at hpaid hleft
      have hinterest := interest_nonneg (le_of_lt hamount) hrate
      have hpos : 0 < loan'.amount := by linarith
      rw [endsWithin_iff_of_lt hp hlt, ← ih hpos (hp.rate ▸ hrate), hp.payment]
      exact and_iff_right (le_of_eq hpaid)
    -- the last payment
    · rw [if_neg hlt] at hpaid hleft
      cases hrest with
      | done _ =>
        rw [endsWithin_iff_of_le (not_lt.1 hlt), hpaid]
        exact and_iff_left fun q hq => absurd hq List.not_mem_nil
      | item hnext' _ => exact absurd (pays_of_next hnext').1 (not_lt.2 (le_of_eq hleft))

/-- **No instalment is above the payment** exactly when the last amount that is left is not above it
with its interest. The instalments are finitely many. -/
theorem instalments_within_payment_iff (loan : Loan) (hamount : 0 < loan.amount)
    (hrate : 0 ≤ loan.periodRate) (hpayment : cents (loan.amount * loan.periodRate) < loan.payment) :
    ∃ ps, Yields Loan.next loan ps ∧
      ((∀ p ∈ ps, p.amount ≤ loan.payment) ↔ loan.EndsWithin) := by
  obtain ⟨ps, hps⟩ := yields_of_interest_lt hamount hrate hpayment
  exact ⟨ps, hps, amounts_le_iff hps hamount hrate⟩

/-- A loan of three instalments within its payment. -/
theorem instalments_within_payment_short :
    ∃ ps, Yields Loan.next shortLoan ps ∧
      ((∀ p ∈ ps, p.amount ≤ shortLoan.payment) ↔ shortLoan.EndsWithin) :=
  instalments_within_payment_iff shortLoan (by decide +kernel) (by decide +kernel)
    (by decide +kernel)

/-- A hundred at 1 percent with a payment of a hundred: the only instalment is 101. -/
def tightLoan : Loan := Loan.setPayment ⟨100, 1, 1 / 100, 0, 3 / 25⟩ 100

/-- A loan whose last instalment is above its payment. -/
theorem last_instalment_above_payment :
    0 < tightLoan.amount ∧ 0 ≤ tightLoan.periodRate ∧
      cents (tightLoan.amount * tightLoan.periodRate) < tightLoan.payment ∧
      ∃ ps, Yields Loan.next tightLoan ps ∧ ∃ p ∈ ps, tightLoan.payment < p.amount := by
  have hnext : tightLoan.next =
      some (⟨101, 1, 100, 0⟩, Loan.setPayment ⟨0, 1, 1 / 100, 0, 3 / 25⟩ 100) := by decide +kernel
  have hdone : (Loan.setPayment ⟨0, 1, 1 / 100, 0, 3 / 25⟩ 100).next = none := by decide +kernel
  refine ⟨by decide +kernel, by decide +kernel, by decide +kernel, _, .item hnext (.done hdone), _,
    List.mem_singleton_self _, ?_⟩
  decide +kernel

end ExamplePrograms.Rust
