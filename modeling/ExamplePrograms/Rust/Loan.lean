import Mathlib.Data.Rat.Floor
import ExamplePrograms.Lib.Iterator
import ExamplePrograms.Lib.Rounding

/-!
# The loan calculator

`Loan` of `loan/src/lib.rs` is an iterator over the payments of a loan. In this module its numbers are
rationals in place of `f64`, so the arithmetic is exact; `round` is half away from zero, as
`f64::round`. A division by zero, from which the source gets an infinity or a NaN, gives no value here.

`amortisation_conserved` says when there are finitely many payments and what they add up to.
-/

set_option autoImplicit false

namespace ExamplePrograms.Rust

open ExamplePrograms.Lib.Iterator ExamplePrograms.Lib.Rounding

/-- `Loan`, with its floats as rationals. -/
structure Loan where
  amount : ℚ
  periods : Nat
  periodRate : ℚ
  payment : ℚ
  fixedRate : ℚ
  deriving DecidableEq, Repr

/-- `Payment`, with its floats as rationals. -/
structure Payment where
  amount : ℚ
  interest : ℚ
  principal : ℚ
  balance : ℚ
  deriving DecidableEq, Repr

/-- `(x * 100.0).round() / 100.0`. -/
def cents (x : ℚ) : ℚ := roundAway (x * 100) / 100

/-- `periods as i32`. -/
def asI32 (periods : Nat) : Int := (BitVec.ofNat 32 periods).toInt

/-- The quotient where the denominator is not zero. -/
def quotient (x y : ℚ) : Option ℚ := if y = 0 then none else some (x / y)

/-- The discount factor. -/
def Loan.discount (apr : ℚ) (periods : Nat) : Option ℚ :=
  let periodRate := apr / 12
  let daily := (periodRate + 1) ^ asI32 periods
  quotient (daily - 1) (periodRate * daily)

/-- `Loan::new`. -/
def Loan.new (amount rate : ℚ) (periods : Nat) : Option Loan := do
  let fixedRate := if rate ≥ 1 / 5 then rate / 100 else rate
  let periodRate := fixedRate / 12
  let discount ← Loan.discount rate periods
  let payment ← quotient amount discount
  return {
    amount := amount
    periods := periods
    periodRate := periodRate
    fixedRate := fixedRate
    payment := cents payment }

/-- `Loan::set_payment`. -/
def Loan.setPayment (loan : Loan) (payment : ℚ) : Loan := { loan with payment := payment }

/-- `Iterator::next`: the next payment and the loan behind it. -/
def Loan.next (loan : Loan) : Option (Payment × Loan) :=
  if loan.amount ≤ 0 then none
  else
    let interest := cents (loan.amount * loan.periodRate)
    -- the last payment takes the whole amount and its interest
    let amount := if loan.amount > loan.payment then loan.payment else loan.amount + interest
    let p : Payment := {
      amount := amount
      interest := interest
      principal := amount - interest
      balance := loan.amount - amount + interest }
    some (p, { loan with amount := loan.amount - p.principal })

/-- The two totals that `print_totals` prints for the payments of a loan: the interest, and the
interest and the principal. -/
def printTotals (payments : List Payment) : ℚ × ℚ :=
  let totals := payments.foldl
    (fun (total : ℚ × ℚ) p => (total.1 + p.interest, total.2 + p.principal)) (0, 0)
  (totals.1, totals.1 + totals.2)

/-! ## Rounding to cents -/

/-- Rounding to cents keeps the order. -/
theorem cents_mono {x y : ℚ} (h : x ≤ y) : cents x ≤ cents y := by
  have hround : roundAway (x * 100) ≤ roundAway (y * 100) := roundAway_mono (by linarith)
  have hcast : (roundAway (x * 100) : ℚ) ≤ roundAway (y * 100) := by exact_mod_cast hround
  rw [cents, cents]
  linarith

/-- Rounding to cents keeps an amount that is not negative so. -/
theorem cents_nonneg {x : ℚ} (h : 0 ≤ x) : 0 ≤ cents x := by
  have hround : 0 ≤ roundAway (x * 100) := roundAway_nonneg (by linarith)
  have hcast : (0 : ℚ) ≤ roundAway (x * 100) := by exact_mod_cast hround
  rw [cents]
  linarith

/-! ## One payment -/

/-- The interest of the next payment. -/
def Loan.interest (loan : Loan) : ℚ := cents (loan.amount * loan.periodRate)

/-- The interest is not negative. -/
theorem interest_nonneg {loan : Loan} (hamount : 0 ≤ loan.amount) (hrate : 0 ≤ loan.periodRate) :
    0 ≤ loan.interest :=
  cents_nonneg (mul_nonneg hamount hrate)

/-- The interest on a smaller amount is not higher. -/
theorem interest_mono {loan loan' : Loan} (hrate : 0 ≤ loan.periodRate)
    (hsame : loan'.periodRate = loan.periodRate) (hle : loan'.amount ≤ loan.amount) :
    loan'.interest ≤ loan.interest := by
  apply cents_mono
  rw [hsame]
  exact mul_le_mul_of_nonneg_right hle hrate

/-- A payment in full leaves the rate and the payment as they are and lowers the amount by the rest of
the payment behind the interest; the last payment leaves nothing. -/
structure Pays (loan : Loan) (p : Payment) (loan' : Loan) : Prop where
  rate : loan'.periodRate = loan.periodRate
  payment : loan'.payment = loan.payment
  amount : p.amount = p.interest + p.principal
  balance : p.balance = loan'.amount
  principal : p.principal = loan.amount - loan'.amount
  left : loan'.amount =
    if loan.payment < loan.amount then loan.amount - loan.payment + loan.interest else 0

/-- There is no payment exactly when nothing is owed. -/
theorem next_none_iff {loan : Loan} : loan.next = none ↔ loan.amount ≤ 0 := by
  rw [Loan.next]
  split
  · next h => exact iff_of_true rfl h
  · next h => exact iff_of_false (fun heq => nomatch heq) h

/-- A loan that owes something pays. -/
theorem next_pays {loan : Loan} (h : 0 < loan.amount) :
    ∃ p loan', loan.next = some (p, loan') ∧ Pays loan p loan' := by
  rw [Loan.next, if_neg (not_le.2 h)]
  refine ⟨_, _, rfl, rfl, rfl, ?_, ?_, ?_, ?_⟩
  · ring
  · ring
  · ring
  · change loan.amount - ((if loan.payment < loan.amount then loan.payment
      else loan.amount + loan.interest) - loan.interest) = _
    split <;> ring

/-- What a payment of the iterator does. -/
theorem pays_of_next {loan loan' : Loan} {p : Payment} (h : loan.next = some (p, loan')) :
    0 < loan.amount ∧ Pays loan p loan' := by
  have hpos : 0 < loan.amount := by
    rw [← not_le, ← next_none_iff, h]
    exact fun heq => nomatch heq
  obtain ⟨q, loan'', hnext, hp⟩ := next_pays hpos
  rw [h] at hnext
  cases hnext
  exact ⟨hpos, hp⟩

/-- A loan that `new` makes has the amount it was given, and no negative rate unless it was given one.
The terms are those `set_payment` leaves. -/
theorem new_terms {amount rate : ℚ} {periods : Nat} {loan : Loan}
    (h : Loan.new amount rate periods = some loan) (hrate : 0 ≤ rate) (payment : ℚ) :
    (loan.setPayment payment).amount = amount ∧ 0 ≤ (loan.setPayment payment).periodRate := by
  obtain ⟨discount, -, h⟩ := Option.bind_eq_some_iff.1 h
  obtain ⟨paid, -, h⟩ := Option.bind_eq_some_iff.1 h
  cases h
  refine ⟨rfl, ?_⟩
  change 0 ≤ (if rate ≥ 1 / 5 then rate / 100 else rate) / 12
  split <;> positivity

/-! ## When the schedule ends -/

/-- The loan during its schedule: the terms stay as they were. -/
structure SameTerms (loan loan' : Loan) : Prop where
  rate : loan'.periodRate = loan.periodRate
  payment : loan'.payment = loan.payment

/-- A payment keeps the terms of the loan. -/
theorem SameTerms.pays {loan loan' loan'' : Loan} {p : Payment} (h : SameTerms loan loan')
    (hp : Pays loan' p loan'') : SameTerms loan loan'' :=
  ⟨hp.rate.trans h.rate, hp.payment.trans h.payment⟩

/-- An amount up to the payment is paid at once. -/
theorem yields_of_amount_le {loan : Loan} (hamount : 0 < loan.amount)
    (h : loan.amount ≤ loan.payment) : ∃ ps, Yields Loan.next loan ps := by
  obtain ⟨p, loan', hnext, hp⟩ := next_pays hamount
  have hleft : loan'.amount = 0 := by rw [hp.left, if_neg (not_lt.2 h)]
  exact ⟨[p], .item hnext (.done (next_none_iff.2 (le_of_eq hleft)))⟩

/-- A payment above the first interest lowers the amount each time by at least what it is above that
interest, because the interest on what is left is not higher. -/
theorem yields_of_interest_lt {loan : Loan} (hamount : 0 < loan.amount)
    (hrate : 0 ≤ loan.periodRate) (h : loan.interest < loan.payment) :
    ∃ ps, Yields Loan.next loan ps := by
  let I : Loan → Prop := fun l => 0 < l.amount ∧ l.amount ≤ loan.amount ∧ SameTerms loan l
  have hd : 0 < loan.payment - loan.interest := sub_pos.2 h
  have hbound : ∀ l, I l → 0 ≤ l.amount := fun l hl => le_of_lt hl.1
  refine exists_yields_of_progress Loan.amount hd hbound ?_
    (show I loan from ⟨hamount, le_refl _, rfl, rfl⟩)
  intro l p l' hl hnext
  obtain ⟨hpos, hle, hsame⟩ := hl
  obtain ⟨-, hp⟩ := pays_of_next hnext
  have hsame' := hsame.pays hp
  have hrate' : 0 ≤ l.periodRate := hsame.rate ▸ hrate
  by_cases hlt : l.payment < l.amount
  · right
    -- the interest is at most the first one, so the amount falls by the payment less that one
    have hinterest := interest_mono hrate hsame.rate hle
    have hnonneg := interest_nonneg (le_of_lt hpos) hrate'
    have hleft := hp.left
    have hpayment := hsame.payment
    rw [if_pos hlt] at hleft
    refine ⟨⟨?_, ?_, hsame'⟩, ?_⟩
    · linarith
    · linarith
    · linarith
  -- the last payment leaves nothing, and the iterator ends
  · left
    rw [next_none_iff, hp.left, if_neg hlt]

/-- A payment below the amount that is not above the first interest never lowers the amount. -/
theorem not_yields_of_le_interest {loan : Loan} (hamount : 0 < loan.amount)
    (hrate : 0 ≤ loan.periodRate) (hlt : loan.payment < loan.amount)
    (h : loan.payment ≤ loan.interest) (ps : List Payment) : ¬ Yields Loan.next loan ps := by
  let I : Loan → Prop := fun l => loan.amount ≤ l.amount ∧ SameTerms loan l
  refine not_yields_of_invariant (I := I) ?_ ⟨le_refl _, rfl, rfl⟩ ps
  rintro l ⟨hge, hsame⟩
  obtain ⟨p, l', hnext, hp⟩ := next_pays (lt_of_lt_of_le hamount hge)
  refine ⟨p, l', hnext, ?_, hsame.pays hp⟩
  -- an amount that is not lower has no lower interest, and the payment does not cover it
  have hinterest : loan.interest ≤ l.interest :=
    interest_mono (hsame.rate ▸ hrate) hsame.rate.symm hge
  have hpayment := hsame.payment
  rw [hp.left, if_pos (by linarith)]
  linarith

/-! ## What the payments add up to -/

/-- Each balance is the one before less the principal. -/
def Chained : ℚ → List Payment → Prop
  | _, [] => True
  | balance, p :: ps => p.balance = balance - p.principal ∧ Chained p.balance ps

/-- What is left behind a payment is not negative. -/
theorem Pays.left_nonneg {loan loan' : Loan} {p : Payment} (hp : Pays loan p loan')
    (hamount : 0 < loan.amount) (hrate : 0 ≤ loan.periodRate) : 0 ≤ loan'.amount := by
  have hinterest := interest_nonneg (le_of_lt hamount) hrate
  rw [hp.left]
  split
  · linarith
  · exact le_refl 0

section Schedule

variable {loan : Loan} {ps : List Payment} (h : Yields Loan.next loan ps)
  (hamount : 0 ≤ loan.amount) (hrate : 0 ≤ loan.periodRate)

include h hamount hrate

/-- The principals add up to the amount owed. -/
theorem sum_principal : (ps.map Payment.principal).sum = loan.amount := by
  induction h with
  | done hnone => exact le_antisymm hamount (next_none_iff.1 hnone)
  | item hnext _ ih =>
    obtain ⟨hpos, hp⟩ := pays_of_next hnext
    rw [List.map_cons, List.sum_cons, ih (hp.left_nonneg hpos hrate) (hp.rate ▸ hrate),
      hp.principal]
    ring

/-- The last payment leaves nothing. -/
theorem last_balance {p : Payment} (hlast : ps.getLast? = some p) : p.balance = 0 := by
  induction h with
  | done _ => cases hlast
  | item hnext hrest ih =>
    obtain ⟨hpos, hp⟩ := pays_of_next hnext
    have hleft := hp.left_nonneg hpos hrate
    cases hrest with
    | done hnone =>
      cases hlast
      exact hp.balance.trans (le_antisymm (next_none_iff.1 hnone) hleft)
    | item hnext' hrest' =>
      rw [List.getLast?_cons_cons] at hlast
      exact ih hleft (hp.rate ▸ hrate) hlast

end Schedule

/-- The balances form a chain from the amount owed. -/
theorem chained_of_yields {loan : Loan} {ps : List Payment} (h : Yields Loan.next loan ps) :
    Chained loan.amount ps := by
  induction h with
  | done _ => trivial
  | item hnext _ ih =>
    obtain ⟨-, hp⟩ := pays_of_next hnext
    refine ⟨?_, ?_⟩
    · rw [hp.balance, hp.principal]
      ring
    · rw [hp.balance]
      exact ih

/-- Every payment is its interest and its principal. -/
theorem amount_of_yields {loan : Loan} {ps : List Payment} (h : Yields Loan.next loan ps) :
    ∀ p ∈ ps, p.amount = p.interest + p.principal := by
  induction h with
  | done _ => exact fun p hp => nomatch hp
  | item hnext _ ih => exact List.forall_mem_cons.2 ⟨(pays_of_next hnext).2.amount, ih⟩

/-- `print_totals` prints the sum of the interest and the sum of the amounts. -/
theorem printTotals_eq {ps : List Payment} (h : ∀ p ∈ ps, p.amount = p.interest + p.principal) :
    printTotals ps = ((ps.map Payment.interest).sum, (ps.map Payment.amount).sum) := by
  -- generalised over the totals so far, which the fold carries along
  have hfold : ∀ (qs : List Payment) (total : ℚ × ℚ),
      qs.foldl (fun (total : ℚ × ℚ) p => (total.1 + p.interest, total.2 + p.principal)) total =
        (total.1 + (qs.map Payment.interest).sum, total.2 + (qs.map Payment.principal).sum) := by
    intro qs
    induction qs with
    | nil =>
      intro total
      simp
    | cons q qs ih =>
      intro total
      rw [List.foldl_cons, ih]
      simp only [List.map_cons, List.sum_cons, add_assoc]
  have hsum : (ps.map Payment.interest).sum + (ps.map Payment.principal).sum =
      (ps.map Payment.amount).sum := by
    rw [← List.sum_map_add]
    exact congrArg List.sum (List.map_congr_left fun p hp => (h p hp).symm)
  rw [printTotals, hfold, zero_add, zero_add, hsum]

/-- A loan has finitely many payments exactly when its amount is not above the payment or the payment
is above the first interest. Then the principals add up to the amount, the last balance is 0, every
payment is its interest and its principal, the balances follow from each other, and the totals that
are printed are the interest and what is paid. -/
theorem amortisation_conserved (loan : Loan) (hamount : 0 < loan.amount)
    (hrate : 0 ≤ loan.periodRate) :
    ((∃ ps, Yields Loan.next loan ps) ↔
      loan.amount ≤ loan.payment ∨ cents (loan.amount * loan.periodRate) < loan.payment) ∧
    ∀ ps, Yields Loan.next loan ps →
      (ps.map Payment.principal).sum = loan.amount ∧
      (∃ p, ps.getLast? = some p ∧ p.balance = 0) ∧
      (∀ p ∈ ps, p.amount = p.interest + p.principal) ∧
      Chained loan.amount ps ∧
      printTotals ps = ((ps.map Payment.interest).sum, (ps.map Payment.amount).sum) := by
  constructor
  · constructor
    · rintro ⟨ps, hps⟩
      -- with neither of the two the amount never falls and the iterator never ends
      by_contra hnot
      rw [not_or, not_le, not_lt] at hnot
      exact not_yields_of_le_interest hamount hrate hnot.1 hnot.2 ps hps
    · rintro (hle | hlt)
      · exact yields_of_amount_le hamount hle
      · exact yields_of_interest_lt hamount hrate hlt
  · intro ps hps
    have hne : ps ≠ [] := by
      rintro rfl
      cases hps with
      | done hnone => exact absurd (next_none_iff.1 hnone) (not_le.2 hamount)
    have hpaid := amount_of_yields hps
    refine ⟨sum_principal hps (le_of_lt hamount) hrate, ?_, hpaid, chained_of_yields hps,
      printTotals_eq hpaid⟩
    have hlast := List.getLast?_eq_some_getLast hne
    exact ⟨_, hlast, last_balance hps (le_of_lt hamount) hrate hlast⟩

/-- A loan of three payments. -/
def shortLoan : Loan := Loan.setPayment ⟨250, 3, 1 / 100, 0, 3 / 25⟩ 100

/-- A loan of three payments. -/
theorem amortisation_conserved_short :
    ((∃ ps, Yields Loan.next shortLoan ps) ↔
      shortLoan.amount ≤ shortLoan.payment ∨
        cents (shortLoan.amount * shortLoan.periodRate) < shortLoan.payment) ∧
    ∀ ps, Yields Loan.next shortLoan ps →
      (ps.map Payment.principal).sum = shortLoan.amount ∧
      (∃ p, ps.getLast? = some p ∧ p.balance = 0) ∧
      (∀ p ∈ ps, p.amount = p.interest + p.principal) ∧
      Chained shortLoan.amount ps ∧
      printTotals ps = ((ps.map Payment.interest).sum, (ps.map Payment.amount).sum) :=
  amortisation_conserved shortLoan (by norm_num [shortLoan, Loan.setPayment])
    (by norm_num [shortLoan, Loan.setPayment])

end ExamplePrograms.Rust
