import Mathlib.Tactic.Common

/-!
# `while` loops

A loop is given by what one round does to its state: it leaves the loop, it goes on to the next
round, or it is undefined. `iterate` runs a number of rounds. `iterate_invariant` is the rule for partial
correctness, and `iterate_variant` the one for total correctness, with an invariant and a variant. A
round that changes nothing is repeated for ever (`iterate_fixed`), and so are rounds that keep an invariant
with which the loop is not left (`iterate_never`); `iterate_eq_of_variant` says when the number of rounds
does not matter. `states` lists what the rounds go on to.

`Visits` is about the rounds on the way, whether or not the loop is ever left: a property holds in every
round that is reached when it holds in the first one and in all that are reached from the next.
-/

set_option autoImplicit false

namespace ExamplePrograms.Lib.Loops

universe u

variable {σ : Type u}

/-- How a round of a loop ends: in undefined behaviour, with a result, or in another round. -/
inductive Round (σ : Type u) where
  | undefined
  | exit (s : σ)
  | again (s : σ)

/-- At most `n` rounds from `s`: the state in which the loop is left. -/
def iterate (round : σ → Round σ) : Nat → σ → Option σ
  | 0, _ => none
  | n + 1, s =>
      match round s with
      | .undefined => none
      | .exit r => some r
      | .again s' => iterate round n s'

section Iterate

variable {round : σ → Round σ} {s s' r : σ}

/-- A loop with an undefined round has no result. -/
theorem iterate_undefined (h : round s = .undefined) (n : Nat) : iterate round n s = none := by
  cases n with
  | zero => rfl
  | succ n => simp only [iterate, h]

/-- A loop ends with the round that exits. -/
theorem iterate_exit (h : round s = .exit r) (n : Nat) : iterate round (n + 1) s = some r := by
  simp only [iterate, h]

theorem iterate_again (h : round s = .again s') (n : Nat) :
    iterate round (n + 1) s = iterate round n s' := by
  simp only [iterate, h]

/-- A loop whose round changes nothing is never left. -/
theorem iterate_fixed (h : round s = .again s) (n : Nat) : iterate round n s = none := by
  induction n with
  | zero => rfl
  | succ n ih => rw [iterate_again h, ih]

/-- A loop is never left when every round with the invariant goes on and keeps it. -/
theorem iterate_never {I : σ → Prop} (hround : ∀ s, I s → ∃ s', round s = .again s' ∧ I s') (hs : I s)
    (n : Nat) : iterate round n s = none := by
  induction n generalizing s with
  | zero => rfl
  | succ n ih =>
    obtain ⟨s', hs', hi⟩ := hround s hs
    rw [iterate_again hs', ih hi]

/-- More rounds than the loop takes do not matter. -/
theorem iterate_mono {n m : Nat} (h : iterate round n s = some r) (hle : n ≤ m) :
    iterate round m s = some r := by
  induction n generalizing s m with
  | zero => cases h
  | succ n ih =>
    obtain ⟨m, rfl⟩ : ∃ k, m = k + 1 := ⟨m - 1, by omega⟩
    cases hs : round s with
    | undefined =>
      rw [iterate_undefined hs] at h
      cases h
    | exit r' =>
      rw [iterate_exit hs] at h ⊢
      exact h
    | again s' =>
      rw [iterate_again hs] at h ⊢
      exact ih h (by omega)

/-- **Partial correctness.** Every round keeps the invariant, and gives the postcondition when it leaves
the loop. -/
theorem iterate_invariant {I Q : σ → Prop} (hagain : ∀ s s', I s → round s = .again s' → I s')
    (hexit : ∀ s r, I s → round s = .exit r → Q r) {n : Nat} (h : iterate round n s = some r)
    (hs : I s) : Q r := by
  induction n generalizing s with
  | zero => cases h
  | succ n ih =>
    cases hround : round s with
    | undefined =>
      rw [iterate_undefined hround] at h
      cases h
    | exit r' =>
      rw [iterate_exit hround] at h
      cases h
      exact hexit s r hs hround
    | again s' =>
      rw [iterate_again hround] at h
      exact ih h (hagain s s' hs hround)

/-- **Total correctness.** Every round that starts with the invariant leaves the loop with the
postcondition, or keeps the invariant and lowers the variant. -/
theorem iterate_variant {I Q : σ → Prop} (variant : σ → Nat)
    (hround : ∀ s, I s → (∃ r, round s = .exit r ∧ Q r) ∨
      ∃ s', round s = .again s' ∧ I s' ∧ variant s' < variant s) {n : Nat} (hs : I s)
    (hn : variant s < n) : ∃ r, iterate round n s = some r ∧ Q r := by
  induction n generalizing s with
  | zero => exact absurd hn (Nat.not_lt_zero _)
  | succ n ih =>
    rcases hround s hs with ⟨r, hr, hq⟩ | ⟨s', hs', hi, hlt⟩
    · exact ⟨r, iterate_exit hr n, hq⟩
    · rw [iterate_again hs']
      exact ih hi (by omega)

/-- More rounds than the variant give nothing new when every round lowers it or changes nothing. -/
theorem iterate_eq_of_variant (variant : σ → Nat)
    (hround : ∀ s s', round s = .again s' → s' = s ∨ variant s' < variant s) {n m : Nat}
    (hn : variant s < n) (hm : variant s < m) : iterate round n s = iterate round m s := by
  induction n generalizing s m with
  | zero => exact absurd hn (Nat.not_lt_zero _)
  | succ n ih =>
    obtain ⟨m, rfl⟩ : ∃ k, m = k + 1 := ⟨m - 1, by omega⟩
    cases h : round s with
    | undefined => rw [iterate_undefined h, iterate_undefined h]
    | exit r => rw [iterate_exit h, iterate_exit h]
    | again s' =>
      rcases hround s s' h with rfl | hlt
      · rw [iterate_fixed h, iterate_fixed h]
      · rw [iterate_again h, iterate_again h]
        exact ih (by omega) (by omega)

/-- The states that at most `n` rounds from `s` go on to, in their order. -/
def states (round : σ → Round σ) : Nat → σ → List σ
  | 0, _ => []
  | n + 1, s =>
      match round s with
      | .again s' => s' :: states round n s'
      | _ => []

/-- The states of a loop that makes another round. -/
theorem states_again (h : round s = .again s') (n : Nat) :
    states round (n + 1) s = s' :: states round n s' := by
  simp only [states, h]

theorem states_last (h : ∀ s', round s ≠ .again s') (n : Nat) : states round n s = [] := by
  cases n with
  | zero => rfl
  | succ n =>
    cases hs : round s with
    | undefined => simp only [states, hs]
    | exit r => simp only [states, hs]
    | again s' => exact absurd hs (h s')

/-- A loop whose last round changes nothing is left in the last of its states. -/
theorem iterate_getLast_states (hexit : ∀ s r, round s = .exit r → r = s) {n : Nat}
    (h : iterate round n s = some r) : (s :: states round n s).getLast? = some r := by
  induction n generalizing s with
  | zero => cases h
  | succ n ih =>
    cases hs : round s with
    | undefined =>
      rw [iterate_undefined hs] at h
      cases h
    | exit r' =>
      rw [iterate_exit hs] at h
      cases h
      rw [hexit s r hs, states_last fun s' h' => by rw [hs] at h'; cases h']
      rfl
    | again s' =>
      rw [iterate_again hs] at h
      rw [states_again hs, List.getLast?_cons_cons]
      exact ih h

end Iterate

/-! ## The rounds of a loop -/

/-- A round starts in `r` when the loop starts in `s`. -/
inductive Visits (round : σ → Round σ) : σ → σ → Prop
  | start (s : σ) : Visits round s s
  | next {s s' r : σ} (h : round s = .again s') (hr : Visits round s' r) : Visits round s r

section Visits

variable {round : σ → Round σ} {s s' : σ} {P : σ → Prop}

/-- A property kept by every round holds in all of them. -/
theorem Visits.invariant {r : σ} (hround : ∀ s s', P s → round s = .again s' → P s')
    (h : Visits round s r) (hs : P s) : P r := by
  induction h with
  | start => exact hs
  | next h _ ih => exact ih (hround _ _ hs h)

/-- A loop whose rounds lower the variant reaches a last round. -/
theorem exists_last_of_variant (variant : σ → Nat)
    (hround : ∀ s s', round s = .again s' → variant s' < variant s) (s : σ) :
    ∃ r, Visits round s r ∧ ∀ r', round r ≠ .again r' := by
  induction hn : variant s using Nat.strongRecOn generalizing s with
  | ind n ih =>
    by_cases hlast : ∀ s', round s ≠ .again s'
    · exact ⟨s, .start s, hlast⟩
    · obtain ⟨s', hs'⟩ := not_forall_not.1 hlast
      obtain ⟨r, hr, hend⟩ := ih (variant s') (hn ▸ hround s s' hs') s' rfl
      exact ⟨r, .next hs' hr, hend⟩

/-- What holds of every state visited, read off the first round. -/
theorem forall_visits_again (h : round s = .again s') :
    (∀ r, Visits round s r → P r) ↔ P s ∧ ∀ r, Visits round s' r → P r := by
  constructor
  · exact fun hall => ⟨hall s (.start s), fun r hr => hall r (.next h hr)⟩
  · rintro ⟨hs, hall⟩ r hr
    cases hr with
    | start => exact hs
    | next h' hr =>
      rw [h] at h'
      cases h'
      exact hall r hr

/-- From a round that is the last one no other is reached. -/
theorem forall_visits_last (h : ∀ s', round s ≠ .again s') :
    (∀ r, Visits round s r → P r) ↔ P s := by
  constructor
  · exact fun hall => hall s (.start s)
  · intro hs r hr
    cases hr with
    | start => exact hs
    | next h' _ => exact absurd h' (h _)

end Visits

end ExamplePrograms.Lib.Loops
