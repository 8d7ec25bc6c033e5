import Mathlib.Algebra.Order.Archimedean.Basic
import Mathlib.Tactic.Linarith

/-!
# Iterators

An iterator is a state with a partial function `next` to an item and the state behind it.
`Yields next s as` says that from `s` on it yields the items `as` and then ends, so `∃ as, Yields next
s as` says that it yields finitely many items.

An iterator ends when a quantity that is bounded below falls by a fixed amount with each item
(`exists_yields_of_progress`). It never does from a state of an invariant under which there is a next
item (`not_yields_of_invariant`).
-/

set_option autoImplicit false

namespace ExamplePrograms.Lib.Iterator

universe u v w

variable {σ : Type u} {α : Type v} {next : σ → Option (α × σ)}

/-- The iterator yields the items of the list and ends. -/
inductive Yields (next : σ → Option (α × σ)) : σ → List α → Prop
  | done {s : σ} : next s = none → Yields next s []
  | item {s s' : σ} {a : α} {as : List α} :
      next s = some (a, s') → Yields next s' as → Yields next s (a :: as)

/-- An invariant under which there is always a next item. -/
theorem not_yields_of_invariant {I : σ → Prop}
    (hI : ∀ s, I s → ∃ a s', next s = some (a, s') ∧ I s') {s : σ} (hs : I s) (as : List α) :
    ¬ Yields next s as := by
  intro h
  induction h with
  | done hnone =>
    obtain ⟨a, s', hsome, -⟩ := hI _ hs
    rw [hnone] at hsome
    cases hsome
  | item hsome _ ih =>
    obtain ⟨a, s', hsome', hs'⟩ := hI _ hs
    rw [hsome] at hsome'
    cases hsome'
    exact ih hs'

/-- Each item is the last one or leaves a state of the invariant with a measure lower by `d`. -/
theorem exists_yields_of_progress {K : Type w} [Field K] [LinearOrder K] [IsStrictOrderedRing K]
    [Archimedean K] {I : σ → Prop} (measure : σ → K) {d : K} (hd : 0 < d)
    (hbound : ∀ s, I s → 0 ≤ measure s)
    (hstep : ∀ s a s', I s → next s = some (a, s') →
      next s' = none ∨ (I s' ∧ measure s' + d ≤ measure s))
    {s : σ} (hs : I s) : ∃ as, Yields next s as := by
  obtain ⟨n, hn⟩ := Archimedean.arch (measure s) hd
  rw [nsmul_eq_mul] at hn
  -- induction on the number of items that the measure has room for
  induction n generalizing s with
  | zero =>
    cases hnext : next s with
    | none => exact ⟨[], .done hnext⟩
    | some p =>
      obtain ⟨a, s'⟩ := p
      rcases hstep s a s' hs hnext with hnone | ⟨hs', hle⟩
      · exact ⟨[a], .item hnext (.done hnone)⟩
      · have hge := hbound s' hs'
        rw [Nat.cast_zero, zero_mul] at hn
        linarith
  | succ n ih =>
    cases hnext : next s with
    | none => exact ⟨[], .done hnext⟩
    | some p =>
      obtain ⟨a, s'⟩ := p
      rcases hstep s a s' hs hnext with hnone | ⟨hs', hle⟩
      · exact ⟨[a], .item hnext (.done hnone)⟩
      · rw [Nat.cast_succ, add_mul, one_mul] at hn
        obtain ⟨as, has⟩ := ih hs' (by linarith)
        exact ⟨a :: as, .item hnext has⟩

end ExamplePrograms.Lib.Iterator
