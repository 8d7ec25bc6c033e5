import Mathlib.Data.List.Nodup
import Mathlib.Data.List.Perm.Basic
import Mathlib.Tactic.Common

/-!
# Blocks and their holders

Blocks are numbered in the order in which they are allocated, and `freed` lists those that were given back.
Under `Owned` a block has one holder at most, none once it is freed, and is freed once. The rules are those
of the two operations: a new block gets a holder (`Owned.alloc`) or is lost (`Owned.leak`), and a holder
gives a block back (`Owned.free`).
-/

set_option autoImplicit false

namespace ExamplePrograms.Lib.Ownership

universe u

/-- `n` blocks were allocated; `held i` are those that `i` holds. -/
structure Owned {ι : Type u} (held : ι → List Nat) (n : Nat) (freed : List Nat) : Prop where
  nodup : ∀ i, (held i).Nodup
  apart : ∀ i j, ∀ p ∈ held i, p ∈ held j → i = j
  live : ∀ i, ∀ p ∈ held i, p < n ∧ p ∉ freed
  once : freed.Nodup
  bounded : ∀ p ∈ freed, p < n

section

variable {ι : Type u} {held held' : ι → List Nat} {n : Nat} {freed : List Nat}

/-- Nothing is held before the first allocation. -/
theorem Owned.init : Owned (fun _ : ι => []) 0 [] :=
  ⟨fun _ => List.nodup_nil, fun _ _ _ h => absurd h List.not_mem_nil,
    fun _ _ h => absurd h List.not_mem_nil, List.nodup_nil, fun _ h => absurd h List.not_mem_nil⟩

theorem Owned.congr (h : Owned held n freed) (heq : ∀ i, held' i = held i) : Owned held' n freed := by
  rwa [funext heq]

/-- A block that nobody holds. -/
theorem Owned.leak (h : Owned held n freed) : Owned held (n + 1) freed :=
  ⟨h.nodup, h.apart, fun i p hp => ⟨Nat.lt_succ_of_lt (h.live i p hp).1, (h.live i p hp).2⟩, h.once,
    fun p hp => Nat.lt_succ_of_lt (h.bounded p hp)⟩

variable {i : ι} (hother : ∀ j, j ≠ i → held' j = held j)

include hother

/-- An allocation gives a fresh block to one owner. -/
theorem Owned.alloc (h : Owned held n freed) (hi : (held' i).Perm (n :: held i)) :
    Owned held' (n + 1) freed := by
  have hnew : ∀ j, n ∉ held j := fun j hn => absurd (h.live j n hn).1 (Nat.lt_irrefl n)
  -- a block that is held now is the new one, or it was held by the same holder
  have hold : ∀ j, ∀ p ∈ held' j, (p = n ∧ j = i) ∨ p ∈ held j := by
    intro j p hp
    by_cases hj : j = i
    · subst hj
      rcases List.mem_cons.1 (hi.mem_iff.1 hp) with rfl | hp
      · exact Or.inl ⟨rfl, rfl⟩
      · exact Or.inr hp
    · rw [hother j hj] at hp
      exact Or.inr hp
  refine ⟨fun j => ?_, fun j k p hj hk => ?_, fun j p hp => ?_, h.once, fun p hp => ?_⟩
  · by_cases hj : j = i
    · subst hj
      exact hi.nodup_iff.2 (List.nodup_cons.2 ⟨hnew j, h.nodup j⟩)
    · rw [hother j hj]
      exact h.nodup j
  · rcases hold j p hj with ⟨rfl, rfl⟩ | hj
    · rcases hold k p hk with ⟨-, rfl⟩ | hk
      · rfl
      · exact absurd hk (hnew k)
    · rcases hold k p hk with ⟨rfl, -⟩ | hk
      · exact absurd hj (hnew j)
      · exact h.apart j k p hj hk
  · rcases hold j p hp with ⟨rfl, -⟩ | hp
    · exact ⟨Nat.lt_succ_self p, fun hfreed => Nat.lt_irrefl p (h.bounded p hfreed)⟩
    · exact ⟨Nat.lt_succ_of_lt (h.live j p hp).1, (h.live j p hp).2⟩
  · exact Nat.lt_succ_of_lt (h.bounded p hp)

/-- A block that its owner releases is not freed twice. -/
theorem Owned.free {p : Nat} (h : Owned held n freed) (hi : (held i).Perm (p :: held' i)) :
    Owned held' n (freed ++ [p]) := by
  have hp : p ∈ held i := hi.mem_iff.2 List.mem_cons_self
  obtain ⟨hgone, hnodup⟩ := List.nodup_cons.1 (hi.nodup_iff.1 (h.nodup i))
  have hold : ∀ j, ∀ q ∈ held' j, q ∈ held j := by
    intro j q hq
    by_cases hj : j = i
    · subst hj
      exact hi.mem_iff.2 (List.mem_cons_of_mem p hq)
    · rwa [← hother j hj]
  -- nobody holds the freed block any more
  have hne : ∀ j, ∀ q ∈ held' j, q ≠ p := by
    rintro j q hq rfl
    obtain rfl := h.apart j i q (hold j q hq) hp
    exact hgone hq
  refine ⟨fun j => ?_, fun j k q hj hk => h.apart j k q (hold j q hj) (hold k q hk),
    fun j q hq => ?_, ?_, fun q hq => ?_⟩
  · by_cases hj : j = i
    · subst hj
      exact hnodup
    · rw [hother j hj]
      exact h.nodup j
  · refine ⟨(h.live j q (hold j q hq)).1, fun hmem => ?_⟩
    rcases List.mem_append.1 hmem with hmem | hmem
    · exact (h.live j q (hold j q hq)).2 hmem
    · exact hne j q hq (List.mem_singleton.1 hmem)
  · refine List.nodup_append.2 ⟨h.once, List.nodup_singleton p, fun q hq r hr => ?_⟩
    rintro rfl
    rw [List.mem_singleton.1 hr] at hq
    exact (h.live i p hp).2 hq
  · rcases List.mem_append.1 hq with hq | hq
    · exact h.bounded q hq
    · rw [List.mem_singleton.1 hq]
      exact (h.live i p hp).1

end

end ExamplePrograms.Lib.Ownership
