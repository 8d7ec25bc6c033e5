import Mathlib.Order.Defs.Unbundled
import Mathlib.Order.RelClasses
import Mathlib.Data.List.Basic

/-!
# Greedy chains

A traversal that always goes on with the first element of a list that lies beyond the key it has
reached visits the *ascent* of the list from that key. `find?_eq_head?_ascent` and `ascent_tail`
describe one step of such a traversal: each search runs over the whole list again, and what it finds
is the next element of the ascent.

An ascent leaves elements out. It is the whole list exactly when the keys of the list are a chain
above the start (`ascent_eq_self`, `ascent_pairwise`).
-/

set_option autoImplicit false

namespace ExamplePrograms.Lib.Ascent

universe u v

variable {α : Type u} {β : Type v} (r : β → β → Prop) [DecidableRel r] (key : α → β)

/-- The elements that a traversal from the key `b` visits, each beyond the one before it. -/
def ascent : β → List α → List α
  | _, [] => []
  | b, a :: as => if r b (key a) then a :: ascent (key a) as else ascent b as

variable {r key}

/-- An ascent is part of its list, in the same order. -/
theorem ascent_sublist (b : β) (l : List α) : (ascent r key b l).Sublist l := by
  induction l generalizing b with
  | nil => exact List.Sublist.refl []
  | cons a as ih =>
    rw [ascent]
    split
    · exact (ih (key a)).cons_cons a
    · exact (ih b).cons a

/-- The search for an element beyond `b` finds the first element of the ascent. -/
theorem find?_eq_head?_ascent (b : β) (l : List α) :
    l.find? (fun a => decide (r b (key a))) = (ascent r key b l).head? := by
  induction l with
  | nil => rfl
  | cons a as ih =>
    rw [ascent]
    by_cases h : r b (key a)
    · rw [List.find?_cons_of_pos (by simpa using h), if_pos h, List.head?_cons]
    · rw [List.find?_cons_of_neg (by simpa using h), if_neg h, ih]

/-- A list whose keys are a chain above the start is its own ascent. -/
theorem ascent_eq_self {b : β} {l : List α} (hb : ∀ a ∈ l, r b (key a))
    (hl : l.Pairwise fun x y => r (key x) (key y)) : ascent r key b l = l := by
  induction l generalizing b with
  | nil => rfl
  | cons a as ih =>
    obtain ⟨ha, has⟩ := List.pairwise_cons.1 hl
    rw [ascent, if_pos (hb a List.mem_cons_self), ih ha has]

section Order

variable [IsTrans β r]

/-- Every entry of an ascent is above the bound that it starts from. -/
theorem rel_of_mem_ascent {b : β} {a : α} {l : List α} (h : a ∈ ascent r key b l) :
    r b (key a) := by
  induction l generalizing b with
  | nil => exact absurd h List.not_mem_nil
  | cons x xs ih =>
    rw [ascent] at h
    split at h
    · next hx =>
      rcases List.mem_cons.1 h with rfl | h
      · exact hx
      · exact IsTrans.trans _ _ _ hx (ih h)
    · exact ih h

/-- The keys of an ascent are a chain. -/
theorem ascent_pairwise (b : β) (l : List α) :
    (ascent r key b l).Pairwise fun x y => r (key x) (key y) := by
  induction l generalizing b with
  | nil => exact List.Pairwise.nil
  | cons a as ih =>
    rw [ascent]
    split
    · exact List.Pairwise.cons (fun _ hx => rel_of_mem_ascent hx) (ih (key a))
    · exact ih b

/-- The search from the first element of an ascent goes on along the rest of it: what stands before
that element in the list is not beyond the start, so it is not beyond the element either. -/
theorem ascent_tail [Std.Irrefl r] {b : β} {a : α} {l rest : List α}
    (h : ascent r key b l = a :: rest) : ascent r key (key a) l = rest := by
  induction l with
  | nil => cases h
  | cons x xs ih =>
    rw [ascent] at h ⊢
    by_cases hx : r b (key x)
    · rw [if_pos hx] at h
      obtain ⟨rfl, rfl⟩ := List.cons.inj h
      exact if_neg (Std.Irrefl.irrefl _)
    · rw [if_neg hx] at h
      have ha : r b (key a) := rel_of_mem_ascent (h ▸ List.mem_cons_self)
      rw [if_neg fun hax => hx (IsTrans.trans _ _ _ ha hax), ih h]

end Order

end ExamplePrograms.Lib.Ascent
