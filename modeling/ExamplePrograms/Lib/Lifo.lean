import Mathlib.Data.List.Basic
import Mathlib.Data.List.Perm.Basic
import Mathlib.Tactic.Common

/-!
# Last in, first out

A log of entries and removals keeps the order of a stack when each removal takes what was entered last
and is still there. `replay stack ops` is what is left of `stack` behind such a log, and undefined when
the log breaks the order. What is entered is then removed once or still there (`replay_perm`).
-/

set_option autoImplicit false

namespace ExamplePrograms.Lib.Lifo

universe u

variable {α : Type u}

/-- The operations on a stack, with the value that goes on or comes off. -/
inductive Op (α : Type u) where
  | push (a : α)
  | pop (a : α)
  deriving DecidableEq, Repr

/-- The elements that are entered, in order. -/
def pushed : List (Op α) → List α
  | [] => []
  | .push a :: ops => a :: pushed ops
  | .pop _ :: ops => pushed ops

/-- The elements that are removed, in order. -/
def popped : List (Op α) → List α
  | [] => []
  | .push _ :: ops => popped ops
  | .pop a :: ops => a :: popped ops

/-- What a log leaves of the stack. -/
def replay [DecidableEq α] : List α → List (Op α) → Option (List α)
  | stack, [] => some stack
  | stack, .push a :: ops => replay (a :: stack) ops
  | [], .pop _ :: _ => none
  | a :: stack, .pop b :: ops => if a = b then replay stack ops else none

variable [DecidableEq α]

/-- Operations that follow operations. -/
theorem replay_append (ops ops' : List (Op α)) (stack : List α) :
    replay stack (ops ++ ops') = (replay stack ops).bind fun s => replay s ops' := by
  induction ops generalizing stack with
  | nil => rfl
  | cons op ops ih =>
    cases op with
    | push a => exact ih (a :: stack)
    | pop b =>
      cases stack with
      | nil => rfl
      | cons a stack =>
        rw [List.cons_append, replay, replay]
        split
        · exact ih stack
        · rfl

/-- Values that are pushed stand on the stack in reverse order. -/
theorem replay_pushes (as stack : List α) :
    replay stack (as.map Op.push) = some (as.reverse ++ stack) := by
  induction as generalizing stack with
  | nil => rfl
  | cons a as ih =>
    rw [List.map_cons, replay, ih, List.reverse_cons, List.append_assoc]
    rfl

/-- The values on top are popped in their order. -/
theorem replay_pops (as stack : List α) : replay (as ++ stack) (as.map Op.pop) = some stack := by
  induction as with
  | nil => rfl
  | cons a as ih =>
    rw [List.cons_append, List.map_cons, replay, if_pos rfl]
    exact ih

/-- Every element that is entered or was there is removed once or still there. -/
theorem replay_perm (ops : List (Op α)) {stack stack' : List α}
    (h : replay stack ops = some stack') :
    (stack ++ pushed ops).Perm (stack' ++ popped ops) := by
  induction ops generalizing stack with
  | nil =>
    cases h
    exact List.Perm.refl _
  | cons op ops ih =>
    cases op with
    | push a => exact List.perm_middle.trans (ih h)
    | pop b =>
      cases stack with
      | nil => cases h
      | cons a stack =>
        rw [replay] at h
        split at h
        · next heq =>
          subst heq
          exact ((ih h).cons a).trans List.perm_middle.symm
        · cases h

end ExamplePrograms.Lib.Lifo
