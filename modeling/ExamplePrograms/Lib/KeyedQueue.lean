import Mathlib.Data.List.Basic

/-!
# The queues of a list

A list of entries with keys holds one queue for every key: its entries, in their order. `push` puts an
entry at the end of the list, and `pop` takes out the first entry of a key. Every key then has a queue of
its own, whatever is done under the others (`queue_run`), and what is in the list stands in the order in
which it was pushed (`run_sublist`).
-/

set_option autoImplicit false

namespace ExamplePrograms.Lib.KeyedQueue

universe u v

variable {α : Type u} {κ : Type v} [DecidableEq κ]

/-- Appending an entry, or removing the first one with a key. -/
inductive Op (α : Type u) (κ : Type v) where
  | push (a : α)
  | pop (k : κ)

/-- One operation on the shared list. -/
def step (key : α → κ) (xs : List α) : Op α κ → List α
  | .push a => xs ++ [a]
  | .pop k => xs.eraseP fun a => key a = k

/-- A list of operations, one after the other. -/
def run (key : α → κ) (ops : List (Op α κ)) (xs : List α) : List α := ops.foldl (step key) xs

theorem run_append (key : α → κ) (ops more : List (Op α κ)) (xs : List α) :
    run key (ops ++ more) xs = run key more (run key ops xs) := List.foldl_append

/-- The entries of a key. -/
def queue (key : α → κ) (k : κ) (xs : List α) : List α := xs.filter fun a => key a = k

/-- What an operation does to a queue that serves one key only. -/
def serve (key : α → κ) (k : κ) (q : List α) : Op α κ → List α
  | .push a => if key a = k then q ++ [a] else q
  | .pop k' => if k' = k then q.tail else q

/-- The entries that are pushed. -/
def pushed : List (Op α κ) → List α
  | [] => []
  | .push a :: ops => a :: pushed ops
  | .pop _ :: ops => pushed ops

section Queue

variable (key : α → κ) (k : κ) (xs : List α)

/-- The queue of a key in two lists, one behind the other. -/
theorem queue_append (ys : List α) :
    queue key k (xs ++ ys) = queue key k xs ++ queue key k ys := List.filter_append xs ys

variable {key k} in
theorem queue_cons_self {a : α} (h : key a = k) : queue key k (a :: xs) = a :: queue key k xs :=
  List.filter_cons_of_pos (decide_eq_true h)

variable {key k} in
theorem queue_cons_other {a : α} (h : key a ≠ k) : queue key k (a :: xs) = queue key k xs :=
  List.filter_cons_of_neg (by simpa using h)

/-- A removal takes the head of the queue of its own key. -/
theorem queue_pop_self : queue key k (xs.eraseP fun a => key a = k) = (queue key k xs).tail := by
  induction xs with
  | nil => rfl
  | cons a xs ih =>
    by_cases ha : key a = k
    · rw [List.eraseP_cons_of_pos (by simpa using ha), queue_cons_self xs ha, List.tail_cons]
    · rw [List.eraseP_cons_of_neg (by simpa using ha), queue_cons_other _ ha, queue_cons_other _ ha, ih]

/-- A removal leaves the queue of another key alone. -/
theorem queue_pop_other {k' : κ} (h : k' ≠ k) :
    queue key k (xs.eraseP fun a => key a = k') = queue key k xs := by
  induction xs with
  | nil => rfl
  | cons a xs ih =>
    by_cases ha : key a = k'
    · rw [List.eraseP_cons_of_pos (by simpa using ha), queue_cons_other xs (ha ▸ h)]
    · rw [List.eraseP_cons_of_neg (by simpa using ha)]
      by_cases hk : key a = k
      · rw [queue_cons_self _ hk, queue_cons_self _ hk, ih]
      · rw [queue_cons_other _ hk, queue_cons_other _ hk, ih]

/-- An operation does to the queue of a key what it does to a queue of its own. -/
theorem queue_step (op : Op α κ) : queue key k (step key xs op) = serve key k (queue key k xs) op := by
  cases op with
  | push a =>
    rw [step, queue_append, serve]
    by_cases ha : key a = k
    · rw [if_pos ha, queue_cons_self [] ha]
      rfl
    · rw [if_neg ha, queue_cons_other [] ha]
      exact List.append_nil _
  | pop k' =>
    rw [step, serve]
    by_cases hk : k' = k
    · rw [if_pos hk, hk, queue_pop_self]
    · rw [if_neg hk, queue_pop_other key k xs hk]

/-- **The queues are independent.** -/
theorem queue_run (ops : List (Op α κ)) :
    queue key k (run key ops xs) = ops.foldl (serve key k) (queue key k xs) := by
  induction ops generalizing xs with
  | nil => rfl
  | cons op ops ih =>
    rw [run, List.foldl_cons, ← run, ih, queue_step, List.foldl_cons]

/-- The list never holds anything but what was pushed, in that order. -/
theorem run_sublist (ops : List (Op α κ)) : List.Sublist (run key ops xs) (xs ++ pushed ops) := by
  induction ops generalizing xs with
  | nil =>
    rw [pushed, List.append_nil]
    exact List.Sublist.refl xs
  | cons op ops ih =>
    rw [run, List.foldl_cons, ← run]
    refine (ih _).trans ?_
    cases op with
    | push a => rw [step, pushed, List.append_assoc, List.singleton_append]
    | pop k' =>
      rw [step, pushed]
      exact List.eraseP_sublist.append (List.Sublist.refl _)

end Queue

end ExamplePrograms.Lib.KeyedQueue
