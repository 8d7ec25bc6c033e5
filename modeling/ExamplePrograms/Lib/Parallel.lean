import Mathlib.Data.List.Basic

/-!
# Tasks that share nothing

A system of tasks that are spawned one after the other and make their steps in any order. The tasks share
nothing, so that each of them has got where it would have got alone (`run_getElem?`).
-/

set_option autoImplicit false

namespace ExamplePrograms.Lib.Parallel

universe u v

variable {τ : Type u} {α : Type v}

/-- A new task, or a step of one that runs. -/
inductive Act (τ : Type u) (α : Type v) where
  | spawn (t : τ)
  | step (i : Nat) (x : α)

/-- A step of the system, for the steps that a task can make. -/
def next (step : τ → α → Option τ) (ts : List τ) : Act τ α → Option (List τ)
  | .spawn t => some (ts ++ [t])
  | .step i x => ts[i]?.bind fun t => (step t x).map fun t' => ts.set i t'

/-- A list of acts, one after the other. -/
def run (step : τ → α → Option τ) (ts : List τ) (acts : List (Act τ α)) : Option (List τ) :=
  acts.foldlM (next step) ts

/-- The tasks that are spawned. -/
def spawned : List (Act τ α) → List τ
  | [] => []
  | .spawn t :: acts => t :: spawned acts
  | .step _ _ :: acts => spawned acts

/-- The steps of one task. -/
def stepsOf (i : Nat) : List (Act τ α) → List α
  | [] => []
  | .spawn _ :: acts => stepsOf i acts
  | .step j x :: acts => if j = i then x :: stepsOf i acts else stepsOf i acts

variable {step : τ → α → Option τ} {ts ts' : List τ} {acts : List (Act τ α)}

theorem run_append (step : τ → α → Option τ) (ts : List τ) (acts more : List (Act τ α)) :
    run step ts (acts ++ more) = (run step ts acts).bind fun ts' => run step ts' more := List.foldlM_append

/-- A run adds the tasks that it spawns, and removes none. -/
theorem length_run (h : run step ts acts = some ts') : ts'.length = ts.length + (spawned acts).length := by
  induction acts generalizing ts with
  | nil =>
    cases h
    rfl
  | cons a acts ih =>
    rw [run, List.foldlM_cons] at h
    obtain ⟨ts₁, hnext, hrest⟩ := Option.bind_eq_some_iff.1 h
    rw [ih hrest]
    cases a with
    | spawn t =>
      cases hnext
      rw [spawned, List.length_append, List.length_singleton, List.length_cons]
      omega
    | step j x =>
      obtain ⟨t, -, hset⟩ := Option.bind_eq_some_iff.1 hnext
      obtain ⟨t', -, rfl⟩ := Option.map_eq_some_iff.1 hset
      rw [List.length_set, spawned]

/-- **Each task runs alone.** -/
theorem run_getElem? (h : run step ts acts = some ts') (i : Nat) :
    ts'[i]? = (ts ++ spawned acts)[i]?.bind fun t => (stepsOf i acts).foldlM step t := by
  induction acts generalizing ts with
  | nil =>
    cases h
    rw [spawned, List.append_nil]
    exact (Option.bind_fun_some _).symm
  | cons a acts ih =>
    rw [run, List.foldlM_cons] at h
    obtain ⟨ts₁, hnext, hrest⟩ := Option.bind_eq_some_iff.1 h
    rw [ih hrest]
    cases a with
    | spawn t =>
      cases hnext
      rw [spawned, stepsOf, List.append_assoc, List.singleton_append]
    | step j x =>
      obtain ⟨t, ht, hset⟩ := Option.bind_eq_some_iff.1 hnext
      obtain ⟨t', ht', rfl⟩ := Option.map_eq_some_iff.1 hset
      have hj : j < ts.length := (List.getElem?_eq_some_iff.1 ht).1
      rw [spawned, stepsOf]
      by_cases hij : j = i
      · subst hij
        rw [if_pos rfl, List.getElem?_append_left (by rwa [List.length_set]),
          List.getElem?_append_left hj, List.getElem?_set_self hj, ht, Option.bind_some, Option.bind_some,
          List.foldlM_cons, ht']
        rfl
      · have hother : (ts.set j t' ++ spawned acts)[i]? = (ts ++ spawned acts)[i]? := by
          rw [List.getElem?_append, List.getElem?_append, List.length_set, List.getElem?_set_ne hij]
        rw [if_neg hij, hother]

end ExamplePrograms.Lib.Parallel
