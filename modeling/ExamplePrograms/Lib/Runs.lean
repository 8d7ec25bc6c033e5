import Mathlib.Logic.Relation

/-!
# Runs of a partial step function

A system is a partial step function `step : σ → α → Option σ`: in the state `c` the action `x` is
possible when `step c x` is defined. `Run step ok c c'` is a finite run from `c` to `c'` every step of
which satisfies `ok`; the predicate `ok` restricts what the environment does, and depends on the
state before the step and on the action only.

`Run.invariant` is the induction rule for properties kept by every step. `execute` runs a list of
actions and is the executable side: `run_of_execute` turns a computed execution into a `Run`.
`Throughout step P c xs` says that every step of such an execution satisfies `P`, and `Along P tr` that
every event of a trace stands in the relation `P` to the events before it.
-/

set_option autoImplicit false

namespace ExamplePrograms.Lib.Runs

universe u v

variable {σ : Type u} {α : Type v} {step : σ → α → Option σ} {ok ok' : σ → α → Prop}

/-- Finite runs all of whose steps satisfy `ok`. -/
inductive Run (step : σ → α → Option σ) (ok : σ → α → Prop) : σ → σ → Prop
  | refl (c : σ) : Run step ok c c
  | snoc {a b c : σ} {x : α} : Run step ok a b → ok b x → step b x = some c → Run step ok a c

/-- A property kept by every allowed step holds at the end of a run when it holds at its start. -/
theorem Run.invariant {I : σ → Prop} (hstep : ∀ c x c', I c → ok c x → step c x = some c' → I c')
    {a b : σ} (h : Run step ok a b) (ha : I a) : I b := by
  induction h with
  | refl => exact ha
  | snoc _ hok hs ih => exact hstep _ _ _ ih hok hs

/-- The steps of a run satisfy what an invariant of the run makes of their condition. -/
theorem Run.imp {I : σ → Prop} (hstep : ∀ c x c', I c → ok c x → step c x = some c' → I c')
    (himp : ∀ c x c', I c → ok c x → step c x = some c' → ok' c x) {a b : σ}
    (h : Run step ok a b) (ha : I a) : Run step ok' a b := by
  induction h with
  | refl => exact .refl a
  | snoc hab hok hs ih => exact .snoc ih (himp _ _ _ (hab.invariant hstep ha) hok hs) hs

/-- Runs compose. -/
theorem Run.trans {a b c : σ} (hab : Run step ok a b) (hbc : Run step ok b c) :
    Run step ok a c := by
  induction hbc with
  | refl => exact hab
  | snoc _ hok hs ih => exact .snoc ih hok hs

/-- The first step of a run that is not empty. -/
theorem Run.head {a b c : σ} {x : α} (hok : ok a x) (hs : step a x = some b)
    (h : Run step ok b c) : Run step ok a c :=
  Run.trans (.snoc (.refl a) hok hs) h

/-- Run a list of actions; undefined as soon as one is impossible or not allowed. -/
def execute (step : σ → α → Option σ) (ok : σ → α → Prop) [∀ c x, Decidable (ok c x)] :
    σ → List α → Option σ
  | c, [] => some c
  | c, x :: xs => if ok c x then (step c x).bind fun c' => execute step ok c' xs else none

/-- A list of actions that executes is a run. -/
theorem run_of_execute [∀ c x, Decidable (ok c x)] :
    ∀ (xs : List α) {c c' : σ}, execute step ok c xs = some c' → Run step ok c c'
  | [], c, c', h => by
      simp only [execute, Option.some.injEq] at h
      exact h ▸ .refl c
  | x :: xs, c, c', h => by
      rw [execute] at h
      by_cases hok : ok c x
      · rw [if_pos hok] at h
        obtain ⟨b, hb, hrest⟩ := Option.bind_eq_some_iff.1 h
        exact Run.head hok hb (run_of_execute xs hrest)
      · rw [if_neg hok] at h
        exact absurd h (by simp)

/-- The induction rule for properties of a state and of the actions that led to it. -/
theorem execute_invariant [∀ c x, Decidable (ok c x)] {I : List α → σ → Prop}
    (hstep : ∀ xs c x c', I xs c → ok c x → step c x = some c' → I (xs ++ [x]) c') :
    ∀ (xs ys : List α) {c c' : σ}, execute step ok c xs = some c' → I ys c → I (ys ++ xs) c'
  | [], ys, c, c', h, hI => by
      cases h
      rwa [List.append_nil]
  | x :: xs, ys, c, c', h, hI => by
      rw [execute] at h
      split at h
      · next hok =>
        obtain ⟨b, hb, hrest⟩ := Option.bind_eq_some_iff.1 h
        have hlast := execute_invariant hstep xs (ys ++ [x]) hrest (hstep ys c x b hI hok hb)
        rwa [List.append_assoc] at hlast
      · cases h

/-! ## Conditions on all steps -/

/-- Every step that the actions `xs` make from `c` satisfies `P`. -/
def Throughout (step : σ → α → Option σ) (P : σ → α → Prop) : σ → List α → Prop
  | _, [] => True
  | c, x :: xs =>
      P c x ∧
        match step c x with
        | some c' => Throughout step P c' xs
        | none => True

namespace Throughout

variable {P Q : σ → α → Prop}

instance decidable [∀ c x, Decidable (P c x)] : ∀ c xs, Decidable (Throughout step P c xs)
  | _, [] => instDecidableTrue
  | c, x :: xs =>
      haveI : Decidable (match step c x with
          | some c' => Throughout step P c' xs
          | none => True) :=
        match step c x with
        | some c' => decidable c' xs
        | none => instDecidableTrue
      instDecidableAnd

/-- A condition on all steps follows from another one where an invariant holds. -/
theorem imp {I : σ → Prop} (hstep : ∀ c x c', I c → ok c x → step c x = some c' → I c')
    (himp : ∀ c x, I c → ok c x → P c x → Q c x) {c : σ} {xs : List α} (hI : I c)
    (hok : Throughout step ok c xs) (hP : Throughout step P c xs) : Throughout step Q c xs := by
  induction xs generalizing c with
  | nil => trivial
  | cons x xs ih =>
    obtain ⟨hokx, hokxs⟩ := hok
    obtain ⟨hPx, hPxs⟩ := hP
    refine ⟨himp c x hI hokx hPx, ?_⟩
    cases hs : step c x with
    | none => trivial
    | some c' =>
      rw [hs] at hokxs hPxs
      exact ih (hstep c x c' hI hokx hs) hokxs hPxs

/-- A weaker condition on the steps. -/
theorem mono (himp : ∀ c x, P c x → Q c x) {c : σ} {xs : List α} (hP : Throughout step P c xs) :
    Throughout step Q c xs :=
  imp (I := fun _ => True) (fun _ _ _ _ _ _ => trivial) (fun c x _ _ h => himp c x h) trivial hP hP

/-- Two conditions on the same steps. -/
theorem and {c : σ} {xs : List α} (hP : Throughout step P c xs) (hQ : Throughout step Q c xs) :
    Throughout step (fun c x => P c x ∧ Q c x) c xs :=
  imp (I := fun _ => True) (fun _ _ _ _ _ _ => trivial) (fun _ _ _ h h' => ⟨h, h'⟩) trivial hP hQ

/-- Two conditions that agree wherever an invariant of the run holds agree on the run. -/
theorem iff_of_invariant {I : σ → Prop} (hstep : ∀ c x c', I c → ok c x → step c x = some c' → I c')
    (hiff : ∀ c x, I c → ok c x → (P c x ↔ Q c x)) {c : σ} {xs : List α} (hI : I c)
    (hok : Throughout step ok c xs) : Throughout step P c xs ↔ Throughout step Q c xs :=
  ⟨imp hstep (fun c x h h' => (hiff c x h h').1) hI hok,
    imp hstep (fun c x h h' => (hiff c x h h').2) hI hok⟩

/-- What an invariant and the condition of the steps imply. -/
theorem of_invariant {I : σ → Prop} (hstep : ∀ c x c', I c → ok c x → step c x = some c' → I c')
    (himp : ∀ c x, I c → ok c x → Q c x) {c : σ} {xs : List α} (hI : I c)
    (hok : Throughout step ok c xs) : Throughout step Q c xs :=
  imp hstep (fun c x h h' _ => himp c x h h') hI hok hok

/-- Two conditions that agree wherever an invariant holds, which one of them keeps. -/
theorem iff_of_kept {I : σ → Prop} (hstep : ∀ c x c', I c → Q c x → step c x = some c' → I c')
    (hiff : ∀ c x, I c → (P c x ↔ Q c x)) {c : σ} {xs : List α} (hI : I c) :
    Throughout step P c xs ↔ Throughout step Q c xs := by
  induction xs generalizing c with
  | nil => exact Iff.rfl
  | cons x xs ih =>
    rw [Throughout, Throughout, hiff c x hI]
    refine and_congr_right fun hQ => ?_
    cases hs : step c x with
    | none => exact Iff.rfl
    | some c' => exact ih (hstep c x c' hI hQ hs)

end Throughout

/-! ## Traces -/

section Along

variable {ε : Type u} {P : List ε → ε → Prop}

/-- Every event `e` of the trace satisfies `P pre e`, where `pre` is the part before it. -/
def Along (P : List ε → ε → Prop) (tr : List ε) : Prop :=
  ∀ pre e post, tr = pre ++ e :: post → P pre e

theorem along_nil : Along P [] := by
  intro pre e post h
  exact absurd h (by simp)

/-- A condition on traces, one event further. -/
theorem Along.snoc {tr : List ε} {e : ε} (h : Along P tr) (he : P tr e) : Along P (tr ++ [e]) := by
  intro pre x post hx
  rcases List.eq_nil_or_concat post with rfl | ⟨post', y, rfl⟩
  · obtain ⟨hpre, hlast⟩ := List.append_inj' hx rfl
    cases hlast
    exact hpre ▸ he
  · have hx' : tr ++ [e] = (pre ++ x :: post') ++ [y] := by simpa using hx
    exact h pre x post' (List.append_inj' hx' rfl).1

/-- Several events at once, each behind the trace and the events before it. -/
theorem Along.extend {tr es : List ε} (h : Along P tr)
    (hes : ∀ pre e post, es = pre ++ e :: post → P (tr ++ pre) e) : Along P (tr ++ es) := by
  induction es generalizing tr with
  | nil => simpa using h
  | cons e es ih =>
    have he : P tr e := by simpa using hes [] e es rfl
    have hrest := ih (h.snoc he) fun pre x post hx => by
      simpa using hes (e :: pre) x post (by rw [hx]; rfl)
    simpa using hrest

/-- Events that satisfy `P` behind any trace. -/
theorem Along.append {tr es : List ε} (h : Along P tr) (hes : ∀ e ∈ es, ∀ pre, P pre e) :
    Along P (tr ++ es) :=
  h.extend fun _ e _ heq => hes e (by rw [heq]; simp) _

end Along

end ExamplePrograms.Lib.Runs
