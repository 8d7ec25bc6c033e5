import Mathlib.Data.List.Basic

/-!
# The life of a socket

What a function does with the one socket that it opens, as an automaton: attempts to open it, at most one
of which succeeds; options; an address; then it listens or connects; and once it is closed nothing is done
with it any more. `follow` runs the automaton over a list of acts and is undefined when one of them is out
of order.

The phase that is reached says what was opened and what is left open (`follow_counts`).
-/

set_option autoImplicit false

namespace ExamplePrograms.Lib.Descriptor

/-- What a system call does with the socket. -/
inductive Act where
  | opens (result : Int)
  | configures
  | binds
  | listens
  | connects
  | closes
  deriving DecidableEq, Repr

/-- The life of a descriptor, from `socket()` to `close()`. -/
inductive Phase where
  | idle
  | opened (fd : Int)
  | bound (fd : Int)
  | listening (fd : Int)
  | connecting (fd : Int)
  | closed
  deriving DecidableEq, Repr

namespace Phase

/-- The descriptor that is open. -/
def fd : Phase → Option Int
  | idle => none
  | opened fd => some fd
  | bound fd => some fd
  | listening fd => some fd
  | connecting fd => some fd
  | closed => none

/-- The phase behind an act that is in order. -/
def next (p : Phase) : Act → Option Phase
  | .opens result =>
      match p with
      | idle => some (if result < 0 then idle else opened result)
      | _ => none
  | .configures =>
      match p with
      | opened fd => some (opened fd)
      | _ => none
  | .binds =>
      match p with
      | opened fd => some (bound fd)
      | _ => none
  | .listens =>
      match p with
      | bound fd => some (listening fd)
      | _ => none
  | .connects =>
      match p with
      | opened fd => some (connecting fd)
      | bound fd => some (connecting fd)
      | listening fd => some (connecting fd)
      | _ => none
  | .closes => p.fd.map fun _ => closed

end Phase

/-- The phase behind a list of calls, or none where a call comes out of order. -/
def follow (p : Phase) (acts : List Act) : Option Phase := acts.foldlM Phase.next p

variable {p p' : Phase} {a : Act} {acts more : List Act}

@[simp] theorem follow_cons (p : Phase) (a : Act) (acts : List Act) :
    follow p (a :: acts) = (p.next a).bind fun p' => follow p' acts := List.foldlM_cons

/-- Calls that follow calls. -/
theorem follow_append (p : Phase) (acts more : List Act) :
    follow p (acts ++ more) = (follow p acts).bind fun p' => follow p' more := List.foldlM_append

/-- The acts go on from the phase that the first of them reach. -/
theorem follow_then (h : follow p acts = some p') : follow p (acts ++ more) = follow p' more := by
  rw [follow_append, h, Option.bind_some]

/-- Attempts that fail leave nothing open. -/
theorem follow_failed (h : ∀ a ∈ acts, ∃ result < 0, a = .opens result) :
    follow .idle acts = some .idle := by
  induction acts with
  | nil => rfl
  | cons a acts ih =>
    obtain ⟨result, hneg, rfl⟩ := h a List.mem_cons_self
    rw [follow_cons, Phase.next]
    simp only [if_pos hneg, Option.bind_some]
    exact ih fun a ha => h a (List.mem_cons_of_mem _ ha)

/-! ## What is left open -/

/-- The descriptors that the acts open. -/
def openedBy (acts : List Act) : List Int :=
  acts.filterMap fun
    | .opens result => if result < 0 then none else some result
    | _ => none

/-- The number of `close()` calls. -/
def closings (acts : List Act) : Nat := acts.count .closes

/-- The number of descriptors that are open. -/
def Phase.live (p : Phase) : Nat := p.fd.toList.length

/-- One call keeps the balance of opened and closed descriptors, and the descriptor that is worked on. -/
theorem next_counts (h : p.next a = some p') :
    p.live + (openedBy [a]).length = closings [a] + p'.live ∧
      ∀ fd, p'.fd = some fd → p.fd = some fd ∨ fd ∈ openedBy [a] := by
  cases a with
  | opens result =>
    cases p <;> simp only [Phase.next, Option.some.injEq, reduceCtorEq] at h
    subst h
    by_cases hneg : result < 0
    · simp [hneg, Phase.live, Phase.fd, openedBy, closings]
    · simp [hneg, Phase.live, Phase.fd, openedBy, closings]
  | configures =>
    cases p <;> simp only [Phase.next, Option.some.injEq, reduceCtorEq] at h
    subst h
    simp [Phase.live, Phase.fd, openedBy, closings]
  | binds =>
    cases p <;> simp only [Phase.next, Option.some.injEq, reduceCtorEq] at h
    subst h
    simp [Phase.live, Phase.fd, openedBy, closings]
  | listens =>
    cases p <;> simp only [Phase.next, Option.some.injEq, reduceCtorEq] at h
    subst h
    simp [Phase.live, Phase.fd, openedBy, closings]
  | connects =>
    cases p <;> simp only [Phase.next, Option.some.injEq, reduceCtorEq] at h <;> subst h <;>
      simp [Phase.live, Phase.fd, openedBy, closings]
  | closes =>
    obtain ⟨fd, hfd, rfl⟩ := Option.map_eq_some_iff.1 h
    have hlive : p.live = 1 := by
      rw [Phase.live, hfd]
      rfl
    rw [hlive]
    exact ⟨rfl, fun _ hc => by cases hc⟩

/-- **What is opened is closed or left open.** -/
theorem follow_counts (h : follow p acts = some p') :
    p.live + (openedBy acts).length = closings acts + p'.live ∧
      ∀ fd, p'.fd = some fd → p.fd = some fd ∨ fd ∈ openedBy acts := by
  induction acts generalizing p with
  | nil =>
    cases h
    exact ⟨Nat.add_comm _ _, fun _ hfd => Or.inl hfd⟩
  | cons a acts ih =>
    rw [follow_cons] at h
    obtain ⟨q, hq, hrest⟩ := Option.bind_eq_some_iff.1 h
    obtain ⟨hcount, hfd⟩ := next_counts hq
    obtain ⟨hcount', hfd'⟩ := ih hrest
    have hopened : openedBy (a :: acts) = openedBy [a] ++ openedBy acts := by
      rw [openedBy, openedBy, openedBy, ← List.filterMap_append, List.singleton_append]
    have hclosed : closings (a :: acts) = closings [a] + closings acts := by
      rw [closings, closings, closings, ← List.count_append, List.singleton_append]
    rw [hopened, hclosed, List.length_append]
    refine ⟨by omega, fun fd h => ?_⟩
    rcases hfd' fd h with hmid | hmem
    · rcases hfd fd hmid with hstart | hmem
      · exact Or.inl hstart
      · exact Or.inr (List.mem_append_left _ hmem)
    · exact Or.inr (List.mem_append_right _ hmem)

end ExamplePrograms.Lib.Descriptor
