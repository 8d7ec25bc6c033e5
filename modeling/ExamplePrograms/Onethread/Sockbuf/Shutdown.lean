import ExamplePrograms.Onethread.Sockbuf.Machine
import ExamplePrograms.Onethread.Sockbuf.Slots

/-!
# Shutdown

`sockbuf_shutdown` walks the poll table from its end, deletes the sockbufs it finds there and frees
the three arrays. It walks no other table and leaves `nlisteners` and `ndeleted_sockbufs` alone, while
each deletion counts the latter up.

A call of it is a run above the stack of its caller, on which the callbacks may do whatever external
code can. `Phase` says where such a run stands: before the first deletion nothing has changed, and
after it `ndeleted_sockbufs` is positive whenever the walk goes on. So the module is back in its
initial state exactly when there was nothing to shut down (`shutdown_initial_iff`).
-/

set_option autoImplicit false

namespace ExamplePrograms.Onethread.Sockbuf

open ExamplePrograms.Lib.Runs

/-- The `on_delete` callbacks of a sockbuf, in the order in which `sockbuf_delete` calls them. -/
def onDeleteCallbacks (s : State) (idx : Nat) : List Callback :=
  (((s.sbuf idx).chain.filter fun e => e.1.onDelete).map fun e => ⟨some e.1, e.2, idx, .delete⟩) ++
    if (s.sbuf idx).handler.any SockbufHandler.onDelete then
      [⟨none, (s.sbuf idx).clientData, idx, .delete⟩]
    else []

/-- The callback of an event that is an `on_delete` of the sockbuf. -/
def Event.deletion (idx : Nat) : Event → Option Callback
  | .callback cb => if cb.idx = idx ∧ cb.call = .delete then some cb else none
  | _ => none

/-- The calls of `on_delete` callbacks of a sockbuf. -/
def deletions (idx : Nat) (es : List Event) : List Callback := es.filterMap (Event.deletion idx)

/-- What `sockbuf_shutdown` is for: the module is in the state it starts in, and the `on_delete`
callbacks of every live sockbuf have been called once. -/
structure ShutDown (c c' : Config) : Prop where
  initial : c'.st = start.st
  deleted : ∃ es, c'.trace = c.trace ++ es ∧
    ∀ idx, sockbufIsvalid c.st idx = true → deletions idx es = onDeleteCallbacks c.st idx

/-- The module has nothing to shut down: no live sockbuf has an entry in the poll table, no listener
is attached, no deleted sockbuf waits to be reclaimed, and no live sockbuf has an `on_delete`. -/
structure Idle (s : State) : Prop where
  closed : ∀ i, i < s.npollfds → sockbufIsvalid s (s.idxArray.getD i 0) = false
  listeners : s.nlisteners = 0
  deleted : s.ndeletedSockbufs = 0
  silent : ∀ idx, sockbufIsvalid s idx = true → onDeleteCallbacks s idx = []

/-- A whole call of `sockbuf_shutdown`: the run above the stack of the caller, until it returns. -/
def Completes (k : Kernel) (c c' : Config) : Prop :=
  ∃ c₁, step c (.call .shutdown k) = some c₁ ∧
    Run step (fun b _ => c.stack.length < b.stack.length) c₁ c' ∧ c'.stack = c.stack

/-- The state behind the loop when nothing was deleted. -/
def State.freed (s : State) : State :=
  { s with idxArray := [], pollfds := [], npollfds := 0, sockbufs := [] }

/-- The part of the table that the walk has behind it holds no live sockbuf. -/
def State.ClosedFrom (s : State) (i : Nat) : Prop :=
  ∀ j, i ≤ j → j < s.npollfds → sockbufIsvalid s (s.idxArray.getD j 0) = false

/-- A task of a deletion that has not finished. -/
def Task.deleting : Task → Bool
  | .delete _ _ => true
  | .deleteFinish _ => true
  | _ => false

/-- Where a call of `sockbuf_shutdown` from the state `s` stands, above the stack `base`. -/
inductive Phase (s : State) (base : List Task) (tr : List Event) : Config → Prop
  | untouched (i : Nat) : i ≤ s.npollfds → s.ClosedFrom i →
      Phase s base tr ⟨s, .shutdown i :: base, tr⟩
  | walking {c : Config} (i : Nat) : c.stack = .shutdown i :: base → 1 ≤ c.st.ndeletedSockbufs →
      ¬ s.ClosedFrom 0 → Phase s base tr c
  | deleting {c : Config} (ts : List Task) (t : Task) (i : Nat) :
      c.stack = ts ++ t :: .shutdown i :: base → t.deleting = true → ¬ s.ClosedFrom 0 →
      Phase s base tr c
  | idle : s.ClosedFrom 0 → Phase s base tr ⟨s.freed, base, tr⟩
  | worked {c : Config} : c.stack = base → 1 ≤ c.st.ndeletedSockbufs → ¬ s.ClosedFrom 0 →
      Phase s base tr c

/-- The outcome of a task of a deletion: the deletion goes on, or it counts one sockbuf more. -/
theorem exec_deleting {t : Task} (ht : t.deleting = true) {k : Kernel} {s : State} {o : Outcome}
    (ho : t.exec k s = some o) :
    (∃ ts t', o.tasks = ts ++ [t'] ∧ t'.deleting = true) ∨
      (o.tasks = [] ∧ 1 ≤ o.st.ndeletedSockbufs) := by
  cases t with
  | delete idx i =>
    simp only [Task.exec, Option.some.injEq] at ho
    subst ho
    refine Or.inl ?_
    rw [sockbufDeleteCallbacks]
    split
    · split
      · exact ⟨_, _, rfl, rfl⟩
      · split
        · exact ⟨_, _, rfl, rfl⟩
        · exact ⟨[], _, rfl, rfl⟩
    · exact ⟨_, _, rfl, rfl⟩
  | deleteFinish idx =>
    simp only [Task.exec, Option.some.injEq] at ho
    subst ho
    refine Or.inr ⟨rfl, ?_⟩
    rw [sockbufDeleteFinish]
    simp only
    split
    · exact Nat.succ_pos _
    · exact Nat.succ_pos _
  | external cb => cases ht
  | writable idx connecting => cases ht
  | readable idx server => cases ht
  | hangup idx => cases ht
  | scan i n => cases ht
  | shutdown i => cases ht
  | crash => cases ht

section Walk

variable {s : State} {base : List Task} {tr : List Event}

/-- One step of the walk over a module that is as it was. -/
theorem Phase.walk_untouched {i : Nat} (hi : i ≤ s.npollfds) (h : s.ClosedFrom i) :
    Phase s base tr
      ((⟨s, .shutdown i :: base, tr⟩ : Config).after base (sockbufShutdownLoop s i)) := by
  cases i with
  | zero =>
    -- the walk is through and met no live sockbuf
    have hidle : Phase s base tr ⟨s.freed, base, tr⟩ := .idle h
    simpa [Config.after, sockbufShutdownLoop, State.freed] using hidle
  | succ i =>
    rw [sockbufShutdownLoop, sockbufDelete]
    by_cases hv : sockbufIsvalid s (s.idxArray.getD i 0) = true
    -- the walk meets a live sockbuf and begins its deletion
    · have hopen : ¬ s.ClosedFrom 0 := by
        intro hall
        rw [hall i (Nat.zero_le _) hi] at hv
        cases hv
      rw [if_pos hv]
      exact .deleting [] (.delete (s.idxArray.getD i 0) 0) i rfl rfl hopen
    · rw [if_neg hv]
      have hclosed : s.ClosedFrom i := by
        intro j hij hj
        rcases Nat.eq_or_lt_of_le hij with rfl | hlt
        · exact Bool.eq_false_iff.2 hv
        · exact h j hlt hj
      have hnext : Phase s base tr ⟨s, .shutdown i :: base, tr⟩ :=
        .untouched i (Nat.le_of_succ_le hi) hclosed
      simpa [Config.after, Outcome.andThen] using hnext

/-- One step of the walk behind a deletion. -/
theorem Phase.walk_worked {c : Config} {i : Nat} (hn : 1 ≤ c.st.ndeletedSockbufs)
    (hopen : ¬ s.ClosedFrom 0) :
    Phase s base tr (c.after base (sockbufShutdownLoop c.st i)) := by
  cases i with
  | zero => exact .worked rfl hn hopen
  | succ i =>
    rw [sockbufShutdownLoop, sockbufDelete]
    by_cases hv : sockbufIsvalid c.st (c.st.idxArray.getD i 0) = true
    · rw [if_pos hv]
      exact .deleting [] (.delete (c.st.idxArray.getD i 0) 0) i rfl rfl hopen
    · rw [if_neg hv]
      exact .walking i rfl hn hopen

/-- A module task on top of the stack: only the module can go on. -/
theorem step_of_task {c c' : Config} {a : Action} {t : Task} {rest : List Task}
    (hstack : c.stack = t :: rest) (hext : externalControl (t :: rest) = false)
    (hs : step c a = some c') : ∃ k o, t.exec k c.st = some o ∧ c' = c.after rest o := by
  rcases step_cases hs with ⟨f, k, o, rfl, hc, -, -⟩ | ⟨cb, rest', rfl, hc, -⟩ |
    ⟨k, u, rest', o, rfl, hc, ho, rfl⟩
  · rw [hstack, hext] at hc
    cases hc
  · rw [hstack] at hc
    cases hc
    cases hext
  · rw [hstack] at hc
    cases hc
    exact ⟨k, o, ho, rfl⟩

theorem deleting_external {t : Task} (ht : t.deleting = true) (rest : List Task) :
    externalControl (t :: rest) = false := by
  cases t with
  | external cb => cases ht
  | _ => rfl

/-- A step above the stack of the caller. What runs above a deletion cannot touch the tasks below. -/
theorem Phase.step {c c' : Config} {a : Action} (h : Phase s base tr c)
    (habove : base.length < c.stack.length) (hs : step c a = some c') : Phase s base tr c' := by
  cases h with
  | untouched i hi hclosed =>
    obtain ⟨k, o, ho, rfl⟩ := step_of_task rfl rfl hs
    simp only [Task.exec, Option.some.injEq] at ho
    subst ho
    exact walk_untouched hi hclosed
  | walking i hstack hn hopen =>
    obtain ⟨k, o, ho, rfl⟩ := step_of_task hstack rfl hs
    simp only [Task.exec, Option.some.injEq] at ho
    subst ho
    exact walk_worked hn hopen
  | deleting ts t i hstack ht hopen =>
    cases ts with
    -- the deletion itself goes on, or ends and is counted
    | nil =>
      obtain ⟨k, o, ho, rfl⟩ := step_of_task hstack (deleting_external ht _) hs
      rcases exec_deleting ht ho with ⟨ts', t', htasks, ht'⟩ | ⟨htasks, hn⟩
      · refine .deleting ts' t' i ?_ ht' hopen
        simp [Config.after, htasks]
      · refine .walking i ?_ hn hopen
        simp [Config.after, htasks]
    -- a callback of the deletion is running, with whatever it called on top
    | cons u us =>
      rcases step_cases hs with ⟨f, k, o, rfl, -, -, rfl⟩ | ⟨cb, rest, rfl, hc, rfl⟩ |
        ⟨k, u', rest, o, rfl, hc, -, rfl⟩
      · refine .deleting (o.tasks ++ u :: us) t i ?_ ht hopen
        simp [Config.after, hstack]
      · rw [hstack] at hc
        cases hc
        exact .deleting us t i rfl ht hopen
      · rw [hstack] at hc
        cases hc
        refine .deleting (o.tasks ++ us) t i ?_ ht hopen
        simp [Config.after]
  | idle hclosed => exact absurd habove (Nat.lt_irrefl _)
  | worked hstack hn hopen => exact absurd habove (hstack ▸ Nat.lt_irrefl _)

/-- How a completed call ends: nothing was deleted, or something was and is counted. -/
theorem Phase.done {c : Config} (h : Phase s base tr c) (hstack : c.stack = base) :
    (s.ClosedFrom 0 ∧ c = ⟨s.freed, base, tr⟩) ∨
      (1 ≤ c.st.ndeletedSockbufs ∧ ¬ s.ClosedFrom 0) := by
  -- a stack that has a task of the call above the caller's is not the caller's
  have hne : ∀ ts t, base ≠ ts ++ t :: base := by
    intro ts t heq
    have hlen := congrArg List.length heq
    simp at hlen
    omega
  cases h with
  | untouched i hi hclosed => exact absurd hstack.symm (hne [] _)
  | walking i hs hn hopen => exact absurd (hstack.symm.trans hs) (hne [] _)
  | deleting ts t i hs ht hopen =>
    have heq := hstack.symm.trans hs
    exact absurd (heq.trans (List.append_assoc ts [t] _).symm) (hne (ts ++ [t]) _)
  | idle hclosed => exact Or.inl ⟨hclosed, rfl⟩
  | worked hs hn hopen => exact Or.inr ⟨hn, hopen⟩

end Walk

/-- How a call of `sockbuf_shutdown` ends, whatever the callbacks do. -/
theorem Completes.cases {k : Kernel} {c c' : Config} (h : Completes k c c') :
    (c.st.ClosedFrom 0 ∧ c' = ⟨c.st.freed, c.stack, c.trace⟩) ∨
      (1 ≤ c'.st.ndeletedSockbufs ∧ ¬ c.st.ClosedFrom 0) := by
  obtain ⟨c₁, hcall, hrun, hdone⟩ := h
  have hclosed : c.st.ClosedFrom c.st.npollfds := fun j hj hlt => absurd hj (Nat.not_le.2 hlt)
  have hfirst : Phase c.st c.stack c.trace c₁ := by
    rcases step_cases hcall with ⟨f, k', o, hf, -, ho, rfl⟩ | ⟨cb, rest, hf, -⟩ |
      ⟨k', t, rest, o, hf, -⟩
    · cases hf
      cases ho
      -- the call starts the walk where the task of the whole table would
      exact Phase.walk_untouched (Nat.le_refl _) hclosed
    · cases hf
    · cases hf
  exact (hrun.invariant (fun b a b' hb habove hs => hb.step habove hs) hfirst).done hdone

/-- The walk passes over an entry that belongs to no live sockbuf. -/
theorem shutdownLoop_closed {s : State} {i : Nat}
    (hv : sockbufIsvalid s (s.idxArray.getD i 0) = false) :
    sockbufShutdownLoop s (i + 1) = { st := s, tasks := [.shutdown i] } := by
  rw [sockbufShutdownLoop, sockbufDelete, if_neg (by rw [hv]; exact Bool.false_ne_true)]
  rfl

/-- The walk over a table without live sockbufs. -/
theorem run_shutdown_closed {s : State} (h : s.ClosedFrom 0) (base : List Task) (tr : List Event)
    (i : Nat) (hi : i ≤ s.npollfds) :
    Run step (fun b _ => base.length < b.stack.length) ⟨s, .shutdown i :: base, tr⟩
      ⟨s.freed, base, tr⟩ := by
  induction i with
  | zero =>
    refine Run.head (x := .run {}) (Nat.lt_succ_self _) ?_ (Run.refl _)
    simp [step, Task.exec, sockbufShutdownLoop, Config.after, State.freed]
  | succ i ih =>
    have hv : sockbufIsvalid s (s.idxArray.getD i 0) = false := h i (Nat.zero_le _) hi
    refine Run.head (x := .run {}) (Nat.lt_succ_self _) ?_ (ih (Nat.le_of_succ_le hi))
    simp [step, Task.exec, shutdownLoop_closed hv, Config.after]

/-- A shutdown with nothing left to close. -/
theorem completes_of_closed {c : Config} (hext : externalControl c.stack = true)
    (h : c.st.ClosedFrom 0) (k : Kernel) : Completes k c ⟨c.st.freed, c.stack, c.trace⟩ := by
  cases hn : c.st.npollfds with
  | zero =>
    refine ⟨⟨c.st.freed, c.stack, c.trace⟩, ?_, .refl _, rfl⟩
    simp [step, hext, Api.apply, hn, sockbufShutdownLoop, Config.after, State.freed]
  | succ i =>
    have hi : i < c.st.npollfds := hn ▸ Nat.lt_succ_self i
    have hv : sockbufIsvalid c.st (c.st.idxArray.getD i 0) = false := h i (Nat.zero_le _) hi
    refine ⟨⟨c.st, .shutdown i :: c.stack, c.trace⟩, ?_,
      run_shutdown_closed h c.stack c.trace i (Nat.le_of_lt hi), rfl⟩
    simp [step, hext, Api.apply, hn, shutdownLoop_closed hv, Config.after]

/-- A module outside `sockbuf_update_all` that has nothing to shut down. -/
theorem Idle.shutDown {c : Config} (h : Idle c.st) (hdepth : c.st.depth = 0) :
    ShutDown c ⟨c.st.freed, c.stack, c.trace⟩ := by
  refine ⟨?_, [], (List.append_nil _).symm, fun idx hv => (h.silent idx hv).symm⟩
  show c.st.freed = start.st
  rw [State.freed, hdepth, h.listeners, h.deleted]
  rfl

/-- **Shutdown.** Every call of `sockbuf_shutdown` from outside `sockbuf_update_all`, whatever its
callbacks do, ends in the initial state with every live sockbuf deleted exactly when there was nothing
to shut down. -/
theorem shutdown_initial_iff {c : Config} (hext : externalControl c.stack = true)
    (hdepth : c.st.depth = 0) (k : Kernel) :
    (∀ c', Completes k c c' → (ShutDown c c' ↔ Idle c.st)) ∧
      (Idle c.st → ∃ c', Completes k c c') := by
  constructor
  · intro c' hc
    constructor
    · intro hdown
      rcases hc.cases with ⟨hclosed, rfl⟩ | ⟨hn, -⟩
      · have hst : c.st.freed = start.st := hdown.initial
        refine ⟨fun i => hclosed i (Nat.zero_le i), ?_, ?_, fun idx hv => ?_⟩
        · exact congrArg State.nlisteners hst
        · exact congrArg State.ndeletedSockbufs hst
        · -- the call has made no event
          obtain ⟨es, htr, hes⟩ := hdown.deleted
          have hnil : es = [] := List.append_right_eq_self.1 htr.symm
          rw [← hes idx hv, hnil]
          rfl
      -- the count of a deletion is still there, and the initial state has none
      · rw [hdown.initial] at hn
        cases hn
    · intro hidle
      rcases hc.cases with ⟨-, rfl⟩ | ⟨-, hopen⟩
      · exact hidle.shutDown hdepth
      · exact absurd (fun j _ hj => hidle.closed j hj) hopen
  · intro hidle
    exact ⟨_, completes_of_closed hext (fun j _ hj => hidle.closed j hj) k⟩

/-- A sockbuf that never got a socket, in a module without listeners. -/
theorem shutdown_initial_unconnected :
    ∃ c c', Run step (fun _ _ => True) start c ∧ Completes {} c c' ∧ ShutDown c c' := by
  have hslots : ∀ idx < 5, onDeleteCallbacks (sockbufNew {}).1 idx = [] := by decide
  have hidle : Idle (sockbufNew {}).1 :=
    ⟨fun i hi => absurd hi (Nat.not_lt_zero i), rfl, rfl,
      fun idx hv => hslots idx (sockbufIsvalid_iff.1 hv).1⟩
  have hall := shutdown_initial_iff (c := ⟨(sockbufNew {}).1, [], [.created 0]⟩) rfl rfl {}
  obtain ⟨c', hc⟩ := hall.2 hidle
  exact ⟨_, c', run_of_execute [.call .new {}] rfl, hc, (hall.1 c' hc).2 hidle⟩

/-- Shutdown with one open sockbuf: its deletion is still counted when the arrays are gone. -/
theorem shutdown_keeps_count :
    ∃ c c', Run step (fun _ _ => True) start c ∧ c.stack = [] ∧ c.st.depth = 0 ∧
      Completes {} c c' ∧ c'.st.ndeletedSockbufs = 1 ∧ ¬ ShutDown c c' := by
  let opened : List Action := [.call .new {}, .call (.setSock 0 5 {}) {}]
  let rest : List Action := [.run {}, .run {}, .run {}]
  refine ⟨_, _, run_of_execute opened rfl, rfl, rfl, ⟨_, rfl, run_of_execute rest rfl, rfl⟩, rfl,
    fun h => ?_⟩
  exact absurd (congrArg State.ndeletedSockbufs h.initial) (by decide)

end ExamplePrograms.Onethread.Sockbuf
