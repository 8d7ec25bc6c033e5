import ExamplePrograms.Onethread.Sockbuf.PollTable

/-!
# Runs in which deletion is not re-entered

`Clean G` allows every call of external code except `sockbuf_shutdown`, and none from an `on_delete`
callback; `sockbuf_set_sock` gets connection flags that satisfy `G`. In such a run at most one deletion
is in progress, at the top of the stack (`Pending`).

`CleanInvariant G J` collects what has to be proved about each primitive of the module for `J` to
hold in every state of a clean run; `CleanInvariant.run` is the induction. `J` gets the sockbuf whose
deletion is in progress, if any.
-/

set_option autoImplicit false

namespace ExamplePrograms.Onethread.Sockbuf

open ExamplePrograms.Lib.Runs

/-- An `on_delete` callback is running. -/
def inDelete : List Task → Bool
  | .external cb :: _ => decide (cb.call = .delete)
  | _ => false

/-- Flags that callers pass to `sockbuf_set_sock`: the two marks of dead slots are the module's. -/
def Flags.Connection (flags : Flags) : Prop := flags.deleted = false ∧ flags.avail = false

instance (flags : Flags) : Decidable flags.Connection := by
  unfold Flags.Connection; infer_instance

/-- A condition on the arguments of `sockbuf_set_sock`, in the state of the call. -/
abbrev SockGuard := State → Nat → Int → Flags → Prop

/-- A call that a clean run may make: no shutdown, and `sockbuf_set_sock` with flags of a connection. -/
def Api.Clean (G : SockGuard) (s : State) : Api → Prop
  | .shutdown => False
  | .setSock idx sock flags => flags.Connection ∧ G s idx sock flags
  | _ => True

/-- A step of a clean run: nothing is called while a deletion is in progress. -/
def Clean (G : SockGuard) (c : Config) : Action → Prop
  | .call f _ => inDelete c.stack = false ∧ f.Clean G c.st
  | _ => True

instance (G : SockGuard) [∀ s idx sock flags, Decidable (G s idx sock flags)] (c : Config)
    (a : Action) : Decidable (Clean G c a) := by
  cases a with
  | call f k => cases f <;> simp only [Clean, Api.Clean] <;> infer_instance
  | ret => simp only [Clean]; infer_instance
  | run k => simp only [Clean]; infer_instance

/-- A task that is not part of a deletion or of the shutdown. -/
def Task.Ordinary : Task → Prop
  | .external cb => cb.call ≠ .delete
  | .delete .. => False
  | .deleteFinish _ => False
  | .shutdown _ => False
  | _ => True

/-- The rest of the deletion of `idx`. -/
def Task.Deletes (idx : Nat) : Task → Prop
  | .delete j _ => j = idx
  | .deleteFinish j => j = idx
  | _ => False

/-- What a deletion waits for: an `on_delete` callback, or for ever behind a crash. -/
def Task.Holds : Task → Prop
  | .external cb => cb.call = .delete
  | .crash => True
  | _ => False

/-- `Pending stack d`: the deletion of `d` is in progress on top of the stack, or none is. -/
inductive Pending : List Task → Option Nat → Prop
  | none {stack : List Task} (h : ∀ t ∈ stack, t.Ordinary) : Pending stack none
  | task {t : Task} {rest : List Task} {idx : Nat} (ht : t.Deletes idx)
      (h : ∀ t ∈ rest, t.Ordinary) : Pending (t :: rest) (some idx)
  | callback {u t : Task} {rest : List Task} {idx : Nat} (hu : u.Holds)
      (ht : t.Deletes idx) (h : ∀ t ∈ rest, t.Ordinary) : Pending (u :: t :: rest) (some idx)

/-- No deletion is in progress. -/
def Settled (c : Config) : Prop := ∀ t ∈ c.stack, t.Ordinary

instance (t : Task) : Decidable t.Ordinary := by
  cases t <;> simp only [Task.Ordinary] <;> infer_instance

instance (c : Config) : Decidable (Settled c) := by
  unfold Settled; infer_instance

/-- A plain task is ordinary. -/
theorem Task.Plain.ordinary {t : Task} (h : t.Plain) : t.Ordinary := by
  cases t with
  | external cb => exact h
  | crash => trivial
  | writable idx connecting => exact absurd h (by simp [Task.Plain])
  | readable idx server => exact absurd h (by simp [Task.Plain])
  | hangup idx => exact absurd h (by simp [Task.Plain])
  | scan i n => exact absurd h (by simp [Task.Plain])
  | delete idx i => exact absurd h (by simp [Task.Plain])
  | deleteFinish idx => exact absurd h (by simp [Task.Plain])
  | shutdown i => exact absurd h (by simp [Task.Plain])

theorem not_ordinary_deletes {t : Task} {idx : Nat} (h : t.Deletes idx) : ¬ t.Ordinary := by
  cases t <;> simp_all [Task.Deletes, Task.Ordinary]

theorem externalControl_deletes {t : Task} {idx : Nat} (h : t.Deletes idx) (rest : List Task) :
    externalControl (t :: rest) = false := by
  cases t <;> simp_all [Task.Deletes, externalControl]

theorem inDelete_holds {u : Task} {rest : List Task} (h : u.Holds)
    (hext : externalControl (u :: rest) = true) : inDelete (u :: rest) = true := by
  cases u <;> simp_all [Task.Holds, externalControl, inDelete]

theorem exec_holds {u : Task} (h : u.Holds) (k : Kernel) (s : State) : u.exec k s = none := by
  cases u <;> simp_all [Task.Holds, Task.exec]

theorem ordinary_append {ts rest : List Task} (h : ∀ t ∈ ts, t.Ordinary)
    (h' : ∀ t ∈ rest, t.Ordinary) : ∀ t ∈ ts ++ rest, t.Ordinary := by
  intro t ht
  rcases List.mem_append.1 ht with ht | ht
  · exact h t ht
  · exact h' t ht

/-- The tests of a word are ordinary tasks. -/
theorem ordinary_eventTasks (revents : Revents) (idx : Nat) (flags : Flags) :
    ∀ t ∈ eventTasks revents idx flags, t.Ordinary := by
  intro t ht
  simp only [eventTasks, List.mem_append] at ht
  rcases ht with (ht | ht) | ht <;> split at ht <;> simp at ht <;> subst ht <;> trivial

/-- What every primitive of the module has to keep. -/
structure CleanInvariant (G : SockGuard) (J : Option Nat → State → List Event → Prop) : Prop where
  effect : ∀ {s s' : State} {es tr : List Event}, J none s tr → Effect (fun _ => True) s es s' →
    J none s' (tr ++ es)
  create : ∀ {s : State} {tr : List Event}, J none s tr →
    J none (sockbufNew s).1 (tr ++ [.created (sockbufNew s).2])
  setSock : ∀ {s : State} {tr : List Event} (k : Kernel) (idx : Nat) (sock : Int) (flags : Flags),
    J none s tr → flags.Connection → G s idx sock flags →
    J none (sockbufSetSock k s idx sock flags) (tr ++ attachEvents s idx sock)
  accept : ∀ (s : State) (sock : Int), G (sockbufNew s).1 (sockbufNew s).2 sock { inbound := true }
  mark : ∀ {s : State} {tr : List Event} {idx : Nat}, J none s tr → sockbufIsvalid s idx = true →
    J (some idx) (s.update idx fun sb => { sb with flags := { sb.flags with deleted := true } })
      (tr ++ [.deleted idx])
  deleteCallback : ∀ {s : State} {tr : List Event} {idx : Nat} (cb : Callback), J (some idx) s tr →
    J (some idx) s (tr ++ [.callback cb])
  deleteFinish : ∀ {s : State} {tr : List Event} {idx : Nat}, J (some idx) s tr →
    J none (sockbufDeleteFinish s idx) tr
  attachListener : ∀ {s : State} {tr : List Event} (k : Kernel) (fd : Int), J none s tr →
    J none (sockbufAttachListener k s fd) (tr ++ [.attachedListener fd])
  detachListener : ∀ {s : State} {tr : List Event} (fd : Int), J none s tr →
    J none (sockbufDetachListener s fd) (tr ++ [.detachedListener fd])
  poll : ∀ {s : State} {tr : List Event} (k : Kernel), J none s tr →
    J none (sockbufUpdateAll k s).st (tr ++ (sockbufUpdateAll k s).events)
  dispatch : ∀ {s : State} {tr : List Event} (idx : Nat) (kind : EventKind), J none s tr →
    J none s (tr ++ [.dispatched idx kind])
  finish : ∀ {s : State} {tr : List Event}, J none s tr →
    J none (updateFinish s).st (tr ++ (updateFinish s).events)

/-- The invariant with the shape of the stack. -/
def CleanState (J : Option Nat → State → List Event → Prop) (c : Config) : Prop :=
  ∃ d, Pending c.stack d ∧ J d c.st c.trace

section Step

variable {G : SockGuard} {J : Option Nat → State → List Event → Prop}

/-- A stack of ordinary tasks with the invariant. -/
theorem CleanState.of_ordinary {c : Config} (h : ∀ t ∈ c.stack, t.Ordinary)
    (hJ : J none c.st c.trace) : CleanState J c :=
  ⟨none, .none h, hJ⟩

namespace CleanInvariant

variable (hI : CleanInvariant G J)

include hI

/-- A mild call keeps the invariant. -/
theorem mild {s : State} {tr : List Event} {o : Outcome} (hJ : J none s tr)
    (ho : Mild (fun _ => True) s o) : J none o.st (tr ++ o.events) :=
  ho.evolve.invariant (fun _ _ _ _ h he => hI.effect h he) hJ

theorem after_mild {c : Config} {rest : List Task} {o : Outcome} (hrest : ∀ t ∈ rest, t.Ordinary)
    (hJ : J none c.st c.trace) (ho : Mild (fun _ => True) c.st o) :
    CleanState J (c.after rest o) :=
  .of_ordinary (ordinary_append (fun t ht => (ho.plain t ht).ordinary) hrest) (hI.mild hJ ho)

/-- **A call of the module** keeps the invariant. -/
theorem call {c : Config} {f : Api} {k : Kernel} {o : Outcome}
    (hc : ∀ t ∈ c.stack, t.Ordinary) (hJ : J none c.st c.trace) (hok : Clean G c (.call f k))
    (h : f.apply k c.st = some o) : CleanState J (c.after c.stack o) := by
  cases hf : f.Structural with
  | false => exact hI.after_mild hc hJ (mild_apply c.st hf (fun _ _ => trivial) h)
  | true =>
    cases f with
    | new => cases h; exact .of_ordinary hc (hI.create hJ)
    | setSock idx sock flags =>
      cases h
      exact .of_ordinary hc (hI.setSock k idx sock flags hJ hok.2.1 hok.2.2)
    | delete idx =>
      cases h
      rw [sockbufDelete]
      split
      -- the only call that begins a deletion
      · next hv => exact ⟨some idx, .task rfl hc, hI.mark hJ hv⟩
      · exact hI.after_mild hc hJ (.same _)
    | attachListener fd => cases h; exact .of_ordinary hc (hI.attachListener k fd hJ)
    | detachListener fd => cases h; exact .of_ordinary hc (hI.detachListener fd hJ)
    | updateAll =>
      cases h
      refine .of_ordinary (ordinary_append ?_ hc) (hI.poll k hJ)
      intro t ht
      rw [sockbufUpdateAll] at ht
      split at ht <;> rw [List.mem_singleton.1 ht] <;> trivial
    | shutdown => exact absurd hok.2 id
    | close idx => simp [Api.Structural] at hf
    | write idx data len => simp [Api.Structural] at hf
    | read idx => simp [Api.Structural] at hf
    | noread idx => simp [Api.Structural] at hf
    | setHandler idx handler clientData => simp [Api.Structural] at hf
    | attachFilter idx filter clientData => simp [Api.Structural] at hf
    | detachFilter idx filter => simp [Api.Structural] at hf
    | on idx level call => simp [Api.Structural] at hf

/-- Accepting a connection hands out a sockbuf and gives it the new socket. -/
theorem accept_server {s : State} {tr : List Event} (k : Kernel) (idx : Nat) (hJ : J none s tr) :
    J none (sockbufGotReadableServer k s idx).st
        (tr ++ (sockbufGotReadableServer k s idx).events) ∧
      ∀ t ∈ (sockbufGotReadableServer k s idx).tasks, t.Ordinary := by
  rw [sockbufGotReadableServer]
  dsimp only
  split
  · exact ⟨by simpa using hJ, fun t ht => absurd ht List.not_mem_nil⟩
  · next hsock =>
    -- the three primitives in the order of the code: a new slot, its socket, the callback
    generalize hs : k.sysAccept (s.sbuf idx).sock = sock at hsock
    have hnew := hI.create hJ
    have hset := hI.setSock k (sockbufNew s).2 sock { inbound := true } hnew ⟨rfl, rfl⟩
      (hI.accept s sock)
    rw [attachEvents, if_pos ⟨sockbufIsvalid_sockbufNew s, by omega⟩] at hset
    have ho := mild_sockbufOnNewclient (T := fun _ => True)
      (sockbufSetSock k (sockbufNew s).1 (sockbufNew s).2 sock { inbound := true }) idx k
      sockbufLevelInternal (sockbufNew s).2 k.acceptPeer.1 k.acceptPeer.2
    have hlast := hI.mild hset ho
    refine ⟨by simpa using hlast, fun t ht => ?_⟩
    rw [Outcome.log_tasks] at ht
    exact (ho.plain t ht).ordinary

/-- The task on top, in a state where no deletion is in progress. -/
theorem run_ordinary {c : Config} {t : Task} {rest : List Task} {k : Kernel} {o : Outcome}
    (ht : t.Ordinary) (hrest : ∀ t ∈ rest, t.Ordinary) (hJ : J none c.st c.trace)
    (h : t.exec k c.st = some o) : CleanState J (c.after rest o) := by
  cases t with
  | external cb => cases h
  | crash => cases h
  | delete idx i => exact absurd ht (by simp [Task.Ordinary])
  | deleteFinish idx => exact absurd ht (by simp [Task.Ordinary])
  | shutdown i => exact absurd ht (by simp [Task.Ordinary])
  | hangup idx =>
    cases h
    have hm := hI.after_mild hrest (c := { c with trace := c.trace ++ [.dispatched idx .hangup] })
      (hI.dispatch idx .hangup hJ) (mild_sockbufGotEof c.st idx k 0)
    simpa [Config.after] using hm
  | writable idx connecting =>
    cases h
    have hm : Mild (fun _ => True) c.st
        (if connecting = true then sockbufGotWritableClient k c.st idx
          else sockbufGotWritable k c.st idx) := by
      split
      · exact mild_sockbufGotWritableClient c.st idx k
      · exact mild_sockbufGotWritable c.st idx trivial k
    have := hI.after_mild hrest (c := { c with trace := c.trace ++ [.dispatched idx .writable] })
      (hI.dispatch idx .writable hJ) hm
    simpa [Config.after] using this
  | readable idx server =>
    cases h
    have hd := hI.dispatch idx .readable hJ
    cases server with
    | false =>
      have := hI.after_mild hrest (c := { c with trace := c.trace ++ [.dispatched idx .readable] })
        hd (mild_sockbufGotReadable c.st idx k)
      simpa [Config.after] using this
    | true =>
      obtain ⟨hst, htasks⟩ := hI.accept_server k idx hd
      refine .of_ordinary (ordinary_append htasks hrest) ?_
      simpa [Config.after] using hst
  | scan i n =>
    cases h
    rw [updateScan]
    dsimp only
    split
    · split
      · refine .of_ordinary (ordinary_append ?_ hrest) (by simpa [Config.after] using hJ)
        intro t ht
        rw [List.mem_singleton.1 ht]
        trivial
      · refine .of_ordinary (ordinary_append (ordinary_append (ordinary_eventTasks _ _ _) ?_) hrest)
          (by simpa [Config.after] using hJ)
        intro t ht
        rw [List.mem_singleton.1 ht]
        trivial
    · refine .of_ordinary (ordinary_append ?_ hrest) (hI.finish hJ)
      intro t ht
      rw [updateFinish] at ht
      dsimp only at ht
      split at ht <;> exact absurd ht List.not_mem_nil

/-- The task on top, in a deletion. -/
theorem run_deletes {c : Config} {t : Task} {rest : List Task} {k : Kernel} {o : Outcome} {idx : Nat}
    (ht : t.Deletes idx) (hrest : ∀ t ∈ rest, t.Ordinary) (hJ : J (some idx) c.st c.trace)
    (h : t.exec k c.st = some o) : CleanState J (c.after rest o) := by
  cases t with
  | external cb => cases h
  | crash => cases h
  | writable j connecting => exact absurd ht (by simp [Task.Deletes])
  | readable j server => exact absurd ht (by simp [Task.Deletes])
  | hangup j => exact absurd ht (by simp [Task.Deletes])
  | scan i n => exact absurd ht (by simp [Task.Deletes])
  | shutdown i => exact absurd ht (by simp [Task.Deletes])
  | deleteFinish j =>
    cases h
    cases ht
    exact .of_ordinary hrest (by simpa [Config.after] using hI.deleteFinish hJ)
  | delete j i =>
    cases h
    cases ht
    -- an `on_delete` callback goes on the stack, above the rest of the deletion
    have hcall : ∀ (cb : Callback) (t : Task), cb.call = .delete → t.Deletes idx →
        CleanState J (c.after rest ((Outcome.invoke c.st cb).andThen [t])) := fun cb t hcb ht =>
      ⟨some idx, .callback hcb ht hrest, hI.deleteCallback cb hJ⟩
    rw [sockbufDeleteCallbacks]
    split
    · split
      · exact ⟨some idx, .callback (u := .crash) trivial rfl hrest,
          by simpa [Config.after, Outcome.crash] using hJ⟩
      · split
        · exact hcall _ _ rfl rfl
        · exact ⟨some idx, .task rfl hrest, by simpa [Config.after] using hJ⟩
    · rw [callHandler]
      split
      · exact ⟨some idx, .callback (u := .crash) trivial rfl hrest,
          by simpa [Config.after, Outcome.crash] using hJ⟩
      · split
        · exact hcall _ _ rfl rfl
        · exact ⟨some idx, .task rfl hrest, by simpa [Config.after] using hJ⟩

/-- **One step** keeps the invariant. -/
theorem step {c c' : Config} {a : Action} (hc : CleanState J c) (hok : Clean G c a)
    (h : Sockbuf.step c a = some c') : CleanState J c' := by
  obtain ⟨st, stack, trace⟩ := c
  obtain ⟨d, hp, hJ⟩ := hc
  simp only at hp hJ
  rcases step_cases h with ⟨f, k, o, rfl, hext, ho, rfl⟩ | ⟨cb, rest, rfl, hs, rfl⟩ |
    ⟨k, t, rest, o, rfl, hs, ho, rfl⟩
  · cases hp with
    | none hord => exact hI.call hord hJ hok ho
    | task ht _ => rw [externalControl_deletes ht] at hext; cases hext
    | callback hu _ _ => exact absurd hok.1 (by simp [inDelete_holds hu hext])
  · cases hp with
    | none hord =>
      cases hs
      exact .of_ordinary (fun t ht => hord t (List.mem_cons_of_mem _ ht)) hJ
    | task ht _ => cases hs; exact absurd ht (by simp [Task.Deletes])
    | callback _ ht hord => cases hs; exact ⟨_, .task ht hord, hJ⟩
  · cases hp with
    | none hord =>
      cases hs
      exact hI.run_ordinary (hord t List.mem_cons_self)
        (fun t ht => hord t (List.mem_cons_of_mem _ ht)) hJ ho
    | task ht hord => cases hs; exact hI.run_deletes ht hord hJ ho
    | callback hu _ _ => cases hs; exact absurd ho (by simp [exec_holds hu])

/-- `J` holds in every state of a clean run. -/
theorem run (hstart : J none {} []) {c : Config} (h : Run Sockbuf.step (Clean G) start c) :
    CleanState J c :=
  h.invariant (fun _ _ _ hc hok hs => hI.step hc hok hs)
    (.of_ordinary (fun _ ht => absurd ht List.not_mem_nil) hstart)

/-- Where no deletion is in progress, `J none` holds. -/
theorem settled (hstart : J none {} []) {c : Config} (h : Run Sockbuf.step (Clean G) start c)
    (hs : Settled c) : J none c.st c.trace := by
  obtain ⟨d, hp, hJ⟩ := hI.run hstart h
  obtain ⟨st, stack, trace⟩ := c
  simp only [Settled] at hp hJ hs
  cases hp with
  | none _ => exact hJ
  | task ht _ => exact absurd (hs _ List.mem_cons_self) (not_ordinary_deletes ht)
  | callback _ ht _ =>
    exact absurd (hs _ (List.mem_cons_of_mem _ List.mem_cons_self)) (not_ordinary_deletes ht)

end CleanInvariant

end Step

end ExamplePrograms.Onethread.Sockbuf
