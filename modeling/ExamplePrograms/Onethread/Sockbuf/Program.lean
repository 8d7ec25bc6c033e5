import ExamplePrograms.Onethread.Sockbuf.Isolation

/-!
# Programs over the module

A server program sets up its listening sockbufs and then calls `sockbuf_update_all` for ever; everything
else it does is in its callbacks. `Program.serve` is what a callback does from its call to its return:
the program's data, the state of the module and the events behind it. `Program.step` is the module with
these callbacks.

A step of a program whose callbacks do nothing but call module functions (`Program.Faithful`) is a clean
run of the module (`Program.Faithful.step`), so that what holds in clean runs holds of the program.

The programs here accept connections and delete none. `InUse` is the shape of their slots.
-/

set_option autoImplicit false

namespace ExamplePrograms.Onethread.Sockbuf

open ExamplePrograms.Lib.Runs State

variable {δ ε : Type}

/-- What a callback leaves when it returns. -/
structure Served (δ : Type) where
  data : δ
  st : State
  events : List Event := []

/-- The callbacks of a program with the data `δ`. `ε` is what the system answers to the calls of one
callback. A callback that is not defined, or does what C leaves undefined, has no result. -/
structure Program (δ ε : Type) where
  serve : ε → δ → State → Callback → Option (Served δ)

/-- The module and the data of the program. -/
structure Process (δ : Type) where
  config : Config
  data : δ

/-- The main program calls `sockbuf_update_all`, or the module goes on. -/
inductive Move (ε : Type) where
  | pass (k : Kernel)
  | run (k : Kernel) (e : ε)

namespace Program

/-- The module goes on behind the outcome `o`, whose callback runs to its end. -/
def settle (p : Program δ ε) (e : ε) (c : Process δ) (rest : List Task) (o : Outcome) :
    Option (Process δ) :=
  match o.tasks with
  | .external cb :: ts =>
      (p.serve e c.data o.st cb).map fun r =>
        ⟨⟨r.st, ts ++ rest, c.config.trace ++ o.events ++ r.events⟩, r.data⟩
  | _ => some ⟨c.config.after rest o, c.data⟩

/-- One move, where it is possible. -/
def step (p : Program δ ε) (c : Process δ) : Move ε → Option (Process δ)
  | .pass k =>
      match c.config.stack with
      | [] => some ⟨c.config.after [] (sockbufUpdateAll k c.config.st), c.data⟩
      | _ :: _ => none
  | .run k e =>
      match c.config.stack with
      | [] => none
      | t :: rest => (t.exec k c.config.st).bind (p.settle e c rest)

/-- What a step does: a pass begins, a task calls nobody, or it calls a callback of the program. -/
theorem step_cases {p : Program δ ε} {c c' : Process δ} {x : Move ε} (h : p.step c x = some c') :
    (∃ k, x = .pass k ∧ c.config.stack = [] ∧
      c' = ⟨c.config.after [] (sockbufUpdateAll k c.config.st), c.data⟩) ∨
    (∃ k e t rest o, x = .run k e ∧ c.config.stack = t :: rest ∧ t.exec k c.config.st = some o ∧
      ((∀ cb ts, o.tasks ≠ .external cb :: ts) ∧ c' = ⟨c.config.after rest o, c.data⟩ ∨
        ∃ cb ts r, o.tasks = .external cb :: ts ∧ p.serve e c.data o.st cb = some r ∧
          c' = ⟨⟨r.st, ts ++ rest, c.config.trace ++ o.events ++ r.events⟩, r.data⟩)) := by
  cases x with
  | pass k =>
    rw [step] at h
    split at h
    · next hs => exact Or.inl ⟨k, rfl, hs, (Option.some.inj h).symm⟩
    · cases h
  | run k e =>
    rw [step] at h
    split at h
    · cases h
    · next t rest hs =>
      obtain ⟨o, ho, hsettle⟩ := Option.bind_eq_some_iff.1 h
      refine Or.inr ⟨k, e, t, rest, o, rfl, hs, ho, ?_⟩
      rw [settle] at hsettle
      split at hsettle
      · next cb ts htasks =>
        obtain ⟨r, hr, hc'⟩ := Option.map_eq_some_iff.1 hsettle
        exact Or.inr ⟨cb, ts, r, htasks, hr, hc'.symm⟩
      · next hnone => exact Or.inl ⟨hnone, (Option.some.inj hsettle).symm⟩

end Program

/-! ## Programs as runs of the module -/

/-- A running callback takes the module from `s` to `s'`, with the events on the way. -/
def Calls (s : State) (es : List Event) (s' : State) : Prop :=
  ∀ (cb : Callback) (rest : List Task) (tr : List Event), cb.call ≠ .delete →
    Run step (Clean anySock) ⟨s, .external cb :: rest, tr⟩ ⟨s', .external cb :: rest, tr ++ es⟩

namespace Calls

variable {s s' s'' : State} {es es' : List Event} {f : Api} {k : Kernel} {o : Outcome}

theorem refl (s : State) : Calls s [] s := by
  intro cb rest tr _
  rw [List.append_nil]
  exact .refl _

/-- Calls, one behind the other. -/
theorem trans (h : Calls s es s') (h' : Calls s' es' s'') : Calls s (es ++ es') s'' := by
  intro cb rest tr hcb
  rw [← List.append_assoc]
  exact (h cb rest tr hcb).trans (h' cb rest (tr ++ es) hcb)

/-- A call of a module function that calls nobody. -/
theorem call (hf : f.Clean anySock s) (ho : f.apply k s = some o) (htasks : o.tasks = []) :
    Calls s o.events o.st := by
  intro cb rest tr hcb
  refine Run.head (x := .call f k) ⟨decide_eq_false hcb, hf⟩
    (b := ⟨o.st, .external cb :: rest, tr ++ o.events⟩) ?_ (.refl _)
  simp only [step, externalControl, if_true, ho, Option.map_some, Config.after, htasks,
    List.nil_append]

/-- A call of a module function that calls back. -/
theorem nested {cb' : Callback} (hf : f.Clean anySock s) (ho : f.apply k s = some o)
    (htasks : o.tasks = [.external cb']) (hcb' : cb'.call ≠ .delete) (h : Calls o.st es s') :
    Calls s (o.events ++ es) s' := by
  intro cb rest tr hcb
  have hstep : step ⟨s, .external cb :: rest, tr⟩ (.call f k) =
      some ⟨o.st, .external cb' :: .external cb :: rest, tr ++ o.events⟩ := by
    simp only [step, externalControl, if_true, ho, Option.map_some, Config.after, htasks,
      List.cons_append, List.nil_append]
  have hinner := h cb' (.external cb :: rest) (tr ++ o.events) hcb'
  rw [List.append_assoc] at hinner
  refine Run.head (x := .call f k) ⟨decide_eq_false hcb, hf⟩ hstep (.snoc (x := .ret) hinner trivial ?_)
  rfl

end Calls

namespace Program

/-- The callbacks call module functions and do nothing else to the module. There is no `on_delete`
among them. -/
def Faithful (p : Program δ ε) : Prop :=
  ∀ e d s cb r, p.serve e d s cb = some r → cb.call ≠ .delete ∧ Calls s r.events r.st

/-- A step of the program is a run of the module. -/
theorem Faithful.step {p : Program δ ε} (hp : p.Faithful) {c c' : Process δ} {x : Move ε}
    (h : p.step c x = some c') : Run Sockbuf.step (Clean anySock) c.config c'.config := by
  rcases step_cases h with ⟨k, -, hs, rfl⟩ | ⟨k, e, t, rest, o, -, hs, ho, hend⟩
  · refine Run.head (x := .call .updateAll k) ⟨by rw [hs]; rfl, trivial⟩ ?_ (.refl _)
    simp only [Sockbuf.step, hs, externalControl, if_true, Api.apply, Option.map_some]
  · have hstep : Sockbuf.step c.config (.run k) = some (c.config.after rest o) := by
      simp only [Sockbuf.step, hs, ho, Option.map_some]
    refine Run.head (x := .run k) trivial hstep ?_
    rcases hend with ⟨-, rfl⟩ | ⟨cb, ts, r, htasks, hserve, rfl⟩
    · exact .refl _
    · obtain ⟨hcb, hcalls⟩ := hp e c.data o.st cb r hserve
      have hafter : c.config.after rest o =
          ⟨o.st, .external cb :: (ts ++ rest), c.config.trace ++ o.events⟩ := by
        rw [Config.after, htasks]
        rfl
      rw [hafter]
      exact .snoc (x := .ret) (hcalls cb (ts ++ rest) _ hcb) trivial rfl

end Program

/-! ## Slots that are handed out and kept -/

/-- The first `m` slots are in use, each with a record that satisfies `P`, and the others are available. -/
structure InUse (P : Nat → SockbufT → Prop) (m : Nat) (s : State) : Prop where
  le : m ≤ s.nsockbufs
  used : ∀ j < m, (s.sbuf j).flags.avail = false ∧ (s.sbuf j).flags.deleted = false ∧ P j (s.sbuf j)
  free : ∀ j, m ≤ j → j < s.nsockbufs → (s.sbuf j).flags.avail = true
  ndeleted : s.ndeletedSockbufs = 0

namespace InUse

variable {P : Nat → SockbufT → Prop} {m : Nat} {s s' : State}

/-- The valid sockbufs are those of the program. -/
theorem valid_iff (h : InUse P m s) (j : Nat) : sockbufIsvalid s j = true ↔ j < m := by
  rw [sockbufIsvalid_iff]
  constructor
  · rintro ⟨hlt, havail, -⟩
    by_contra hj
    exact absurd (h.free j (by omega) hlt) (by rw [havail]; exact Bool.false_ne_true)
  · intro hj
    exact ⟨Nat.lt_of_lt_of_le hj h.le, (h.used j hj).1, (h.used j hj).2.1⟩

/-- The slot that `sockbuf_new` takes is the one behind those in use. -/
theorem firstAvail_eq (h : InUse P m s) : firstAvail s = m := by
  refine Nat.le_antisymm ?_ ?_
  · by_contra hlt
    have hlt' : m < firstAvail s := by omega
    have hm : m < s.sockbufs.length := Nat.lt_of_lt_of_le hlt' (firstAvail_le s)
    have havail := h.free m (Nat.le_refl _) hm
    have hnot := List.not_of_lt_findIdx hlt'
    rw [sbuf, List.getD_eq_getElem?_getD, List.getElem?_eq_getElem hm, Option.getD_some] at havail
    exact Bool.false_ne_true (hnot.symm.trans havail)
  · by_contra hlt
    have hlt' : firstAvail s < m := by omega
    have havail := avail_firstAvail (Nat.lt_of_lt_of_le hlt' h.le)
    rw [(h.used _ hlt').1] at havail
    cases havail

/-- A state with the same slots. -/
theorem congr (h : InUse P m s) (hslots : s'.sockbufs = s.sockbufs)
    (hdel : s'.ndeletedSockbufs = s.ndeletedSockbufs) : InUse P m s' := by
  have hns : s'.nsockbufs = s.nsockbufs := by rw [nsockbufs, nsockbufs, hslots]
  have hsbuf : ∀ j, s'.sbuf j = s.sbuf j := fun j => by rw [sbuf, sbuf, hslots]
  refine ⟨hns ▸ h.le, fun j hj => ?_, fun j hj hlt => ?_, hdel.trans h.ndeleted⟩
  · rw [hsbuf]
    exact h.used j hj
  · rw [hsbuf]
    exact h.free j hj (hns ▸ hlt)

/-- Work on one sockbuf. -/
theorem within (h : InUse P m s) (hP : ∀ j sb sb', Keeps sb sb' → P j sb → P j sb') {i : Nat}
    {es : List Event} (hw : Within i s es s') : InUse P m s' := by
  have hkeeps : ∀ j, Keeps (s.sbuf j) (s'.sbuf j) := by
    intro j
    by_cases hj : j = i
    · subst hj
      exact hw.self
    · rw [hw.others j hj]
      exact .refl _
  refine ⟨hw.nsockbufs ▸ h.le, fun j hj => ?_, fun j hj hlt => ?_, hw.ndeleted.trans h.ndeleted⟩
  · obtain ⟨havail, hdel, hp⟩ := h.used j hj
    exact ⟨(hkeeps j).avail.trans havail, (hkeeps j).deleted.trans hdel, hP j _ _ (hkeeps j) hp⟩
  · exact (hkeeps j).avail.trans (h.free j hj (hw.nsockbufs ▸ hlt))

/-- One more slot is in use, behind `sockbuf_new` and what was then done to the new slot. -/
theorem push (h : InUse P m s) (hns : s'.nsockbufs = (sockbufNew s).1.nsockbufs)
    (hothers : ∀ j, j ≠ m → s'.sbuf j = (sockbufNew s).1.sbuf j)
    (hdel : s'.ndeletedSockbufs = s.ndeletedSockbufs)
    (hlast : (s'.sbuf m).flags.avail = false ∧ (s'.sbuf m).flags.deleted = false ∧ P m (s'.sbuf m)) :
    InUse P (m + 1) s' := by
  have hm := h.firstAvail_eq
  refine ⟨?_, fun j hj => ?_, fun j hj hlt => ?_, hdel.trans h.ndeleted⟩
  · have := firstAvail_lt_sockbufNew s
    omega
  · by_cases hjm : j = m
    · rw [hjm]
      exact hlast
    · have hlt : j < m := by omega
      rw [hothers j hjm, sbuf_sockbufNew_old (by rw [hm]; exact hjm) (Nat.lt_of_lt_of_le hlt h.le)]
      exact h.used j hlt
  · have hjm : j ≠ m := by omega
    rw [hothers j hjm]
    rcases Nat.lt_or_ge j s.nsockbufs with hold | hold
    · rw [sbuf_sockbufNew_old (by rw [hm]; exact hjm) hold]
      exact h.free j (by omega) hold
    · rw [sbuf_sockbufNew_grown (by rw [hm]; exact hjm) hold (hns ▸ hlt)]
      rfl

/-- The begin of a pass keeps the slots. -/
theorem updateAll (h : InUse P m s) (k : Kernel) : InUse P m (sockbufUpdateAll k s).st := by
  rw [sockbufUpdateAll]
  split <;> exact h.congr rfl rfl

/-- No slot is deleted, so there is none to reclaim. -/
theorem updateFinish (h : InUse P m s) : InUse P m (updateFinish s).st := by
  rw [Sockbuf.updateFinish]
  dsimp only
  rw [if_neg fun hc => hc.1 h.ndeleted]
  exact h.congr rfl rfl

end InUse

/-! ## The tasks of a pass -/

/-- A task of a pass, with `L` listening sockbufs and `m` slots in use. -/
def Task.Polled (L m : Nat) : Task → Prop
  | .writable j connecting => j < m ∧ connecting = false
  | .readable j server => j < m ∧ (server = true → j < L)
  | .hangup j => j < m
  | .scan _ _ => True
  | _ => False

theorem Task.Polled.mono {L m m' : Nat} (hm : m ≤ m') {t : Task} (h : t.Polled L m) :
    t.Polled L m' := by
  cases t with
  | writable j connecting => exact ⟨Nat.lt_of_lt_of_le h.1 hm, h.2⟩
  | readable j server => exact ⟨Nat.lt_of_lt_of_le h.1 hm, h.2⟩
  | hangup j => exact Nat.lt_of_lt_of_le h hm
  | scan i n => trivial
  | external cb => exact h
  | delete j i => exact h
  | deleteFinish j => exact h
  | shutdown i => exact h
  | crash => exact h

theorem Task.Polled.ordinary {L m : Nat} {t : Task} (h : t.Polled L m) : t.Ordinary := by
  cases t with
  | external cb => exact absurd h id
  | delete j i => exact h
  | deleteFinish j => exact h
  | shutdown i => exact h
  | _ => trivial

/-- `P` is kept by the work on a sockbuf, and lets only the first `L` slots listen. -/
structure Calm (L : Nat) (P : Nat → SockbufT → Prop) : Prop where
  keeps : ∀ j sb sb', Keeps sb sb' → P j sb → P j sb'
  connecting : ∀ j sb, P j sb → sb.flags.connecting = false
  server : ∀ j sb, P j sb → sb.flags.server = true → j < L

section Scan

variable {L m : Nat} {P : Nat → SockbufT → Prop} {s : State}

/-- The tests of a word become tasks of the pass. -/
theorem polled_eventTasks (hP : Calm L P) (h : InUse P m s) {j : Nat} (hj : j < m)
    (revents : Revents) : ∀ t ∈ eventTasks revents j (s.sbuf j).flags, t.Polled L m := by
  have hp := (h.used j hj).2.2
  intro t ht
  simp only [eventTasks, List.mem_append] at ht
  rcases ht with (ht | ht) | ht
  · split at ht
    · rw [List.mem_singleton.1 ht]
      exact ⟨hj, hP.connecting j _ hp⟩
    · cases ht
  · split at ht
    · rw [List.mem_singleton.1 ht]
      exact ⟨hj, hP.server j _ hp⟩
    · cases ht
  · split at ht
    · rw [List.mem_singleton.1 ht]
      exact hj
    · cases ht

/-- The head of the loop calls nobody and leaves the slots. -/
theorem scan_spec (hP : Calm L P) (h : InUse P m s) (ht : TableInv none s) (i n : Nat) :
    InUse P m (updateScan s i n).st ∧ (updateScan s i n).st.sockbufs = s.sockbufs ∧
      (∀ t ∈ (updateScan s i n).tasks, t.Polled L m) ∧
      ((updateScan s i n).events = [] ∨ (updateScan s i n).events = [.passEnd]) := by
  rw [updateScan]
  dsimp only
  split
  · next hi =>
    split
    · exact ⟨h, rfl, fun t ht => by rw [List.mem_singleton.1 ht]; trivial, Or.inl rfl⟩
    · -- the entry is one of a valid sockbuf
      have hlt : i < s.idxs.length := by
        rw [ht.bounds.length_idxs]
        exact hi.2
      have hmem : s.idxArray.getD i 0 ∈ s.idxs := by
        have hget : s.idxs[i]? = s.idxArray[i]? := by
          rw [idxs, List.getElem?_take, if_pos hi.2]
        rw [List.getD_eq_getElem?_getD, ← hget, List.getElem?_eq_getElem hlt, Option.getD_some]
        exact List.getElem_mem hlt
      have hj : s.idxArray.getD i 0 < m := (h.valid_iff _).1 (ht.valid hmem)
      refine ⟨h, rfl, fun t ht => ?_, Or.inl rfl⟩
      rcases List.mem_append.1 ht with ht | ht
      · exact polled_eventTasks hP h hj _ t ht
      · rw [List.mem_singleton.1 ht]
        trivial
  · have hst : (updateFinish s).st.sockbufs = s.sockbufs := by
      rw [updateFinish]
      dsimp only
      rw [if_neg fun hc => hc.1 h.ndeleted]
    obtain ⟨hevents, htasks, -⟩ := updateFinish_cases s
    exact ⟨h.updateFinish, hst, by simp [htasks], Or.inr hevents⟩

/-- **The begin of a pass** keeps the slots and leaves a loop. -/
theorem updateAll_spec (h : InUse P m s) (k : Kernel) :
    InUse P m (sockbufUpdateAll k s).st ∧ (sockbufUpdateAll k s).st.sockbufs = s.sockbufs ∧
      ∀ t ∈ (sockbufUpdateAll k s).tasks, t.Polled L m := by
  refine ⟨h.updateAll k, ?_, ?_⟩
  · rw [sockbufUpdateAll]
    split <;> rfl
  · rw [sockbufUpdateAll]
    split <;> exact fun t ht => by rw [List.mem_singleton.1 ht]; trivial

end Scan

/-! ## The callbacks of a task -/

/-- The callback that an event asks for. -/
def Event.asked : Event → Option Callback
  | .callback cb => some cb
  | _ => none

/-- The callbacks that were called, in order. -/
def callbacks (es : List Event) : List Callback := es.filterMap Event.asked

/-- The callbacks of two lists of events. -/
theorem callbacks_append (es fs : List Event) : callbacks (es ++ fs) = callbacks es ++ callbacks fs :=
  List.filterMap_append

theorem callbacks_cons (e : Event) (es : List Event) :
    callbacks (e :: es) = e.asked.toList ++ callbacks es := by
  rw [callbacks, List.filterMap_cons]
  cases e.asked <;> rfl

/-- The data of a read that the handler was told of, and the sockbuf. -/
def Callback.heard (cb : Callback) : Option (Nat × List UInt8) :=
  match cb.owner, cb.call with
  | none, .read data => some (cb.idx, data)
  | _, _ => none

/-- The sockbuf of an accepted connection, behind that of its listener. -/
def Callback.client (cb : Callback) : Option (Nat × Nat) :=
  match cb.call with
  | .newclient newidx _ _ => some (cb.idx, newidx)
  | _ => none

/-- The reads that handlers were told of. -/
def heard (es : List Event) : List (Nat × List UInt8) := (callbacks es).filterMap Callback.heard

/-- The accepted connections. -/
def clients (es : List Event) : List (Nat × Nat) := (callbacks es).filterMap Callback.client

/-- What was heard in two lists of events. -/
theorem heard_append (es fs : List Event) : heard (es ++ fs) = heard es ++ heard fs := by
  rw [heard, callbacks_append, List.filterMap_append]
  rfl

/-- The clients of two lists of events. -/
theorem clients_append (es fs : List Event) : clients (es ++ fs) = clients es ++ clients fs := by
  rw [clients, callbacks_append, List.filterMap_append]
  rfl

/-- What is left on the stack is the callbacks that were called. -/
structure Outcome.Asks (o : Outcome) (cbs : List Callback) : Prop where
  tasks : o.tasks = cbs.map .external
  events : callbacks o.events = cbs

theorem Outcome.Asks.log {o : Outcome} {cbs : List Callback} (h : o.Asks cbs) {e : Event}
    (he : e.asked = none) : (o.log [e]).Asks cbs :=
  ⟨h.tasks, by rw [log_events, callbacks_append, callbacks_cons, he, h.events]; rfl⟩

section StepAsks

variable {p : Program δ ε} {c c' : Process δ} {k : Kernel} {e : ε} {t : Task} {rest : List Task}
  {o : Outcome}

/-- A task that calls nobody. -/
theorem Program.step_none (hs : p.step c (.run k e) = some c') (hstack : c.config.stack = t :: rest)
    (ho : t.exec k c.config.st = some o) (hasks : o.Asks []) :
    c' = ⟨⟨o.st, rest, c.config.trace ++ o.events⟩, c.data⟩ := by
  rw [Program.step, hstack] at hs
  simp only [ho, Option.bind_some, Program.settle, hasks.tasks, List.map_nil, Option.some.injEq,
    Config.after, List.nil_append] at hs
  exact hs.symm

/-- A task that calls one callback. -/
theorem Program.step_one {cb : Callback} (hs : p.step c (.run k e) = some c')
    (hstack : c.config.stack = t :: rest) (ho : t.exec k c.config.st = some o)
    (hasks : o.Asks [cb]) : ∃ r, p.serve e c.data o.st cb = some r ∧
      c' = ⟨⟨r.st, rest, c.config.trace ++ (o.events ++ r.events)⟩, r.data⟩ := by
  rw [Program.step, hstack] at hs
  simp only [ho, Option.bind_some, Program.settle, hasks.tasks, List.map_cons, List.map_nil] at hs
  obtain ⟨r, hr, rfl⟩ := Option.map_eq_some_iff.1 hs
  exact ⟨r, hr, by rw [List.nil_append, List.append_assoc]⟩

end StepAsks

/-- The state between two passes, or a call that calls nobody. -/
theorem asks_none (s : State) : ({ st := s } : Outcome).Asks [] := ⟨rfl, rfl⟩

section Asks

variable {s : State} {idx : Nat} {h : SockbufHandler}

/-- A handler that defines the callback is called. -/
theorem asks_callHandler {defines : SockbufHandler → Bool} (hh : (s.sbuf idx).handler = some h)
    (hdef : defines h = true) (call : Call) :
    (callHandler s idx defines call).Asks [⟨none, (s.sbuf idx).clientData, idx, call⟩] := by
  rw [callHandler, hh]
  simp only [if_pos hdef]
  exact ⟨rfl, rfl⟩

/-- A handler that does not define it is not. -/
theorem asks_callHandler_undefined {defines : SockbufHandler → Bool}
    (hh : (s.sbuf idx).handler = some h) (hdef : defines h = false) (call : Call) :
    (callHandler s idx defines call).Asks [] := by
  rw [callHandler, hh]
  simp only [hdef, Bool.false_eq_true, if_false]
  exact ⟨rfl, rfl⟩

/-- Eof is reported to the handler. -/
theorem asks_gotEof (k : Kernel) (err : Nat)
    (hnone : (s.sbuf idx).filterAbove sockbufLevelInternal SockbufFilter.onEof = none)
    (hh : (s.sbuf idx).handler = some h) (hdef : h.onEof = true) : ∃ err',
    (sockbufGotEof k s idx err).Asks [⟨none, (s.sbuf idx).clientData, idx, .eof err'⟩] := by
  have hkeeps := (Within.close k s idx).self
  have hcall := asks_callHandler (s := sockbufClose k s idx) (hkeeps.handler.trans hh) hdef
    (.eof (if err = 0 then k.sockError else err))
  rw [sockbufGotEof, sockbufOnEof, hkeeps.filterAbove, hnone]
  rw [hkeeps.clientData] at hcall
  exact ⟨_, hcall⟩

/-- A write is reported to the handler when it is the end of the connection. -/
theorem asks_realWrite (k : Kernel) (data : List UInt8)
    (heof : (s.sbuf idx).filterAbove sockbufLevelInternal SockbufFilter.onEof = none)
    (hh : (s.sbuf idx).handler = some h) (hdef : h.onEof = true) :
    (sockbufRealWrite k s idx data).Asks [] ∨
      ∃ err, (sockbufRealWrite k s idx data).Asks
        [⟨none, (s.sbuf idx).clientData, idx, .eof err⟩] := by
  rw [sockbufRealWrite]
  split
  · exact Or.inl ⟨rfl, rfl⟩
  · split
    · split
      · exact Or.inl ⟨rfl, rfl⟩
      · next err _ _ =>
        obtain ⟨err', hasks⟩ := asks_gotEof k err heof hh hdef
        exact Or.inr ⟨err', hasks.log rfl⟩
    · exact Or.inl ⟨rfl, rfl⟩

/-- A handler without `on_written` is told of errors only. -/
theorem asks_gotWritable (k : Kernel)
    (heof : (s.sbuf idx).filterAbove sockbufLevelInternal SockbufFilter.onEof = none)
    (hwritten : (s.sbuf idx).filterAbove sockbufLevelInternal SockbufFilter.onWritten = none)
    (hh : (s.sbuf idx).handler = some h) (hdef : h.onEof = true) (hundef : h.onWritten = false) :
    (sockbufGotWritable k s idx).Asks [] ∨
      ∃ err, (sockbufGotWritable k s idx).Asks
        [⟨none, (s.sbuf idx).clientData, idx, .eof err⟩] := by
  rw [sockbufGotWritable]
  split
  · next err _ =>
    obtain ⟨err', hasks⟩ := asks_gotEof k err heof hh hdef
    exact Or.inr ⟨err', hasks.log rfl⟩
  · next nbytes _ =>
    split
    · have hkeeps := (Within.drainOutput s idx nbytes).self
      rw [sockbufOnWritten, hkeeps.filterAbove, hwritten]
      exact Or.inl ((asks_callHandler_undefined (hkeeps.handler.trans hh) hundef _).log rfl)
    · exact Or.inl (asks_none s)

/-- A read without filters is reported to the handler, or it is eof. -/
theorem asks_gotReadable (k : Kernel)
    (heof : (s.sbuf idx).filterAbove sockbufLevelInternal SockbufFilter.onEof = none)
    (hread : (s.sbuf idx).filterAbove sockbufLevelInternal SockbufFilter.onRead = none)
    (hstats : (s.sbuf idx).stats.isSome = true) (hh : (s.sbuf idx).handler = some h)
    (hdef : h.onEof = true) (hdef' : h.onRead = true) :
    ∃ call, (sockbufGotReadable k s idx).Asks [⟨none, (s.sbuf idx).clientData, idx, call⟩] ∧
      ((∃ err, call = .eof err) ∨ ∃ data, call = .read data) := by
  rw [sockbufGotReadable]
  split
  · next err _ =>
    obtain ⟨err', hasks⟩ := asks_gotEof k err heof hh hdef
    exact ⟨_, hasks, Or.inl ⟨_, rfl⟩⟩
  · obtain ⟨err', hasks⟩ := asks_gotEof k 0 heof hh hdef
    exact ⟨_, hasks, Or.inl ⟨_, rfl⟩⟩
  · next data _ _ =>
    have hkeeps := (Within.update s idx fun sb => Keeps.mapStats sb (statsIn · data.length)).self
    obtain ⟨stats, hsome⟩ := Option.isSome_iff_exists.1 (hkeeps.stats.trans hstats)
    rw [sockbufOnRead, hkeeps.filterAbove, hread]
    simp only [hsome]
    -- the count of the bytes changes neither the handler nor its data
    generalize hs1 : s.update idx (fun sb => { sb with stats := sb.stats.map (statsIn · data.length) }) = s1
    rw [hs1] at hkeeps hsome
    generalize hs2 : s1.update idx (fun sb =>
      { sb with stats := some { stats with bytesIn := stats.bytesIn + UInt64.ofNat data.length } }) = s2
    have hhandler : (s2.sbuf idx).handler = some h := by
      rw [← hs2, sbuf_update_keeps s1 idx _ SockbufT.handler rfl, hkeeps.handler, hh]
    have hdata : (s2.sbuf idx).clientData = (s.sbuf idx).clientData := by
      rw [← hs2, sbuf_update_keeps s1 idx _ SockbufT.clientData rfl, hkeeps.clientData]
    rw [← hdata]
    exact ⟨_, asks_callHandler hhandler hdef' _, Or.inr ⟨_, rfl⟩⟩

end Asks

/-! ## Accepted connections -/

/-- The record of an accepted connection when its listener's `on_newclient` is called. -/
def acceptedSlot (k : Kernel) (sock : Int) : SockbufT :=
  (newSlot.setSock k sock { inbound := true }).setPeer k k.acceptPeer.1 k.acceptPeer.2

/-- What accepting the socket `sock` on the sockbuf `i` does, with `m` slots in use. -/
structure Accepted (k : Kernel) (s : State) (i m : Nat) (sock : Int) (o : Outcome) : Prop where
  asks : o.Asks [⟨none, (s.sbuf i).clientData, i, .newclient m k.acceptPeer.1 k.acceptPeer.2⟩]
  events : o.events = [.created m, .attached m sock, .callback ⟨none, (s.sbuf i).clientData, i,
    .newclient m k.acceptPeer.1 k.acceptPeer.2⟩]
  nsockbufs : o.st.nsockbufs = (sockbufNew s).1.nsockbufs
  ndeleted : o.st.ndeletedSockbufs = s.ndeletedSockbufs
  last : o.st.sbuf m = acceptedSlot k sock
  others : ∀ j, j ≠ m → o.st.sbuf j = (sockbufNew s).1.sbuf j

/-- The new sockbuf is valid. -/
theorem Accepted.valid {P : Nat → SockbufT → Prop} {k : Kernel} {s : State} {i m : Nat} {sock : Int}
    {o : Outcome} (h : Accepted k s i m sock o) (hs : InUse P m s) : sockbufIsvalid o.st m = true := by
  refine sockbufIsvalid_iff.2 ⟨?_, by rw [h.last]; rfl, by rw [h.last]; rfl⟩
  rw [h.nsockbufs]
  exact hs.firstAvail_eq ▸ firstAvail_lt_sockbufNew s

/-- A listening sockbuf without filters accepts a connection, or finds none. -/
theorem accept_cases {P : Nat → SockbufT → Prop} {m : Nat} {s : State} (hs : InUse P m s) {i : Nat}
    (hi : i < m) (k : Kernel) {h : SockbufHandler}
    (hnone : (s.sbuf i).filterAbove sockbufLevelInternal SockbufFilter.onConnect = none)
    (hh : (s.sbuf i).handler = some h) (hdef : h.onNewclient = true) :
    sockbufGotReadableServer k s i = { st := s } ∨
      ∃ sock, 0 ≤ sock ∧ Accepted k s i m sock (sockbufGotReadableServer k s i) := by
  rw [sockbufGotReadableServer]
  dsimp only
  split
  · exact Or.inl rfl
  · next hsock =>
    generalize k.sysAccept (s.sbuf i).sock = sock at hsock
    refine Or.inr ⟨sock, by omega, ?_⟩
    have hnew : (sockbufNew s).2 = m := hs.firstAvail_eq
    have hvalid : sockbufIsvalid (sockbufNew s).1 m = true := hnew ▸ sockbufIsvalid_sockbufNew s
    have hlt := (sockbufIsvalid_iff.1 hvalid).1
    have hself : (sockbufNew s).1.sbuf m = newSlot := hs.firstAvail_eq ▸ sbuf_sockbufNew_self s
    generalize hset : sockbufSetSock k (sockbufNew s).1 m sock { inbound := true } = s1
    have hns1 : s1.nsockbufs = (sockbufNew s).1.nsockbufs := by
      rw [← hset, nsockbufs_sockbufSetSock k _ hvalid]
    have hothers1 : ∀ j, j ≠ m → s1.sbuf j = (sockbufNew s).1.sbuf j := by
      intro j hj
      rw [← hset, sbuf_sockbufSetSock_ne hvalid sock hj]
    have hlast1 : s1.sbuf m = newSlot.setSock k sock { inbound := true } := by
      rw [← hset, sbuf_sockbufSetSock_self hvalid, hself]
    -- the listener is another slot than the new one
    have him : i ≠ m := by omega
    have hold : s1.sbuf i = s.sbuf i := by
      rw [hothers1 i him, sbuf_sockbufNew_old (by rw [hs.firstAvail_eq]; exact him)
        (Nat.lt_of_lt_of_le hi hs.le)]
    rw [hnew, hset, sockbufOnNewclient, hold, hnone]
    simp only
    have hpeer : (s1.update m fun sb => sb.setPeer k k.acceptPeer.1 k.acceptPeer.2).sbuf i =
        s.sbuf i := by
      rw [sbuf_update_ne _ _ _ (Ne.symm him), hold]
    have hcall : callHandler (s1.update m fun sb => sb.setPeer k k.acceptPeer.1 k.acceptPeer.2) i
        SockbufHandler.onNewclient (.newclient m k.acceptPeer.1 k.acceptPeer.2) =
        .invoke (s1.update m fun sb => sb.setPeer k k.acceptPeer.1 k.acceptPeer.2)
          ⟨none, (s.sbuf i).clientData, i, .newclient m k.acceptPeer.1 k.acceptPeer.2⟩ := by
      rw [callHandler, hpeer, hh]
      exact if_pos hdef
    rw [hcall]
    refine ⟨⟨rfl, rfl⟩, rfl, ?_, ?_, ?_, fun j hj => ?_⟩
    · exact (update_nsockbufs _ _ _).trans hns1
    · show s1.ndeletedSockbufs = _
      rw [← hset, sockbufSetSock_ndeletedSockbufs k _ hvalid]
      rfl
    · show (s1.update m _).sbuf m = _
      rw [sbuf_update_self _ _ _ (by rw [hns1]; exact hlt), hlast1]
      rfl
    · show (s1.update m _).sbuf j = _
      rw [sbuf_update_ne _ _ _ (Ne.symm hj), hothers1 j hj]

end ExamplePrograms.Onethread.Sockbuf
