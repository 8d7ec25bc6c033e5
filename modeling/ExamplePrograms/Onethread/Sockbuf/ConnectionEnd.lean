import Mathlib.Data.List.Induction
import ExamplePrograms.Onethread.Sockbuf.Consistency

/-!
# The end of a connection

`sockbuf_got_eof` closes the socket and tells the user. Nothing of this is visible to the code that
called it: the loop of `sockbuf_update_all` goes on with the next bit of the same `revents` word, a
later word may still be about the sockbuf, and a write to it fails and is an end again. So the user is
told once only as long as nothing of this happens.

`ended` reads off a trace whether the end of a sockbuf was reported since it last got a socket.
`Action.passes` says what a step passes up to the user of a sockbuf, by the answers of the kernel, and
`hears` whether a filter takes it on the way. `EndRespected` is the condition on a step: nothing it
passes on is heard for such a sockbuf. The end is reported once in exactly the runs that keep to it.
-/

set_option autoImplicit false

namespace ExamplePrograms.Onethread.Sockbuf

open ExamplePrograms.Lib.Runs State

/-! ## What the user is told -/

/-- A call of the user's `on_eof`, `on_read` or `on_written` for the sockbuf. -/
def Event.tellsUser (idx : Nat) : Event → Bool
  | .callback ⟨none, _, j, .eof _⟩ => j == idx
  | .callback ⟨none, _, j, .read _⟩ => j == idx
  | .callback ⟨none, _, j, .written _ _⟩ => j == idx
  | _ => false

/-- A call of the user's `on_eof` for the sockbuf. -/
def Event.tellsEnd (idx : Nat) : Event → Bool
  | .callback ⟨none, _, j, .eof _⟩ => j == idx
  | _ => false

/-- The sockbuf got a socket. -/
def Event.connects (idx : Nat) : Event → Bool
  | .attached j sock => j == idx && decide (0 ≤ sock)
  | _ => false

/-- What an event does to the report of the end. -/
def endStep (idx : Nat) (b : Bool) (e : Event) : Bool :=
  if e.connects idx then false else b || e.tellsEnd idx

/-- The user was told of the end of the sockbuf, which has got no socket since. -/
def ended (idx : Nat) (tr : List Event) : Bool := tr.foldl (endStep idx) false

/-- The report of the end, one event further. -/
theorem ended_snoc (idx : Nat) (tr : List Event) (e : Event) :
    ended idx (tr ++ [e]) = endStep idx (ended idx tr) e := by
  simp [ended]

/-- The end is something the user is told. -/
theorem tellsUser_of_tellsEnd {idx : Nat} {e : Event} (h : e.tellsEnd idx = true) :
    e.tellsUser idx = true := by
  unfold Event.tellsEnd at h
  split at h
  · exact h
  · exact absurd h (by simp)

/-- Events that tell nobody of an end do not end anything. -/
theorem ended_append_of_silent {idx : Nat} {tr es : List Event}
    (hes : ∀ e ∈ es, e.tellsEnd idx = false) (h : ended idx tr = false) :
    ended idx (tr ++ es) = false := by
  induction es using List.reverseRecOn with
  | nil => simpa using h
  | append_singleton es e ih =>
    have hprev := ih fun x hx => hes x (List.mem_append_left _ hx)
    rw [← List.append_assoc, ended_snoc, endStep, hprev, hes e (by simp)]
    split <;> rfl

/-- An end that was reported stands until the sockbuf gets a socket. -/
theorem ended_append {idx : Nat} {tr : List Event} (h : ended idx tr = true) (mid : List Event) :
    ended idx (tr ++ mid) = true ∨ ∃ sock, 0 ≤ sock ∧ Event.attached idx sock ∈ mid := by
  induction mid using List.reverseRecOn with
  | nil => exact Or.inl (by simpa using h)
  | append_singleton mid e ih =>
    rcases ih with hprev | ⟨sock, hsock, hmem⟩
    · by_cases hc : e.connects idx = true
      · -- only `attached` events connect
        unfold Event.connects at hc
        split at hc
        · next j sock =>
          simp only [Bool.and_eq_true, beq_iff_eq, decide_eq_true_eq] at hc
          exact Or.inr ⟨sock, hc.2, by rw [hc.1]; simp⟩
        · exact absurd hc (by simp)
      · rw [← List.append_assoc, ended_snoc, endStep, if_neg hc, hprev]
        exact Or.inl rfl
    · exact Or.inr ⟨sock, hsock, List.mem_append_left _ hmem⟩

/-- Between the report of an end and the next call of one of the three callbacks the sockbuf got a
socket. -/
def EndReportedOnce (tr : List Event) : Prop :=
  ∀ pre e mid e' post idx, tr = pre ++ e :: mid ++ e' :: post → e.tellsEnd idx = true →
    e'.tellsUser idx = true → ∃ sock, 0 ≤ sock ∧ Event.attached idx sock ∈ mid

/-- No callback of the three comes for a sockbuf whose end was reported. -/
abbrev Untold (pre : List Event) (e : Event) : Prop :=
  ∀ idx, e.tellsUser idx = true → ended idx pre = false

/-- The report of an end behind which the sockbuf has got no socket. -/
theorem exists_of_ended {idx : Nat} {tr : List Event} (h : ended idx tr = true) :
    ∃ pre e mid, tr = pre ++ e :: mid ∧ e.tellsEnd idx = true ∧ ∀ x ∈ mid, x.connects idx = false := by
  induction tr using List.reverseRecOn with
  | nil => cases h
  | append_singleton tr e ih =>
    rw [ended_snoc, endStep] at h
    split at h
    · cases h
    · next hconnects =>
      rcases Bool.or_eq_true _ _ ▸ h with hprev | hend
      · obtain ⟨pre, x, mid, rfl, hx, hmid⟩ := ih hprev
        refine ⟨pre, x, mid ++ [e], by simp, hx, fun y hy => ?_⟩
        rcases List.mem_append.1 hy with hy | hy
        · exact hmid y hy
        · rw [List.mem_singleton.1 hy]
          exact Bool.not_eq_true _ ▸ hconnects
      · exact ⟨tr, e, [], rfl, hend, fun _ hx => absurd hx List.not_mem_nil⟩

/-- The end is reported once exactly when nothing is told behind it. -/
theorem endReportedOnce_iff_along {tr : List Event} : EndReportedOnce tr ↔ Along Untold tr := by
  constructor
  · intro h pre e post htr idx he
    by_contra hend
    obtain ⟨pre', e', mid, rfl, he', hmid⟩ := exists_of_ended (Bool.not_eq_false _ ▸ hend)
    -- no socket came between the report and this event
    obtain ⟨sock, hsock, hmem⟩ := h pre' e' mid e post idx htr he' he
    have hconnects : Event.connects idx (.attached idx sock) = true := by
      simp [Event.connects, hsock]
    exact absurd (hconnects.symm.trans (hmid _ hmem)) (by simp)
  · intro h pre e mid e' post idx htr he he'
    have hnot := h (pre ++ e :: mid) e' post htr idx he'
    -- the report of an end is no `attached` event
    have hended : ended idx (pre ++ [e]) = true := by
      have hc : e.connects idx = false := by
        unfold Event.tellsEnd at he
        split at he
        · rfl
        · exact absurd he (by simp)
      rw [ended_snoc, endStep, hc, he]
      simp
    have hsplit : pre ++ e :: mid = pre ++ [e] ++ mid := by simp
    rw [hsplit] at hnot
    rcases ended_append hended mid with h' | h'
    · exact absurd (h'.symm.trans hnot) (by simp)
    · exact h'

/-! ## The condition on a step -/

/-- The three callbacks. -/
inductive Told where
  | eof
  | read
  | written
  deriving DecidableEq

/-- The callback of a filter. -/
def Told.inFilter : Told → SockbufFilter → Bool
  | .eof => SockbufFilter.onEof
  | .read => SockbufFilter.onRead
  | .written => SockbufFilter.onWritten

/-- The callback of the user's handler. -/
def Told.inHandler : Told → SockbufHandler → Bool
  | .eof => SockbufHandler.onEof
  | .read => SockbufHandler.onRead
  | .written => SockbufHandler.onWritten

/-- What is passed on from `level` comes to the user: no filter above takes it, and the handler defines
the callback. Data is counted before it is handed over. -/
def SockbufT.hears (sb : SockbufT) (level : Int) (t : Told) : Bool :=
  sb.handler.any t.inHandler && (sb.filterAbove level t.inFilter).isNone &&
    (t != .read || sb.stats.isSome)

/-- What a task of the event loop passes on, of which sockbuf and from which level. A failed write or read
is an end, and so is a read of no bytes; a connection that comes up is none unless its socket has an
error. -/
def Task.passes (k : Kernel) (s : State) : Task → Option (Nat × Int × Told)
  | .writable idx true => if k.sockError = 0 then none else some (idx, sockbufLevelInternal, .eof)
  | .writable idx false =>
      match k.sysWrite (s.sbuf idx).sock (s.sbuf idx).buffered with
      | .error _ => some (idx, sockbufLevelInternal, .eof)
      | .ok nbytes => if 0 < nbytes then some (idx, sockbufLevelInternal, .written) else none
  | .readable _ true => none
  | .readable idx false =>
      match k.sysRead (s.sbuf idx).sock 4096 with
      | .error _ => some (idx, sockbufLevelInternal, .eof)
      | .ok [] => some (idx, sockbufLevelInternal, .eof)
      | .ok (_ :: _) => some (idx, sockbufLevelInternal, .read)
  | .hangup idx => some (idx, sockbufLevelInternal, .eof)
  | _ => none

/-- The end that a write finds: it comes to the socket and fails hard. -/
def writePasses (k : Kernel) (s : State) (idx : Nat) (level : Int) (data : List UInt8) :
    Option (Nat × Int × Told) :=
  if failsHard (directWrite k s idx level data) then some (idx, sockbufLevelInternal, .eof) else none

/-- What a call passes on: what a filter asks for, or the end that a write finds. -/
def Api.passes (k : Kernel) (s : State) : Api → Option (Nat × Int × Told)
  | .write idx data len =>
      if sockbufIsvalid s idx then
        writePasses k s idx sockbufLevelWriteInternal (writeArgument data len)
      else none
  | .on idx level (.eof _) => some (idx, level, .eof)
  | .on idx level (.read _) => some (idx, level, .read)
  | .on idx level (.written _ _) => some (idx, level, .written)
  | .on idx level (.write data) => writePasses k s idx level data
  | _ => none

/-- What a step passes on. -/
def Action.passes (c : Config) : Action → Option (Nat × Int × Told)
  | .call f k => f.passes k c.st
  | .ret => none
  | .run k => c.stack.head?.bind (Task.passes k c.st)

/-- What the step passes on is not heard for a sockbuf whose end was reported. -/
def EndRespected (c : Config) (a : Action) : Prop :=
  ∀ p ∈ a.passes c, (c.st.sbuf p.1).hears p.2.1 p.2.2 = true → ended p.1 c.trace = false

instance (c : Config) (a : Action) : Decidable (EndRespected c a) := by
  unfold EndRespected; infer_instance

/-! ## What the functions tell -/

/-- The sockbuf whose user is called by one of the three callbacks. -/
def Event.user : Event → Option Nat
  | .callback ⟨none, _, j, .eof _⟩ => some j
  | .callback ⟨none, _, j, .read _⟩ => some j
  | .callback ⟨none, _, j, .written _ _⟩ => some j
  | _ => none

/-- The sockbuf whose user an event tells something. -/
theorem user_eq_some_iff {e : Event} {idx : Nat} : e.user = some idx ↔ e.tellsUser idx = true := by
  unfold Event.user Event.tellsUser
  split <;> simp_all

/-- The sockbufs whose users are called, in this order. -/
def usersTold (es : List Event) : List Nat := es.filterMap Event.user

/-- The sockbuf whose user hears what is passed on in `s`. -/
def hearing (s : State) : Option (Nat × Int × Told) → List Nat
  | none => []
  | some (idx, level, t) => if (s.sbuf idx).hears level t then [idx] else []

@[simp] theorem usersTold_append (es fs : List Event) :
    usersTold (es ++ fs) = usersTold es ++ usersTold fs := List.filterMap_append

@[simp] theorem usersTold_log (o : Outcome) (es : List Event) :
    usersTold (o.log es).events = usersTold es ++ usersTold o.events := by
  rw [Outcome.log_events, usersTold_append]

/-- A change that leaves the filters and the handlers. -/
theorem hearing_congr {s s' : State}
    (h : ∀ j level t, (s'.sbuf j).hears level t = (s.sbuf j).hears level t)
    (p : Option (Nat × Int × Told)) : hearing s' p = hearing s p := by
  cases p with
  | none => rfl
  | some p => rw [hearing, hearing, h]

section Functions

variable (s : State) (idx : Nat)

theorem hears_update (f : SockbufT → SockbufT)
    (hf : ∀ level t, (f (s.sbuf idx)).hears level t = (s.sbuf idx).hears level t) (j : Nat) (level : Int)
    (t : Told) : ((s.update idx f).sbuf j).hears level t = (s.sbuf j).hears level t :=
  sbuf_update_keeps s idx f (fun sb => sb.hears level t) (hf level t) j

theorem usersTold_callFilter (e : SockbufFilter × Nat) (call : Call) :
    usersTold (callFilter s idx e call).events = [] := rfl

/-- A call of the user's handler by another callback. -/
theorem usersTold_callHandler_other (defines : SockbufHandler → Bool) {call : Call}
    (hcall : ∀ clientData, (Event.callback ⟨none, clientData, idx, call⟩).user = none) :
    usersTold (callHandler s idx defines call).events = [] := by
  rw [callHandler]
  split
  · rfl
  · split
    · exact List.filterMap_cons_none (hcall _)
    · rfl

/-- The user's handler is told what it defines. -/
theorem usersTold_callHandler (defines : SockbufHandler → Bool) (call : Call)
    (hcall : ∀ clientData, (Event.callback ⟨none, clientData, idx, call⟩).user = some idx) :
    usersTold (callHandler s idx defines call).events =
      if (s.sbuf idx).handler.any defines then [idx] else [] := by
  rw [callHandler]
  cases (s.sbuf idx).handler with
  | none => rfl
  | some h =>
    rw [Option.any_some]
    dsimp only
    split
    · exact List.filterMap_cons_some (hcall _)
    · rfl

/-- `sockbuf_on_eof` tells the user just where no filter takes the end. -/
theorem usersTold_sockbufOnEof (level : Int) (err : Nat) :
    usersTold (sockbufOnEof s idx level err).events = hearing s (some (idx, level, .eof)) := by
  rw [sockbufOnEof, hearing, SockbufT.hears, Told.inFilter, Told.inHandler]
  cases (s.sbuf idx).filterAbove level SockbufFilter.onEof with
  | some e => simp [usersTold_callFilter]
  | none => simp [usersTold_callHandler s idx SockbufHandler.onEof (.eof err) fun _ => rfl]

/-- `sockbuf_on_written` tells the user just where no filter takes it. -/
theorem usersTold_sockbufOnWritten (level : Int) (len remaining : Nat) :
    usersTold (sockbufOnWritten s idx level len remaining).events =
      hearing s (some (idx, level, .written)) := by
  rw [sockbufOnWritten, hearing, SockbufT.hears, Told.inFilter, Told.inHandler]
  cases (s.sbuf idx).filterAbove level SockbufFilter.onWritten with
  | some e => simp [usersTold_callFilter]
  | none =>
    simp [usersTold_callHandler s idx SockbufHandler.onWritten (.written len remaining)
      fun _ => rfl]

/-- `sockbuf_on_read` tells the user just where no filter takes the data. -/
theorem usersTold_sockbufOnRead (level : Int) (data : List UInt8) :
    usersTold (sockbufOnRead s idx level data).events = hearing s (some (idx, level, .read)) := by
  rw [sockbufOnRead, hearing, SockbufT.hears, Told.inFilter, Told.inHandler]
  cases (s.sbuf idx).filterAbove level SockbufFilter.onRead with
  | some e => simp [usersTold_callFilter]
  | none =>
    cases hstats : (s.sbuf idx).stats with
    | none => simp [Outcome.crash, usersTold]
    | some stats =>
      dsimp only
      rw [usersTold_callHandler _ idx SockbufHandler.onRead (.read data) fun _ => rfl,
        sbuf_update_keeps s idx _ SockbufT.handler rfl idx]
      simp

/-- A connection that is made tells nothing of these. -/
theorem usersTold_sockbufOnConnect (k : Kernel) (level : Int) (peerIp : Option String) (peerPort : Int) :
    usersTold (sockbufOnConnect k s idx level peerIp peerPort).events = [] := by
  rw [sockbufOnConnect]
  split
  · rfl
  · exact usersTold_callHandler_other _ idx _ fun _ => rfl

/-- A connection that is accepted tells nothing of these. -/
theorem usersTold_sockbufOnNewclient (k : Kernel) (level : Int) (newidx : Nat) (peerIp : Option String)
    (peerPort : Int) :
    usersTold (sockbufOnNewclient k s idx level newidx peerIp peerPort).events = [] := by
  rw [sockbufOnNewclient]
  split
  · split
    · rfl
    · rfl
  · exact usersTold_callHandler_other _ idx _ fun _ => rfl

/-- A change of the socket changes nobody who hears. -/
theorem hears_setSock (k : Kernel) (sb : SockbufT) (sock : Int) (flags : Flags) (level : Int) (t : Told) :
    (sb.setSock k sock flags).hears level t = sb.hears level t := by
  rw [SockbufT.setSock]
  dsimp only
  split <;> rfl

theorem hears_sockbufClose (k : Kernel) (j : Nat) (level : Int) (t : Told) :
    ((sockbufClose k s idx).sbuf j).hears level t = (s.sbuf j).hears level t := by
  rw [sockbufClose]
  split
  · next h =>
    rw [sbuf_sockbufSetSock k {} h.1]
    split
    · exact hears_setSock k _ _ _ level t
    · rfl
  · rfl

/-- An end that is found is passed on from the bottom of the chain. -/
theorem usersTold_sockbufGotEof (k : Kernel) (err : Nat) :
    usersTold (sockbufGotEof k s idx err).events =
      hearing s (some (idx, sockbufLevelInternal, .eof)) := by
  rw [sockbufGotEof, usersTold_sockbufOnEof]
  exact hearing_congr (hears_sockbufClose s idx k) _

/-- A write tells of an end at most, when it comes to the socket and fails hard. -/
theorem usersTold_sockbufOnWrite (k : Kernel) (level : Int) (data : List UInt8) :
    usersTold (sockbufOnWrite k s idx level data).events =
      hearing s (writePasses k s idx level data) := by
  rw [sockbufOnWrite, writePasses, directWrite]
  cases (s.sbuf idx).filterBelow level SockbufFilter.onWrite with
  | some e =>
    dsimp only
    rw [ite_self]
    rfl
  | none =>
    dsimp only
    rw [sockbufRealWrite]
    by_cases hblock : (s.sbuf idx).flags.block = true
    · rw [if_pos hblock, if_pos hblock]
      rfl
    · rw [if_neg hblock, if_neg hblock]
      cases k.sysWrite (s.sbuf idx).sock data with
      | ok nbytes => rfl
      | error err =>
        by_cases heagain : err = eagain
        · simp [heagain, failsHard, hearing, usersTold, Event.user]
        · have hfails : failsHard (some (Except.error err : Except Nat Nat)) = true := by
            simp [failsHard, heagain]
          rw [hfails, if_pos rfl]
          dsimp only
          rw [if_neg heagain, usersTold_log, usersTold_sockbufGotEof]
          rfl

theorem hears_countSubmit (len j : Nat) (level : Int) (t : Told) :
    ((countSubmit s idx len).sbuf j).hears level t = (s.sbuf j).hears level t := by
  refine hears_update s idx _ (fun level t => ?_) j level t
  simp [SockbufT.hears, SockbufT.filterAbove, SockbufT.chain]

/-- What a write tells. -/
theorem usersTold_sockbufWrite (k : Kernel) (data : List UInt8) (len : Int) :
    usersTold (sockbufWrite k s idx data len).events =
      hearing s ((Api.write idx data len).passes k s) := by
  rw [sockbufWrite, Api.passes]
  split
  · dsimp only
    rw [usersTold_log, usersTold_sockbufOnWrite, writePasses, directWrite_countSubmit,
      hearing_congr (hears_countSubmit s idx _)]
    rfl
  · rfl

/-- What a connection that is tested tells. -/
theorem usersTold_sockbufGotWritableClient (k : Kernel) :
    usersTold (sockbufGotWritableClient k s idx).events =
      hearing s ((Task.writable idx true).passes k s) := by
  rw [sockbufGotWritableClient, Task.passes]
  by_cases h : k.sockError = 0
  · rw [if_neg (not_not.2 h), if_pos h]
    exact usersTold_sockbufOnConnect _ idx k _ _ _
  · rw [if_pos h, if_neg h]
    exact usersTold_sockbufGotEof s idx k _

theorem hears_drain (sb : SockbufT) (nbytes : Nat) (level : Int) (t : Told) :
    (sb.drain nbytes).hears level t = sb.hears level t := by
  simp [SockbufT.hears, SockbufT.drain, SockbufT.filterAbove, SockbufT.chain]

theorem hears_drainOutput (nbytes j : Nat) (level : Int) (t : Told) :
    ((drainOutput s idx nbytes).sbuf j).hears level t = (s.sbuf j).hears level t := by
  rw [drainOutput]
  split
  · rw [sockbufUnblock, updateEntry_sbuf, hears_update _ idx _ fun _ _ => rfl,
      hears_update _ idx _ fun _ _ => hears_drain _ _ _ _]
  · rw [hears_update _ idx _ fun _ _ => rfl, hears_update _ idx _ fun _ _ => hears_drain _ _ _ _]

/-- What a test for writing tells. -/
theorem usersTold_sockbufGotWritable (k : Kernel) :
    usersTold (sockbufGotWritable k s idx).events =
      hearing s ((Task.writable idx false).passes k s) := by
  rw [sockbufGotWritable, Task.passes]
  cases k.sysWrite (s.sbuf idx).sock (s.sbuf idx).buffered with
  | error err =>
    dsimp only
    rw [usersTold_log, usersTold_sockbufGotEof]
    rfl
  | ok nbytes =>
    dsimp only
    split
    · rw [usersTold_log, usersTold_sockbufOnWritten, hearing_congr (hears_drainOutput s idx _)]
      rfl
    · rfl

/-- What a test for reading tells. -/
theorem usersTold_sockbufGotReadable (k : Kernel) :
    usersTold (sockbufGotReadable k s idx).events =
      hearing s ((Task.readable idx false).passes k s) := by
  rw [sockbufGotReadable, Task.passes]
  cases k.sysRead (s.sbuf idx).sock 4096 with
  | error err => exact usersTold_sockbufGotEof s idx k _
  | ok data =>
    cases data with
    | nil => exact usersTold_sockbufGotEof s idx k _
    | cons c data =>
      dsimp only
      rw [usersTold_sockbufOnRead]
      refine hearing_congr (hears_update s idx _ fun level t => ?_) _
      simp [SockbufT.hears, SockbufT.filterAbove, SockbufT.chain]

/-- Accepting a connection tells the user of a new client. -/
theorem usersTold_sockbufGotReadableServer (k : Kernel) :
    usersTold (sockbufGotReadableServer k s idx).events = [] := by
  rw [sockbufGotReadableServer]
  dsimp only
  split
  · rfl
  · rw [usersTold_log, usersTold_sockbufOnNewclient]
    rfl

/-- A deletion tells nothing of these. -/
theorem usersTold_sockbufDelete : usersTold (sockbufDelete s idx).events = [] := by
  rw [sockbufDelete]
  split <;> rfl

theorem usersTold_sockbufDeleteCallbacks (i : Nat) :
    usersTold (sockbufDeleteCallbacks s idx i).events = [] := by
  rw [sockbufDeleteCallbacks]
  split
  · split
    · rfl
    · split
      · exact usersTold_callFilter s idx _ _
      · rfl
  · exact usersTold_callHandler_other s idx _ fun _ => rfl

theorem usersTold_sockbufShutdownLoop (i : Nat) : usersTold (sockbufShutdownLoop s i).events = [] := by
  cases i with
  | zero => rfl
  | succ i => exact usersTold_sockbufDelete s _

end Functions

/-- **What a task tells** is what it passes on and is heard. -/
theorem usersTold_exec {t : Task} {k : Kernel} {s : State} {o : Outcome} (h : t.exec k s = some o) :
    usersTold o.events = hearing s (t.passes k s) := by
  cases t with
  | external cb => cases h
  | crash => cases h
  | writable idx connecting =>
    cases h
    rw [usersTold_log]
    cases connecting with
    | true => exact usersTold_sockbufGotWritableClient s idx k
    | false => exact usersTold_sockbufGotWritable s idx k
  | readable idx server =>
    cases h
    rw [usersTold_log]
    cases server with
    -- a server accepts: the user hears of a new client, not of an end
    | true => exact usersTold_sockbufGotReadableServer s idx k
    | false => exact usersTold_sockbufGotReadable s idx k
  | hangup idx =>
    cases h
    rw [usersTold_log]
    exact usersTold_sockbufGotEof s idx k 0
  | scan i n =>
    cases h
    rw [updateScan]
    dsimp only
    split
    · split <;> rfl
    -- behind the last word only the end of the pass is logged
    · rw [(updateFinish_cases s).1]
      rfl
  | delete idx i => cases h; exact usersTold_sockbufDeleteCallbacks s idx i
  | deleteFinish idx => cases h; rfl
  | shutdown i => cases h; exact usersTold_sockbufShutdownLoop s i

/-- **What a call tells** is what it passes on and is heard. -/
theorem usersTold_apply {f : Api} {k : Kernel} {s : State} {o : Outcome} (h : f.apply k s = some o) :
    usersTold o.events = hearing s (f.passes k s) := by
  cases f with
  | new => cases h; rfl
  | setSock idx sock flags =>
    cases h
    rw [attachEvents]
    split <;> rfl
  | close idx => cases h; rfl
  | delete idx => cases h; exact usersTold_sockbufDelete s idx
  | write idx data len => cases h; exact usersTold_sockbufWrite s idx k data len
  | read idx => cases h; rfl
  | noread idx => cases h; rfl
  | attachListener fd => cases h; rfl
  | detachListener fd => cases h; rfl
  | setHandler idx handler clientData => cases h; rfl
  | attachFilter idx filter clientData => cases h; rfl
  | detachFilter idx filter => cases h; rfl
  | on idx level call =>
    cases call with
    | connect peerIp peerPort => cases h; exact usersTold_sockbufOnConnect s idx k level peerIp peerPort
    | eof err => cases h; exact usersTold_sockbufOnEof s idx level err
    | newclient newidx peerIp peerPort =>
      cases h; exact usersTold_sockbufOnNewclient s idx k level newidx peerIp peerPort
    | read data => cases h; exact usersTold_sockbufOnRead s idx level data
    | write data => cases h; exact usersTold_sockbufOnWrite s idx k level data
    | written len remaining => cases h; exact usersTold_sockbufOnWritten s idx level len remaining
    | delete => cases h
  | updateAll =>
    cases h
    rw [sockbufUpdateAll]
    split <;> rfl
  | shutdown => cases h; exact usersTold_sockbufShutdownLoop s s.npollfds

/-! ## Sockets -/

/-- No sockbuf gets a socket. -/
abbrev NoSocket (o : Outcome) : Prop := ∀ e ∈ o.events, ∀ j, e.connects j = false

/-- A mild step gives no socket. -/
theorem Mild.noSocket {T : Nat → Prop} {s : State} {o : Outcome} (h : Mild T s o) : NoSocket o := by
  intro e he j
  have hquiet := h.evolve.quiet e he
  cases e <;> first | rfl | exact absurd hquiet id

theorem NoSocket.log_dispatched {o : Outcome} (h : NoSocket o) (idx : Nat) (kind : EventKind) :
    NoSocket (o.log [.dispatched idx kind]) := by
  intro e he j
  rw [Outcome.log_events] at he
  rcases List.mem_append.1 he with he | he
  · rw [List.mem_singleton.1 he]
    rfl
  · exact h e he j

/-- A task that passes something on gives no sockbuf a socket. -/
theorem noSocket_exec {t : Task} {k : Kernel} {s : State} {o : Outcome} (h : t.exec k s = some o)
    (hp : t.passes k s ≠ none) : NoSocket o := by
  cases t with
  | writable idx connecting =>
    cases h
    cases connecting with
    | true => exact (mild_sockbufGotWritableClient (T := fun _ => True) s idx k).noSocket.log_dispatched _ _
    | false =>
      exact (mild_sockbufGotWritable (T := fun _ => True) s idx trivial k).noSocket.log_dispatched _ _
  | readable idx server =>
    cases h
    cases server with
    | true => exact absurd rfl hp
    | false => exact (mild_sockbufGotReadable (T := fun _ => True) s idx k).noSocket.log_dispatched _ _
  | hangup idx =>
    cases h
    exact (mild_sockbufGotEof (T := fun _ => True) s idx k 0).noSocket.log_dispatched _ _
  | _ => exact absurd rfl hp

/-- A call that passes something on gives no socket. -/
theorem noSocket_apply {f : Api} {k : Kernel} {s : State} {o : Outcome} (h : f.apply k s = some o)
    (hp : f.passes k s ≠ none) : NoSocket o := by
  cases hf : f.Structural with
  | false => exact (mild_apply (T := fun _ => True) s hf (fun _ _ => trivial) h).noSocket
  | true =>
    cases f with
    | write idx data len => cases hf
    | on idx level call => cases hf
    | _ => exact absurd rfl hp

/-! ## Runs -/

/-- What a step makes of the reports so far: it calls one user at most, and renews no sockbuf then. -/
theorem untold_step {tr : List Event} {s : State} {p : Option (Nat × Int × Told)} {o : Outcome}
    (ho : usersTold o.events = hearing s p) (hsock : p ≠ none → NoSocket o) :
    Along Untold (tr ++ o.events) ↔
      Along Untold tr ∧ ∀ q ∈ p, (s.sbuf q.1).hears q.2.1 q.2.2 = true → ended q.1 tr = false := by
  constructor
  · intro h
    refine ⟨fun pre e post htr => h pre e (post ++ o.events) (by rw [htr]; simp), ?_⟩
    rintro ⟨idx, level, t⟩ hq hhears
    rw [Option.mem_def] at hq
    subst hq
    -- the event that calls the user
    have htold : idx ∈ usersTold o.events := by
      rw [ho, hearing, if_pos hhears]
      exact List.mem_singleton_self idx
    obtain ⟨e, he, huser⟩ := List.mem_filterMap.1 htold
    obtain ⟨pre, post, hsplit⟩ := List.append_of_mem he
    have hnot := h (tr ++ pre) e post (by rw [hsplit, List.append_assoc]) idx (user_eq_some_iff.1 huser)
    by_contra hend
    rcases ended_append (Bool.not_eq_false _ ▸ hend) pre with hended | ⟨sock, hs, hmem⟩
    · exact absurd (hended.symm.trans hnot) (by simp)
    · have hconnects := hsock (Option.some_ne_none _) (.attached idx sock)
        (hsplit ▸ List.mem_append_left _ hmem) idx
      simp [Event.connects, hs] at hconnects
  · rintro ⟨h, hrespects⟩
    refine h.extend fun pre e post hsplit idx he => ?_
    have huser := user_eq_some_iff.2 he
    have htold : usersTold pre ++ idx :: usersTold post = hearing s p := by
      rw [← ho, hsplit, usersTold_append, show usersTold (e :: post) = idx :: usersTold post from
        List.filterMap_cons_some huser]
    cases p with
    | none => exact absurd htold (by simp [hearing])
    | some q =>
      obtain ⟨j, level, t⟩ := q
      rw [hearing] at htold
      split at htold
      · next hhears =>
        -- no other user is called before
        have hpre : usersTold pre = [] := by
          have hlen := congrArg List.length htold
          rw [List.length_append, List.length_cons, List.length_singleton] at hlen
          exact List.length_eq_zero_iff.1 (by omega)
        rw [hpre, List.nil_append] at htold
        obtain ⟨rfl, -⟩ := List.cons.inj htold
        refine ended_append_of_silent (fun x hx => ?_) (hrespects _ rfl hhears)
        by_contra hx'
        have hmem : idx ∈ usersTold pre := List.mem_filterMap.2
          ⟨x, hx, user_eq_some_iff.2 (tellsUser_of_tellsEnd (Bool.not_eq_false _ ▸ hx'))⟩
        rw [hpre] at hmem
        exact absurd hmem List.not_mem_nil
      · exact absurd htold (by simp)

/-- **Nothing is told behind an end** in exactly the runs whose steps respect the ends. -/
theorem untold_run {xs : List Action} {c c' : Config}
    (h : execute step (fun _ _ => True) c xs = some c') :
    Along Untold c'.trace ↔ Along Untold c.trace ∧ Throughout step EndRespected c xs := by
  induction xs generalizing c with
  | nil =>
    cases h
    exact (and_iff_left trivial).symm
  | cons a xs ih =>
    rw [execute, if_pos trivial] at h
    obtain ⟨b, hb, hrest⟩ := Option.bind_eq_some_iff.1 h
    have hone : Along Untold b.trace ↔ Along Untold c.trace ∧ EndRespected c a := by
      rcases step_cases hb with ⟨f, k, o, rfl, -, ho, rfl⟩ | ⟨cb, rest, rfl, -, rfl⟩ |
        ⟨k, t, rest, o, rfl, hstack, ho, rfl⟩
      · exact untold_step (usersTold_apply ho) (noSocket_apply ho)
      · exact (and_iff_left fun p hp => absurd hp (Option.not_mem_none p)).symm
      · have hpasses : Action.passes c (.run k) = t.passes k c.st := by
          rw [Action.passes, hstack]
          rfl
        rw [EndRespected, hpasses]
        exact untold_step (usersTold_exec ho) (noSocket_exec ho)
    rw [ih hrest, hone, and_assoc, Throughout, hb]

/-- **The end of a connection is reported once** in exactly the runs whose steps respect the ends
reported before them. -/
theorem end_reported_once_iff {xs : List Action} {c : Config}
    (h : execute step (fun _ _ => True) start xs = some c) :
    EndReportedOnce c.trace ↔ Throughout step EndRespected start xs := by
  rw [endReportedOnce_iff_along, untold_run h]
  exact and_iff_right along_nil

/-- The peer closes, and `poll` reports data and the hangup in one word. The user does nothing. -/
def hangupRun : List Action :=
  [.call .new {}, .call (.setSock 0 5 {}) {}, .call (.setHandler 0 { onEof := true } 0) {},
    .call .updateAll { poll := some [{ pollin := true, pollhup := true }] }, .run {}, .run {}, .ret,
    .run {}]

/-- The user is told of the end twice. -/
theorem end_reported_twice :
    ∃ c, execute step (fun _ _ => True) start hangupRun = some c ∧ ¬ EndReportedOnce c.trace := by
  refine ⟨_, rfl, fun h => ?_⟩
  obtain ⟨sock, -, hmem⟩ := h
    [.created 0, .attached 0 5, .passBegin, .polled [(0, { pollin := true, pollhup := true })],
      .dispatched 0 .readable]
    (.callback ⟨none, 0, 0, .eof 0⟩) [.dispatched 0 .hangup] (.callback ⟨none, 0, 0, .eof 0⟩) [] 0
    rfl rfl rfl
  simp at hmem

/-- The same end, where the user deletes the sockbuf when told of it. -/
def deleteRun : List Action :=
  [.call .new {}, .call (.setSock 0 5 {}) {}, .call (.setHandler 0 { onEof := true } 0) {},
    .call .updateAll { poll := some [{ pollin := true, pollhup := true }] }, .run {}, .run {},
    .call (.delete 0) {}, .run {}, .run {}, .ret, .run {}, .run {}]

/-- A deletion in the handler of the end. -/
theorem end_reported_once_delete :
    ∃ c, execute step (fun _ _ => True) start deleteRun = some c ∧
      c.trace.getLast? = some .passEnd ∧ EndReportedOnce c.trace :=
  ⟨_, rfl, rfl, (@end_reported_once_iff deleteRun _ rfl).2 (by decide)⟩

end ExamplePrograms.Onethread.Sockbuf
