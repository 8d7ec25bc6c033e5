import ExamplePrograms.Lib.Runs
import ExamplePrograms.Onethread.Sockbuf.Functions

/-!
# Runs of the sockbuf module

A configuration is the state of the module, its call stack and the events so far. External code (the
main program when the stack is empty, a callback when the stack has one on top) calls the functions of
the module and returns; the module goes on with the task on top. Every interleaving of calls,
nested callbacks, recursive `sockbuf_update_all` calls and kernel answers is a run of `step`.
-/

set_option autoImplicit false

namespace ExamplePrograms.Onethread.Sockbuf

open ExamplePrograms.Lib.Runs

/-- The functions of the module that external code calls. `on` is the group of the filter functions
`sockbuf_on_connect`, `sockbuf_on_eof` and so on. -/
inductive Api where
  | new
  | setSock (idx : Nat) (sock : Int) (flags : Flags)
  | close (idx : Nat)
  | delete (idx : Nat)
  | write (idx : Nat) (data : List UInt8) (len : Int)
  | read (idx : Nat)
  | noread (idx : Nat)
  | attachListener (fd : Int)
  | detachListener (fd : Int)
  | setHandler (idx : Nat) (handler : SockbufHandler) (clientData : Nat)
  | attachFilter (idx : Nat) (filter : SockbufFilter) (clientData : Nat)
  | detachFilter (idx : Nat) (filter : SockbufFilter)
  | on (idx : Nat) (level : Int) (call : Call)
  | updateAll
  | shutdown
  deriving DecidableEq, Repr

/-- The filter function for `call`. A filter cannot pass on a deletion. -/
def sockbufOn (k : Kernel) (s : State) (idx : Nat) (level : Int) : Call → Option Outcome
  | .connect peerIp peerPort => some (sockbufOnConnect k s idx level peerIp peerPort)
  | .eof err => some (sockbufOnEof s idx level err)
  | .newclient newidx peerIp peerPort =>
      some (sockbufOnNewclient k s idx level newidx peerIp peerPort)
  | .read data => some (sockbufOnRead s idx level data)
  | .write data => some (sockbufOnWrite k s idx level data)
  | .written len remaining => some (sockbufOnWritten s idx level len remaining)
  | .delete => none

/-- A call of a module function. -/
def Api.apply (k : Kernel) (s : State) : Api → Option Outcome
  | .new => some { st := (sockbufNew s).1, events := [.created (sockbufNew s).2] }
  | .setSock idx sock flags =>
      some { st := sockbufSetSock k s idx sock flags, events := attachEvents s idx sock }
  | .close idx => some { st := sockbufClose k s idx }
  | .delete idx => some (sockbufDelete s idx)
  | .write idx data len => some (sockbufWrite k s idx data len)
  | .read idx => some { st := sockbufRead s idx }
  | .noread idx => some { st := sockbufNoread s idx }
  | .attachListener fd =>
      some { st := sockbufAttachListener k s fd, events := [.attachedListener fd] }
  | .detachListener fd => some { st := sockbufDetachListener s fd, events := [.detachedListener fd] }
  | .setHandler idx handler clientData => some { st := sockbufSetHandler s idx handler clientData }
  | .attachFilter idx filter clientData =>
      some { st := sockbufAttachFilter s idx filter clientData }
  | .detachFilter idx filter => some { st := sockbufDetachFilter s idx filter }
  | .on idx level call => sockbufOn k s idx level call
  | .updateAll => some (sockbufUpdateAll k s)
  | .shutdown => some (sockbufShutdownLoop s s.npollfds)

/-- The module goes on with a task. External code and a crash are not the module's to go on with. -/
def Task.exec (k : Kernel) (s : State) : Task → Option Outcome
  | .external _ => none
  | .writable idx connecting =>
      some ((if connecting then sockbufGotWritableClient k s idx
        else sockbufGotWritable k s idx).log [.dispatched idx .writable])
  | .readable idx server =>
      some ((if server then sockbufGotReadableServer k s idx
        else sockbufGotReadable k s idx).log [.dispatched idx .readable])
  | .hangup idx => some ((sockbufGotEof k s idx 0).log [.dispatched idx .hangup])
  | .scan i n => some (updateScan s i n)
  | .delete idx i => some (sockbufDeleteCallbacks s idx i)
  | .deleteFinish idx => some { st := sockbufDeleteFinish s idx }
  | .shutdown i => some (sockbufShutdownLoop s i)
  | .crash => none

/-- The state of the module, the call stack, and the events so far. -/
structure Config where
  st : State := {}
  stack : List Task := []
  trace : List Event := []
  deriving DecidableEq, Repr

/-- The configuration after the outcome `o`, above the tasks `rest`. -/
def Config.after (c : Config) (rest : List Task) (o : Outcome) : Config :=
  ⟨o.st, o.tasks ++ rest, c.trace ++ o.events⟩

/-- External code is running: the main program or a callback. -/
def externalControl : List Task → Bool
  | [] => true
  | .external _ :: _ => true
  | _ => false

/-- A call of the module by the main program or a callback, the return of a callback, or the next task. -/
inductive Action where
  | call (f : Api) (k : Kernel)
  | ret
  | run (k : Kernel)

/-- One step, where it is possible. -/
def step (c : Config) : Action → Option Config
  | .call f k =>
      if externalControl c.stack then (f.apply k c.st).map (c.after c.stack) else none
  -- the main program has no caller to return to
  | .ret =>
      match c.stack with
      | .external _ :: rest => some { c with stack := rest }
      | _ => none
  | .run k =>
      match c.stack with
      | [] => none
      | t :: rest => (t.exec k c.st).map (c.after rest)

/-- The module before its first call. -/
def start : Config := {}

/-- What a step does: a call of external code, a return of a callback, or the top task. -/
theorem step_cases {c c' : Config} {a : Action} (h : step c a = some c') :
    (∃ f k o, a = .call f k ∧ externalControl c.stack = true ∧ f.apply k c.st = some o ∧
      c' = c.after c.stack o) ∨
    (∃ cb rest, a = .ret ∧ c.stack = .external cb :: rest ∧ c' = { c with stack := rest }) ∨
    (∃ k t rest o, a = .run k ∧ c.stack = t :: rest ∧ t.exec k c.st = some o ∧
      c' = c.after rest o) := by
  cases a with
  | call f k =>
      simp only [step] at h
      split at h
      · next hc =>
        obtain ⟨o, ho, hc'⟩ := Option.map_eq_some_iff.1 h
        exact Or.inl ⟨f, k, o, rfl, hc, ho, hc'.symm⟩
      · exact absurd h (by simp)
  | ret =>
      simp only [step] at h
      split at h
      · next cb rest hs =>
        exact Or.inr (Or.inl ⟨cb, rest, rfl, hs, (Option.some.inj h).symm⟩)
      · exact absurd h (by simp)
  | run k =>
      simp only [step] at h
      split at h
      · exact absurd h (by simp)
      · next t rest hs =>
        obtain ⟨o, ho, hc'⟩ := Option.map_eq_some_iff.1 h
        exact Or.inr (Or.inr ⟨k, t, rest, o, rfl, hs, ho, hc'.symm⟩)

/-! ## The write of a step -/

/-- The answer to the `write` of a `sockbuf_on_write`, when it comes to one. -/
def directWrite (k : Kernel) (s : State) (idx : Nat) (level : Int) (data : List UInt8) :
    Option (Except Nat Nat) :=
  if (s.sbuf idx).flags.block then none
  else
    match (s.sbuf idx).filterBelow level SockbufFilter.onWrite with
    | some _ => none
    | none => some (k.sysWrite (s.sbuf idx).sock data)

/-- Counting the data changes nothing that the write depends on. -/
theorem directWrite_countSubmit (s : State) (idx : Nat) (k : Kernel) (level : Int) (data : List UInt8)
    (len : Nat) : directWrite k (countSubmit s idx len) idx level data = directWrite k s idx level data := by
  have hflags : ((countSubmit s idx len).sbuf idx).flags = (s.sbuf idx).flags :=
    s.sbuf_update_keeps idx _ SockbufT.flags rfl idx
  have hsock : ((countSubmit s idx len).sbuf idx).sock = (s.sbuf idx).sock :=
    s.sbuf_update_keeps idx _ SockbufT.sock rfl idx
  have hbelow : ((countSubmit s idx len).sbuf idx).filterBelow level SockbufFilter.onWrite =
      (s.sbuf idx).filterBelow level SockbufFilter.onWrite :=
    s.sbuf_update_keeps idx _ (fun sb => sb.filterBelow level SockbufFilter.onWrite) rfl idx
  rw [directWrite, hflags, hsock, hbelow, directWrite]

/-- A call that failed, and not with `EAGAIN`. -/
def failsHard {α : Type} : Option (Except Nat α) → Bool
  | some (.error err) => err != eagain
  | _ => false

end ExamplePrograms.Onethread.Sockbuf
