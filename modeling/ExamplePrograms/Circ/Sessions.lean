import ExamplePrograms.Lib.Runs
import ExamplePrograms.Circ.Parse

/-!
# IRC sessions

The sessions of `circ.c` and their network handlers. The array `sessions` is a block of memory with an
identity, which changes when `realloc` moves the array. `circ_connect` registers the address of a
session with the network library as the `conn_data` of its connection, and the library hands it to
the handlers later on.

The network library is not part of the program: what it answers, and what `realloc` does, is the
environment of a step (`Env`). A record at an address that is no element of the array any more is
`Env.stray`, whatever stands there. A step through a null pointer is not possible.
-/

set_option autoImplicit false

namespace ExamplePrograms.Circ

open ExamplePrograms.Lib.CString ExamplePrograms.Lib.Runs

/-- `circ_callback_t`. `callback` is the address of the function. -/
structure CircCallback where
  command : List UInt8
  callback : Nat
  deriving DecidableEq, Repr

/-- The bits `CIRC_*`. -/
structure CircFlags where
  connected : Bool := false
  destroy : Bool := false
  deriving DecidableEq, Repr

/-- `circ_session_t`. -/
structure CircSession where
  sid : Int := 0
  nsid : Int := 0
  flags : CircFlags := {}
  host : Option (List UInt8) := none
  data : Nat := 0
  msg : CircMessage := { buffer := List.replicate 513 0 }
  callbacks : List CircCallback := []
  deriving DecidableEq, Repr

/-- The address of element `index` of a block. -/
structure Ptr where
  block : Nat
  index : Nat
  deriving DecidableEq, Repr

/-- An open connection of the network library with the data registered for it. `opener` is the session
whose `circ_connect` opened it. -/
structure Conn where
  nsid : Int
  connData : Ptr
  opener : Int
  deriving DecidableEq, Repr

/-- The static variables, the blocks used so far, and the connections. `block` is `none` while
`sessions` is NULL. -/
structure State where
  block : Option Nat := none
  nblocks : Nat := 0
  sessions : List CircSession := []
  nsessions : Nat := 0
  conns : List Conn := []
  deriving DecidableEq, Repr

/-- What `realloc` does with the array. -/
inductive Realloc where
  | inPlace
  | moved
  | failed
  deriving DecidableEq, Repr

/-- The environment of a step: what `realloc` does, the identifier that `cnet_connect` returns, and the
records at addresses outside the array. -/
structure Env where
  realloc : Realloc := .inPlace
  nsid : Int := 0
  stray : Nat → CircSession := fun _ => {}

/-- Calls of the network library and of the user's callbacks. -/
inductive Output where
  | connect (host : List UInt8) (port : Int) (vhost : Option (List UInt8))
  | write (nsid : Int) (data : List UInt8) (len : Nat)
  | callback (callback : Nat) (sid : Int) (data : Nat) (msg : CircMessage)
  deriving DecidableEq, Repr

/-- The state after a function, its result and its calls. -/
structure Outcome where
  st : State
  ret : Int
  out : List Output := []

namespace State

/-- `circ_fetch`: the index of `sessions[sid]`. The test lets the index behind the last session pass.
While `sessions` is NULL, so is `&sessions[0]`. -/
def circFetch (s : State) (sid : Int) : Option Nat :=
  if sid < 0 ∨ sid > s.nsessions then none
  else if s.block = none ∧ sid = 0 then none
  else some sid.toNat

/-- The index of a session that is found. -/
theorem circFetch_some {s : State} {sid : Int} {idx : Nat} (h : s.circFetch sid = some idx) :
    (idx : Int) = sid ∧ idx ≤ s.nsessions := by
  rw [circFetch] at h
  split at h
  · cases h
  split at h
  · cases h
  · cases h
    omega

/-- The array is NULL when an index in its range is not found. -/
theorem circFetch_none {s : State} {sid : Int} (h : s.circFetch sid = none) (hpos : 0 ≤ sid)
    (hle : sid ≤ s.nsessions) : s.block = none ∧ sid = 0 := by
  rw [circFetch] at h
  rw [if_neg (by omega)] at h
  split at h
  · next hnull => exact hnull
  · cases h

/-- The record `sessions[idx]`. -/
def record (s : State) (env : Env) (idx : Nat) : Option CircSession :=
  s.block.map fun _ => s.sessions.getD idx (env.stray idx)

/-- Write to the record `sessions[idx]`. -/
def update (s : State) (idx : Nat) (f : CircSession → CircSession) : State :=
  { s with sessions := s.sessions.modify idx f }

/-- The address is that of an element of the array. -/
def Live (s : State) (p : Ptr) : Prop := s.block = some p.block ∧ p.index < s.sessions.length

instance (s : State) (p : Ptr) : Decidable (s.Live p) := by unfold Live; infer_instance

/-- The record that is read through an address. -/
def through (s : State) (env : Env) (p : Ptr) : CircSession :=
  if s.Live p then s.sessions.getD p.index (env.stray p.index) else env.stray p.index

end State

/-- `circ_session_create`. When `realloc` fails the array is lost, and the next call begins with a new
block of as many elements. -/
def circSessionCreate (env : Env) (s : State) (host : Option (List UInt8))
    (callbacks : List CircCallback) (data : Nat) : Outcome :=
  if env.realloc = .failed then ⟨{ s with block := none, sessions := [] }, -1, []⟩
  else
    -- `realloc` of NULL gives a block whose first elements are not initialised
    let old := if s.block.isSome then s.sessions else (List.range s.nsessions).map env.stray
    let new : CircSession := { sid := s.nsessions, host := host, data := data, callbacks := callbacks }
    let stays := s.block.isSome && env.realloc == .inPlace
    { st :=
        { s with
          block := if stays then s.block else some s.nblocks
          nblocks := if stays then s.nblocks else s.nblocks + 1
          sessions := old ++ [new]
          nsessions := s.nsessions + 1 }
      ret := s.nsessions }

/-- `circ_session_valid`. -/
def circSessionValid (s : State) (sid : Int) : Int := if (s.circFetch sid).isSome then 1 else 0

/-- `circ_session_data`. The result `none` of the address is NULL. -/
def circSessionData (env : Env) (s : State) (sid : Int) : Option (Option Nat) :=
  match s.circFetch sid with
  | none => some none
  | some idx => (s.record env idx).map fun sess => some sess.data

/-- `circ_connect`. The connection replaces one with the same identifier. -/
def circConnect (env : Env) (s : State) (sid : Int) (host : List UInt8) (port : Int) :
    Option Outcome :=
  match s.circFetch sid with
  | none => some ⟨s, -1, []⟩
  | some idx =>
      (s.record env idx).map fun sess =>
        if sess.flags.connected then ⟨s, 0, []⟩
        else
          let s' := s.update idx fun sess => { sess with nsid := env.nsid }
          let out := [.connect host port sess.host]
          if env.nsid = -1 then ⟨s', -1, out⟩
          else
            -- the address of the record goes to the library, which keeps it
            let conn : Conn := ⟨env.nsid, ⟨s.block.getD 0, idx⟩, sid⟩
            ⟨{ s' with conns := conn :: s.conns.filter fun c => c.nsid != env.nsid }, 1, out⟩

/-- `data` of `circ_send` behind the `strcat`, for the formatted text. -/
def sendBuffer (text : List UInt8) : List UInt8 :=
  strcat (vsnprintf (List.replicate 513 0) 510 text) [13, 10]

/-- `circ_send`. `text` is the formatted text, and the result is its full length. -/
def circSend (env : Env) (s : State) (sid : Int) (text : List UInt8) : Option Outcome :=
  match s.circFetch sid with
  | none => some ⟨s, -1, []⟩
  | some idx =>
      (s.record env idx).map fun sess =>
        ⟨s, text.length, [.write sess.nsid (sendBuffer text) (text.length + 2)]⟩

/-- `"QUIT :%s"`. A null message is written as `(null)`. -/
def quitText (message : Option (List UInt8)) : List UInt8 :=
  [81, 85, 73, 84, 32, 58] ++ message.getD [40, 110, 117, 108, 108, 41]

/-- `circ_disconnect`. -/
def circDisconnect (env : Env) (s : State) (sid : Int) (message : Option (List UInt8)) :
    Option Outcome :=
  match s.circFetch sid with
  | none => some ⟨s, -1, []⟩
  | some idx =>
      (circSend env
        (s.update idx fun sess => { sess with flags := { sess.flags with connected := false } }) sid
        (quitText message)).map fun o => { o with ret := 0 }

/-- `circ_session_destroy`. -/
def circSessionDestroy (env : Env) (s : State) (sid : Int) : Option Outcome :=
  match s.circFetch sid with
  | none => some ⟨s, -1, []⟩
  | some idx =>
      circDisconnect env
        (s.update idx fun sess => { sess with flags := { sess.flags with destroy := true } }) sid none

/-! ## Network events -/

/-- `circ_process`. A session that is not found is a null pointer. -/
def circProcess (env : Env) (s : State) (sid : Int) (buffer : List UInt8) : Option Outcome :=
  (s.circFetch sid).bind fun idx =>
    (s.record env idx).bind fun sess =>
      (circParse buffer).map fun msg =>
        let s' := s.update idx fun sess => { sess with msg := msg }
        match msg.str msg.command with
        | none => ⟨s', 0, []⟩
        | some command =>
            match sess.callbacks.find? fun cb => sameText command cb.command with
            | none => ⟨s', 0, []⟩
            | some cb => ⟨s', 0, [.callback cb.callback sid sess.data msg]⟩

/-- The events of a connection. -/
inductive NetEvent where
  | connect
  | read (data : List UInt8)
  | eof
  | close
  deriving DecidableEq, Repr

/-- What the handler of an event passes to `circ_process`: `"CONNECT"`, the data,
`"QUIT :Disconnected"` or `"QUIT :Socket Closed"`. -/
def NetEvent.text : NetEvent → List UInt8
  | connect => [67, 79, 78, 78, 69, 67, 84]
  | read data => data
  | eof =>
      [81, 85, 73, 84, 32, 58, 68, 105, 115, 99, 111, 110, 110, 101, 99, 116, 101, 100]
  | close =>
      [81, 85, 73, 84, 32, 58, 83, 111, 99, 107, 101, 116, 32, 67, 108, 111, 115, 101, 100]

/-- `circ_on_connect`, `circ_on_read`, `circ_on_eof` and `circ_on_close`. -/
def circOn (env : Env) (s : State) (e : NetEvent) (connData : Ptr) : Option Outcome :=
  circProcess env s (s.through env connData).sid e.text

/-! ## Runs -/

/-- A call of the program, or an event of an open connection. -/
inductive Action where
  | create (host : Option (List UInt8)) (callbacks : List CircCallback) (data : Nat)
  | destroy (sid : Int)
  | connect (sid : Int) (host : List UInt8) (port : Int)
  | disconnect (sid : Int) (message : Option (List UInt8))
  | send (sid : Int) (text : List UInt8)
  | event (nsid : Int) (e : NetEvent)

/-- A connection is gone behind its `close` event. -/
def State.afterEvent (s : State) (nsid : Int) : NetEvent → State
  | .close => { s with conns := s.conns.filter fun c => c.nsid != nsid }
  | _ => s

/-- One call of the program or event of the network library. -/
def Action.apply (env : Env) (s : State) : Action → Option Outcome
  | .create host callbacks data => some (circSessionCreate env s host callbacks data)
  | .destroy sid => circSessionDestroy env s sid
  | .connect sid host port => circConnect env s sid host port
  | .disconnect sid message => circDisconnect env s sid message
  | .send sid text => circSend env s sid text
  | .event nsid e =>
      (s.conns.find? fun c => c.nsid == nsid).bind fun c =>
        (circOn env s e c.connData).map fun o => { o with st := o.st.afterEvent nsid e }

/-- The steps of the program with its environment. A user's callback runs as steps behind the event. -/
def step (s : State) (x : Action × Env) : Option State := (x.1.apply x.2 s).map Outcome.st

/-- The program before its first call. -/
def start : State := {}

end ExamplePrograms.Circ
