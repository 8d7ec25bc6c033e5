import ExamplePrograms.Onethread.Sockbuf.PollTable
import ExamplePrograms.Onethread.Telnet.Filter

/-!
# Deletion under the telnet filter

While `telnet_filter_read` decodes a chunk it answers commands and echoes data. An answer that meets
a hard write error ends, inside the call, in the user's `on_eof`; a handler that deletes its sockbuf
there frees the session of the filter, and the filter goes on.

`filterActs` lists what a call of `telnet_filter_read` does in order, with its accesses to the
session; the calls among them are those of `telnetFilterRead` (`calls_filterActs`). `Conn` runs the
list over the sockbuf module.
-/

set_option autoImplicit false

namespace ExamplePrograms.Onethread.Telnet

open ExamplePrograms.Lib.Loops ExamplePrograms.Lib.Memory ExamplePrograms.Lib.Runs
open ExamplePrograms.Onethread.Sockbuf

/-! ## What the filter does -/

/-- The filter reads or writes `session->flags`, or it calls a function. -/
inductive Act where
  | session
  | call (out : Output)
  deriving DecidableEq, Repr

/-- The call that an act makes. -/
def Act.output : Act → Option Output
  | .session => none
  | .call out => some out

@[simp] theorem output_session : Act.session.output = none := rfl
@[simp] theorem output_call (out : Output) : (Act.call out).output = some out := rfl

/-- `TELNET_DO`. The flag is set after the answer. -/
def doActs (session : TelnetT) (arg : UInt8) : List Act :=
  if arg &&& (telnetEcho ||| telnetSupressGa) ≠ 0 then
    if session.echo then [.session] else [.session, .call (.mode telnetWill arg), .session]
  else [.call (.mode telnetWont arg)]

/-- `TELNET_DONT`. -/
def dontActs (session : TelnetT) (arg : UInt8) : List Act :=
  if arg = telnetEcho then
    if session.echo then [.session, .call (.mode telnetWont arg), .session] else [.session]
  else []

/-- What the `switch` does. -/
def switchActs (buf : List UInt8) (cmd : Nat) (session : TelnetT) (type : UInt8) :
    Option (List Act) :=
  if type = telnetAyt then some [.call (.write telnetYes)]
  else if type = telnetCmd then some []
  else if type = telnetDo then buf[cmd + 2]?.map (doActs session)
  else if type = telnetDont then buf[cmd + 2]?.map (dontActs session)
  else some []

/-- What a round of the loop does. -/
def roundActs (s : ReadState) : List Act :=
  match memchr s.buf s.cmd telnetCmd s.len with
  | some (some cmd) => (s.buf[cmd + 1]?.bind (switchActs s.buf cmd s.session)).getD []
  | _ => []

/-- What the part behind the loop does. A `telnet_filter_write` that never returns ends the list. -/
def passOnActs (s : ReadState) : List Act :=
  if s.len = 0 then []
  else
    .session ::
      if s.session.echoes then
        match telnetFilterWrite s.buf s.len.toNat with
        | none => []
        | some line =>
            (if line = [] then [] else [.call (.onWrite line)]) ++
              [.call (.onRead (s.buf.take s.len.toNat))]
      else [.call (.onRead (s.buf.take s.len.toNat))]

/-- What the loop does, and what stands behind it. -/
def loopActs : Nat → ReadState → List Act
  | 0, _ => []
  | n + 1, s =>
      match readRound s with
      | .undefined => roundActs s
      | .exit s => passOnActs s
      | .again s' => roundActs s ++ loopActs n s'

/-- What `telnet_filter_read` does on the first `len` bytes of `buf`. -/
def filterActs (buf : List UInt8) (len : Nat) (session : TelnetT) : List Act :=
  loopActs (len + 1) ⟨buf, 0, len, session, []⟩

/-- The calls of a request. -/
theorem output_doActs (session : TelnetT) (arg : UInt8) :
    (doActs session arg).filterMap Act.output = (telnetOnDo session arg).2 := by
  rw [doActs, telnetOnDo]
  split
  · split <;> rfl
  · rfl

/-- The calls of its opposite. -/
theorem output_dontActs (session : TelnetT) (arg : UInt8) :
    (dontActs session arg).filterMap Act.output = (telnetOnDont session arg).2 := by
  rw [dontActs, telnetOnDont]
  by_cases harg : arg = telnetEcho
  · by_cases hecho : session.echo = true
    · simp [harg, hecho, List.filterMap_cons]
    · simp [harg, hecho, List.filterMap_cons]
  · simp [harg]

/-- The calls of the `switch` are those of `telnetSwitch`. -/
theorem switchActs_eq (buf : List UInt8) (cmd : Nat) (session : TelnetT) (type : UInt8) :
    (switchActs buf cmd session type).map (List.filterMap Act.output) =
      (telnetSwitch buf cmd session type).map Command.out := by
  rw [switchActs, telnetSwitch]
  split
  · rfl
  split
  · rfl
  split
  · cases buf[cmd + 2]? with
    | none => rfl
    | some arg => exact congrArg some (output_doActs session arg)
  split
  · cases buf[cmd + 2]? with
    | none => rfl
    | some arg => exact congrArg some (output_dontActs session arg)
  split
  · rfl
  split
  · rfl
  · rfl

/-- A round that goes on adds its calls. -/
theorem output_roundActs {s s' : ReadState} (h : readRound s = .again s') :
    s'.out = s.out ++ (roundActs s).filterMap Act.output := by
  obtain ⟨cmd, type, c, hcmd, htype, hswitch, hmove⟩ := readRound_again h
  have hacts := switchActs_eq s.buf cmd s.session type
  rw [hswitch] at hacts
  obtain ⟨acts, hsome, hout⟩ := Option.map_eq_some_iff.1 hacts
  have hround : roundActs s = acts := by
    rw [roundActs, hcmd]
    simp [htype, hsome]
  simp only [ReadState.removeCommand] at hmove
  split at hmove
  · cases hmove
  · cases hmove
    rw [hround, hout]

/-- The calls behind the loop. -/
theorem output_passOnActs {s : ReadState} {session : TelnetT} {out : List Output}
    (h : passOn s = some (session, out)) : out = s.out ++ (passOnActs s).filterMap Act.output := by
  rw [passOn] at h
  rw [passOnActs]
  split at h
  · next hlen =>
    cases h
    rw [if_pos hlen, List.filterMap_nil, List.append_nil]
  · next hlen =>
    simp only at h
    rw [if_neg hlen]
    split at h
    · next hecho =>
      obtain ⟨line, hline, heq⟩ := Option.map_eq_some_iff.1 h
      cases heq
      rw [if_pos hecho, hline]
      by_cases hnil : line = []
      · simp [hnil, List.filterMap_cons]
      · simp [hnil, List.filterMap_cons]
    · next hecho =>
      cases h
      rw [if_neg hecho]
      rfl

/-- The calls of the loop and behind it. -/
theorem output_loopActs {n : Nat} {s : ReadState} {session : TelnetT} {out : List Output}
    (h : (iterate readRound n s).bind passOn = some (session, out)) :
    out = s.out ++ (loopActs n s).filterMap Act.output := by
  induction n generalizing s with
  | zero => cases h
  | succ n ih =>
    rw [loopActs]
    cases hround : readRound s with
    | undefined =>
      rw [iterate_undefined hround] at h
      cases h
    | exit s' =>
      rw [iterate_exit hround] at h
      rw [← readRound_exit hround]
      exact output_passOnActs h
    | again s' =>
      rw [iterate_again hround] at h
      simp only [List.filterMap_append]
      rw [← List.append_assoc, ← output_roundActs hround]
      exact ih h

/-- The calls among the acts are those that `telnetFilterRead` lists. -/
theorem calls_filterActs {buf : List UInt8} {len : Nat} {session session' : TelnetT}
    {out : List Output} (h : telnetFilterRead buf len session = some (session', out)) :
    (filterActs buf len session).filterMap Act.output = out :=
  (output_loopActs h).symm

/-! ## The connection -/

/-- The level of the filter. -/
def telnetFilterLevel : Int := 5000

/-- The filter that `telnet_on` attaches. -/
def telnetFilter : SockbufFilter :=
  { id := 0, level := telnetFilterLevel, onRead := true, onWrite := true, onDelete := true }

/-- The sockbuf module, whether the session of the filter has been freed, and whether the filter used
it after that or ran `sockbuf_on_read` on a deleted sockbuf. -/
structure Conn where
  st : State
  freed : Bool := false
  fault : Bool := false
  deriving DecidableEq, Repr

namespace Conn

/-- `sockbuf_delete`. Of its `on_delete` callbacks that of the telnet filter frees the session. -/
def delete (c : Conn) (idx : Nat) : Conn :=
  if sockbufIsvalid c.st idx then
    { c with
      st := sockbufDeleteFinish
        (c.st.update idx fun sb => { sb with flags := { sb.flags with deleted := true } }) idx
      freed := c.freed || (c.st.sbuf idx).chain.any fun e => e.1 == telnetFilter }
  else c

/-- The end of a call of the module. The user's `on_eof` deletes its sockbuf. -/
def settle (c : Conn) (idx : Nat) (o : Outcome) : Conn :=
  match o.tasks with
  | [.external ⟨none, _, _, .eof _⟩] => { c with st := o.st }.delete idx
  | _ => { c with st := o.st }

/-- `sockbuf_on_write(idx, TELNET_FILTER_LEVEL, data, len)`. -/
def pass (c : Conn) (k : Kernel) (idx : Nat) (data : List UInt8) : Conn :=
  c.settle idx (sockbufOnWrite k c.st idx telnetFilterLevel data)

/-- A call of the filter. `sockbuf_write` comes back to the filter through `telnet_filter_write`. -/
def call (c : Conn) (k : Kernel) (idx : Nat) : Output → Conn
  | .mode cmd what => c.pass k idx [telnetCmd, cmd, what]
  | .onWrite line => c.pass k idx line
  | .write data =>
      let o := sockbufWrite k c.st idx data data.length
      -- the filter's own `on_write` is called, with a loop over the text
      match o.tasks with
      | [.external ⟨some _, _, _, .write text⟩] =>
          match telnetFilterWrite text text.length with
          | some (b :: line) => { c with st := o.st }.pass k idx (b :: line)
          | _ => { c with st := o.st }
      | _ => c.settle idx o
  | .onRead data => { c with st := (sockbufOnRead c.st idx telnetFilterLevel data).st }

/-- The filter must not do this now. -/
def faults (c : Conn) (idx : Nat) : Act → Bool
  | .session => c.freed
  | .call (.onRead _) => !sockbufIsvalid c.st idx
  | .call _ => false

/-- The effect of an act, whether or not it is allowed. -/
def perform (c : Conn) (k : Kernel) (idx : Nat) : Act → Conn
  | .session => c
  | .call out => c.call k idx out

/-- One act of the filter. -/
def act (c : Conn) (k : Kernel) (idx : Nat) (a : Act) : Conn :=
  { c.perform k idx a with fault := c.fault || c.faults idx a }

/-- The acts of a call of the filter. `ks i` answers the `i`-th of them. -/
def run (idx : Nat) : List Act → (Nat → Kernel) → Conn → Conn
  | [], _, c => c
  | a :: as, ks, c => run idx as (fun i => ks (i + 1)) (c.act (ks 0) idx a)

end Conn

/-- A valid sockbuf with the telnet filter and a user's handler that defines `on_eof`. The filter is
the one that `sockbuf_write` calls, and no other one comes between it and the socket. -/
structure Attached (idx : Nat) (s : State) : Prop where
  valid : sockbufIsvalid s idx = true
  whole : (s.sbuf idx).chain.length = (s.sbuf idx).nfilters
  first : ((s.sbuf idx).filterBelow sockbufLevelWriteInternal SockbufFilter.onWrite).map Prod.fst =
    some telnetFilter
  last : (s.sbuf idx).filterBelow telnetFilterLevel SockbufFilter.onWrite = none
  eof : (s.sbuf idx).filterAbove sockbufLevelInternal SockbufFilter.onEof = none
  handler : (s.sbuf idx).handler.any SockbufHandler.onEof = true

/-- A write to the socket fails hard: it is made, since the sockbuf is not blocked, and the error is
not `EAGAIN`. -/
def refused (k : Kernel) (sb : SockbufT) : Bool :=
  !sb.flags.block &&
    match k.sysWrite sb.sock [] with
    | .error err => err != eagain
    | .ok _ => false

/-- The act ends in a write. -/
def Act.writes : Act → Bool
  | .session => false
  | .call (.mode _ _) => true
  | .call (.onWrite _) => true
  | .call (.write data) => (telnetFilterWrite data data.length).any fun line => !line.isEmpty
  | .call (.onRead _) => false

/-- The act needs the session or the sockbuf. -/
def Act.needs : Act → Bool
  | .session => true
  | .call (.onRead _) => true
  | .call _ => false

/-- Behind the first write that fails hard, nothing needs the session or the sockbuf. -/
def Tolerated (idx : Nat) : List Act → (Nat → Kernel) → Conn → Prop
  | [], _, _ => True
  | a :: as, ks, c =>
      if a.writes && refused (ks 0) (c.st.sbuf idx) then ∀ b ∈ as, b.needs = false
      else Tolerated idx as (fun i => ks (i + 1)) (c.act (ks 0) idx a)

/-! ## Writes of a live connection -/

/-- The part of a record that decides which callbacks are called. -/
def wiring (sb : SockbufT) : SockbufT :=
  { filters := sb.filters, filterClientData := sb.filterClientData, nfilters := sb.nfilters
    handler := sb.handler
    flags := { avail := sb.flags.avail, deleted := sb.flags.deleted } }

/-- A connection stays attached when its wiring does. -/
theorem Attached.of_wiring {idx : Nat} {s s' : State} (h : Attached idx s)
    (hns : s'.nsockbufs = s.nsockbufs) (hw : wiring (s'.sbuf idx) = wiring (s.sbuf idx)) :
    Attached idx s' := by
  -- everything `Attached` says is said of the wiring
  have hall : ∀ {β : Type} (g : SockbufT → β), (∀ sb, g (wiring sb) = g sb) →
      g (s'.sbuf idx) = g (s.sbuf idx) := by
    intro β g hg
    rw [← hg, hw, hg]
  refine ⟨?_, ?_, ?_, ?_, ?_, ?_⟩
  · have hv := h.valid
    rw [sockbufIsvalid] at hv ⊢
    rwa [hns, hall (fun sb => sb.flags.avail) fun _ => rfl,
      hall (fun sb => sb.flags.deleted) fun _ => rfl]
  · rw [hall SockbufT.chain fun _ => rfl, hall SockbufT.nfilters fun _ => rfl]
    exact h.whole
  · rw [hall (fun sb => sb.filterBelow sockbufLevelWriteInternal SockbufFilter.onWrite) fun _ => rfl]
    exact h.first
  · rw [hall (fun sb => sb.filterBelow telnetFilterLevel SockbufFilter.onWrite) fun _ => rfl]
    exact h.last
  · rw [hall (fun sb => sb.filterAbove sockbufLevelInternal SockbufFilter.onEof) fun _ => rfl]
    exact h.eof
  · rw [hall SockbufT.handler fun _ => rfl]
    exact h.handler

section Wiring

variable (s : State) (idx : Nat)

/-- A change of the record that keeps the wiring. -/
theorem wiring_update {f : SockbufT → SockbufT} (hf : ∀ sb, wiring (f sb) = wiring sb) :
    wiring ((s.update idx f).sbuf idx) = wiring (s.sbuf idx) :=
  State.sbuf_update_keeps s idx f wiring (hf _) idx

/-- Data that are saved change no wiring. -/
theorem wiring_writeRest (data : List UInt8) (nbytes : Nat) :
    wiring ((writeRest s idx data nbytes).sbuf idx) = wiring (s.sbuf idx) := by
  rw [writeRest]
  split
  · rfl
  · have hblock : wiring ((sockbufBlock s idx).sbuf idx) = wiring (s.sbuf idx) := by
      rw [sockbufBlock, State.updateEntry_sbuf]
      exact wiring_update s idx fun _ => rfl
    rw [← hblock]
    exact wiring_update (sockbufBlock s idx) idx fun _ => rfl

/-- Data that are saved add no record. -/
theorem nsockbufs_writeRest (data : List UInt8) (nbytes : Nat) :
    (writeRest s idx data nbytes).nsockbufs = s.nsockbufs := by
  rw [writeRest]
  split
  · rfl
  · rw [State.update_nsockbufs, sockbufBlock, State.updateEntry_nsockbufs, State.update_nsockbufs]

/-- Counting what was written changes no wiring. -/
theorem wiring_countWrite (nbytes : Nat) :
    wiring ((countWrite s idx nbytes).sbuf idx) = wiring (s.sbuf idx) := by
  rw [countWrite]
  split
  · exact wiring_update s idx fun _ => rfl
  · rfl

/-- Counting what was written adds no record. -/
theorem nsockbufs_countWrite (nbytes : Nat) :
    (countWrite s idx nbytes).nsockbufs = s.nsockbufs := by
  rw [countWrite]
  split
  · exact State.update_nsockbufs s idx _
  · rfl

/-- Closing the socket changes no wiring. -/
theorem wiring_close (k : Kernel) :
    wiring ((sockbufClose k s idx).sbuf idx) = wiring (s.sbuf idx) := by
  rw [sockbufClose]
  split
  · next h =>
    rw [sbuf_sockbufSetSock k {} h.1]
    split
    · rw [SockbufT.setSock]
      simp only
      split <;> simp [wiring, Flags.reconnect, SockbufT.socketGetName]
    · rfl
  · rfl

/-- Closing the socket adds no record. -/
theorem nsockbufs_close (k : Kernel) : (sockbufClose k s idx).nsockbufs = s.nsockbufs := by
  rw [sockbufClose]
  split
  · next h => exact nsockbufs_sockbufSetSock k {} h.1 (-1)
  · rfl

end Wiring

/-- A write that fails would fail with any data. -/
theorem sysWrite_error {k : Kernel} {fd : Int} {data : List UInt8} {err : Nat}
    (h : k.sysWrite fd data = .error err) (data' : List UInt8) : k.sysWrite fd data' = .error err := by
  rw [Kernel.sysWrite] at h ⊢
  split at h
  · next hfd => rw [if_pos hfd, ← h]
  · next hfd =>
    rw [if_neg hfd]
    cases hw : k.write with
    | error e =>
      rw [hw] at h
      exact h
    | ok n =>
      rw [hw] at h
      cases h

section Write

variable {idx : Nat} {s : State} (k : Kernel) (data : List UInt8)

/-- A write that does not fail hard calls nobody. -/
theorem realWrite_attached (h : Attached idx s) (hok : refused k (s.sbuf idx) = false) :
    (sockbufRealWrite k s idx data).tasks = [] ∧
      Attached idx (sockbufRealWrite k s idx data).st := by
  rw [sockbufRealWrite]
  split
  · exact ⟨rfl, h.of_wiring (State.update_nsockbufs s idx _) (wiring_update s idx fun _ => rfl)⟩
  · next hblock =>
    split
    · next err herr =>
      split
      · exact ⟨rfl, h.of_wiring (nsockbufs_writeRest s idx _ _) (wiring_writeRest s idx _ _)⟩
      · next hne =>
        -- the sockbuf is not blocked and the error is a hard one
        rw [refused, sysWrite_error herr []] at hok
        simp [hblock, hne] at hok
    · refine ⟨rfl, h.of_wiring ?_ ?_⟩
      · rw [nsockbufs_writeRest, nsockbufs_countWrite]
      · rw [wiring_writeRest, wiring_countWrite]

/-- A write that fails hard ends in the user's `on_eof`. -/
theorem realWrite_refused (h : Attached idx s) (hno : refused k (s.sbuf idx) = true) :
    ∃ err, (sockbufRealWrite k s idx data).tasks =
        [.external ⟨none, ((sockbufClose k s idx).sbuf idx).clientData, idx, .eof err⟩] ∧
      (sockbufRealWrite k s idx data).st = sockbufClose k s idx := by
  rw [refused, Bool.and_eq_true, Bool.not_eq_true'] at hno
  obtain ⟨hblock, herr⟩ := hno
  have hclose := h.of_wiring (nsockbufs_close s idx k) (wiring_close s idx k)
  rw [sockbufRealWrite, if_neg (by rw [hblock]; exact Bool.false_ne_true)]
  cases hw : k.sysWrite (s.sbuf idx).sock data with
  -- the kernel accepts no byte of an empty write only when it refuses the others too
  | ok n =>
    exfalso
    cases hw' : k.sysWrite (s.sbuf idx).sock [] with
    | ok m => simp [hw'] at herr
    | error e =>
      rw [sysWrite_error hw' data] at hw
      cases hw
  | error err =>
    rw [sysWrite_error hw []] at herr
    have hne : err ≠ eagain := by simpa using herr
    simp only [if_neg hne, sockbufGotEof, sockbufOnEof, hclose.eof]
    obtain ⟨hd, hhd, hon⟩ := Option.any_eq_true _ _ |>.1 hclose.handler
    refine ⟨if err = 0 then k.sockError else err, ?_, ?_⟩
    · simp [callHandler, hhd, hon, Outcome.invoke]
    · simp [callHandler, hhd, hon, Outcome.invoke]

end Write

/-- The filter is in its chain, so `sockbuf_delete` frees the session. -/
theorem Attached.mem_chain {idx : Nat} {s : State} (h : Attached idx s) :
    ((s.sbuf idx).chain.any fun e => e.1 == telnetFilter) = true := by
  obtain ⟨e, he, hfilter⟩ := Option.map_eq_some_iff.1 h.first
  have hmem := List.mem_of_find?_eq_some he
  exact List.any_eq_true.2 ⟨e, List.mem_reverse.1 hmem, by simp [hfilter]⟩

/-! ## Live and deleted connections -/

/-- The sockbuf is attached and the session is in use. -/
structure Live (idx : Nat) (c : Conn) : Prop where
  attached : Attached idx c.st
  session : c.freed = false

/-- The sockbuf is deleted and the session is freed. -/
structure Gone (idx : Nat) (c : Conn) : Prop where
  slot : c.st.sbuf idx = deletedSlot
  session : c.freed = true

/-- A deletion removes the sockbuf and frees the session. -/
theorem Attached.delete {idx : Nat} {c : Conn} (h : Attached idx c.st) :
    Gone idx (c.delete idx) ∧ (c.delete idx).fault = c.fault := by
  have hlt : idx < c.st.nsockbufs := (sockbufIsvalid_iff.1 h.valid).1
  rw [Conn.delete, if_pos h.valid]
  refine ⟨⟨?_, ?_⟩, rfl⟩
  · rw [sbuf_sockbufDeleteFinish, if_pos ⟨rfl, by rwa [State.update_nsockbufs]⟩]
  · rw [h.mem_chain, Bool.or_true]

section Pass

variable {idx : Nat} {c : Conn} (k : Kernel) (data : List UInt8)

/-- No filter stands below the telnet filter. -/
theorem onWrite_last (h : Attached idx c.st) :
    sockbufOnWrite k c.st idx telnetFilterLevel data = sockbufRealWrite k c.st idx data := by
  rw [sockbufOnWrite, h.last]

/-- A write that does not fail hard keeps the connection. -/
theorem Live.pass (h : Live idx c) (hok : refused k (c.st.sbuf idx) = false) :
    Live idx (c.pass k idx data) ∧ (c.pass k idx data).fault = c.fault := by
  obtain ⟨htasks, hst⟩ := realWrite_attached k data h.attached hok
  rw [Conn.pass, onWrite_last k data h.attached, Conn.settle, htasks]
  exact ⟨⟨hst, h.session⟩, rfl⟩

/-- A write that fails hard ends in the deletion. -/
theorem Live.pass_refused (h : Live idx c) (hno : refused k (c.st.sbuf idx) = true) :
    Gone idx (c.pass k idx data) ∧ (c.pass k idx data).fault = c.fault := by
  obtain ⟨err, htasks, hst⟩ := realWrite_refused k data h.attached hno
  have hclose := h.attached.of_wiring (nsockbufs_close c.st idx k) (wiring_close c.st idx k)
  rw [Conn.pass, onWrite_last k data h.attached, Conn.settle, htasks, hst]
  exact Attached.delete (c := { c with st := sockbufClose k c.st idx }) hclose

/-- A write to a deleted sockbuf fails on its descriptor and tells nobody. -/
theorem Gone.pass (h : Gone idx c) : c.pass k idx data = c := by
  have hchain : ∀ level, (c.st.sbuf idx).filterBelow level SockbufFilter.onWrite = none := by
    intro level
    rw [h.slot]
    rfl
  have hclose : sockbufClose k c.st idx = c.st := by
    rw [sockbufClose, if_neg]
    rintro ⟨hv, -⟩
    have hdel := (sockbufIsvalid_iff.1 hv).2.2
    rw [h.slot] at hdel
    cases hdel
  have hwrite : sockbufRealWrite k c.st idx data =
      { st := c.st, events := [.writeFailed idx ebadf] } := by
    -- the socket of a deleted slot is -1
    have hsys : k.sysWrite deletedSlot.sock data = .error ebadf := if_pos (by decide)
    -- and its handler is the idler, which defines no `on_eof`
    have heof : sockbufOnEof c.st idx sockbufLevelInternal ebadf = { st := c.st } := by
      rw [sockbufOnEof, callHandler, h.slot]
      rfl
    rw [sockbufRealWrite, h.slot, if_neg (by decide), hsys]
    simp only
    rw [if_neg (by decide), sockbufGotEof, hclose, if_neg (by decide), heof]
    rfl
  rw [Conn.pass, sockbufOnWrite, hchain, Conn.settle, hwrite]

end Pass

/-- A call of the user's handler changes nothing of the module. -/
theorem callHandler_st (s : State) (idx : Nat) (defines : SockbufHandler → Bool)
    (call : Sockbuf.Call) : (callHandler s idx defines call).st = s := by
  rw [callHandler]
  split
  · rfl
  · split <;> rfl

section Perform

variable {idx : Nat} {c : Conn} (k : Kernel)

/-- `sockbuf_write` of the filter itself comes back to the filter. -/
theorem Live.write_tasks (h : Live idx c) (data : List UInt8) :
    ∃ clientData, (sockbufWrite k c.st idx data data.length).tasks =
        [.external ⟨some telnetFilter, clientData, idx, .write data⟩] ∧
      (sockbufWrite k c.st idx data data.length).st = countSubmit c.st idx data.length := by
  obtain ⟨e, he, hfilter⟩ := Option.map_eq_some_iff.1 h.attached.first
  have harg : writeArgument data data.length = data := by
    rw [writeArgument, if_neg (Int.not_lt.2 (Int.natCast_nonneg _)), Int.toNat_natCast,
      List.take_length]
  have hbelow : ((countSubmit c.st idx data.length).sbuf idx).filterBelow
      sockbufLevelWriteInternal SockbufFilter.onWrite = some e := by
    rw [← he]
    exact State.sbuf_update_keeps c.st idx _
      (fun sb => sb.filterBelow sockbufLevelWriteInternal SockbufFilter.onWrite) rfl idx
  refine ⟨e.2, ?_, ?_⟩
  · rw [sockbufWrite, if_pos h.attached.valid, harg, Outcome.log_tasks, sockbufOnWrite, hbelow,
      ← hfilter]
    rfl
  · rw [sockbufWrite, if_pos h.attached.valid, harg, Outcome.log_st, sockbufOnWrite, hbelow]
    rfl

/-- The connection behind the counting of a submitted text. -/
theorem Live.countSubmit (h : Live idx c) (len : Nat) :
    Live idx { c with st := Sockbuf.countSubmit c.st idx len } ∧
      refused k ((Sockbuf.countSubmit c.st idx len).sbuf idx) = refused k (c.st.sbuf idx) :=
  ⟨⟨h.attached.of_wiring (State.update_nsockbufs c.st idx _) (wiring_update c.st idx fun _ => rfl),
    h.session⟩, State.sbuf_update_keeps c.st idx _ (refused k) rfl idx⟩

/-- Data that are read keep the connection. -/
theorem Live.onRead (h : Live idx c) (data : List UInt8) :
    Live idx { c with st := (sockbufOnRead c.st idx telnetFilterLevel data).st } := by
  refine ⟨?_, h.session⟩
  show Attached idx (sockbufOnRead c.st idx telnetFilterLevel data).st
  rw [sockbufOnRead]
  split
  · exact h.attached
  · split
    · exact h.attached
    · rw [callHandler_st]
      exact h.attached.of_wiring (State.update_nsockbufs c.st idx _)
        (wiring_update c.st idx fun _ => rfl)

/-- A text submitted by the filter is counted, and passed on unless nothing of it is left. -/
theorem Live.perform_write (h : Live idx c) (data : List UInt8) :
    ∃ counted : Conn, Live idx counted ∧ counted.fault = c.fault ∧
      refused k (counted.st.sbuf idx) = refused k (c.st.sbuf idx) ∧
      ((Act.call (.write data)).writes = true ∧
          (∃ line, c.perform k idx (.call (.write data)) = counted.pass k idx line) ∨
        (Act.call (.write data)).writes = false ∧ c.perform k idx (.call (.write data)) = counted) := by
  obtain ⟨clientData, htasks, hst⟩ := h.write_tasks k data
  obtain ⟨hlive, hrefused⟩ := h.countSubmit k data.length
  refine ⟨_, hlive, rfl, hrefused, ?_⟩
  rw [Conn.perform, Conn.call, Act.writes]
  simp only [htasks, hst]
  cases hline : telnetFilterWrite data data.length with
  | none => exact .inr ⟨rfl, rfl⟩
  | some line =>
    cases line with
    | nil => exact .inr ⟨rfl, rfl⟩
    | cons b line => exact .inl ⟨rfl, b :: line, rfl⟩

/-- While no write fails hard the connection stays live. -/
theorem Live.perform (h : Live idx c) {a : Act}
    (hok : (a.writes && refused k (c.st.sbuf idx)) = false) :
    Live idx (c.perform k idx a) ∧ (c.perform k idx a).fault = c.fault := by
  cases a with
  | session => exact ⟨h, rfl⟩
  | call out =>
    cases out with
    | mode cmd what => exact h.pass k _ (by simpa [Act.writes] using hok)
    | onWrite line => exact h.pass k _ (by simpa [Act.writes] using hok)
    | onRead data => exact ⟨h.onRead data, rfl⟩
    | write data =>
      obtain ⟨counted, hlive, hfault, hrefused, ⟨hwrites, line, hpass⟩ | ⟨-, hnone⟩⟩ :=
        h.perform_write k data
      · have hno : refused k (c.st.sbuf idx) = false := by
          rwa [hwrites, Bool.true_and] at hok
        rw [hpass, ← hfault]
        exact hlive.pass k line (hrefused.trans hno)
      · rw [hnone]
        exact ⟨hlive, hfault⟩

/-- The first write that fails hard ends the connection. -/
theorem Live.perform_refused (h : Live idx c) {a : Act}
    (hno : (a.writes && refused k (c.st.sbuf idx)) = true) :
    Gone idx (c.perform k idx a) ∧ (c.perform k idx a).fault = c.fault := by
  obtain ⟨hwrites, hrefuse⟩ := (Bool.and_eq_true _ _).mp hno
  cases a with
  | session => cases hwrites
  | call out =>
    cases out with
    | mode cmd what => exact h.pass_refused k _ hrefuse
    | onWrite line => exact h.pass_refused k _ hrefuse
    | onRead data => cases hwrites
    | write data =>
      obtain ⟨counted, hlive, hfault, hrefused, ⟨-, line, hpass⟩ | ⟨hnone, -⟩⟩ :=
        h.perform_write k data
      · rw [hpass, ← hfault]
        exact hlive.pass_refused k line (hrefused.trans hrefuse)
      · rw [hwrites] at hnone
        cases hnone

/-- A deleted sockbuf is not valid. -/
theorem Gone.invalid (h : Gone idx c) : sockbufIsvalid c.st idx = false := by
  cases hv : sockbufIsvalid c.st idx with
  | false => rfl
  | true =>
    have hdel := (sockbufIsvalid_iff.1 hv).2.2
    rw [h.slot] at hdel
    cases hdel

/-- Nothing changes any more. -/
theorem Gone.perform (h : Gone idx c) (a : Act) : c.perform k idx a = c := by
  cases a with
  | session => rfl
  | call out =>
    cases out with
    | mode cmd what => exact h.pass k _
    | onWrite line => exact h.pass k _
    | write data =>
      rw [Conn.perform, Conn.call, sockbufWrite, h.invalid]
      rfl
    | onRead data =>
      have hread : (sockbufOnRead c.st idx telnetFilterLevel data).st = c.st := by
        rw [sockbufOnRead, h.slot]
        rfl
      rw [Conn.perform, Conn.call, hread]

/-- A live connection allows every act. -/
theorem Live.faults (h : Live idx c) (a : Act) : c.faults idx a = false := by
  cases a with
  | session => exact h.session
  | call out =>
    cases out with
    | onRead data =>
      rw [Conn.faults, h.attached.valid]
      rfl
    | mode cmd what => rfl
    | onWrite line => rfl
    | write data => rfl

/-- A deleted one faults at the acts that need it. -/
theorem Gone.faults (h : Gone idx c) (a : Act) : c.faults idx a = a.needs := by
  cases a with
  | session => exact h.session
  | call out =>
    cases out with
    | onRead data =>
      rw [Conn.faults, h.invalid]
      rfl
    | mode cmd what => rfl
    | onWrite line => rfl
    | write data => rfl

end Perform

/-! ## The calls as runs of the module -/

/-- Runs of the module under any behaviour of external code. -/
abbrev Runs : Config → Config → Prop := Run step fun _ _ => True

/-- A callback that returns at once. -/
theorem runs_return (s : State) {ts : List Task} (h : ts = [] ∨ ∃ cb, ts = [.external cb])
    (rest : List Task) (tr : List Event) : Runs ⟨s, ts ++ rest, tr⟩ ⟨s, rest, tr⟩ := by
  rcases h with rfl | ⟨cb, rfl⟩
  · exact .refl _
  · exact Run.head (x := .ret) trivial rfl (.refl _)

/-- A handler is called at most once. -/
theorem callHandler_tasks {s : State} {idx : Nat} (h : (s.sbuf idx).handler.isSome = true)
    (defines : SockbufHandler → Bool) (call : Sockbuf.Call) :
    (callHandler s idx defines call).tasks = [] ∨
      ∃ cb, (callHandler s idx defines call).tasks = [.external cb] := by
  obtain ⟨hd, hhd⟩ := Option.isSome_iff_exists.1 h
  rw [callHandler, hhd]
  simp only
  split
  · exact Or.inr ⟨_, rfl⟩
  · exact Or.inl rfl

/-- The `on_delete` callbacks of the filters from `i` on and of the handler, which return at once. -/
theorem runs_deleteCallbacks {s : State} (idx : Nat)
    (hwhole : (s.sbuf idx).chain.length = (s.sbuf idx).nfilters)
    (hhandler : (s.sbuf idx).handler.isSome = true) (rest : List Task) (n : Nat) :
    ∀ (i : Nat) (tr : List Event), i + n = (s.sbuf idx).nfilters →
      ∃ es, Runs ⟨s, .delete idx i :: rest, tr⟩ ⟨s, .deleteFinish idx :: rest, tr ++ es⟩ := by
  induction n with
  | zero =>
    intro i tr hi
    have hstep : step ⟨s, .delete idx i :: rest, tr⟩ (.run {}) =
        some ⟨s, (callHandler s idx SockbufHandler.onDelete .delete).tasks ++
          (.deleteFinish idx :: rest),
          tr ++ (callHandler s idx SockbufHandler.onDelete .delete).events⟩ := by
      simp [step, Task.exec, sockbufDeleteCallbacks, Config.after, callHandler_st,
        show ¬ i < (s.sbuf idx).nfilters by omega]
    exact ⟨_, Run.head (x := .run {}) trivial hstep
      (runs_return s (callHandler_tasks hhandler _ _) _ _)⟩
  | succ n ih =>
    intro i tr hi
    have hlt : i < (s.sbuf idx).chain.length := by omega
    have hget := List.getElem?_eq_getElem hlt
    obtain ⟨e, he⟩ : ∃ e, (s.sbuf idx).chain[i]? = some e := ⟨_, hget⟩
    by_cases hdel : e.1.onDelete = true
    · have hstep : step ⟨s, .delete idx i :: rest, tr⟩ (.run {}) =
          some ⟨s, [.external ⟨some e.1, e.2, idx, .delete⟩] ++ (.delete idx (i + 1) :: rest),
            tr ++ [.callback ⟨some e.1, e.2, idx, .delete⟩]⟩ := by
        simp [step, Task.exec, sockbufDeleteCallbacks, Config.after, callFilter, Outcome.invoke, he,
          hdel, show i < (s.sbuf idx).nfilters by omega]
      obtain ⟨es, hes⟩ := ih (i + 1) (tr ++ [.callback ⟨some e.1, e.2, idx, .delete⟩]) (by omega)
      refine ⟨[.callback ⟨some e.1, e.2, idx, .delete⟩] ++ es, ?_⟩
      rw [← List.append_assoc]
      exact Run.head (x := .run {}) trivial hstep
        ((runs_return s (Or.inr ⟨_, rfl⟩) _ _).trans hes)
    · have hstep : step ⟨s, .delete idx i :: rest, tr⟩ (.run {}) =
          some ⟨s, .delete idx (i + 1) :: rest, tr⟩ := by
        simp [step, Task.exec, sockbufDeleteCallbacks, Config.after, he, hdel,
          show i < (s.sbuf idx).nfilters by omega]
      obtain ⟨es, hes⟩ := ih (i + 1) tr (by omega)
      exact ⟨es, Run.head (x := .run {}) trivial hstep hes⟩

/-- `Conn.delete` is a call of `sockbuf_delete` whose callbacks return at once. -/
theorem runs_delete {idx : Nat} {c : Conn} (h : Attached idx c.st) (stack : List Task)
    (hext : externalControl stack = true) (tr : List Event) :
    ∃ es, Runs ⟨c.st, stack, tr⟩ ⟨(c.delete idx).st, stack, tr ++ es⟩ := by
  have hkeep : ∀ {β : Type} (g : SockbufT → β),
      (∀ sb : SockbufT, g { sb with flags := { sb.flags with deleted := true } } = g sb) →
        g ((c.st.update idx fun sb =>
          { sb with flags := { sb.flags with deleted := true } }).sbuf idx) = g (c.st.sbuf idx) :=
    fun g hg => State.sbuf_update_keeps c.st idx _ g (hg _) idx
  have hcall : step ⟨c.st, stack, tr⟩ (.call (.delete idx) {}) =
      some ⟨c.st.update idx fun sb => { sb with flags := { sb.flags with deleted := true } },
        .delete idx 0 :: stack, tr ++ [.deleted idx]⟩ := by
    simp [step, hext, Api.apply, sockbufDelete, h.valid, Config.after]
  have hhandler : (c.st.sbuf idx).handler.isSome = true := by
    obtain ⟨hd, hhd, -⟩ := Option.any_eq_true _ _ |>.1 h.handler
    rw [hhd]
    rfl
  obtain ⟨es, hes⟩ := runs_deleteCallbacks (s := c.st.update idx fun sb =>
      { sb with flags := { sb.flags with deleted := true } }) idx
    (by rw [hkeep SockbufT.chain fun _ => rfl, hkeep SockbufT.nfilters fun _ => rfl]; exact h.whole)
    (by rw [hkeep SockbufT.handler fun _ => rfl]; exact hhandler) stack _ 0
    (tr ++ [.deleted idx]) (Nat.zero_add _)
  refine ⟨[.deleted idx] ++ es, ?_⟩
  rw [← List.append_assoc, Conn.delete, if_pos h.valid]
  refine (Run.head (x := .call (.delete idx) {}) trivial hcall hes).trans ?_
  exact Run.head (x := .run {}) trivial (by simp [step, Task.exec, Config.after]) (.refl _)

/-- `Conn.pass` is a call of `sockbuf_on_write` in which the user's `on_eof` deletes the sockbuf. -/
theorem Live.runs_pass {idx : Nat} {c : Conn} (h : Live idx c) (k : Kernel) (data : List UInt8)
    {stack : List Task} (hext : externalControl stack = true) (tr : List Event) :
    ∃ es, Runs ⟨c.st, stack, tr⟩ ⟨(c.pass k idx data).st, stack, tr ++ es⟩ := by
  have hcall : ∀ o : Outcome, sockbufRealWrite k c.st idx data = o →
      step ⟨c.st, stack, tr⟩ (.call (.on idx telnetFilterLevel (.write data)) k) =
        some ⟨o.st, o.tasks ++ stack, tr ++ o.events⟩ := by
    intro o ho
    simp [step, hext, Api.apply, sockbufOn, onWrite_last k data h.attached, Config.after, ho]
  cases hno : refused k (c.st.sbuf idx) with
  | false =>
    obtain ⟨htasks, -⟩ := realWrite_attached k data h.attached hno
    have hstep := hcall _ rfl
    refine ⟨(sockbufRealWrite k c.st idx data).events, ?_⟩
    rw [htasks, List.nil_append] at hstep
    rw [Conn.pass, onWrite_last k data h.attached, Conn.settle, htasks]
    exact Run.head (x := .call (.on idx telnetFilterLevel (.write data)) k) trivial hstep (.refl _)
  | true =>
    obtain ⟨err, htasks, hst⟩ := realWrite_refused k data h.attached hno
    have hclose := h.attached.of_wiring (nsockbufs_close c.st idx k) (wiring_close c.st idx k)
    have hstep := hcall _ rfl
    rw [htasks, hst] at hstep
    obtain ⟨es, hes⟩ := runs_delete (c := { c with st := sockbufClose k c.st idx }) hclose
      (.external ⟨none, ((sockbufClose k c.st idx).sbuf idx).clientData, idx, .eof err⟩ :: stack) rfl
      (tr ++ (sockbufRealWrite k c.st idx data).events)
    refine ⟨(sockbufRealWrite k c.st idx data).events ++ es, ?_⟩
    rw [← List.append_assoc, Conn.pass, onWrite_last k data h.attached, Conn.settle, htasks, hst]
    refine (Run.head (x := .call (.on idx telnetFilterLevel (.write data)) k) trivial hstep
      hes).trans ?_
    exact Run.head (x := .ret) trivial rfl (.refl _)

/-! ## A call of the filter -/

/-- What a call does behind a deletion: it is a fault when it needs anything. -/
theorem Gone.run {idx : Nat} (as : List Act) :
    ∀ {c : Conn}, Gone idx c → ∀ ks : Nat → Kernel,
      (Conn.run idx as ks c).fault = (c.fault || as.any Act.needs) := by
  induction as with
  | nil =>
    intro c _ ks
    exact (Bool.or_false _).symm
  | cons a as ih =>
    intro c h ks
    have hact : Gone idx (c.act (ks 0) idx a) := by
      rw [Conn.act, h.perform]
      exact ⟨h.slot, h.session⟩
    rw [Conn.run, ih hact, Conn.act, h.faults, List.any_cons]
    exact Bool.or_assoc _ _ _

/-- **The acts of a chunk** on a live connection are allowed just when its deletion is tolerated. -/
theorem Live.run_iff {idx : Nat} (as : List Act) :
    ∀ {c : Conn}, Live idx c → c.fault = false → ∀ ks : Nat → Kernel,
      ((Conn.run idx as ks c).fault = false ↔ Tolerated idx as ks c) := by
  induction as with
  | nil =>
    intro c _ hc ks
    exact iff_of_true hc trivial
  | cons a as ih =>
    intro c h hc ks
    rw [Conn.run, Tolerated]
    have hnofault : (c.fault || c.faults idx a) = false := by rw [hc, h.faults]; rfl
    by_cases hno : (a.writes && refused (ks 0) (c.st.sbuf idx)) = true
    · obtain ⟨hgone, -⟩ := h.perform_refused (ks 0) hno
      have hact : Gone idx (c.act (ks 0) idx a) := ⟨hgone.slot, hgone.session⟩
      rw [if_pos hno, hact.run as]
      show ((c.fault || c.faults idx a) || as.any Act.needs) = false ↔ _
      rw [hnofault, Bool.false_or, List.any_eq_false]
      exact forall₂_congr fun b _ => Bool.eq_false_iff.symm
    · obtain ⟨hlive, -⟩ := h.perform (ks 0) (Bool.eq_false_iff.2 hno)
      have hact : Live idx (c.act (ks 0) idx a) := ⟨hlive.attached, hlive.session⟩
      rw [if_neg hno]
      -- no hard error, so the connection is live behind the act
      exact ih hact hnofault _

/-! ## Runs -/

/-- What happens to the connection: the filter is called with a chunk, or the rest of the program and
of the module does anything else, up to a new sockbuf under the same index. -/
inductive Move where
  | receive (buf : List UInt8) (len : Nat) (session : TelnetT) (ks : Nat → Kernel)
  | elsewhere (st : State) (freed : Bool)

instance (idx : Nat) (s : State) : Decidable (Attached idx s) :=
  decidable_of_iff
    (sockbufIsvalid s idx = true ∧ (s.sbuf idx).chain.length = (s.sbuf idx).nfilters ∧
      ((s.sbuf idx).filterBelow sockbufLevelWriteInternal SockbufFilter.onWrite).map Prod.fst =
        some telnetFilter ∧
      (s.sbuf idx).filterBelow telnetFilterLevel SockbufFilter.onWrite = none ∧
      (s.sbuf idx).filterAbove sockbufLevelInternal SockbufFilter.onEof = none ∧
      (s.sbuf idx).handler.any SockbufHandler.onEof = true)
    ⟨fun ⟨hv, hw, hf, hl, he, hh⟩ => ⟨hv, hw, hf, hl, he, hh⟩,
      fun h => ⟨h.valid, h.whole, h.first, h.last, h.eof, h.handler⟩⟩

/-- The filter is called while it is attached with a session in use. -/
def connStep (idx : Nat) (c : Conn) : Move → Option Conn
  | .receive buf len session ks =>
      if Attached idx c.st ∧ c.freed = false then
        some (Conn.run idx (filterActs buf len session) ks c)
      else none
  | .elsewhere st freed => some { c with st := st, freed := freed }

/-- No write of the call fails hard, or nothing behind it needs the session or the sockbuf. -/
def Tolerates (idx : Nat) (c : Conn) : Move → Prop
  | .receive buf len session ks => Tolerated idx (filterActs buf len session) ks c
  | .elsewhere _ _ => True

instance decTolerated (idx : Nat) :
    ∀ (as : List Act) (ks : Nat → Kernel) (c : Conn), Decidable (Tolerated idx as ks c)
  | [], _, _ => isTrue trivial
  | a :: as, ks, c =>
      if h : (a.writes && refused (ks 0) (c.st.sbuf idx)) = true then
        decidable_of_iff (∀ b ∈ as, b.needs = false) (by rw [Tolerated, if_pos h])
      else
        have := decTolerated idx as (fun i => ks (i + 1)) (c.act (ks 0) idx a)
        decidable_of_iff (Tolerated idx as (fun i => ks (i + 1)) (c.act (ks 0) idx a))
          (by rw [Tolerated, if_neg h])

instance (idx : Nat) (c : Conn) : (m : Move) → Decidable (Tolerates idx c m)
  | .receive _ _ _ _ => decTolerated idx _ _ c
  | .elsewhere _ _ => isTrue trivial

/-- A fault is not undone. -/
theorem run_fault {idx : Nat} (as : List Act) (ks : Nat → Kernel) {c : Conn}
    (h : c.fault = true) : (Conn.run idx as ks c).fault = true := by
  induction as generalizing ks c with
  | nil => exact h
  | cons a as ih =>
    refine ih _ ?_
    show (c.fault || c.faults idx a) = true
    rw [h, Bool.true_or]

/-- A fault is never taken back. -/
theorem execute_fault {idx : Nat} (moves : List Move) {c c' : Conn} (hc : c.fault = true)
    (h : execute (connStep idx) (fun _ _ => True) c moves = some c') : c'.fault = true := by
  refine (run_of_execute moves h).invariant (I := fun b => b.fault = true)
    (fun b m b' hb _ hs => ?_) hc
  cases m with
  | receive buf len session ks =>
    rw [connStep] at hs
    split at hs
    · cases hs
      exact run_fault _ ks hb
    · cases hs
  | elsewhere st freed =>
    cases hs
    exact hb

/-- **One move** of a connection without a fault. -/
theorem connStep_fault_iff {idx : Nat} {c c' : Conn} {m : Move} (hc : c.fault = false)
    (h : connStep idx c m = some c') : c'.fault = false ↔ Tolerates idx c m := by
  cases m with
  | receive buf len session ks =>
    rw [connStep] at h
    split at h
    · next hlive =>
      cases h
      exact Live.run_iff _ ⟨hlive.1, hlive.2⟩ hc ks
    · cases h
  | elsewhere st freed =>
    cases h
    exact iff_of_true hc trivial

/-- **Deletion from the eof handler.** A run is without a fault exactly when each of its calls of the
filter, in the state it finds, tolerates the hard errors it meets. -/
theorem eof_deletion_safe_iff {idx : Nat} (moves : List Move) {c c' : Conn} (hc : c.fault = false)
    (h : execute (connStep idx) (fun _ _ => True) c moves = some c') :
    c'.fault = false ↔ execute (connStep idx) (Tolerates idx) c moves = some c' := by
  induction moves generalizing c with
  | nil =>
    cases h
    exact iff_of_true hc rfl
  | cons m moves ih =>
    rw [execute, if_pos trivial] at h
    obtain ⟨b, hb, hrest⟩ := Option.bind_eq_some_iff.1 h
    rw [execute]
    by_cases htol : Tolerates idx c m
    · have hb' : b.fault = false := (connStep_fault_iff hc hb).2 htol
      rw [if_pos htol, hb]
      exact ih hb' hrest
    -- the first call that is not tolerated faults, and the rest of the run cannot mend it
    · have hb' : b.fault = true := by
        rw [← Bool.not_eq_false, connStep_fault_iff hc hb]
        exact htol
      rw [if_neg htol]
      refine iff_of_false ?_ (by simp)
      rw [execute_fault moves hb' hrest]
      simp

/-- A connected sockbuf with the telnet filter and a handler that deletes it at its end. -/
def telnetConn : Conn where
  st := sockbufSetHandler
    (sockbufAttachFilter (sockbufSetSock {} (sockbufNew {}).1 0 5 {}) 0 telnetFilter 7) 0
    { onEof := true } 0

/-- The peer is gone: every write fails with `EPIPE`. -/
def brokenPipe : Nat → Kernel := fun _ => { write := .error 32 }

/-- A refused option in a chunk of its own: the answer fails and nothing is left to do. -/
def refusedOption : Move := .receive [telnetCmd, telnetDo, 24, 0] 3 {} brokenPipe

/-- The deletion by a refused option, whose read needs nothing more. -/
theorem eof_deletion_safe_refusal :
    ∃ c', execute (connStep 0) (fun _ _ => True) telnetConn [refusedOption] = some c' ∧
      c'.freed = true ∧ c'.fault = false := by
  have hrun : execute (connStep 0) (fun _ _ => True) telnetConn [refusedOption] =
      some (Conn.run 0 (filterActs [telnetCmd, telnetDo, 24, 0] 3 {}) brokenPipe telnetConn) := rfl
  refine ⟨_, hrun, by decide, (eof_deletion_safe_iff _ rfl hrun).2 ?_⟩
  rw [execute, if_pos (by decide)]
  rfl

/-- An echoed byte: the echo fails, the handler deletes the sockbuf, and the byte is still passed on. -/
theorem echo_after_deletion : Attached 0 telnetConn.st ∧ telnetConn.fault = false ∧
    ∃ c', execute (connStep 0) (fun _ _ => True) telnetConn
        [.receive [65, 0] 1 { echo := true } brokenPipe] = some c' ∧ c'.fault = true :=
  ⟨by decide, rfl, _, rfl, by decide⟩

end ExamplePrograms.Onethread.Telnet
