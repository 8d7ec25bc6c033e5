import ExamplePrograms.Onethread.Sockbuf.State

/-!
# Functions of the sockbuf module

Each function of `sockbuf.c` under its own name. A function that calls no callback is a function on
`State`. One that may call a callback ends in an `Outcome`: the state, the work that is left on the
call stack, and what happened on the way. A callback is always the last thing such a function does
before it has to wait, so what comes after it in the C function is left as a `Task`.

The answers of the system calls come from `Kernel`. A call on a negative descriptor fails with
`EBADF` whatever the kernel record says, and no more bytes are accepted or read than were offered or
asked for.

`sockbuf_delete` keeps the pointer `sbuf` to the record across the `on_delete` callbacks. One that makes
`sockbuf_new` move the table leaves that pointer dangling, and the filters, the handler and the record
that the function goes on with lie in freed memory. That is left out: here the record is looked up by
its index after every callback.
-/

set_option autoImplicit false

namespace ExamplePrograms.Onethread.Sockbuf

open ExamplePrograms.Lib.Memory

/-- What the kernel answers to the calls of one step. `fresh` is the content of a cell that
`realloc` adds to `pollfds`. -/
structure Kernel where
  write : Except Nat Nat := .ok 0
  read : Except Nat (List UInt8) := .ok []
  sockError : Nat := 0
  accept : Int := -1
  acceptPeer : Option String × Int := (none, 0)
  sockName : Option (String × Int) := none
  peerName : Option (String × Int) := none
  poll : Option (List Revents) := some []
  fresh : Pollfd := { fd := 0 }

namespace Kernel

/-- `write(fd, data, len)`: the number of bytes accepted, or `errno`. -/
def sysWrite (k : Kernel) (fd : Int) (data : List UInt8) : Except Nat Nat :=
  if fd < 0 then .error ebadf else k.write.map (min data.length)

/-- `read(fd, buf, size)`: the bytes read, or `errno`. -/
def sysRead (k : Kernel) (fd : Int) (size : Nat) : Except Nat (List UInt8) :=
  if fd < 0 then .error ebadf else k.read.map (List.take size)

/-- `accept(fd, ..)`. -/
def sysAccept (k : Kernel) (fd : Int) : Int := if fd < 0 then -1 else k.accept

end Kernel

/-- A call of a callback, with its arguments after `client_data` and `idx`. -/
inductive Call where
  | connect (peerIp : Option String) (peerPort : Int)
  | eof (err : Nat)
  | newclient (newidx : Nat) (peerIp : Option String) (peerPort : Int)
  | read (data : List UInt8)
  | write (data : List UInt8)
  | written (len remaining : Nat)
  | delete
  deriving DecidableEq, Repr

/-- A callback of a filter (`owner = some filter`) or of the user's handler (`owner = none`). -/
structure Callback where
  owner : Option SockbufFilter
  clientData : Nat
  idx : Nat
  call : Call
  deriving DecidableEq, Repr

/-- The three tests that the loop of `sockbuf_update_all` makes of a `revents` word. -/
inductive EventKind where
  | writable
  | readable
  | hangup
  deriving DecidableEq, Repr

/-- The tests of the loop that a `revents` word passes. -/
def Revents.has (r : Revents) : EventKind → Bool
  | .writable => r.pollout
  | .readable => r.pollin
  | .hangup => r.hangup

/-- What happens in a run, in order. -/
inductive Event where
  | callback (cb : Callback)
  | submitted (idx : Nat) (data : List UInt8)
  | wrote (idx : Nat) (accepted : List UInt8)
  | writeFailed (idx err : Nat)
  | created (idx : Nat)
  | attached (idx : Nat) (sock : Int)
  | deleted (idx : Nat)
  | attachedListener (fd : Int)
  | detachedListener (fd : Int)
  | passBegin
  | polled (reports : List (Nat × Revents))
  | pollFailed
  | dispatched (idx : Nat) (kind : EventKind)
  | passEnd
  deriving DecidableEq, Repr

/-- Work on the call stack: external code that is running, the rest of a `revents` word, the head of
the loop of `sockbuf_update_all`, and the rest of `sockbuf_delete` and `sockbuf_shutdown`. A run that
calls through a null pointer stops at `crash`. -/
inductive Task where
  | external (cb : Callback)
  | writable (idx : Nat) (connecting : Bool)
  | readable (idx : Nat) (server : Bool)
  | hangup (idx : Nat)
  | scan (i n : Nat)
  | delete (idx i : Nat)
  | deleteFinish (idx : Nat)
  | shutdown (i : Nat)
  | crash
  deriving DecidableEq, Repr

/-- What a function leaves: the state, the tasks on the call stack, and the events. -/
structure Outcome where
  st : State
  tasks : List Task := []
  events : List Event := []

namespace Outcome

/-- Put the events `es` before those of `o`. -/
def log (es : List Event) (o : Outcome) : Outcome := { o with events := es ++ o.events }

/-- Leave the tasks `ts` below those of `o`. -/
def andThen (o : Outcome) (ts : List Task) : Outcome := { o with tasks := o.tasks ++ ts }

@[simp] theorem log_st (es : List Event) (o : Outcome) : (o.log es).st = o.st := rfl
@[simp] theorem log_tasks (es : List Event) (o : Outcome) : (o.log es).tasks = o.tasks := rfl
@[simp] theorem log_events (es : List Event) (o : Outcome) : (o.log es).events = es ++ o.events := rfl
@[simp] theorem andThen_st (o : Outcome) (ts : List Task) : (o.andThen ts).st = o.st := rfl
@[simp] theorem andThen_tasks (o : Outcome) (ts : List Task) :
    (o.andThen ts).tasks = o.tasks ++ ts := rfl
@[simp] theorem andThen_events (o : Outcome) (ts : List Task) :
    (o.andThen ts).events = o.events := rfl

/-- Call the callback `cb` in the state `s`. -/
def invoke (s : State) (cb : Callback) : Outcome := ⟨s, [.external cb], [.callback cb]⟩

/-- A null pointer is called. -/
def crash (s : State) : Outcome := ⟨s, [.crash], []⟩

end Outcome

/-! ## Statistics -/

/-- `stats_out`. -/
def statsOut (stats : SockbufStats) (len : Nat) : SockbufStats :=
  { stats with
    rawBytesOut := stats.rawBytesOut + UInt64.ofNat len
    snapshotOutBytes := stats.snapshotOutBytes.modify stats.snapshotCounter (· + (len : Int)) }

/-- `stats_in`. -/
def statsIn (stats : SockbufStats) (len : Nat) : SockbufStats :=
  { stats with
    rawBytesIn := stats.rawBytesIn + UInt64.ofNat len
    snapshotInBytes := stats.snapshotInBytes.modify stats.snapshotCounter (· + (len : Int)) }

/-! ## The poll table -/

/-- `sockbuf_isvalid`. -/
def sockbufIsvalid (s : State) (idx : Nat) : Bool :=
  decide (idx < s.nsockbufs) && !((s.sbuf idx).flags.avail || (s.sbuf idx).flags.deleted)

/-- `sockbuf_get_sock`. -/
def sockbufGetSock (s : State) (idx : Nat) : Int :=
  if sockbufIsvalid s idx then (s.sbuf idx).sock else -1

/-- `flags & other`, for two flag words. -/
def Flags.meets (flags other : Flags) : Bool :=
  flags.block && other.block || flags.server && other.server || flags.client && other.client ||
    flags.connecting && other.connecting || flags.inbound && other.inbound ||
    flags.deleted && other.deleted || flags.noread && other.noread || flags.avail && other.avail

/-- The array that `sockbuf_list` makes. -/
def sockbufList (s : State) (flags : Flags) : List Nat :=
  (List.range s.nsockbufs).filter fun i =>
    !((s.sbuf i).flags.deleted || (s.sbuf i).flags.avail) && (s.sbuf i).flags.meets flags

/-- Mark a sockbuf as blocked and put it on the `POLLOUT` list. -/
def sockbufBlock (s : State) (idx : Nat) : State :=
  (s.update idx fun sb => { sb with flags := { sb.flags with block := true } }).updateEntry idx
    fun p => { p with events := { p.events with pollout := true } }

/-- Mark a sockbuf as unblocked and remove it from the `POLLOUT` list. -/
def sockbufUnblock (s : State) (idx : Nat) : State :=
  (s.update idx fun sb => { sb with flags := { sb.flags with block := false } }).updateEntry idx
    fun p => { p with events := { p.events with pollout := false } }

/-- `flags &= ~(CONNECTING|CLIENT|SERVER|BLOCK|NOREAD); flags |= new`. -/
def Flags.reconnect (old new : Flags) : Flags where
  block := new.block
  server := new.server
  client := new.client
  connecting := new.connecting
  inbound := old.inbound || new.inbound
  deleted := old.deleted || new.deleted
  noread := new.noread
  avail := old.avail || new.avail

/-- `socket_get_name(sbuf->sock, &sbuf->my_ip, &sbuf->my_port)`. -/
def SockbufT.socketGetName (k : Kernel) (sb : SockbufT) : SockbufT :=
  { sb with myIp := k.sockName.map Prod.fst, myPort := (k.sockName.map Prod.snd).getD 0 }

/-- The record after `sockbuf_set_sock` wrote the socket and the flags to it. -/
def SockbufT.setSock (k : Kernel) (sb : SockbufT) (sock : Int) (flags : Flags) : SockbufT :=
  let sb := { sb with sock := sock, flags := sb.flags.reconnect flags }
  if sb.flags.server then sb.socketGetName k else sb

/-- Remove entry `i` of the poll table: the two `memmove` calls of `sockbuf_set_sock`. -/
def State.removeEntry (s : State) (i : Nat) : State :=
  { s with
    idxArray := memmove s.idxArray i (i + 1) (s.npollfds - i - 1)
    pollfds := memmove s.pollfds i (i + 1) (s.nlisteners + s.npollfds - i - 1)
    npollfds := s.npollfds - 1 }

/-- Add an entry for `idx` behind the others, shifting the listeners. The new cell of `pollfds`
keeps what the memory holds there. -/
def State.appendEntry (s : State) (k : Kernel) (idx : Nat) : State :=
  let i := s.npollfds
  { s with
    idxArray := (realloc s.idxArray (i + 1) 0).set i idx
    pollfds := memmove (realloc s.pollfds (i + s.nlisteners + 1) k.fresh) (i + 1) i s.nlisteners
    npollfds := s.npollfds + 1 }

/-- The entry that `sockbuf_set_sock` writes for a socket. `revents` is left as it is. -/
def Pollfd.watch (p : Pollfd) (sock : Int) (flags : Flags) : Pollfd :=
  { p with
    fd := sock
    events := { pollin := !flags.noread, pollout := flags.block || flags.connecting } }

/-- `sockbuf_set_sock`. -/
def sockbufSetSock (k : Kernel) (s : State) (idx : Nat) (sock : Int) (flags : Flags) : State :=
  if sockbufIsvalid s idx = false then s
  else
    let s := s.update idx fun sb => sb.setSock k sock flags
    let i := s.findEntry idx
    if sock = -1 then
      -- a socket that goes away takes its entry with it
      if i = s.npollfds then s else s.removeEntry i
    else
      -- a sockbuf that has an entry keeps it, whatever socket it had
      let s := if i = s.npollfds then s.appendEntry k idx else s
      { s with pollfds := s.pollfds.modify i fun p => p.watch sock flags }

/-- What a run shows of a `sockbuf_set_sock` call: a valid sockbuf got a socket. -/
def attachEvents (s : State) (idx : Nat) (sock : Int) : List Event :=
  if sockbufIsvalid s idx ∧ sock ≠ -1 then [.attached idx sock] else []

/-- `sockbuf_noread`. -/
def sockbufNoread (s : State) (idx : Nat) : State :=
  if sockbufIsvalid s idx then
    s.updateEntry idx fun p => { p with events := { p.events with pollin := false } }
  else s

/-- `sockbuf_read`. -/
def sockbufRead (s : State) (idx : Nat) : State :=
  if sockbufIsvalid s idx then
    s.updateEntry idx fun p => { p with events := { p.events with pollin := true } }
  else s

/-- `sockbuf_close`. -/
def sockbufClose (k : Kernel) (s : State) (idx : Nat) : State :=
  if sockbufIsvalid s idx ∧ 0 ≤ (s.sbuf idx).sock then sockbufSetSock k s idx (-1) {} else s

/-- The record of a slot that `sockbuf_new` adds to the table. -/
def availSlot : SockbufT := { sock := -1, flags := { avail := true } }

/-- The record of a sockbuf that `sockbuf_new` hands out. -/
def newSlot : SockbufT :=
  { sock := -1, flags := { block := true }, handler := some sockbufIdler, stats := some {} }

/-- The record that `sockbuf_delete` leaves. -/
def deletedSlot : SockbufT :=
  { sock := -1, flags := { deleted := true }, handler := some sockbufIdler }

/-- The slot that `sockbuf_new` takes: the first one available, else the first one added. -/
def firstAvail (s : State) : Nat := s.sockbufs.findIdx fun sb => sb.flags.avail

/-- `sockbuf_new`. -/
def sockbufNew (s : State) : State × Nat :=
  let idx := firstAvail s
  -- a full table grows by five slots, all of them available but the first one taken
  let sockbufs :=
    if idx = s.nsockbufs then s.sockbufs ++ List.replicate 5 availSlot else s.sockbufs
  ({ s with sockbufs := sockbufs.set idx newSlot }, idx)

/-! ## Listeners -/

/-- `sockbuf_attach_listener`. -/
def sockbufAttachListener (k : Kernel) (s : State) (fd : Int) : State :=
  { s with
    pollfds := (realloc s.pollfds (s.npollfds + s.nlisteners + 1) k.fresh).set
      (s.npollfds + s.nlisteners) { fd := fd, events := { pollin := true } }
    nlisteners := s.nlisteners + 1 }

/-- Remove listener `i`. -/
def State.removeListener (s : State) (i : Nat) : State :=
  { s with
    pollfds := memmove s.pollfds (s.npollfds + i) (s.npollfds + i + 1) (s.nlisteners - i - 1)
    nlisteners := s.nlisteners - 1 }

/-- `sockbuf_detach_listener`. -/
def sockbufDetachListener (s : State) (fd : Int) : State :=
  let i := ((s.pollfds.drop s.npollfds).take s.nlisteners).findIdx fun p => p.fd == fd
  if i < s.nlisteners then s.removeListener i else s

/-! ## Filters and handlers -/

/-- `sockbuf_set_handler`. -/
def sockbufSetHandler (s : State) (idx : Nat) (handler : SockbufHandler) (clientData : Nat) :
    State :=
  if sockbufIsvalid s idx then
    s.update idx fun sb => { sb with handler := some handler, clientData := clientData }
  else s

/-- The position of a new filter: before the first filter of a higher level. -/
def SockbufT.filterSlot (sb : SockbufT) (filter : SockbufFilter) : Nat :=
  (sb.filters.take sb.nfilters).findIdx fun f => decide (filter.level < f.level)

/-- The two arrays of a record with one more filter. -/
def SockbufT.attachFilter (sb : SockbufT) (filter : SockbufFilter) (clientData : Nat) : SockbufT :=
  let n := sb.nfilters
  let i := sb.filterSlot filter
  { sb with
    filters := (memmove (realloc sb.filters (n + 1) filter) (i + 1) i (n - i)).set i filter
    filterClientData :=
      (memmove (realloc sb.filterClientData (n + 1) 0) (i + 1) i (n - i)).set i clientData
    nfilters := n + 1 }

/-- `sockbuf_attach_filter`. -/
def sockbufAttachFilter (s : State) (idx : Nat) (filter : SockbufFilter) (clientData : Nat) :
    State :=
  if sockbufIsvalid s idx then s.update idx fun sb => sb.attachFilter filter clientData else s

/-- The two arrays of a record with one filter less. -/
def SockbufT.detachFilter (sb : SockbufT) (filter : SockbufFilter) : SockbufT :=
  let n := sb.nfilters
  let i := (sb.filters.take n).findIdx fun f => f == filter
  if i = n then sb
  else
    { sb with
      filterClientData := memmove sb.filterClientData i (i + 1) (n - i - 1)
      filters := memmove sb.filters i (i + 1) (n - i - 1)
      nfilters := n - 1 }

/-- `sockbuf_detach_filter`, apart from its result. -/
def sockbufDetachFilter (s : State) (idx : Nat) (filter : SockbufFilter) : State :=
  if sockbufIsvalid s idx then s.update idx fun sb => sb.detachFilter filter else s

/-- The client data of the first entry of a filter. -/
def SockbufT.filterData (sb : SockbufT) (filter : SockbufFilter) : Option Nat :=
  let n := sb.nfilters
  let i := (sb.filters.take n).findIdx fun f => f == filter
  if i = n then none else sb.filterClientData[i]?

/-- The result of `sockbuf_get_filter_data`, and what it stores. -/
def sockbufGetFilterData (s : State) (idx : Nat) (filter : SockbufFilter) : Int × Option Nat :=
  if sockbufIsvalid s idx then
    match (s.sbuf idx).filterData filter with
    | some clientData => (0, some clientData)
    | none => (-1, none)
  else (-1, none)

/-- The result of `sockbuf_detach_filter`, and what it stores through a pointer that is not NULL. When
the filter is not found only the parameter is set to NULL. -/
def sockbufDetachResult (s : State) (idx : Nat) (filter : SockbufFilter) : Int × Option Nat :=
  if sockbufIsvalid s idx then (0, (s.sbuf idx).filterData filter) else (-1, none)

/-- The first filter above `level` that defines a callback. -/
def SockbufT.filterAbove (sb : SockbufT) (level : Int) (defines : SockbufFilter → Bool) :
    Option (SockbufFilter × Nat) :=
  sb.chain.find? fun e => defines e.1 && decide (level < e.1.level)

/-- The last filter below `level` that defines a callback. -/
def SockbufT.filterBelow (sb : SockbufT) (level : Int) (defines : SockbufFilter → Bool) :
    Option (SockbufFilter × Nat) :=
  sb.chain.reverse.find? fun e => defines e.1 && decide (e.1.level < level)

/-- Call a callback of the filter `e`. -/
def callFilter (s : State) (idx : Nat) (e : SockbufFilter × Nat) (call : Call) : Outcome :=
  .invoke s ⟨some e.1, e.2, idx, call⟩

/-- Call a callback of the user's handler when the handler defines it. -/
def callHandler (s : State) (idx : Nat) (defines : SockbufHandler → Bool) (call : Call) : Outcome :=
  match (s.sbuf idx).handler with
  | none => .crash s
  | some h =>
    if defines h then .invoke s ⟨none, (s.sbuf idx).clientData, idx, call⟩ else { st := s }

/-- Eof occurs on a socket. -/
def sockbufOnEof (s : State) (idx : Nat) (level : Int) (err : Nat) : Outcome :=
  match (s.sbuf idx).filterAbove level SockbufFilter.onEof with
  | some e => callFilter s idx e (.eof err)
  | none => callHandler s idx SockbufHandler.onEof (.eof err)

/-- The record after the end of `sockbuf_on_connect` or `sockbuf_on_newclient` wrote the names of
the connection to it. -/
def SockbufT.setPeer (k : Kernel) (sb : SockbufT) (peerIp : Option String) (peerPort : Int) :
    SockbufT :=
  { sb with
    peerIp := if peerIp.isSome then peerIp else sb.peerIp
    peerPort := peerPort }.socketGetName k

/-- This is called when a client sock connects successfully. -/
def sockbufOnConnect (k : Kernel) (s : State) (idx : Nat) (level : Int) (peerIp : Option String)
    (peerPort : Int) : Outcome :=
  match (s.sbuf idx).filterAbove level SockbufFilter.onConnect with
  | some e => callFilter s idx e (.connect peerIp peerPort)
  | none =>
    callHandler (s.update idx fun sb => sb.setPeer k peerIp peerPort) idx
      SockbufHandler.onConnect (.connect peerIp peerPort)

/-- When an incoming connection is accepted. The filter is chosen by its `on_connect`; one without
`on_newclient` is called through a null pointer. -/
def sockbufOnNewclient (k : Kernel) (s : State) (idx : Nat) (level : Int) (newidx : Nat)
    (peerIp : Option String) (peerPort : Int) : Outcome :=
  match (s.sbuf idx).filterAbove level SockbufFilter.onConnect with
  | some e =>
    if e.1.onNewclient then callFilter s idx e (.newclient newidx peerIp peerPort) else .crash s
  | none =>
    callHandler (s.update newidx fun sb => sb.setPeer k peerIp peerPort) idx
      SockbufHandler.onNewclient (.newclient newidx peerIp peerPort)

/-- We read some data from the sock. A slot that is not in use has no statistics to write to. -/
def sockbufOnRead (s : State) (idx : Nat) (level : Int) (data : List UInt8) : Outcome :=
  match (s.sbuf idx).filterAbove level SockbufFilter.onRead with
  | some e => callFilter s idx e (.read data)
  | none =>
    match (s.sbuf idx).stats with
    | none => .crash s
    | some stats =>
      let stats := { stats with bytesIn := stats.bytesIn + UInt64.ofNat data.length }
      callHandler (s.update idx fun sb => { sb with stats := some stats }) idx
        SockbufHandler.onRead (.read data)

/-- We wrote some data to the sock. -/
def sockbufOnWritten (s : State) (idx : Nat) (level : Int) (len remaining : Nat) : Outcome :=
  match (s.sbuf idx).filterAbove level SockbufFilter.onWritten with
  | some e => callFilter s idx e (.written len remaining)
  | none => callHandler s idx SockbufHandler.onWritten (.written len remaining)

/-- When eof or an error is detected. -/
def sockbufGotEof (k : Kernel) (s : State) (idx err : Nat) : Outcome :=
  let err := if err = 0 then k.sockError else err
  sockbufOnEof (sockbufClose k s idx) idx sockbufLevelInternal err

/-! ## Reading and writing -/

/-- Add data to the output buffer. -/
def SockbufT.append (sb : SockbufT) (data : List UInt8) : SockbufT :=
  { sb with
    data := memcpy (realloc sb.data (sb.len + data.length) 0) sb.len data
    len := sb.len + data.length }

/-- The statistics after `nbytes` bytes were written directly. -/
def countWrite (s : State) (idx nbytes : Nat) : State :=
  if 0 < nbytes then s.update idx fun sb => { sb with stats := sb.stats.map (statsOut · nbytes) }
  else s

/-- The end of a direct write of which `nbytes` bytes were accepted. -/
def writeRest (s : State) (idx : Nat) (data : List UInt8) (nbytes : Nat) : State :=
  if nbytes = data.length then s
  else (sockbufBlock s idx).update idx fun sb => sb.append (data.drop nbytes)

/-- Try to write data to the underlying socket. If we don't write it all, save the data in the
output buffer and start monitoring for `POLLOUT`. -/
def sockbufRealWrite (k : Kernel) (s : State) (idx : Nat) (data : List UInt8) : Outcome :=
  -- data behind a blocked socket waits for `POLLOUT`
  if (s.sbuf idx).flags.block then { st := s.update idx fun sb => sb.append data }
  else
    match k.sysWrite (s.sbuf idx).sock data with
    | .error err =>
      -- `EAGAIN` is a write of no bytes; any other error is the end of the connection
      if err = eagain then
        { st := writeRest s idx data 0, events := [.writeFailed idx err] }
      else (sockbufGotEof k s idx err).log [.writeFailed idx err]
    | .ok nbytes =>
      { st := writeRest (countWrite s idx nbytes) idx data nbytes
        events := [.wrote idx (data.take nbytes)] }

/-- We're writing some data to the sock. -/
def sockbufOnWrite (k : Kernel) (s : State) (idx : Nat) (level : Int) (data : List UInt8) :
    Outcome :=
  match (s.sbuf idx).filterBelow level SockbufFilter.onWrite with
  | some e => callFilter s idx e (.write data)
  | none => sockbufRealWrite k s idx data

/-- `data` is the memory at the pointer; a negative length stands for that of the C string. -/
def writeArgument (data : List UInt8) (len : Int) : List UInt8 :=
  if len < 0 then data.takeWhile (· ≠ 0) else data.take len.toNat

/-- The count of submitted bytes. -/
def countSubmit (s : State) (idx len : Nat) : State :=
  s.update idx fun sb =>
    { sb with stats := sb.stats.map fun st => { st with bytesOut := st.bytesOut + UInt64.ofNat len } }

/-- `sockbuf_write`. -/
def sockbufWrite (k : Kernel) (s : State) (idx : Nat) (data : List UInt8) (len : Int) : Outcome :=
  if sockbufIsvalid s idx then
    let data := writeArgument data len
    (sockbufOnWrite k (countSubmit s idx data.length) idx sockbufLevelWriteInternal data).log
      [.submitted idx data]
  else { st := s }

/-- When a client sock is writable, that means it's connected. Unless there's a socket level error,
anyway. -/
def sockbufGotWritableClient (k : Kernel) (s : State) (idx : Nat) : Outcome :=
  -- a connection that failed is writable too
  if k.sockError ≠ 0 then sockbufGotEof k s idx k.sockError
  else
    let s := s.update idx fun sb => { sb with flags := { sb.flags with connecting := false } }
    -- data submitted while it was connecting is still in the buffer
    let s := if (s.sbuf idx).len = 0 then sockbufUnblock s idx else s
    sockbufOnConnect k s idx sockbufLevelInternal (k.peerName.map Prod.fst)
      ((k.peerName.map Prod.snd).getD 0)

/-- When a server sock is readable, that means there's a connection waiting to be accepted. -/
def sockbufGotReadableServer (k : Kernel) (s : State) (idx : Nat) : Outcome :=
  let newsock := k.sysAccept (s.sbuf idx).sock
  if newsock < 0 then { st := s }
  else
    let newidx := (sockbufNew s).2
    let s := sockbufSetSock k (sockbufNew s).1 newidx newsock { inbound := true }
    (sockbufOnNewclient k s idx sockbufLevelInternal newidx k.acceptPeer.1 k.acceptPeer.2).log
      [.created newidx, .attached newidx newsock]

/-- The record after `nbytes` bytes of its buffer were written. -/
def SockbufT.drain (sb : SockbufT) (nbytes : Nat) : SockbufT :=
  { sb with
    len := sb.len - nbytes
    stats := sb.stats.map fun st =>
      { statsOut st nbytes with rawBytesLeft := UInt64.ofNat (sb.len - nbytes) } }

/-- The buffer after `nbytes` bytes of it were written: `POLLOUT` is no longer monitored when it is
empty, else the rest moves to its front. -/
def drainOutput (s : State) (idx nbytes : Nat) : State :=
  let s := s.update idx fun sb => sb.drain nbytes
  if (s.sbuf idx).len = 0 then sockbufUnblock s idx
  else s.update idx fun sb => { sb with data := memmove sb.data 0 nbytes sb.len }

/-- This is called when the `POLLOUT` condition is true for already-connected socks. -/
def sockbufGotWritable (k : Kernel) (s : State) (idx : Nat) : Outcome :=
  match k.sysWrite (s.sbuf idx).sock (s.sbuf idx).buffered with
  | .error err => (sockbufGotEof k s idx err).log [.writeFailed idx err]
  | .ok nbytes =>
    if 0 < nbytes then
      (sockbufOnWritten (drainOutput s idx nbytes) idx sockbufLevelInternal nbytes
        ((drainOutput s idx nbytes).sbuf idx).len).log
        [.wrote idx ((s.sbuf idx).buffered.take nbytes)]
    -- no bytes accepted: the buffer stays and `POLLOUT` is still monitored
    else { st := s }

/-- When a sock is readable we read some from it and pass it to the on_read handlers. -/
def sockbufGotReadable (k : Kernel) (s : State) (idx : Nat) : Outcome :=
  match k.sysRead (s.sbuf idx).sock 4096 with
  | .error err => sockbufGotEof k s idx err
  -- a read of no bytes is the end of file
  | .ok [] => sockbufGotEof k s idx 0
  | .ok data =>
    sockbufOnRead
      (s.update idx fun sb => { sb with stats := sb.stats.map (statsIn · data.length) })
      idx sockbufLevelInternal data

/-! ## Deletion -/

/-- The begin of `sockbuf_delete`, up to the callbacks. -/
def sockbufDelete (s : State) (idx : Nat) : Outcome :=
  if sockbufIsvalid s idx then
    { st := s.update idx fun sb => { sb with flags := { sb.flags with deleted := true } }
      tasks := [.delete idx 0]
      events := [.deleted idx] }
  else { st := s }

/-- Call the on_delete handler for filter `i` and the filters after it, then the user's. The source reads
them through the pointer it took at the start. -/
def sockbufDeleteCallbacks (s : State) (idx i : Nat) : Outcome :=
  if i < (s.sbuf idx).nfilters then
    match (s.sbuf idx).chain[i]? with
    -- `nfilters` counts more filters than the array holds
    | none => (Outcome.crash s).andThen [.delete idx (i + 1)]
    | some e =>
      if e.1.onDelete then (callFilter s idx e .delete).andThen [.delete idx (i + 1)]
      else { st := s, tasks := [.delete idx (i + 1)] }
  else (callHandler s idx SockbufHandler.onDelete .delete).andThen [.deleteFinish idx]

/-- Wipe the record of a deleted sockbuf and count it. -/
def State.wipe (s : State) (idx : Nat) : State :=
  { s.update idx (fun _ => deletedSlot) with ndeletedSockbufs := s.ndeletedSockbufs + 1 }

/-- Remove entry `i` of the poll table: the two `memmove` calls of `sockbuf_delete`. -/
def State.deleteEntry (s : State) (i : Nat) : State :=
  { s with
    pollfds := memmove s.pollfds i (i + 1) (s.npollfds + s.nlisteners - i - 1)
    idxArray := memmove s.idxArray i (i + 1) (s.npollfds - i - 1)
    npollfds := s.npollfds - 1 }

/-- The end of `sockbuf_delete`, behind the callbacks. -/
def sockbufDeleteFinish (s : State) (idx : Nat) : State :=
  let s := s.wipe idx
  let i := s.findEntry idx
  if i = s.npollfds then s else s.deleteEntry i

/-! ## The event loop -/

/-- The entries of the poll table with their `revents` as a successful `poll` writes them; `words`
are the words of the entries, zero where the list ends. -/
def writeRevents (s : State) (words : List Revents) : List Pollfd :=
  s.pollfds.mapIdx fun i p => if i < s.npollfds then { p with revents := words.getD i {} } else p

/-- What a successful `poll` reports, by sockbuf. -/
def pollReports (s : State) (words : List Revents) : List (Nat × Revents) :=
  (s.idxArray.take s.npollfds).zip
    (((writeRevents s words).take s.npollfds).map Pollfd.revents)

/-- The first part of `sockbuf_update_all`, up to the loop. -/
def sockbufUpdateAll (k : Kernel) (s : State) : Outcome :=
  match k.poll with
  | none =>
    { st := { s with depth := s.depth + 1 }
      tasks := [.scan 0 s.npollfds]
      events := [.passBegin, .pollFailed] }
  | some words =>
    { st := { s with depth := s.depth + 1, pollfds := writeRevents s words }
      tasks := [.scan 0 ((pollReports s words).countP fun r => !r.2.isZero)]
      events := [.passBegin, .polled (pollReports s words)] }

/-- The tests that the loop makes of a word, with the `flags` read at its start. -/
def eventTasks (revents : Revents) (idx : Nat) (flags : Flags) : List Task :=
  (if revents.pollout then [.writable idx flags.connecting] else []) ++
    (if revents.pollin then [.readable idx flags.server] else []) ++
    (if revents.hangup then [.hangup idx] else [])

/-- The reclaim loop: up to `n` deleted slots become available. -/
def reclaim : Nat → List SockbufT → List SockbufT
  | _, [] => []
  | 0, sbs => sbs
  | n + 1, sb :: sbs =>
    if sb.flags.deleted then { sb with flags := { avail := true } } :: reclaim n sbs
    else sb :: reclaim (n + 1) sbs

/-- The last part of `sockbuf_update_all`, behind the loop. -/
def updateFinish (s : State) : Outcome :=
  let s := { s with depth := s.depth - 1 }
  -- a pass inside another one must leave the deleted slots to it
  if s.ndeletedSockbufs ≠ 0 ∧ s.depth = 0 then
    { st := { s with sockbufs := reclaim s.ndeletedSockbufs s.sockbufs, ndeletedSockbufs := 0 }
      events := [.passEnd] }
  else { st := s, events := [.passEnd] }

/-- The head of the loop of `sockbuf_update_all`. -/
def updateScan (s : State) (i n : Nat) : Outcome :=
  if n ≠ 0 ∧ i < s.npollfds then
    let revents := (s.pollfds.getD i { fd := 0 }).revents
    -- only the words that `poll` counted count down `n`
    if revents.isZero then { st := s, tasks := [.scan (i + 1) n] }
    else
      -- the flags are read here, before the callbacks of this word can change them
      let idx := s.idxArray.getD i 0
      { st := s, tasks := eventTasks revents idx (s.sbuf idx).flags ++ [.scan (i + 1) (n - 1)] }
  else updateFinish s

/-! ## Shutdown -/

/-- The loop of `sockbuf_shutdown` from entry `i - 1` down, and the end behind it. -/
def sockbufShutdownLoop (s : State) : Nat → Outcome
  | 0 => { st := { s with idxArray := [], pollfds := [], npollfds := 0, sockbufs := [] } }
  | i + 1 => (sockbufDelete s (s.idxArray.getD i 0)).andThen [.shutdown i]

end ExamplePrograms.Onethread.Sockbuf
