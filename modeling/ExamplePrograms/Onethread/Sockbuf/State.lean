import ExamplePrograms.Lib.Memory

/-!
# Data of the sockbuf module

The records of `sockbuf.c` and `sockbuf.h` and the static variables of the module. A flag word is
the record of its bits. An array is its block of memory with the counter that says how much of it is
in use, so that `idxArray` and `pollfds` may hold cells behind the used part, as they do in C.

An `idx` is a natural number: `sockbuf_isvalid` rejects the negative ones, as it rejects those past
the end of the table. The two records that hold callbacks list which of them are defined.
-/

set_option autoImplicit false

namespace ExamplePrograms.Onethread.Sockbuf

/-- The bits `SOCKBUF_*` of a flag word. -/
structure Flags where
  block : Bool := false
  server : Bool := false
  client : Bool := false
  connecting : Bool := false
  inbound : Bool := false
  deleted : Bool := false
  noread : Bool := false
  avail : Bool := false
  deriving DecidableEq, Repr

/-- `SOCKBUF_LEVEL_INTERNAL`: below every filter. -/
def sockbufLevelInternal : Int := -1

/-- `SOCKBUF_LEVEL_WRITE_INTERNAL`: above every filter. -/
def sockbufLevelWriteInternal : Int := 1000000

/-- `errno` of a call that would block. -/
def eagain : Nat := 11
/-- `errno` of a call on a bad descriptor. -/
def ebadf : Nat := 9

/-- The `events` of a `pollfd`: what is asked of `poll`. -/
structure Events where
  pollin : Bool := false
  pollout : Bool := false
  deriving DecidableEq, Repr

/-- The `revents` of a `pollfd`: what `poll` reports. `other` stands for the bits the module does
not look at, which count when the word is tested for zero. -/
structure Revents where
  pollin : Bool := false
  pollout : Bool := false
  pollhup : Bool := false
  pollnval : Bool := false
  pollerr : Bool := false
  other : Bool := false
  deriving DecidableEq, Repr

/-- `!revents`. -/
def Revents.isZero (r : Revents) : Bool := r == {}

/-- `revents & (POLLHUP|POLLNVAL|POLLERR)`. -/
def Revents.hangup (r : Revents) : Bool := r.pollhup || r.pollnval || r.pollerr

/-- `struct pollfd`. -/
structure Pollfd where
  fd : Int
  events : Events := {}
  revents : Revents := {}
  deriving DecidableEq, Repr

/-- `sockbuf_stats_t`. -/
structure SockbufStats where
  rawBytesIn : UInt64 := 0
  rawBytesOut : UInt64 := 0
  rawBytesLeft : UInt64 := 0
  bytesIn : UInt64 := 0
  bytesOut : UInt64 := 0
  totalInCps : Int := 0
  snapshotInCps : Int := 0
  totalOutCps : Int := 0
  snapshotOutCps : Int := 0
  snapshotInBytes : List Int := [0, 0, 0, 0, 0]
  snapshotOutBytes : List Int := [0, 0, 0, 0, 0]
  snapshotCounter : Nat := 0
  lastSnapshot : Int := 0
  deriving DecidableEq, Repr

/-- `sockbuf_filter_t`. `id` is the address of the record. -/
structure SockbufFilter where
  id : Nat
  level : Int
  onConnect : Bool := false
  onEof : Bool := false
  onNewclient : Bool := false
  onRead : Bool := false
  onWrite : Bool := false
  onWritten : Bool := false
  onDelete : Bool := false
  deriving DecidableEq, Repr

/-- `sockbuf_handler_t`. -/
structure SockbufHandler where
  onConnect : Bool := false
  onEof : Bool := false
  onNewclient : Bool := false
  onRead : Bool := false
  onWritten : Bool := false
  onDelete : Bool := false
  deriving DecidableEq, Repr

/-- `sockbuf_idler`: an event handler that does nothing. -/
def sockbufIdler : SockbufHandler := {}

/-- `sockbuf_t`. The defaults are the record of zero bytes that `memset` leaves; the pending output
is the first `len` bytes of the block `data`. -/
structure SockbufT where
  sock : Int := 0
  flags : Flags := {}
  peerIp : Option String := none
  peerPort : Int := 0
  myIp : Option String := none
  myPort : Int := 0
  stats : Option SockbufStats := none
  data : List UInt8 := []
  len : Nat := 0
  filters : List SockbufFilter := []
  filterClientData : List Nat := []
  nfilters : Nat := 0
  handler : Option SockbufHandler := none
  clientData : Nat := 0
  deriving DecidableEq, Repr

/-- The pending output of a sockbuf. -/
def SockbufT.buffered (sb : SockbufT) : List UInt8 := sb.data.take sb.len

/-- The filters in use with their client data, in chain order. -/
def SockbufT.chain (sb : SockbufT) : List (SockbufFilter × Nat) :=
  (sb.filters.take sb.nfilters).zip (sb.filterClientData.take sb.nfilters)

/-- The static variables of the module and the `depth` of `sockbuf_update_all`. `nsockbufs` is the
length of the table. -/
structure State where
  sockbufs : List SockbufT := []
  ndeletedSockbufs : Nat := 0
  idxArray : List Nat := []
  pollfds : List Pollfd := []
  npollfds : Nat := 0
  nlisteners : Nat := 0
  depth : Nat := 0
  deriving DecidableEq, Repr

namespace State

/-- The number of slots. -/
def nsockbufs (s : State) : Nat := s.sockbufs.length

/-- `sockbufs[idx]`. -/
def sbuf (s : State) (idx : Nat) : SockbufT := s.sockbufs.getD idx { sock := -1 }

/-- There is no record behind the last slot. -/
theorem sbuf_of_le {s : State} {idx : Nat} (h : s.nsockbufs ≤ idx) : s.sbuf idx = { sock := -1 } := by
  rw [sbuf, List.getD_eq_getElem?_getD, List.getElem?_eq_none h]
  rfl

/-- Write to the record `sockbufs[idx]`. -/
def update (s : State) (idx : Nat) (f : SockbufT → SockbufT) : State :=
  { s with sockbufs := s.sockbufs.modify idx f }

/-- The search loop `for (i = 0; i < npollfds; i++) if (idx_array[i] == idx) break;`. -/
def findEntry (s : State) (idx : Nat) : Nat := (s.idxArray.take s.npollfds).idxOf idx

/-- Write to the entry of `idx` in `pollfds` when there is one. -/
def updateEntry (s : State) (idx : Nat) (f : Pollfd → Pollfd) : State :=
  if s.findEntry idx < s.npollfds then { s with pollfds := s.pollfds.modify (s.findEntry idx) f }
  else s

section Update

variable (s : State) (idx : Nat) (f : SockbufT → SockbufT)

@[simp] theorem update_nsockbufs : (s.update idx f).nsockbufs = s.nsockbufs := by
  simp [nsockbufs, update]

@[simp] theorem update_ndeletedSockbufs :
    (s.update idx f).ndeletedSockbufs = s.ndeletedSockbufs := rfl

@[simp] theorem update_idxArray : (s.update idx f).idxArray = s.idxArray := rfl

@[simp] theorem update_pollfds : (s.update idx f).pollfds = s.pollfds := rfl

@[simp] theorem update_npollfds : (s.update idx f).npollfds = s.npollfds := rfl

@[simp] theorem update_nlisteners : (s.update idx f).nlisteners = s.nlisteners := rfl

@[simp] theorem update_depth : (s.update idx f).depth = s.depth := rfl

@[simp] theorem update_findEntry (j : Nat) : (s.update idx f).findEntry j = s.findEntry j := rfl

theorem sbuf_update (j : Nat) :
    (s.update idx f).sbuf j = if idx = j ∧ idx < s.nsockbufs then f (s.sbuf j) else s.sbuf j := by
  simp only [sbuf, update, nsockbufs, List.getD_eq_getElem?_getD, List.getElem?_modify]
  by_cases h : idx = j
  · subst h
    by_cases hlt : idx < s.sockbufs.length
    · simp [hlt]
    · simp [hlt]
  · simp [h]

@[simp] theorem sbuf_update_ne {j : Nat} (h : idx ≠ j) : (s.update idx f).sbuf j = s.sbuf j := by
  rw [sbuf_update, if_neg (fun hc => h hc.1)]

theorem sbuf_update_self (h : idx < s.nsockbufs) :
    (s.update idx f).sbuf idx = f (s.sbuf idx) := by
  rw [sbuf_update, if_pos ⟨rfl, h⟩]

/-- A property of records that `f` keeps survives the update at every index. -/
theorem sbuf_update_keeps {β : Type} (g : SockbufT → β) (hf : g (f (s.sbuf idx)) = g (s.sbuf idx))
    (j : Nat) : g ((s.update idx f).sbuf j) = g (s.sbuf j) := by
  rw [sbuf_update]
  split
  · next h => rw [← h.1, hf]
  · rfl

end Update

section UpdateEntry

variable (s : State) (idx : Nat) (f : Pollfd → Pollfd)

@[simp] theorem updateEntry_sockbufs : (s.updateEntry idx f).sockbufs = s.sockbufs := by
  rw [updateEntry]
  split <;> rfl

@[simp] theorem updateEntry_nsockbufs : (s.updateEntry idx f).nsockbufs = s.nsockbufs := by
  simp [nsockbufs]

@[simp] theorem updateEntry_sbuf (j : Nat) : (s.updateEntry idx f).sbuf j = s.sbuf j := by
  simp [sbuf]

@[simp] theorem updateEntry_ndeletedSockbufs :
    (s.updateEntry idx f).ndeletedSockbufs = s.ndeletedSockbufs := by
  rw [updateEntry]
  split <;> rfl

@[simp] theorem updateEntry_idxArray : (s.updateEntry idx f).idxArray = s.idxArray := by
  rw [updateEntry]
  split <;> rfl

@[simp] theorem updateEntry_npollfds : (s.updateEntry idx f).npollfds = s.npollfds := by
  rw [updateEntry]
  split <;> rfl

@[simp] theorem updateEntry_nlisteners : (s.updateEntry idx f).nlisteners = s.nlisteners := by
  rw [updateEntry]
  split <;> rfl

@[simp] theorem updateEntry_depth : (s.updateEntry idx f).depth = s.depth := by
  rw [updateEntry]
  split <;> rfl

end UpdateEntry

end State

end ExamplePrograms.Onethread.Sockbuf
