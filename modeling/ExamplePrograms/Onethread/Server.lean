import Mathlib.Data.List.Range
import ExamplePrograms.Lib.Runs

/-!
# The one-thread server

The loop of `onethread.c`. Its table `fds` has 128 cells, of which the first `nfds` are given to `poll`; a
connection is added behind them, and the cell of a closed one is kept. A round of the loop is a step of a
system whose actions are what the system calls of the round answer.

A step comes with the accesses that it makes to `fds` and `rbuf`. A cell carries the number of the call
of `poll` that wrote its `revents` last, so that a test of a stale value can be seen. Memory behind the
table is cells, too: that an access is out of bounds is in its index.

`client_table_safe_iff` says for which runs the accesses are in bounds and the tested values current.
-/

set_option autoImplicit false

namespace ExamplePrograms.Onethread.Server

open ExamplePrograms.Lib.Runs

/-- The type `short`, as bits. -/
abbrev Revents := BitVec 16

/-- Data can be read. -/
def POLLIN : Revents := 1

/-- An error. -/
def POLLERR : Revents := 8

/-- The other side has closed. -/
def POLLHUP : Revents := 16

/-- The descriptor is not open. -/
def POLLNVAL : Revents := 32

/-- The size of the table. -/
def MAXCLIENTS : Nat := 128

/-- `revents & bits`. -/
def has (revents bits : Revents) : Bool := revents &&& bits != 0

/-- `struct pollfd`, with the call of `poll` that wrote `revents`. -/
structure Pollfd where
  fd : Int
  events : Revents
  revents : Revents
  written : Option Nat := none

/-- The table, the number of its entries in use, and the calls of `poll` so far. -/
structure State where
  fds : Nat → Pollfd
  nfds : Nat := 1
  /-- The calls of `poll` so far. -/
  polls : Nat := 0

/-- What the system calls of a round answer; `none` is -1. `recv` is asked for 1023 bytes. -/
structure Round where
  polled : Option Nat
  revents : Nat → Revents
  accepted : Option Nat
  received : Nat → Option (Fin 1024)

/-- An access to a cell of `fds`, to a byte of `rbuf`, or to a value of `revents` that is tested. -/
inductive Access where
  | fds (i : Nat)
  | rbuf (i : Int)
  | revents (i : Nat) (written : Option Nat)
  deriving DecidableEq, Repr

namespace State

/-- A cell that is written. -/
def set (s : State) (i : Nat) (cell : Pollfd) : State :=
  { s with fds := fun j => if j = i then cell else s.fds j }

/-- A test of `fds[i].revents`. -/
def tests (s : State) (i : Nat) : List Access := [.fds i, .revents i (s.fds i).written]

/-- `poll(fds, nfds, 2*1000)`. -/
def poll (s : State) (x : Round) : State :=
  { s with
    fds := fun i =>
      if i < s.nfds then { s.fds i with revents := x.revents i, written := some s.polls } else s.fds i
    polls := s.polls + 1 }

/-- The connection behind the table. -/
def accept (s : State) (accepted : Option Nat) : State × List Access :=
  if has (s.fds 0).revents POLLIN then
    match accepted with
    | none => (s.set s.nfds { s.fds s.nfds with fd := -1 }, s.tests 0 ++ [.fds s.nfds, .fds s.nfds])
    | some fd =>
        ({ s.set s.nfds { s.fds s.nfds with fd := fd, events := POLLIN } with nfds := s.nfds + 1 },
          s.tests 0 ++ [.fds s.nfds, .fds s.nfds, .fds s.nfds])
  else (s, s.tests 0)

/-- The body of the first loop over the clients. -/
def recvSlot (received : Nat → Option (Fin 1024)) (s : State) (cfd : Nat) : State × List Access :=
  if has (s.fds cfd).revents POLLIN then
    match received cfd with
    | none => (s, s.tests cfd ++ [.fds cfd, .rbuf (-1), .fds cfd])
    | some sbuf =>
        (if sbuf.val = 0 then
          s.set cfd { s.fds cfd with revents := (s.fds cfd).revents ||| POLLHUP } else s,
          s.tests cfd ++ [.fds cfd, .rbuf sbuf.val, .fds cfd])
  else (s, s.tests cfd)

/-- The body of the second loop. -/
def closeSlot (s : State) (cfd : Nat) : State × List Access :=
  if has (s.fds cfd).revents POLLHUP then
    (s.set cfd { s.fds cfd with fd := -1 }, s.tests cfd ++ [.fds cfd, .fds cfd, .fds cfd])
  else (s, s.tests cfd)

/-- `for (cfd = 1; cfd < nfds; ++cfd)`. -/
def clients (s : State) : List Nat := List.range' 1 (s.nfds - 1)

end State

/-- A loop over slots. -/
def scan (slot : State → Nat → State × List Access) : List Nat → State → State × List Access
  | [], s => (s, [])
  | cfd :: rest, s =>
      let visited := slot s cfd
      let others := scan slot rest visited.1
      (others.1, visited.2 ++ others.2)

/-- A round of the loop, from which the program goes on to the next one or exits. -/
def iteration (s : State) (x : Round) : Option State × List Access :=
  let p := s.poll x
  let polled := (List.range s.nfds).map Access.fds
  match x.polled with
  | none => (none, polled)
  | some ret =>
      if has (p.fds 0).revents (POLLERR ||| POLLHUP ||| POLLNVAL) then (none, polled ++ p.tests 0)
      else if ret = 0 then (some p, polled ++ p.tests 0)
      else
        let a := p.accept x.accepted
        let r := scan (State.recvSlot x.received) a.1.clients a.1
        let c := scan State.closeSlot r.1.clients r.1
        (some c.1, polled ++ p.tests 0 ++ a.2 ++ r.2 ++ c.2)

/-- The state behind a round, unless `main` returns in it. -/
def step (s : State) (x : Round) : Option State := (iteration s x).1

/-- The accesses of a round. -/
def accesses (s : State) (x : Round) : List Access := (iteration s x).2

/-- The table holds anything but the listening socket. -/
def start (garbage : Nat → Pollfd) (serv : Int) : State where
  fds i :=
    if i = 0 then { fd := serv, events := POLLIN, revents := (garbage 0).revents }
    else { garbage i with written := none }

/-! ## Safety -/

/-- The access is to a cell of the table. -/
def Access.InTable : Access → Prop
  | .fds i => i < MAXCLIENTS
  | .revents i _ => i < MAXCLIENTS
  | .rbuf _ => True

/-- The access is to a byte of the buffer. -/
def Access.InBuffer : Access → Prop
  | .rbuf i => 0 ≤ i ∧ i ≤ 1023
  | _ => True

/-- The value was written by this call of `poll`. -/
def Access.Current (poll : Nat) : Access → Prop
  | .revents _ written => written = some poll
  | _ => True

/-- The round stays inside the table. -/
def InTable (s : State) (x : Round) : Prop := ∀ a ∈ accesses s x, a.InTable

/-- The round stays inside the buffer. -/
def InBuffer (s : State) (x : Round) : Prop := ∀ a ∈ accesses s x, a.InBuffer

/-- The round tests only values that its own `poll` wrote. -/
def Current (s : State) (x : Round) : Prop := ∀ a ∈ accesses s x, a.Current s.polls

/-- The round is safe. -/
def Safe (s : State) (x : Round) : Prop := InTable s x ∧ InBuffer s x ∧ Current s x

/-- The round goes on to its clients. -/
def Round.Serves (x : Round) : Prop :=
  (∃ n, x.polled = some (n + 1)) ∧
    has (x.revents 0) (POLLERR ||| POLLHUP ||| POLLNVAL) = false

/-- A connection is waiting. -/
def Round.Ready (x : Round) : Prop := x.Serves ∧ has (x.revents 0) POLLIN = true

/-- A waiting connection finds a free cell. -/
def NotFull (s : State) (x : Round) : Prop := x.Ready → s.nfds < MAXCLIENTS

/-- No waiting connection is accepted. -/
def NoAccept (_ : State) (x : Round) : Prop := x.Ready → x.accepted = none

/-- A slot that is read: one of the table, or that of the new connection, whose `revents` is stale. -/
def Reads (s : State) (x : Round) (cfd : Nat) : Prop :=
  1 ≤ cfd ∧ (cfd < s.nfds ∧ has (x.revents cfd) POLLIN = true ∨
    cfd = s.nfds ∧ x.Ready ∧ x.accepted ≠ none ∧ has (s.fds cfd).revents POLLIN = true)

/-- Every client that is read answers. -/
def NoRecvError (s : State) (x : Round) : Prop :=
  x.Serves → ∀ cfd, Reads s x cfd → x.received cfd ≠ none

/-! ## Loops over slots -/

section Scan

variable {slot : State → Nat → State × List Access}

/-- The accesses of a loop whose slots do not see each other. -/
theorem mem_scan (hslot : ∀ s cfd c, (slot (slot s cfd).1 c).2 = (slot s c).2) {l : List Nat} {s : State}
    {a : Access} : a ∈ (scan slot l s).2 ↔ ∃ cfd ∈ l, a ∈ (slot s cfd).2 := by
  induction l generalizing s with
  | nil => simp [scan]
  | cons cfd rest ih =>
    rw [scan, List.mem_append, ih]
    simp [hslot]

end Scan

/-- The slots of the clients. -/
theorem mem_clients {s : State} {cfd : Nat} : cfd ∈ s.clients ↔ 1 ≤ cfd ∧ cfd < s.nfds := by
  rw [State.clients, List.mem_range'_1]
  omega

/-- `revents |= POLLHUP` sets no other bit. -/
theorem has_or_hup (revents : Revents) : has (revents ||| POLLHUP) POLLIN = has revents POLLIN := by
  rw [has, has, BitVec.and_or_distrib_right, show POLLHUP &&& POLLIN = 0#16 from rfl, BitVec.or_zero]

namespace State

variable {received : Nat → Option (Fin 1024)} {s s' : State} {cfd c : Nat} {cell : Pollfd}

/-- The cell that was written. -/
theorem fds_set_self : (s.set cfd cell).fds cfd = cell := if_pos rfl

/-- Another cell. -/
theorem fds_set_ne (h : c ≠ cfd) : (s.set cfd cell).fds c = s.fds c := if_neg h

/-- What the loops leave as it is. -/
structure Alike (s s' : State) : Prop where
  nfds : s'.nfds = s.nfds
  polls : s'.polls = s.polls
  written : ∀ i, (s'.fds i).written = (s.fds i).written
  readable : ∀ i, has (s'.fds i).revents POLLIN = has (s.fds i).revents POLLIN

/-- A cell may be written, but for the origin of its `revents` and its readability. -/
theorem Alike.set (hwritten : cell.written = (s.fds cfd).written)
    (hreadable : has cell.revents POLLIN = has (s.fds cfd).revents POLLIN) : Alike s (s.set cfd cell) := by
  refine ⟨rfl, rfl, fun i => ?_, fun i => ?_⟩
  · by_cases hi : i = cfd
    · subst hi
      rw [fds_set_self, hwritten]
    · rw [fds_set_ne hi]
  · by_cases hi : i = cfd
    · subst hi
      rw [fds_set_self, hreadable]
    · rw [fds_set_ne hi]

/-- Nothing has changed. -/
theorem Alike.refl (s : State) : Alike s s := ⟨rfl, rfl, fun _ => rfl, fun _ => rfl⟩

/-- Two changes, one behind the other. -/
theorem Alike.trans {s'' : State} (h : Alike s s') (h' : Alike s' s'') : Alike s s'' where
  nfds := h'.nfds.trans h.nfds
  polls := h'.polls.trans h.polls
  written i := (h'.written i).trans (h.written i)
  readable i := (h'.readable i).trans (h.readable i)

/-- The slots of the clients stay the same. -/
theorem Alike.clients (h : Alike s s') : s'.clients = s.clients := by
  rw [State.clients, State.clients, h.nfds]

/-- A loop over slots changes no more than its slots do. -/
theorem scan_alike {slot : State → Nat → State × List Access}
    (hslot : ∀ s cfd, Alike s (slot s cfd).1) (l : List Nat) (s : State) :
    Alike s (scan slot l s).1 := by
  induction l generalizing s with
  | nil => exact .refl s
  | cons cfd rest ih => exact (hslot s cfd).trans (ih _)

/-- A read changes no origin of `revents`. -/
theorem recvSlot_alike (received : Nat → Option (Fin 1024)) (s : State) (cfd : Nat) :
    Alike s (s.recvSlot received cfd).1 := by
  rw [recvSlot]
  split
  · split
    · exact .refl s
    · dsimp only
      split
      · exact .set rfl (has_or_hup _)
      · exact .refl s
  · exact .refl s

/-- Closing a client changes no origin of `revents`. -/
theorem closeSlot_alike (s : State) (cfd : Nat) : Alike s (s.closeSlot cfd).1 := by
  rw [closeSlot]
  split
  · exact .set rfl rfl
  · exact .refl s

/-- The accesses of a slot are decided by what the loops leave as it is. -/
theorem recvSlot_snd (h : Alike s s') : (s'.recvSlot received c).2 = (s.recvSlot received c).2 := by
  rw [recvSlot, recvSlot, tests, tests, h.written, h.readable]
  split
  · cases received c <;> rfl
  · rfl

/-- What a slot is tested for does not depend on its descriptor. -/
theorem closeSlot_snd (hwritten : (s'.fds c).written = (s.fds c).written)
    (hrevents : (s'.fds c).revents = (s.fds c).revents) : (s'.closeSlot c).2 = (s.closeSlot c).2 := by
  rw [closeSlot, closeSlot, tests, tests, hwritten, hrevents]
  split <;> rfl

/-- Closing a client keeps its `revents`. -/
theorem revents_closeSlot (s : State) (cfd i : Nat) :
    ((s.closeSlot cfd).1.fds i).revents = (s.fds i).revents := by
  rw [closeSlot]
  split
  · by_cases hi : i = cfd
    · subst hi
      rw [fds_set_self]
    · rw [fds_set_ne hi]
  · rfl

/-- The slot's accesses to `fds` and to its `revents`. -/
theorem mem_recvSlot {a : Access} : a ∈ (s.recvSlot received cfd).2 ↔
    a = .fds cfd ∨ a = .revents cfd (s.fds cfd).written ∨
      (has (s.fds cfd).revents POLLIN = true ∧
        ((received cfd = none ∧ a = .rbuf (-1)) ∨
          ∃ sbuf, received cfd = some sbuf ∧ a = .rbuf sbuf.val)) := by
  rw [recvSlot, tests]
  split
  · next h =>
    cases hr : received cfd with
    | none => simp [h]; tauto
    | some sbuf => simp [h]; tauto
  · next h => simp [h]

/-- The accesses of the last loop for one slot. -/
theorem mem_closeSlot {a : Access} : a ∈ (s.closeSlot cfd).2 ↔
    a = .fds cfd ∨ a = .revents cfd (s.fds cfd).written := by
  rw [closeSlot, tests]
  split
  · simp
    tauto
  · simp

/-! ### The first phases of a round -/

/-- `poll` writes the cells in use. -/
theorem fds_poll_lt {x : Round} {i : Nat} (hi : i < s.nfds) :
    (s.poll x).fds i = { s.fds i with revents := x.revents i, written := some s.polls } := if_pos hi

/-- `poll` leaves the other cells. -/
theorem fds_poll_ge {x : Round} {i : Nat} (hi : s.nfds ≤ i) : (s.poll x).fds i = s.fds i :=
  if_neg (Nat.not_lt.2 hi)

/-- The accesses of the first slot. -/
theorem mem_accept {accepted : Option Nat} {a : Access} : a ∈ (s.accept accepted).2 ↔
    a = .fds 0 ∨ a = .revents 0 (s.fds 0).written ∨
      (has (s.fds 0).revents POLLIN = true ∧ a = .fds s.nfds) := by
  unfold accept tests
  split
  · next h =>
    cases accepted with
    | none => simp [h]
    | some fd => simp [h]
  · next h => simp [h]

/-- The cells keep what was polled; a new one has what was there. -/
theorem accept_cells (s : State) (accepted : Option Nat) :
    (s.accept accepted).1.polls = s.polls ∧
      ∀ i, ((s.accept accepted).1.fds i).written = (s.fds i).written ∧
        has ((s.accept accepted).1.fds i).revents POLLIN = has (s.fds i).revents POLLIN := by
  unfold accept
  split
  · cases accepted with
    | none =>
      have halike : Alike s (s.set s.nfds { s.fds s.nfds with fd := -1 }) := .set rfl rfl
      exact ⟨rfl, fun i => ⟨halike.written i, halike.readable i⟩⟩
    | some fd =>
      have halike : Alike s (s.set s.nfds { s.fds s.nfds with fd := fd, events := POLLIN }) :=
        .set rfl rfl
      exact ⟨rfl, fun i => ⟨halike.written i, halike.readable i⟩⟩
  · exact ⟨rfl, fun _ => ⟨rfl, rfl⟩⟩

/-- An accepted connection takes the next slot. -/
theorem nfds_accept (s : State) (accepted : Option Nat) :
    (s.accept accepted).1.nfds =
      if has (s.fds 0).revents POLLIN = true ∧ accepted ≠ none then s.nfds + 1 else s.nfds := by
  unfold accept
  split
  · next h =>
    cases accepted with
    | none => simp [set]
    | some fd => simp [h]
  · next h => simp [h]

end State

/-! ## A round -/

/-- The state in front of the loops over the clients. -/
def served (s : State) (x : Round) : State := ((s.poll x).accept x.accepted).1

section Rounds

variable {s s' : State} {x : Round} {a : Access}

/-- The number of slots behind a round that serves. -/
theorem nfds_served (hpos : 0 < s.nfds) (h : x.Serves) :
    ((served s x).nfds = s.nfds + 1 ∧ x.Ready ∧ x.accepted ≠ none) ∨
      ((served s x).nfds = s.nfds ∧ (x.Ready → x.accepted = none)) := by
  rw [served, State.nfds_accept, State.fds_poll_lt hpos]
  split
  · next hready => exact .inl ⟨rfl, ⟨h, hready.1⟩, hready.2⟩
  · next hready => exact .inr ⟨rfl, fun hr => by_contra fun hne => hready ⟨hr.2, hne⟩⟩

/-- A round that does not go on to its clients. -/
theorem iteration_idle (hpos : 0 < s.nfds) (h : ¬ x.Serves) :
    iteration s x = (none, (List.range s.nfds).map Access.fds) ∨
      ∃ o, (o = none ∨ o = some (s.poll x)) ∧
        iteration s x = (o, (List.range s.nfds).map Access.fds ++ (s.poll x).tests 0) := by
  rw [iteration]
  cases hpoll : x.polled with
  | none => exact .inl rfl
  | some ret =>
    refine .inr ?_
    dsimp only
    split
    · exact ⟨none, .inl rfl, rfl⟩
    · next herr =>
      have hret : ret = 0 := by
        by_contra hne
        refine h ⟨⟨ret - 1, by rw [hpoll]; congr 1; omega⟩, ?_⟩
        rw [State.fds_poll_lt hpos] at herr
        exact Bool.eq_false_iff.2 herr
      rw [if_pos hret]
      exact ⟨some (s.poll x), .inr rfl, rfl⟩

/-- The accesses of a round that does not serve. -/
theorem mem_accesses_idle (hpos : 0 < s.nfds) (h : ¬ x.Serves) (ha : a ∈ accesses s x) :
    (∃ i < s.nfds, a = .fds i) ∨ a = .revents 0 (some s.polls) := by
  have hpolled : ∀ a ∈ (List.range s.nfds).map Access.fds, ∃ i < s.nfds, a = .fds i := by
    intro a ha
    obtain ⟨i, hi, rfl⟩ := List.mem_map.1 ha
    exact ⟨i, List.mem_range.1 hi, rfl⟩
  rw [accesses] at ha
  rcases iteration_idle hpos h with hidle | ⟨o, -, hidle⟩
  · rw [hidle] at ha
    exact .inl (hpolled a ha)
  · rw [hidle] at ha
    rcases List.mem_append.1 ha with ha | ha
    · exact .inl (hpolled a ha)
    · rw [State.tests, State.fds_poll_lt hpos] at ha
      simp only [List.mem_cons, List.not_mem_nil, or_false] at ha
      exact ha.imp_left fun h => ⟨0, hpos, h⟩

/-- A round that serves its clients. -/
theorem iteration_serves (hpos : 0 < s.nfds) (h : x.Serves) :
    let r := scan (State.recvSlot x.received) (served s x).clients (served s x)
    let c := scan State.closeSlot r.1.clients r.1
    iteration s x = (some c.1, (List.range s.nfds).map Access.fds ++ (s.poll x).tests 0 ++
      ((s.poll x).accept x.accepted).2 ++ r.2 ++ c.2) := by
  obtain ⟨⟨n, hn⟩, herr⟩ := h
  rw [iteration, hn]
  dsimp only
  rw [State.fds_poll_lt hpos]
  rw [if_neg (by rw [herr]; exact Bool.false_ne_true), if_neg (Nat.succ_ne_zero n)]
  rfl

/-- The accesses of such a round. -/
theorem mem_accesses (hpos : 0 < s.nfds) (h : x.Serves) : a ∈ accesses s x ↔
    (∃ i < s.nfds, a = .fds i) ∨ a = .revents 0 (some s.polls) ∨
      (has (x.revents 0) POLLIN = true ∧ a = .fds s.nfds) ∨
        ∃ cfd, 1 ≤ cfd ∧ cfd < (served s x).nfds ∧
          a ∈ ((served s x).recvSlot x.received cfd).2 := by
  have hrecv : ∀ s cfd c, ((State.recvSlot x.received s cfd).1.recvSlot x.received c).2 =
      (s.recvSlot x.received c).2 :=
    fun s cfd c => State.recvSlot_snd (State.recvSlot_alike x.received s cfd)
  have hclose : ∀ s cfd c, ((State.closeSlot s cfd).1.closeSlot c).2 = (s.closeSlot c).2 :=
    fun s cfd c => State.closeSlot_snd ((State.closeSlot_alike s cfd).written c)
      (State.revents_closeSlot s cfd c)
  have halike := State.scan_alike (State.recvSlot_alike x.received) (served s x).clients (served s x)
  rw [accesses, iteration_serves hpos h]
  simp only [List.mem_append, mem_scan hrecv, mem_scan hclose, halike.clients, mem_clients,
    State.mem_accept, State.mem_closeSlot, halike.written, State.fds_poll_lt hpos, State.tests,
    List.mem_map, List.mem_range]
  constructor
  · rintro ((((⟨i, hi, rfl⟩ | h) | rfl | rfl | h) | ⟨cfd, ⟨h₁, h₂⟩, h⟩) | ⟨cfd, ⟨h₁, h₂⟩, h⟩)
    · exact .inl ⟨i, hi, rfl⟩
    · simp only [List.mem_cons, List.not_mem_nil, or_false] at h
      exact h.imp (fun h => ⟨0, hpos, h⟩) .inl
    · exact .inl ⟨0, hpos, rfl⟩
    · exact .inr (.inl rfl)
    · exact .inr (.inr (.inl h))
    · exact .inr (.inr (.inr ⟨cfd, h₁, h₂, h⟩))
    · exact .inr (.inr (.inr ⟨cfd, h₁, h₂, State.mem_recvSlot.2 (h.imp_right .inl)⟩))
  · rintro (⟨i, hi, rfl⟩ | rfl | h | ⟨cfd, h₁, h₂, h⟩)
    · exact .inl (.inl (.inl (.inl ⟨i, hi, rfl⟩)))
    · exact .inl (.inl (.inr (.inr (.inl rfl))))
    · exact .inl (.inl (.inr (.inr (.inr h))))
    · exact .inl (.inr ⟨cfd, ⟨h₁, h₂⟩, h⟩)

/-- What a round does to the table. -/
theorem step_cases (hpos : 0 < s.nfds) (h : step s x = some s') :
    s'.polls = s.polls + 1 ∧ (∀ i, (s'.fds i).written = ((s.poll x).fds i).written) ∧
      (s'.nfds = s.nfds ∨ s'.nfds = s.nfds + 1 ∧ x.Ready ∧ x.accepted ≠ none) := by
  by_cases hserves : x.Serves
  · rw [step, iteration_serves hpos hserves] at h
    cases h
    have hrecv := State.scan_alike (State.recvSlot_alike x.received) (served s x).clients (served s x)
    have halike := hrecv.trans (State.scan_alike State.closeSlot_alike
      (scan (State.recvSlot x.received) (served s x).clients (served s x)).1.clients
      (scan (State.recvSlot x.received) (served s x).clients (served s x)).1)
    obtain ⟨hpolls, hcells⟩ := State.accept_cells (s.poll x) x.accepted
    refine ⟨halike.polls.trans hpolls, fun i => (halike.written i).trans (hcells i).1, ?_⟩
    rw [halike.nfds]
    exact (nfds_served hpos hserves).elim .inr fun h => .inl h.1
  · -- nothing is done but `poll`
    have hidle : s' = s.poll x := by
      rw [step] at h
      rcases iteration_idle hpos hserves with hi | ⟨o, ho, hi⟩
      · rw [hi] at h
        cases h
      · rw [hi] at h
        rcases ho with rfl | rfl
        · cases h
        · exact (Option.some.inj h).symm
    rw [hidle]
    exact ⟨rfl, fun _ => rfl, .inl rfl⟩

/-! ## Runs -/

/-- No cell was written by a call of `poll` that is still to come. -/
structure Inv (s : State) : Prop where
  pos : 0 < s.nfds
  past : ∀ i t, (s.fds i).written = some t → t < s.polls

/-- No cell of the table was written before the first `poll`. -/
theorem inv_start (garbage : Nat → Pollfd) (serv : Int) : Inv (start garbage serv) := by
  refine ⟨Nat.one_pos, fun i t h => ?_⟩
  have hnone : ((start garbage serv).fds i).written = none := by
    show (if i = 0 then _ else _ : Pollfd).written = none
    split <;> rfl
  rw [hnone] at h
  cases h

/-- **One round** keeps the invariant. -/
theorem Inv.step (hs : Inv s) (h : step s x = some s') : Inv s' := by
  obtain ⟨hpolls, hwritten, hnfds⟩ := step_cases hs.pos h
  have hpos := hs.pos
  refine ⟨by omega, fun i t ht => ?_⟩
  rw [hwritten] at ht
  by_cases hi : i < s.nfds
  · rw [State.fds_poll_lt hi] at ht
    cases ht
    omega
  · rw [State.fds_poll_ge (Nat.le_of_not_lt hi)] at ht
    have := hs.past i t ht
    omega

/-- What `poll` wrote stands where it wrote it. -/
theorem written_served (s : State) (x : Round) (i : Nat) :
    ((served s x).fds i).written = if i < s.nfds then some s.polls else (s.fds i).written := by
  rw [served, ((State.accept_cells (s.poll x) x.accepted).2 i).1]
  split
  · next hi => rw [State.fds_poll_lt hi]
  · next hi => rw [State.fds_poll_ge (Nat.le_of_not_lt hi)]

/-- The slots that are read are those with data when the first loop comes to them. -/
theorem reads_iff (hpos : 0 < s.nfds) (h : x.Serves) (cfd : Nat) : Reads s x cfd ↔
    1 ≤ cfd ∧ cfd < (served s x).nfds ∧ has ((served s x).fds cfd).revents POLLIN = true := by
  have hreadable : has ((served s x).fds cfd).revents POLLIN =
      has ((s.poll x).fds cfd).revents POLLIN := ((State.accept_cells (s.poll x) x.accepted).2 cfd).2
  rw [Reads, hreadable]
  refine and_congr_right fun _ => ?_
  rcases Nat.lt_trichotomy cfd s.nfds with hlt | rfl | hgt
  · rw [State.fds_poll_lt hlt]
    have hserved : cfd < (served s x).nfds := by
      rcases nfds_served hpos h with ⟨hnfds, -⟩ | ⟨hnfds, -⟩ <;> omega
    constructor
    · rintro (⟨-, hin⟩ | ⟨heq, -⟩)
      · exact ⟨hserved, hin⟩
      · omega
    · rintro ⟨-, hin⟩
      exact .inl ⟨hlt, hin⟩
  · -- the slot of a new connection
    rw [State.fds_poll_ge (Nat.le_refl s.nfds)]
    constructor
    · rintro (⟨hlt, -⟩ | ⟨-, hready, haccepted, hin⟩)
      · omega
      · rcases nfds_served hpos h with ⟨hnfds, -⟩ | ⟨-, hnone⟩
        · exact ⟨by omega, hin⟩
        · exact absurd (hnone hready) haccepted
    · rintro ⟨hlt, hin⟩
      rcases nfds_served hpos h with ⟨-, hready, haccepted⟩ | ⟨hnfds, -⟩
      · exact .inr ⟨rfl, hready, haccepted, hin⟩
      · omega
  · have hout : ¬ cfd < (served s x).nfds := by
      rcases nfds_served hpos h with ⟨hnfds, -⟩ | ⟨hnfds, -⟩ <;> omega
    constructor
    · rintro (⟨hlt, -⟩ | ⟨heq, -⟩) <;> omega
    · rintro ⟨hlt, -⟩
      exact absurd hlt hout

/-- The accesses of a round, with the slots that are read. -/
theorem accesses_cases (hpos : 0 < s.nfds) (h : x.Serves) (ha : a ∈ accesses s x) :
    (∃ i < s.nfds, a = .fds i) ∨ a = .revents 0 (some s.polls) ∨ (x.Ready ∧ a = .fds s.nfds) ∨
      ∃ cfd < (served s x).nfds, a = .fds cfd ∨ a = .revents cfd ((served s x).fds cfd).written ∨
        Reads s x cfd ∧ (x.received cfd = none ∧ a = .rbuf (-1) ∨ ∃ sbuf : Fin 1024, a = .rbuf sbuf.val) := by
  rcases (mem_accesses hpos h).1 ha with hpolled | hrevents | ⟨hin, hfds⟩ | ⟨cfd, h₁, h₂, hslot⟩
  · exact .inl hpolled
  · exact .inr (.inl hrevents)
  · exact .inr (.inr (.inl ⟨⟨h, hin⟩, hfds⟩))
  · refine .inr (.inr (.inr ⟨cfd, h₂, ?_⟩))
    rcases State.mem_recvSlot.1 hslot with hfds | hrevents | ⟨hin, hrbuf⟩
    · exact .inl hfds
    · exact .inr (.inl hrevents)
    · exact .inr (.inr ⟨(reads_iff hpos h cfd).2 ⟨h₁, h₂, hin⟩,
        hrbuf.imp_right fun ⟨sbuf, _, hrbuf⟩ => ⟨sbuf, hrbuf⟩⟩)

/-- The table is bounded as long as it is not full when a connection is waiting. -/
theorem inTable_iff (hs : Inv s) (hle : s.nfds ≤ MAXCLIENTS) : InTable s x ↔ NotFull s x := by
  have hzero : 0 < MAXCLIENTS := by decide
  by_cases hserves : x.Serves
  · constructor
    · intro h hready
      exact h (.fds s.nfds) ((mem_accesses hs.pos hserves).2 (.inr (.inr (.inl ⟨hready.2, rfl⟩))))
    · intro hfull a ha
      rcases accesses_cases hs.pos hserves ha with ⟨i, hi, rfl⟩ | rfl | ⟨hready, rfl⟩ | ⟨cfd, hcfd, hslot⟩
      · exact Nat.lt_of_lt_of_le hi hle
      · exact hzero
      · exact hfull hready
      · have hlt : cfd < MAXCLIENTS := by
          rcases nfds_served hs.pos hserves with ⟨hnfds, hready, -⟩ | ⟨hnfds, -⟩
          · have := hfull hready
            omega
          · omega
        rcases hslot with rfl | rfl | ⟨-, ⟨-, rfl⟩ | ⟨sbuf, rfl⟩⟩
        · exact hlt
        · exact hlt
        · trivial
        · trivial
  · refine iff_of_true (fun a ha => ?_) fun hready => absurd hready.1 hserves
    rcases mem_accesses_idle hs.pos hserves ha with ⟨i, hi, rfl⟩ | rfl
    · exact Nat.lt_of_lt_of_le hi hle
    · exact hzero

/-- The buffer is bounded as long as `recv` does not fail. -/
theorem inBuffer_iff (hs : Inv s) : InBuffer s x ↔ NoRecvError s x := by
  by_cases hserves : x.Serves
  · constructor
    · intro h _ cfd hreads hnone
      obtain ⟨h₁, h₂, hin⟩ := (reads_iff hs.pos hserves cfd).1 hreads
      have hslot : Access.rbuf (-1) ∈ ((served s x).recvSlot x.received cfd).2 :=
        State.mem_recvSlot.2 (.inr (.inr ⟨hin, .inl ⟨hnone, rfl⟩⟩))
      have hbad := h (.rbuf (-1))
        ((mem_accesses hs.pos hserves).2 (.inr (.inr (.inr ⟨cfd, h₁, h₂, hslot⟩))))
      exact absurd hbad.1 (by decide)
    · intro h a ha
      rcases accesses_cases hs.pos hserves ha with
        ⟨i, -, rfl⟩ | rfl | ⟨-, rfl⟩ | ⟨cfd, -, rfl | rfl | ⟨hreads, ⟨hnone, rfl⟩ | ⟨sbuf, rfl⟩⟩⟩
      · trivial
      · trivial
      · trivial
      · trivial
      · trivial
      · exact absurd hnone (h hserves cfd hreads)
      · have hlt := sbuf.isLt
        exact ⟨by omega, by omega⟩
  · refine iff_of_true (fun a ha => ?_) fun h => absurd h hserves
    rcases mem_accesses_idle hs.pos hserves ha with ⟨i, hi, rfl⟩ | rfl
    · trivial
    · trivial

/-- The tested values are current as long as no connection is accepted. -/
theorem current_iff (hs : Inv s) : Current s x ↔ NoAccept s x := by
  by_cases hserves : x.Serves
  · constructor
    · intro h hready
      rcases nfds_served hs.pos hserves with ⟨hnfds, -, -⟩ | ⟨-, hnone⟩
      · -- the cell of the new connection was not polled
        have hslot : Access.revents s.nfds ((served s x).fds s.nfds).written ∈
            ((served s x).recvSlot x.received s.nfds).2 := State.mem_recvSlot.2 (.inr (.inl rfl))
        have hcurrent := h _ ((mem_accesses hs.pos hserves).2
          (.inr (.inr (.inr ⟨s.nfds, hs.pos, by omega, hslot⟩))))
        have hwritten := written_served s x s.nfds
        rw [if_neg (Nat.lt_irrefl _)] at hwritten
        exact absurd (hs.past _ _ (hwritten.symm.trans hcurrent)) (Nat.lt_irrefl _)
      · exact hnone hready
    · intro hnone a ha
      rcases accesses_cases hs.pos hserves ha with
        ⟨i, -, rfl⟩ | rfl | ⟨-, rfl⟩ | ⟨cfd, hcfd, rfl | rfl | ⟨-, ⟨-, rfl⟩ | ⟨sbuf, rfl⟩⟩⟩
      · trivial
      · rfl
      · trivial
      · trivial
      · rcases nfds_served hs.pos hserves with ⟨-, hready, haccepted⟩ | ⟨hnfds, -⟩
        · exact absurd (hnone hready) haccepted
        · exact (written_served s x cfd).trans (if_pos (by omega))
      · trivial
      · trivial
  · refine iff_of_true (fun a ha => ?_) fun hready => absurd hready.1 hserves
    rcases mem_accesses_idle hs.pos hserves ha with ⟨i, hi, rfl⟩ | rfl
    · trivial
    · rfl

/-- Without connections nothing is out of bounds. -/
theorem safe_iff (hs : Inv s) (hone : s.nfds = 1) : Safe s x ↔ NoAccept s x := by
  constructor
  · exact fun h => (current_iff hs).1 h.2.2
  · intro h
    have hlt : s.nfds < MAXCLIENTS := by
      rw [hone]
      decide
    refine ⟨(inTable_iff hs (Nat.le_of_lt hlt)).2 fun _ => hlt, (inBuffer_iff hs).2 ?_,
      (current_iff hs).2 h⟩
    intro _ cfd hreads
    rcases hreads with ⟨h₁, ⟨h₂, -⟩ | ⟨-, hready, haccepted, -⟩⟩
    · omega
    · exact absurd (h hready) haccepted

end Rounds

/-- **When the server stays within bounds.** An index of the table is 128 exactly when a connection is
waiting and the table is full; an index of the buffer is -1 exactly when `recv` fails; and a tested
value is stale exactly when a connection is accepted. So all is well in the runs without a connection. -/
theorem client_table_safe_iff (garbage : Nat → Pollfd) (serv : Int) (xs : List Round) :
    (Throughout step InTable (start garbage serv) xs ↔ Throughout step NotFull (start garbage serv) xs) ∧
      (Throughout step InBuffer (start garbage serv) xs ↔
        Throughout step NoRecvError (start garbage serv) xs) ∧
      (Throughout step Current (start garbage serv) xs ↔
        Throughout step NoAccept (start garbage serv) xs) ∧
      (Throughout step Safe (start garbage serv) xs ↔
        Throughout step NoAccept (start garbage serv) xs) := by
  have hstart := inv_start garbage serv
  refine ⟨?_, ?_, ?_, ?_⟩
  · refine Throughout.iff_of_kept (I := fun s => Inv s ∧ s.nfds ≤ MAXCLIENTS)
      (fun s x s' hs hfull hstep => ⟨hs.1.step hstep, ?_⟩) (fun s x hs => inTable_iff hs.1 hs.2)
      ⟨hstart, show 1 ≤ MAXCLIENTS by decide⟩
    rcases (step_cases hs.1.pos hstep).2.2 with hnfds | ⟨hnfds, hready, -⟩
    · rw [hnfds]
      exact hs.2
    · rw [hnfds]
      exact hfull hready
  · exact Throughout.iff_of_kept (I := Inv) (fun s x s' hs _ hstep => hs.step hstep)
      (fun s x hs => inBuffer_iff hs) hstart
  · exact Throughout.iff_of_kept (I := Inv) (fun s x s' hs _ hstep => hs.step hstep)
      (fun s x hs => current_iff hs) hstart
  · refine Throughout.iff_of_kept (I := fun s => Inv s ∧ s.nfds = 1)
      (fun s x s' hs hnone hstep => ⟨hs.1.step hstep, ?_⟩) (fun s x hs => safe_iff hs.1 hs.2)
      ⟨hstart, rfl⟩
    rcases (step_cases hs.1.pos hstep).2.2 with hnfds | ⟨-, hready, haccepted⟩
    · rw [hnfds]
      exact hs.2
    · exact absurd (hnone hready) haccepted

/-- Nothing but zeros. -/
def zeroCells : Nat → Pollfd := fun _ => ⟨0, 0, 0, none⟩

/-- A first connection is accepted. -/
def firstClient : Round := ⟨some 1, fun _ => POLLIN, some 4, fun _ => some 5⟩

/-- The connection is reset. -/
def resetClient : Round := ⟨some 1, fun i => if i = 1 then POLLIN else 0, none, fun _ => none⟩

/-- The second slot is tested before it was polled, and a connection that is reset is `rbuf[-1]`. -/
theorem client_table_unsafe :
    ¬ Throughout step Safe (start zeroCells 3) [firstClient, resetClient] ∧
      Access.revents 1 none ∈ accesses (start zeroCells 3) firstClient ∧
        ∃ s, step (start zeroCells 3) firstClient = some s ∧
          Access.rbuf (-1) ∈ accesses s resetClient := by
  have hstale : Access.revents 1 none ∈ accesses (start zeroCells 3) firstClient := by decide
  refine ⟨fun h => ?_, hstale, _, rfl, by decide⟩
  have hcurrent : none = some 0 := h.1.2.2 _ hstale
  cases hcurrent

end ExamplePrograms.Onethread.Server
