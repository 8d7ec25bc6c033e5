import ExamplePrograms.Onethread.Sockbuf.Changes

/-!
# Transient failures

A `write` or `read` that fails with `EAGAIN` says nothing about the connection. `sockbuf_real_write`
takes it for a write of no bytes, but `sockbuf_got_writable` and `sockbuf_got_readable` take it for
the end of the connection. `TakenForEnd` is the condition that a step does so, and
`transient_run_leavesAlone_iff` says that it is the only way in which the module ends a connection
while the failures are transient.

A word that the loop tests is not always one that `poll` reported: the cell of a new entry holds what
the memory held. `Untainted` is the condition that no such word has one of the bits for an end;
`untainted_run` says when that is so.
-/

set_option autoImplicit false

namespace ExamplePrograms.Onethread.Sockbuf

open ExamplePrograms.Lib.Memory ExamplePrograms.Lib.Runs State

/-! ## The system calls of a step -/

/-- The answers of the kernel in a step. -/
def Action.kernel : Action → Kernel
  | .call _ k => k
  | .ret => {}
  | .run k => k

/-- The answer to the `write` of a step, when it makes one. -/
def Action.writeAnswer (c : Config) : Action → Option (Except Nat Nat)
  | .call (.write idx data len) k =>
      if sockbufIsvalid c.st idx then
        directWrite k c.st idx sockbufLevelWriteInternal (writeArgument data len)
      else none
  | .call (.on idx level (.write data)) k => directWrite k c.st idx level data
  | .run k =>
      match c.stack with
      | .writable idx false :: _ =>
          some (k.sysWrite (c.st.sbuf idx).sock (c.st.sbuf idx).buffered)
      | _ => none
  | _ => none

/-- The answer to the `read` of a step, when it makes one. -/
def Action.readAnswer (c : Config) : Action → Option (Except Nat (List UInt8))
  | .run k =>
      match c.stack with
      | .readable idx false :: _ => some (k.sysRead (c.st.sbuf idx).sock 4096)
      | _ => none
  | _ => none

/-- A read of no bytes. -/
def endOfFile : Option (Except Nat (List UInt8)) → Bool
  | some (.ok []) => true
  | _ => false

/-- The kernel reports no end of a connection in this step. -/
structure Transient (c : Config) (a : Action) : Prop where
  write : failsHard (a.writeAnswer c) = false
  read : failsHard (a.readAnswer c) = false
  data : endOfFile (a.readAnswer c) = false
  sockError : a.kernel.sockError = 0
  poll : (a.kernel.poll.getD []).any Revents.hangup = false

instance (c : Config) (a : Action) : Decidable (Transient c a) :=
  decidable_of_iff (failsHard (a.writeAnswer c) = false ∧ failsHard (a.readAnswer c) = false ∧
      endOfFile (a.readAnswer c) = false ∧ a.kernel.sockError = 0 ∧
      (a.kernel.poll.getD []).any Revents.hangup = false)
    ⟨fun h => ⟨h.1, h.2.1, h.2.2.1, h.2.2.2.1, h.2.2.2.2⟩,
      fun h => ⟨h.write, h.read, h.data, h.sockError, h.poll⟩⟩

/-! ## Connections that end -/

/-- A call of an `on_eof`, of a filter or of the user. -/
def Event.callsEof : Event → Bool
  | .callback ⟨_, _, _, .eof _⟩ => true
  | _ => false

/-- External code itself ends a connection or passes an end on. What is left of a deletion or a
shutdown belongs to its call. -/
def Action.asksEnd (c : Config) : Action → Bool
  | .call (.setSock ..) _ => true
  | .call (.close _) _ => true
  | .call .shutdown _ => true
  | .call (.on _ _ (.eof _)) _ => true
  | .run _ =>
      match c.stack with
      | .deleteFinish _ :: _ => true
      | .shutdown _ :: _ => true
      | _ => false
  | _ => false

/-- The module neither closes a sockbuf on its own in this step nor calls an `on_eof`. -/
def LeavesAlone (c : Config) (a : Action) : Prop :=
  ∀ c', step c a = some c' → a.asksEnd c = false →
    (∀ idx, sockbufIsvalid c.st idx = true → (c'.st.sbuf idx).sock = (c.st.sbuf idx).sock) ∧
      ∃ es, c'.trace = c.trace ++ es ∧ ∀ e ∈ es, e.callsEof = false

/-- Somebody would be told of an end of the sockbuf. -/
def SockbufT.hearsEof (sb : SockbufT) : Bool :=
  (sb.filterAbove sockbufLevelInternal SockbufFilter.onEof).isSome ||
    sb.handler.any SockbufHandler.onEof

/-- An end of the sockbuf has consequences: there is a socket to close or somebody to tell. -/
def noticesEnd (s : State) (idx : Nat) : Bool :=
  (sockbufIsvalid s idx && decide (0 ≤ (s.sbuf idx).sock)) || (s.sbuf idx).hearsEof

/-- The event loop writes or reads, the call fails, and this is noticed as an end. -/
def TakenForEnd (c : Config) : Action → Prop
  | .run k =>
      match c.stack with
      | .writable idx false :: _ =>
          noticesEnd c.st idx = true ∧
            (k.sysWrite (c.st.sbuf idx).sock (c.st.sbuf idx).buffered).isOk = false
      | .readable idx false :: _ =>
          noticesEnd c.st idx = true ∧ (k.sysRead (c.st.sbuf idx).sock 4096).isOk = false
      | _ => False
  | _ => False

instance : (c : Config) → (a : Action) → Decidable (TakenForEnd c a)
  | ⟨_, .writable _ false :: _, _⟩, .run _ => inferInstanceAs (Decidable (_ ∧ _))
  | ⟨_, .readable _ false :: _, _⟩, .run _ => inferInstanceAs (Decidable (_ ∧ _))
  | ⟨_, [], _⟩, .run _ | ⟨_, .external _ :: _, _⟩, .run _ | ⟨_, .writable _ true :: _, _⟩, .run _
  | ⟨_, .readable _ true :: _, _⟩, .run _ | ⟨_, .hangup _ :: _, _⟩, .run _
  | ⟨_, .scan _ _ :: _, _⟩, .run _ | ⟨_, .delete _ _ :: _, _⟩, .run _
  | ⟨_, .deleteFinish _ :: _, _⟩, .run _ | ⟨_, .shutdown _ :: _, _⟩, .run _
  | ⟨_, .crash :: _, _⟩, .run _ | ⟨_, _, _⟩, .call _ _ | ⟨_, _, _⟩, .ret => instDecidableFalse

/-- A word that the loop tests in this step has none of the bits for an end. -/
def Untainted (c : Config) : Action → Prop
  | .run _ =>
      match c.stack with
      | .scan i n :: _ =>
          n ≠ 0 → i < c.st.npollfds → (c.st.pollfds.getD i { fd := 0 }).revents.hangup = false
      | _ => True
  | _ => True

instance : (c : Config) → (a : Action) → Decidable (Untainted c a)
  | ⟨st, .scan i n :: _, _⟩, .run _ =>
      inferInstanceAs (Decidable (n ≠ 0 → i < st.npollfds → _ = false))
  | ⟨_, [], _⟩, .run _ | ⟨_, .external _ :: _, _⟩, .run _ | ⟨_, .writable _ _ :: _, _⟩, .run _
  | ⟨_, .readable _ _ :: _, _⟩, .run _ | ⟨_, .hangup _ :: _, _⟩, .run _
  | ⟨_, .delete _ _ :: _, _⟩, .run _ | ⟨_, .deleteFinish _ :: _, _⟩, .run _
  | ⟨_, .shutdown _ :: _, _⟩, .run _ | ⟨_, .crash :: _, _⟩, .run _
  | ⟨_, _, _⟩, .call _ _ | ⟨_, _, _⟩, .ret => instDecidableTrue

/-! ## Functions that end nothing -/

/-- No valid sockbuf loses its socket, and no user is told of an end. -/
structure Peaceful (s : State) (o : Outcome) : Prop where
  sock : ∀ idx, sockbufIsvalid s idx = true → (o.st.sbuf idx).sock = (s.sbuf idx).sock
  eof : ∀ e ∈ o.events, e.callsEof = false

namespace Peaceful

variable {s s' : State} {o : Outcome}

theorem of_same (h : SameTable s s') (ts : List Task) : Peaceful s { st := s', tasks := ts } :=
  ⟨fun idx _ => h.sock idx, fun _ he => absurd he List.not_mem_nil⟩

/-- A peaceful call behind a change that keeps the table. -/
theorem after (h : SameTable s s') (ho : Peaceful s' o) : Peaceful s o := by
  refine ⟨fun idx hv => ?_, ho.eof⟩
  rw [← h.isvalid] at hv
  exact (ho.sock idx hv).trans (h.sock idx)

theorem log {es : List Event} (hes : ∀ e ∈ es, e.callsEof = false) (ho : Peaceful s o) :
    Peaceful s (o.log es) := by
  refine ⟨ho.sock, fun e he => ?_⟩
  rcases List.mem_append.1 he with he | he
  · exact hes e he
  · exact ho.eof e he

/-- An event in front of a peaceful call. -/
theorem log_one {e : Event} (he : e.callsEof = false) (ho : Peaceful s o) :
    Peaceful s (o.log [e]) :=
  ho.log fun x hx => by
    rw [List.mem_singleton.1 hx]
    exact he

theorem log_iff {es : List Event} (hes : ∀ e ∈ es, e.callsEof = false) :
    Peaceful s (o.log es) ↔ Peaceful s o :=
  ⟨fun h => ⟨h.sock, fun e he => h.eof e (List.mem_append_right es he)⟩, log hes⟩

theorem log_one_iff {e : Event} (he : e.callsEof = false) : Peaceful s (o.log [e]) ↔ Peaceful s o :=
  log_iff (List.forall_mem_singleton.2 he)

theorem andThen (ho : Peaceful s o) (ts : List Task) : Peaceful s (o.andThen ts) :=
  ⟨ho.sock, ho.eof⟩

theorem invoke (s : State) {cb : Callback} (h : (Event.callback cb).callsEof = false) :
    Peaceful s (.invoke s cb) := by
  refine ⟨fun _ _ => rfl, fun e he => ?_⟩
  rw [List.mem_singleton.1 he]
  exact h

end Peaceful

section Functions

variable (s : State) (idx : Nat)

/-- A call of the user's handler is peaceful unless it tells of an end. -/
theorem peaceful_callHandler (defines : SockbufHandler → Bool) {call : Call}
    (h : ∀ cd, (Event.callback ⟨none, cd, idx, call⟩).callsEof = false) :
    Peaceful s (callHandler s idx defines call) := by
  rw [callHandler]
  split
  · exact .of_same (.refl s) _
  · split
    · exact .invoke s (h _)
    · exact .of_same (.refl s) _

theorem peaceful_sockbufOnConnect (k : Kernel) (level : Int) (peerIp : Option String)
    (peerPort : Int) : Peaceful s (sockbufOnConnect k s idx level peerIp peerPort) := by
  rw [sockbufOnConnect]
  split
  · exact .invoke s rfl
  · exact (peaceful_callHandler _ idx _ fun _ => rfl).after (.update s idx rfl rfl rfl)

theorem peaceful_sockbufOnNewclient (k : Kernel) (level : Int) (newidx : Nat)
    (peerIp : Option String) (peerPort : Int) :
    Peaceful s (sockbufOnNewclient k s idx level newidx peerIp peerPort) := by
  rw [sockbufOnNewclient]
  split
  · split
    · exact .invoke s rfl
    · exact .of_same (.refl s) _
  · exact (peaceful_callHandler _ idx _ fun _ => rfl).after (.update s newidx rfl rfl rfl)

theorem peaceful_sockbufOnRead (level : Int) (data : List UInt8) :
    Peaceful s (sockbufOnRead s idx level data) := by
  rw [sockbufOnRead]
  split
  · exact .invoke s rfl
  · split
    · exact .of_same (.refl s) _
    · exact (peaceful_callHandler _ idx _ fun _ => rfl).after (.update s idx rfl rfl rfl)

theorem peaceful_sockbufOnWritten (level : Int) (len remaining : Nat) :
    Peaceful s (sockbufOnWritten s idx level len remaining) := by
  rw [sockbufOnWritten]
  split
  · exact .invoke s rfl
  · exact peaceful_callHandler s idx _ fun _ => rfl

/-! ### The output path -/

theorem sameTable_countWrite (nbytes : Nat) : SameTable s (countWrite s idx nbytes) := by
  rw [countWrite]
  split
  · exact .update s idx rfl rfl rfl
  · exact .refl s

theorem sameTable_writeRest (data : List UInt8) (nbytes : Nat) :
    SameTable s (writeRest s idx data nbytes) := by
  rw [writeRest]
  split
  · exact .refl s
  · exact (SameTable.block s idx).trans (.update _ idx rfl rfl rfl)

theorem sameTable_drainOutput (nbytes : Nat) : SameTable s (drainOutput s idx nbytes) := by
  have hdrain : SameTable s (s.update idx fun sb => sb.drain nbytes) := .update s idx rfl rfl rfl
  rw [drainOutput]
  split
  · exact hdrain.trans (.unblock _ idx)
  · exact hdrain.trans (.update _ idx rfl rfl rfl)

/-- A write that fails only with `EAGAIN` ends nothing. -/
theorem peaceful_sockbufRealWrite {k : Kernel} {data : List UInt8}
    (h : (s.sbuf idx).flags.block = false →
      failsHard (some (k.sysWrite (s.sbuf idx).sock data)) = false) :
    Peaceful s (sockbufRealWrite k s idx data) := by
  rw [sockbufRealWrite]
  split
  · exact .of_same (.update s idx rfl rfl rfl) _
  · next hb =>
    have hsoft := h (by simpa using hb)
    split
    · next err herr =>
      rw [herr] at hsoft
      have hagain : err = eagain := by simpa [failsHard] using hsoft
      rw [if_pos hagain]
      exact Peaceful.log_one (e := .writeFailed idx err) rfl
        (.of_same (sameTable_writeRest s idx data 0) [])
    · next nbytes _ =>
      have hsame := (sameTable_countWrite s idx nbytes).trans (sameTable_writeRest _ idx data nbytes)
      exact Peaceful.log_one (e := .wrote idx (data.take nbytes)) rfl (.of_same hsame [])

/-- A write is peaceful unless it fails hard. -/
theorem peaceful_sockbufOnWrite {k : Kernel} {level : Int} {data : List UInt8}
    (h : failsHard (directWrite k s idx level data) = false) :
    Peaceful s (sockbufOnWrite k s idx level data) := by
  rw [sockbufOnWrite]
  split
  · exact .invoke s rfl
  · next hnone =>
    refine peaceful_sockbufRealWrite s idx fun hb => ?_
    rwa [directWrite, if_neg (by simp [hb]), hnone] at h

/-- `sockbuf_write` is peaceful unless it fails hard. -/
theorem peaceful_sockbufWrite {k : Kernel} {data : List UInt8} {len : Int}
    (h : sockbufIsvalid s idx = true →
      failsHard (directWrite k s idx sockbufLevelWriteInternal (writeArgument data len)) = false) :
    Peaceful s (sockbufWrite k s idx data len) := by
  rw [sockbufWrite]
  split
  · next hv =>
    refine Peaceful.log_one rfl (Peaceful.after ?_ (peaceful_sockbufOnWrite _ idx ?_))
    · exact .update s idx rfl rfl rfl
    · rw [directWrite_countSubmit]
      exact h hv
  · exact .of_same (.refl s) _

/-! ### Functions without callbacks -/

theorem sameTable_sockbufRead : SameTable s (sockbufRead s idx) := by
  rw [sockbufRead]
  split
  · exact .updateEntry s idx fun _ => rfl
  · exact .refl s

theorem sameTable_sockbufNoread : SameTable s (sockbufNoread s idx) := by
  rw [sockbufNoread]
  split
  · exact .updateEntry s idx fun _ => rfl
  · exact .refl s

theorem sameTable_sockbufSetHandler (handler : SockbufHandler) (clientData : Nat) :
    SameTable s (sockbufSetHandler s idx handler clientData) := by
  rw [sockbufSetHandler]
  split
  · exact .update s idx rfl rfl rfl
  · exact .refl s

theorem sameTable_sockbufAttachFilter (filter : SockbufFilter) (clientData : Nat) :
    SameTable s (sockbufAttachFilter s idx filter clientData) := by
  rw [sockbufAttachFilter]
  split
  · exact .update s idx rfl rfl rfl
  · exact .refl s

theorem sameTable_sockbufDetachFilter (filter : SockbufFilter) :
    SameTable s (sockbufDetachFilter s idx filter) := by
  have hkeep : ∀ sb : SockbufT, (sb.detachFilter filter).sock = sb.sock ∧
      (sb.detachFilter filter).flags = sb.flags := by
    intro sb
    rw [SockbufT.detachFilter]
    split <;> exact ⟨rfl, rfl⟩
  rw [sockbufDetachFilter]
  split
  · exact .update s idx (hkeep _).1 (by rw [(hkeep _).2]) (by rw [(hkeep _).2])
  · exact .refl s

/-! ### The event loop -/

/-- The test of a connection without an error is peaceful. -/
theorem peaceful_sockbufGotWritableClient {k : Kernel} (h : k.sockError = 0) :
    Peaceful s (sockbufGotWritableClient k s idx) := by
  rw [sockbufGotWritableClient, if_neg (by simp [h])]
  refine (peaceful_sockbufOnConnect _ idx k _ _ _).after ?_
  have hconnected : SameTable s
      (s.update idx fun sb => { sb with flags := { sb.flags with connecting := false } }) :=
    .update s idx rfl rfl rfl
  dsimp only
  split
  · exact hconnected.trans (.unblock _ idx)
  · exact hconnected

/-- The test for writing is peaceful where the socket takes bytes. -/
theorem peaceful_sockbufGotWritable {k : Kernel} {nbytes : Nat}
    (h : k.sysWrite (s.sbuf idx).sock (s.sbuf idx).buffered = .ok nbytes) :
    Peaceful s (sockbufGotWritable k s idx) := by
  rw [sockbufGotWritable, h]
  dsimp only
  split
  · exact ((peaceful_sockbufOnWritten _ idx _ _ _).after (sameTable_drainOutput s idx _)).log_one rfl
  · exact .of_same (.refl s) _

/-- The test for reading is peaceful where there are data. -/
theorem peaceful_sockbufGotReadable {k : Kernel} {data : List UInt8} (hne : data ≠ [])
    (h : k.sysRead (s.sbuf idx).sock 4096 = .ok data) :
    Peaceful s (sockbufGotReadable k s idx) := by
  rw [sockbufGotReadable, h]
  cases data with
  | nil => exact absurd rfl hne
  | cons b data => exact (peaceful_sockbufOnRead _ idx _ _).after (.update s idx rfl rfl rfl)

/-- The slot that `sockbuf_new` takes is not valid, and the valid ones stay. -/
theorem valid_sockbufNew {s : State} {j : Nat} (hv : sockbufIsvalid s j = true) :
    j ≠ firstAvail s ∧ (sockbufNew s).1.sbuf j = s.sbuf j ∧
      sockbufIsvalid (sockbufNew s).1 j = true := by
  obtain ⟨hlt, havail, hdel⟩ := sockbufIsvalid_iff.1 hv
  have hne : j ≠ firstAvail s := by
    rintro rfl
    rw [avail_firstAvail hlt] at havail
    cases havail
  have hold := sbuf_sockbufNew_old hne hlt
  refine ⟨hne, hold, sockbufIsvalid_iff.2 ⟨?_, ?_, ?_⟩⟩
  · exact Nat.lt_of_lt_of_le hlt (nsockbufs_le_sockbufNew s)
  · rw [hold, havail]
  · rw [hold, hdel]

/-- A connection that is accepted is peaceful. -/
theorem peaceful_sockbufGotReadableServer (k : Kernel) :
    Peaceful s (sockbufGotReadableServer k s idx) := by
  rw [sockbufGotReadableServer]
  dsimp only
  split
  · exact .of_same (.refl s) _
  · generalize k.sysAccept (s.sbuf idx).sock = sock
    have hcall := peaceful_sockbufOnNewclient
      (sockbufSetSock k (sockbufNew s).1 (sockbufNew s).2 sock { inbound := true }) idx k
      sockbufLevelInternal (sockbufNew s).2 k.acceptPeer.1 k.acceptPeer.2
    refine Peaceful.log (fun e he => ?_) ⟨fun j hv => ?_, hcall.eof⟩
    · simp only [List.mem_cons, List.not_mem_nil, or_false] at he
      rcases he with rfl | rfl <;> rfl
    · obtain ⟨hne, hold, hv'⟩ := valid_sockbufNew hv
      have hset : (sockbufSetSock k (sockbufNew s).1 (sockbufNew s).2 sock { inbound := true }).sbuf j =
          s.sbuf j :=
        (sbuf_sockbufSetSock_ne (sockbufIsvalid_sockbufNew s) sock hne).trans hold
      refine (hcall.sock j ?_).trans (congrArg SockbufT.sock hset)
      rw [isvalid_sockbufSetSock ⟨rfl, rfl⟩ (sockbufIsvalid_sockbufNew s)]
      exact hv'

/-- A deletion that begins is peaceful. -/
theorem peaceful_sockbufDelete : Peaceful s (sockbufDelete s idx) := by
  rw [sockbufDelete]
  split
  · refine ⟨fun j _ => sbuf_update_keeps s idx _ SockbufT.sock rfl j, fun e he => ?_⟩
    rw [List.mem_singleton.1 he]
    rfl
  · exact .of_same (.refl s) _

theorem peaceful_sockbufDeleteCallbacks (i : Nat) :
    Peaceful s (sockbufDeleteCallbacks s idx i) := by
  rw [sockbufDeleteCallbacks]
  split
  · split
    · exact .of_same (.refl s) _
    · split
      · exact (Peaceful.invoke s rfl).andThen _
      · exact .of_same (.refl s) _
  · exact (peaceful_callHandler s idx _ fun _ => rfl).andThen _

/-- The begin of a pass is peaceful. -/
theorem peaceful_sockbufUpdateAll (k : Kernel) : Peaceful s (sockbufUpdateAll k s) := by
  refine ⟨fun j _ => (SameTable.sockbufUpdateAll k s).sock j, fun e he => ?_⟩
  rcases mem_events_sockbufUpdateAll he with rfl | rfl | ⟨reports, rfl⟩ <;> rfl

/-- The head of the loop is peaceful. -/
theorem peaceful_updateScan (i n : Nat) : Peaceful s (updateScan s i n) := by
  rw [updateScan]
  dsimp only
  split
  · split
    · exact .of_same (.refl s) _
    · exact .of_same (.refl s) _
  · refine ⟨fun j _ => ?_, fun e he => ?_⟩
    -- a reclaimed slot keeps its socket
    · rcases sbuf_updateFinish s j with heq | ⟨-, heq⟩
      · rw [heq]
      · rw [heq]
    · rw [(updateFinish_cases s).1] at he
      rw [List.mem_singleton.1 he]
      rfl

/-! ### An end -/

/-- An end is told to nobody exactly when nobody hears of it. -/
theorem sockbufOnEof_silent_iff (err : Nat) :
    (∀ e ∈ (sockbufOnEof s idx sockbufLevelInternal err).events, e.callsEof = false) ↔
      (s.sbuf idx).hearsEof = false := by
  rw [sockbufOnEof, SockbufT.hearsEof]
  cases hf : (s.sbuf idx).filterAbove sockbufLevelInternal SockbufFilter.onEof with
  | some e => simp [callFilter, Outcome.invoke, Event.callsEof]
  | none =>
    dsimp only
    rw [callHandler]
    cases hh : (s.sbuf idx).handler with
    | none => simp [Outcome.crash]
    | some h => cases hd : h.onEof <;> simp [hd, Outcome.invoke, Event.callsEof]

theorem hearsEof_setSock (k : Kernel) (sb : SockbufT) (sock : Int) (flags : Flags) :
    (sb.setSock k sock flags).hearsEof = sb.hearsEof := by
  rw [SockbufT.setSock]
  dsimp only
  split <;> rfl

theorem hearsEof_sockbufClose (k : Kernel) :
    ((sockbufClose k s idx).sbuf idx).hearsEof = (s.sbuf idx).hearsEof := by
  rw [sockbufClose]
  split
  · next h => rw [sbuf_sockbufSetSock_self h.1, hearsEof_setSock]
  · rfl

/-- An end that is found is peaceful exactly when nobody notices it. -/
theorem peaceful_sockbufGotEof_iff (k : Kernel) (err : Nat) :
    Peaceful s (sockbufGotEof k s idx err) ↔ noticesEnd s idx = false := by
  have hst : ∀ err, (sockbufOnEof (sockbufClose k s idx) idx sockbufLevelInternal err).st =
      sockbufClose k s idx := fun err => sockbufOnEof_st _ idx _ err
  have hheard := fun err => sockbufOnEof_silent_iff (sockbufClose k s idx) idx err
  rw [hearsEof_sockbufClose] at hheard
  rw [noticesEnd, Bool.or_eq_false_iff, ← hheard (if err = 0 then k.sockError else err)]
  constructor
  · intro h
    refine ⟨?_, h.eof⟩
    by_contra hopen
    obtain ⟨hv, hsock⟩ : sockbufIsvalid s idx = true ∧ 0 ≤ (s.sbuf idx).sock := by
      simpa using hopen
    -- the socket that is closed becomes -1
    have hkeep := h.sock idx hv
    rw [sockbufGotEof, hst, sockbufClose, if_pos ⟨hv, hsock⟩, sbuf_sockbufSetSock_self hv,
      setSock_sock] at hkeep
    omega
  · rintro ⟨hclosed, hes⟩
    refine ⟨fun j _ => ?_, hes⟩
    have hno : ¬ (sockbufIsvalid s idx = true ∧ 0 ≤ (s.sbuf idx).sock) := by simpa using hclosed
    rw [sockbufGotEof, hst, sockbufClose, if_neg hno]

end Functions

/-! ## Steps -/

/-- **A call that does not ask for the end** is peaceful where the kernel answers no more than a transient
error. -/
theorem peaceful_apply {c : Config} {f : Api} {k : Kernel} {o : Outcome}
    (ht : Transient c (.call f k)) (hf : Action.asksEnd c (.call f k) = false)
    (h : f.apply k c.st = some o) : Peaceful c.st o := by
  have hsoft := ht.write
  cases f with
  | new =>
    cases h
    refine ⟨fun j hv => congrArg SockbufT.sock (valid_sockbufNew hv).2.1, fun e he => ?_⟩
    rw [List.mem_singleton.1 he]
    rfl
  | setSock idx sock flags => cases hf
  | close idx => cases hf
  | delete idx => cases h; exact peaceful_sockbufDelete c.st idx
  | write idx data len =>
    cases h
    refine peaceful_sockbufWrite c.st idx fun hv => ?_
    rwa [Action.writeAnswer, if_pos hv] at hsoft
  | read idx => cases h; exact .of_same (sameTable_sockbufRead c.st idx) _
  | noread idx => cases h; exact .of_same (sameTable_sockbufNoread c.st idx) _
  | attachListener fd =>
    cases h
    refine ⟨fun _ _ => rfl, fun e he => ?_⟩
    rw [List.mem_singleton.1 he]
    rfl
  | detachListener fd =>
    cases h
    refine ⟨fun j _ => ?_, fun e he => ?_⟩
    · rw [sockbufDetachListener]
      dsimp only
      split <;> rfl
    · rw [List.mem_singleton.1 he]
      rfl
  | setHandler idx handler clientData =>
    cases h
    exact .of_same (sameTable_sockbufSetHandler c.st idx handler clientData) _
  | attachFilter idx filter clientData =>
    cases h
    exact .of_same (sameTable_sockbufAttachFilter c.st idx filter clientData) _
  | detachFilter idx filter =>
    cases h
    exact .of_same (sameTable_sockbufDetachFilter c.st idx filter) _
  | on idx level call =>
    cases call with
    | connect peerIp peerPort => cases h; exact peaceful_sockbufOnConnect c.st idx k level peerIp peerPort
    | eof err => cases hf
    | newclient newidx peerIp peerPort =>
      cases h; exact peaceful_sockbufOnNewclient c.st idx k level newidx peerIp peerPort
    | read data => cases h; exact peaceful_sockbufOnRead c.st idx level data
    | write data => cases h; exact peaceful_sockbufOnWrite c.st idx hsoft
    | written len remaining => cases h; exact peaceful_sockbufOnWritten c.st idx level len remaining
    | delete => cases h
  | updateAll => cases h; exact peaceful_sockbufUpdateAll c.st k
  | shutdown => cases hf

/-- The test for writing is peaceful unless an error is noticed. -/
theorem peaceful_gotWritable_iff {s : State} {idx : Nat} {k : Kernel} :
    Peaceful s (sockbufGotWritable k s idx) ↔
      ¬ (noticesEnd s idx = true ∧
        (k.sysWrite (s.sbuf idx).sock (s.sbuf idx).buffered).isOk = false) := by
  cases hw : k.sysWrite (s.sbuf idx).sock (s.sbuf idx).buffered with
  | error err =>
    rw [sockbufGotWritable, hw]
    dsimp only
    rw [Peaceful.log_one_iff rfl, peaceful_sockbufGotEof_iff]
    simp [Except.isOk, Except.toBool]
  | ok nbytes =>
    refine iff_of_true (peaceful_sockbufGotWritable s idx hw) ?_
    rintro ⟨-, hfail⟩
    cases hfail

/-- The test for reading is peaceful unless an error is noticed. -/
theorem peaceful_gotReadable_iff {s : State} {idx : Nat} {k : Kernel}
    (hdata : endOfFile (some (k.sysRead (s.sbuf idx).sock 4096)) = false) :
    Peaceful s (sockbufGotReadable k s idx) ↔
      ¬ (noticesEnd s idx = true ∧ (k.sysRead (s.sbuf idx).sock 4096).isOk = false) := by
  cases hr : k.sysRead (s.sbuf idx).sock 4096 with
  | error err =>
    rw [sockbufGotReadable, hr]
    dsimp only
    rw [peaceful_sockbufGotEof_iff]
    simp [Except.isOk, Except.toBool]
  | ok data =>
    have hne : data ≠ [] := by
      rintro rfl
      rw [hr] at hdata
      cases hdata
    refine iff_of_true (peaceful_sockbufGotReadable s idx hne hr) ?_
    rintro ⟨-, hfail⟩
    cases hfail

/-- The tasks of the loop but the test for an end. -/
theorem peaceful_exec_iff {c : Config} {k : Kernel} {t : Task} {rest : List Task} {o : Outcome}
    (hs : c.stack = t :: rest) (ht : Transient c (.run k))
    (hf : Action.asksEnd c (.run k) = false) (hh : ∀ idx, t ≠ .hangup idx)
    (h : t.exec k c.st = some o) : Peaceful c.st o ↔ ¬ TakenForEnd c (.run k) := by
  have hdata := ht.data
  rw [Action.readAnswer, hs] at hdata
  rw [Action.asksEnd, hs] at hf
  rw [TakenForEnd, hs]
  cases t with
  | external cb => cases h
  | crash => cases h
  | writable idx connecting =>
    cases h
    rw [Peaceful.log_one_iff rfl]
    cases connecting with
    | true => exact iff_of_true (peaceful_sockbufGotWritableClient c.st idx ht.sockError) id
    | false => exact peaceful_gotWritable_iff
  | readable idx server =>
    cases h
    rw [Peaceful.log_one_iff rfl]
    cases server with
    | true => exact iff_of_true (peaceful_sockbufGotReadableServer c.st idx k) id
    | false => exact peaceful_gotReadable_iff hdata
  | hangup idx => exact absurd rfl (hh idx)
  | scan i n => cases h; exact iff_of_true (peaceful_updateScan c.st i n) id
  | delete idx i => cases h; exact iff_of_true (peaceful_sockbufDeleteCallbacks c.st idx i) id
  | deleteFinish idx => cases hf
  | shutdown i => cases hf

/-! ## Words that the loop tests -/

/-- No test for an end is left on the stack. -/
def NoHangup (ts : List Task) : Prop := ∀ t ∈ ts, ∀ idx, t ≠ .hangup idx

@[simp] theorem noHangup_nil : NoHangup [] := fun _ ht => absurd ht List.not_mem_nil

@[simp] theorem noHangup_cons {t : Task} {ts : List Task} :
    NoHangup (t :: ts) ↔ (∀ idx, t ≠ .hangup idx) ∧ NoHangup ts := List.forall_mem_cons

@[simp] theorem noHangup_append {ts us : List Task} : NoHangup (ts ++ us) ↔ NoHangup ts ∧ NoHangup us :=
  List.forall_mem_append

/-- A mild step leaves no hangup to be tested. -/
theorem Mild.noHangup {T : Nat → Prop} {s : State} {o : Outcome} (h : Mild T s o) :
    NoHangup o.tasks := by
  rintro t ht idx rfl
  exact h.plain _ ht

theorem noHangup_callHandler (s : State) (idx : Nat) (defines : SockbufHandler → Bool) (call : Call) :
    NoHangup (callHandler s idx defines call).tasks := by
  rw [callHandler]
  split
  · simp [Outcome.crash]
  · split
    · simp [Outcome.invoke]
    · exact noHangup_nil

theorem noHangup_sockbufDelete (s : State) (idx : Nat) : NoHangup (sockbufDelete s idx).tasks := by
  rw [sockbufDelete]
  split
  · simp
  · exact noHangup_nil

theorem noHangup_sockbufShutdownLoop (s : State) (i : Nat) :
    NoHangup (sockbufShutdownLoop s i).tasks := by
  cases i with
  | zero => exact noHangup_nil
  | succ i =>
    refine noHangup_append.2 ⟨noHangup_sockbufDelete s _, ?_⟩
    simp

/-- A call of the module leaves no hangup to be tested. -/
theorem noHangup_apply {f : Api} {k : Kernel} {s : State} {o : Outcome} (h : f.apply k s = some o) :
    NoHangup o.tasks := by
  cases hf : f.Structural with
  | false => exact (mild_apply (T := fun _ => True) s hf (fun _ _ => trivial) h).noHangup
  | true =>
    cases f with
    | new => cases h; exact noHangup_nil
    | setSock idx sock flags => cases h; exact noHangup_nil
    | delete idx => cases h; exact noHangup_sockbufDelete s idx
    | attachListener fd => cases h; exact noHangup_nil
    | detachListener fd => cases h; exact noHangup_nil
    | updateAll =>
      cases h
      rw [sockbufUpdateAll]
      split <;> simp
    | shutdown => cases h; exact noHangup_sockbufShutdownLoop s _
    | _ => cases hf

theorem noHangup_eventTasks {revents : Revents} (h : revents.hangup = false) (idx : Nat)
    (flags : Flags) : NoHangup (eventTasks revents idx flags) := by
  rw [eventTasks, h, noHangup_append, noHangup_append]
  refine ⟨⟨?_, ?_⟩, noHangup_nil⟩
  · split <;> simp
  · split <;> simp

/-- A word without a hangup leaves none to be tested. -/
theorem noHangup_updateScan {s : State} {i n : Nat}
    (h : n ≠ 0 → i < s.npollfds → (s.pollfds.getD i { fd := 0 }).revents.hangup = false) :
    NoHangup (updateScan s i n).tasks := by
  rw [updateScan]
  dsimp only
  split
  · next hin =>
    split
    · simp
    · refine noHangup_append.2 ⟨noHangup_eventTasks (h hin.1 hin.2) _ _, ?_⟩
      simp
  · rw [(updateFinish_cases s).2.1]
    exact noHangup_nil

theorem noHangup_sockbufDeleteCallbacks (s : State) (idx i : Nat) :
    NoHangup (sockbufDeleteCallbacks s idx i).tasks := by
  rw [sockbufDeleteCallbacks]
  split
  · split
    · simp [Outcome.andThen, Outcome.crash]
    · split
      · simp [Outcome.andThen, callFilter, Outcome.invoke]
      · simp
  · refine noHangup_append.2 ⟨noHangup_callHandler s idx _ _, ?_⟩
    simp

/-- **A task** leaves no hangup to be tested where the word has none. -/
theorem noHangup_exec {c : Config} {k : Kernel} {t : Task} {rest : List Task} {o : Outcome}
    (hs : c.stack = t :: rest) (hu : Untainted c (.run k)) (h : t.exec k c.st = some o) :
    NoHangup o.tasks := by
  rw [Untainted, hs] at hu
  have hmild : ∀ {o : Outcome} {es : List Event}, Mild (fun _ => True) c.st o →
      NoHangup (o.log es).tasks := fun ho => ho.noHangup
  cases t with
  | external cb => cases h
  | crash => cases h
  | writable idx connecting =>
    cases h
    refine hmild ?_
    split
    · exact mild_sockbufGotWritableClient c.st idx k
    · exact mild_sockbufGotWritable c.st idx trivial k
  | readable idx server =>
    cases h
    cases server with
    | true =>
      show NoHangup (sockbufGotReadableServer k c.st idx).tasks
      rw [sockbufGotReadableServer]
      dsimp only
      split
      · exact noHangup_nil
      · rw [Outcome.log_tasks]
        exact (mild_sockbufOnNewclient (T := fun _ => True) _ idx k _ _ _ _).noHangup
    | false => exact hmild (mild_sockbufGotReadable c.st idx k)
  | hangup idx => cases h; exact hmild (mild_sockbufGotEof c.st idx k 0)
  | scan i n => cases h; exact noHangup_updateScan hu
  | delete idx i => cases h; exact noHangup_sockbufDeleteCallbacks c.st idx i
  | deleteFinish idx => cases h; exact noHangup_nil
  | shutdown i => cases h; exact noHangup_sockbufShutdownLoop c.st i

/-- **One step** keeps the stack free of hangups. -/
theorem noHangup_step {c c' : Config} {a : Action} (hu : Untainted c a) (hc : NoHangup c.stack)
    (h : step c a = some c') : NoHangup c'.stack := by
  rcases step_cases h with ⟨f, k, o, rfl, -, ho, rfl⟩ | ⟨cb, rest, rfl, hs, rfl⟩ |
    ⟨k, t, rest, o, rfl, hs, ho, rfl⟩
  · exact noHangup_append.2 ⟨noHangup_apply ho, hc⟩
  · rw [hs] at hc
    exact (noHangup_cons.1 hc).2
  · rw [hs] at hc
    exact noHangup_append.2 ⟨noHangup_exec hs hu ho, (noHangup_cons.1 hc).2⟩

/-- What is taken for an end is done by a task of the loop. -/
theorem TakenForEnd.exec {c : Config} {a : Action} (h : TakenForEnd c a) :
    ∃ k t rest o, a = .run k ∧ c.stack = t :: rest ∧ t.exec k c.st = some o ∧
      a.asksEnd c = false := by
  cases a with
  | call f k => exact absurd h id
  | ret => exact absurd h id
  | run k =>
    rw [TakenForEnd] at h
    split at h
    · next idx rest hs => exact ⟨k, _, rest, _, rfl, hs, rfl, by rw [Action.asksEnd, hs]⟩
    · next idx rest hs => exact ⟨k, _, rest, _, rfl, hs, rfl, by rw [Action.asksEnd, hs]⟩
    · exact absurd h id

/-- Where no test for an end is left on the stack. -/
theorem leavesAlone_iff {c : Config} (hstack : NoHangup c.stack) {a : Action}
    (ha : Transient c a) : LeavesAlone c a ↔ ¬ TakenForEnd c a := by
  constructor
  · intro hcalm htaken
    obtain ⟨k, t, rest, o, rfl, hs, ho, hask⟩ := htaken.exec
    obtain ⟨hsock, es, htr, heof⟩ := hcalm _ (by rw [step, hs]; dsimp only; rw [ho]; rfl) hask
    have hpeace : Peaceful c.st o := ⟨hsock, List.append_cancel_left htr ▸ heof⟩
    exact (peaceful_exec_iff hs ha hask (hstack t (hs ▸ List.mem_cons_self)) ho).1 hpeace htaken
  · intro hnot c' hstep hask
    have hafter : ∀ (rest : List Task) (o : Outcome), Peaceful c.st o →
        (∀ idx, sockbufIsvalid c.st idx = true →
            ((c.after rest o).st.sbuf idx).sock = (c.st.sbuf idx).sock) ∧
          ∃ es, (c.after rest o).trace = c.trace ++ es ∧ ∀ e ∈ es, e.callsEof = false :=
      fun rest o ho => ⟨ho.sock, o.events, rfl, ho.eof⟩
    rcases step_cases hstep with ⟨f, k, o, rfl, -, ho, rfl⟩ | ⟨cb, rest, rfl, -, rfl⟩ |
      ⟨k, t, rest, o, rfl, hs, ho, rfl⟩
    · exact hafter c.stack o (peaceful_apply ha hask ho)
    · exact ⟨fun _ _ => rfl, [], (List.append_nil _).symm, fun _ he => absurd he List.not_mem_nil⟩
    · exact hafter rest o
        ((peaceful_exec_iff hs ha hask (hstack t (hs ▸ List.mem_cons_self)) ho).2 hnot)

/-- **Only a failed write or read of the event loop is taken for an end.** In a run in which the kernel
reports no end and the loop tests no left-over word with the bits for one, the module leaves all
connections alone exactly when the event loop never writes or reads in vain for a sockbuf whose end is
noticed. -/
theorem transient_run_leavesAlone_iff {xs : List Action}
    (h : Throughout step (fun c a => Transient c a ∧ Untainted c a) start xs) :
    Throughout step LeavesAlone start xs ↔
      Throughout step (fun c a => ¬ TakenForEnd c a) start xs :=
  Throughout.iff_of_invariant (I := fun c => NoHangup c.stack)
    (fun _ _ _ hc hok hs => noHangup_step hok.2 hc hs) (fun _ _ hc hok => leavesAlone_iff hc hok.1)
    noHangup_nil h

/-- A write that would block, and the rest of it when the socket is ready. -/
def retriedRun : List Action :=
  [.call .new {}, .call (.setSock 0 5 {}) {},
    .call (.write 0 [104, 105] 2) { write := .error eagain },
    .call .updateAll { poll := some [{ pollout := true }] }, .run {},
    .run { write := .ok 2 }, .run {}]

/-- A run in which every write is tried again. -/
theorem retried_run_leavesAlone : Throughout step LeavesAlone start retriedRun :=
  (transient_run_leavesAlone_iff (by decide)).2 (by decide)

/-- A socket that is readable no more when the loop reads from it. -/
def spuriousRun : List Action :=
  [.call .new {}, .call (.setSock 0 5 {}) {}, .call (.setHandler 0 { onEof := true } 0) {},
    .call .updateAll { poll := some [{ pollin := true }] }, .run {},
    .run { read := .error eagain }]

/-- The failed read closes the sockbuf and calls the user's `on_eof`. -/
theorem spurious_readiness_ends :
    Throughout step (fun c a => Transient c a ∧ Untainted c a) start spuriousRun ∧
      ¬ Throughout step LeavesAlone start spuriousRun ∧
      ∃ c, execute step Transient start spuriousRun = some c ∧ (c.st.sbuf 0).sock = -1 ∧
        c.trace.any Event.callsEof = true := by
  refine ⟨by decide, fun h => ?_, _, rfl, rfl, rfl⟩
  -- the last step closes a valid sockbuf
  obtain ⟨-, -, -, -, -, hlast, -⟩ := h
  exact absurd ((hlast _ rfl rfl).1 0 rfl) (by decide)

/-! ## Where tainted words come from -/

/-- No cell of `pollfds` has one of the bits for an end. -/
def CleanWords (s : State) : Prop := ∀ p ∈ s.pollfds, p.revents.hangup = false

/-- Neither `poll` nor the memory that `realloc` adds holds such a bit. -/
structure Kernel.Clean (k : Kernel) : Prop where
  poll : (k.poll.getD []).any Revents.hangup = false
  fresh : k.fresh.revents.hangup = false

instance (k : Kernel) : Decidable k.Clean :=
  decidable_of_iff ((k.poll.getD []).any Revents.hangup = false ∧ k.fresh.revents.hangup = false)
    ⟨fun h => ⟨h.1, h.2⟩, fun h => ⟨h.poll, h.fresh⟩⟩

section CleanWords

variable {s s' : State} {k : Kernel}

theorem CleanWords.of_mem (h : CleanWords s) (hmem : ∀ p ∈ s'.pollfds, p ∈ s.pollfds) :
    CleanWords s' :=
  fun p hp => h p (hmem p hp)

theorem CleanWords.modify (h : CleanWords s) {i : Nat} {f : Pollfd → Pollfd}
    (hf : ∀ p, (f p).revents = p.revents) (hs : s'.pollfds = s.pollfds.modify i f) :
    CleanWords s' := by
  intro p hp
  rw [hs] at hp
  obtain ⟨j, hj⟩ := List.mem_iff_getElem?.1 hp
  rw [List.getElem?_modify] at hj
  obtain ⟨q, hq, hqp⟩ := Option.map_eq_some_iff.1 hj
  have hclean := h q (List.mem_of_getElem? hq)
  rw [← hqp]
  split
  · rw [hf]
    exact hclean
  · exact hclean

/-- A change of an entry keeps the words clean. -/
theorem CleanWords.updateEntry (h : CleanWords s) (idx : Nat) {f : Pollfd → Pollfd}
    (hf : ∀ p, (f p).revents = p.revents) : CleanWords (s.updateEntry idx f) := by
  rw [State.updateEntry]
  split
  · exact h.modify hf rfl
  · exact h

/-- The new entry holds what the memory held. -/
theorem CleanWords.appendEntry (h : CleanWords s) (hk : k.Clean) (idx : Nat) :
    CleanWords (s.appendEntry k idx) := by
  intro p hp
  rcases mem_realloc (mem_memmove hp) with hp | rfl
  · exact h p hp
  · exact hk.fresh

/-- `sockbuf_set_sock` keeps the words clean. -/
theorem CleanWords.sockbufSetSock (h : CleanWords s) (hk : k.Clean) (idx : Nat) (sock : Int)
    (flags : Flags) : CleanWords (sockbufSetSock k s idx sock flags) := by
  rw [Sockbuf.sockbufSetSock]
  split
  · exact h
  · dsimp only
    split
    · split
      · exact h
      · exact h.of_mem fun p hp => mem_memmove hp
    · refine CleanWords.modify (f := fun p => p.watch sock flags) ?_ (fun _ => rfl) rfl
      split
      · exact CleanWords.appendEntry h hk idx
      · exact h

theorem CleanWords.sockbufAttachListener (h : CleanWords s) (hk : k.Clean) (fd : Int) :
    CleanWords (sockbufAttachListener k s fd) := by
  intro p hp
  rcases List.mem_or_eq_of_mem_set hp with hp | rfl
  · rcases mem_realloc hp with hp | rfl
    · exact h p hp
    · exact hk.fresh
  · rfl

/-- A poll writes clean words. -/
theorem CleanWords.sockbufUpdateAll (h : CleanWords s) (hk : k.Clean) :
    CleanWords (sockbufUpdateAll k s).st := by
  rw [Sockbuf.sockbufUpdateAll]
  split
  · exact h
  · next words hwords =>
    have hpoll := hk.poll
    rw [hwords] at hpoll
    intro p hp
    obtain ⟨i, hi, rfl⟩ := List.mem_mapIdx.1 hp
    split
    -- a word that `poll` wrote
    · rw [List.getD_eq_getElem?_getD]
      cases hget : words[i]? with
      | none => rfl
      | some w => simpa using List.any_eq_false.1 hpoll w (List.mem_of_getElem? hget)
    · exact h _ (List.getElem_mem hi)

theorem CleanWords.sockbufDetachListener (h : CleanWords s) (fd : Int) :
    CleanWords (sockbufDetachListener s fd) := by
  rw [Sockbuf.sockbufDetachListener]
  split
  · exact h.of_mem fun p hp => mem_memmove hp
  · exact h

theorem CleanWords.sockbufDeleteFinish (h : CleanWords s) (idx : Nat) :
    CleanWords (sockbufDeleteFinish s idx) := by
  rw [Sockbuf.sockbufDeleteFinish]
  split
  · exact h
  · exact h.of_mem fun p hp => mem_memmove hp

theorem CleanWords.effect {T : Nat → Prop} {es : List Event} (h : CleanWords s)
    (he : Effect T s es s') : CleanWords s' := by
  cases he with
  | note _ => exact h
  | detail _ => exact h
  | connected _ => exact h
  | output _ _ _ _ => exact h
  | block _ => exact CleanWords.updateEntry (s := s.update _ _) h _ fun _ => rfl
  | unblock _ => exact CleanWords.updateEntry (s := s.update _ _) h _ fun _ => rfl
  | watch hf => exact h.updateEntry _ fun p => (hf p).2.1
  -- closing removes an entry and adds none
  | close k hv =>
    rw [Sockbuf.sockbufSetSock, if_neg (by simp [hv])]
    dsimp only
    rw [if_pos rfl]
    split
    · exact h
    · exact h.of_mem fun p hp => mem_memmove hp

/-- Every change keeps the words clean. -/
theorem CleanWords.change {es : List Event} (h : CleanWords s) (hc : Change Kernel.Clean s es s') :
    CleanWords s' := by
  cases hc with
  | effect he => exact h.effect he
  | create => exact h
  | setSock hk idx sock flags => exact h.sockbufSetSock hk idx sock flags
  | mark _ => exact h
  | deleteFinish idx => exact h.sockbufDeleteFinish idx
  | attachListener hk fd => exact h.sockbufAttachListener hk fd
  | detachListener fd => exact h.sockbufDetachListener fd
  | poll hk => exact h.sockbufUpdateAll hk
  | dispatch _ _ => exact h
  | finish =>
    rcases (updateFinish_cases s).2.2 with heq | heq
    · rw [heq]
      exact h
    · rw [heq]
      exact h

theorem CleanWords.works {o : Outcome} (h : CleanWords s) (ho : Works Kernel.Clean s o) :
    CleanWords o.st :=
  ho.changes.keeps (fun _ _ _ h hc => CleanWords.change h hc) h

theorem CleanWords.shutdownLoop (h : CleanWords s) (i : Nat) :
    CleanWords (sockbufShutdownLoop s i).st := by
  cases i with
  | zero => exact fun _ hp => absurd hp List.not_mem_nil
  | succ i =>
    show CleanWords (sockbufDelete s _).st
    rw [sockbufDelete]
    split
    · exact h
    · exact h

end CleanWords

/-- **One step** keeps the words clean. -/
theorem cleanWords_step {c c' : Config} {a : Action} (hk : a.kernel.Clean) (hc : CleanWords c.st)
    (h : step c a = some c') : CleanWords c'.st := by
  rcases step_cases h with ⟨f, k, o, rfl, -, ho, rfl⟩ | ⟨cb, rest, rfl, hs, rfl⟩ |
    ⟨k, t, rest, o, rfl, hs, ho, rfl⟩
  · by_cases hf : f = .shutdown
    · subst hf
      cases ho
      exact hc.shutdownLoop c.st.npollfds
    · exact hc.works (works_apply hk hf ho)
  · exact hc
  · by_cases ht : ∃ i, t = .shutdown i
    · obtain ⟨i, rfl⟩ := ht
      cases ho
      exact hc.shutdownLoop i
    · refine hc.works (works_exec hk ?_ ho)
      cases t with
      | shutdown i => exact absurd ⟨i, rfl⟩ ht
      | _ => trivial

/-- Clean words hold no hangup. -/
theorem CleanWords.untainted {c : Config} (h : CleanWords c.st) (a : Action) : Untainted c a := by
  unfold Untainted
  split
  · split
    · next i _ _ _ =>
      intro _ _
      rw [List.getD_eq_getElem?_getD]
      cases hget : c.st.pollfds[i]? with
      | none => rfl
      | some p => exact h p (List.mem_of_getElem? hget)
    · trivial
  · trivial

/-- Only memory that was never written to taints a word: where `poll` reports no end and `realloc` adds
no cell with a bit for one, the loop never tests such a word. -/
theorem untainted_run {xs : List Action}
    (h : Throughout step (fun _ a => a.kernel.Clean) start xs) :
    Throughout step Untainted start xs :=
  Throughout.of_invariant (I := fun c => CleanWords c.st)
    (fun _ _ _ hc hk hs => cleanWords_step hk hc hs) (fun _ a hc _ => hc.untainted a)
    (fun _ hp => absurd hp List.not_mem_nil) h

end ExamplePrograms.Onethread.Sockbuf
