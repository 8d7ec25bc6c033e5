import ExamplePrograms.Onethread.Sockbuf.Machine

/-!
# What the functions of the module can do

`Effect T` lists the changes that the functions of the module make to its state, apart from those
that hand out, give a socket to or delete a sockbuf and those of the event loop itself. `T` holds of
the sockbufs whose output path may be used. `Evolve T` is a sequence of such changes with the events
it leaves, and `Mild T s o` says that the outcome `o` of a function called in `s` is one, and that it
leaves at most a callback on the stack.

One lemma for each function says that its outcome is mild. Invariants are then proved once for each
`Effect`.
-/

set_option autoImplicit false

namespace ExamplePrograms.Onethread.Sockbuf

open ExamplePrograms.Lib.Memory

/-- What the output path depends on in a record. -/
def SockbufT.core (sb : SockbufT) :
    Int × Flags × List UInt8 × Nat × List SockbufFilter × Option (UInt64 × UInt64 × UInt64) :=
  (sb.sock, sb.flags, sb.data, sb.len, sb.filters.take sb.nfilters,
    sb.stats.map fun st => (st.rawBytesOut, st.bytesOut, st.rawBytesLeft))

/-- Events of callbacks and of the output path of the sockbufs in `T`. -/
def Event.Quiet (T : Nat → Prop) : Event → Prop
  | .callback _ => True
  | .submitted idx _ => T idx
  | .wrote idx _ => T idx
  | .writeFailed idx _ => T idx
  | _ => False

/-- An elementary change of a function that creates, deletes and connects no sockbuf. `T` holds of the
sockbufs that are written or filtered. -/
inductive Effect (T : Nat → Prop) : State → List Event → State → Prop
  | note {s : State} {es : List Event} (h : ∀ e ∈ es, e.Quiet T) : Effect T s es s
  | detail {s : State} {idx : Nat} {f : SockbufT → SockbufT}
      (hf : (f (s.sbuf idx)).core = (s.sbuf idx).core) : Effect T s [] (s.update idx f)
  | connected {s : State} (idx : Nat) :
      Effect T s []
        (s.update idx fun sb => { sb with flags := { sb.flags with connecting := false } })
  | output {s : State} {idx : Nat} {f : SockbufT → SockbufT} (hT : T idx)
      (hsock : (f (s.sbuf idx)).sock = (s.sbuf idx).sock)
      (hflags : (f (s.sbuf idx)).flags = (s.sbuf idx).flags)
      (hlen : idx < s.nsockbufs → (s.sbuf idx).len < (f (s.sbuf idx)).len →
        (s.sbuf idx).flags.block = true) :
      Effect T s [] (s.update idx f)
  | block {s : State} {idx : Nat} (hT : T idx) : Effect T s [] (sockbufBlock s idx)
  | unblock {s : State} {idx : Nat} (h : (s.sbuf idx).len = 0) :
      Effect T s [] (sockbufUnblock s idx)
  | watch {s : State} {idx : Nat} {f : Pollfd → Pollfd}
      (hf : ∀ p, (f p).fd = p.fd ∧ (f p).revents = p.revents ∧
        (f p).events.pollout = p.events.pollout) : Effect T s [] (s.updateEntry idx f)
  | close {s : State} {idx : Nat} (k : Kernel) (h : sockbufIsvalid s idx = true) :
      Effect T s [] (sockbufSetSock k s idx (-1) {})

/-- A sequence of effects. -/
inductive Evolve (T : Nat → Prop) : State → List Event → State → Prop
  | refl (s : State) : Evolve T s [] s
  | snoc {s s' s'' : State} {es fs : List Event} :
      Evolve T s es s' → Effect T s' fs s'' → Evolve T s (es ++ fs) s''

/-- A property of the state and the events so far that every effect keeps. -/
theorem Evolve.invariant {T : Nat → Prop} {I : State → List Event → Prop}
    (hstep : ∀ s es s' tr, I s tr → Effect T s es s' → I s' (tr ++ es)) {s s' : State}
    {es tr : List Event} (h : Evolve T s es s') (hI : I s tr) : I s' (tr ++ es) := by
  induction h with
  | refl => simpa using hI
  | snoc _ heff ih =>
    rw [← List.append_assoc]
    exact hstep _ _ _ _ ih heff

variable {T : Nat → Prop}

/-- A property of the state alone. -/
theorem Evolve.keeps {P : State → Prop} (hstep : ∀ s es s', P s → Effect T s es s' → P s')
    {s s' : State} {es : List Event} (h : Evolve T s es s') (hP : P s) : P s' := by
  induction h with
  | refl => exact hP
  | snoc _ heff ih => exact hstep _ _ _ ih heff

/-- One effect. -/
theorem Effect.evolve {s s' : State} {es : List Event} (h : Effect T s es s') : Evolve T s es s' := by
  have := Evolve.snoc (.refl s) h
  simpa using this

/-- Effects, one behind the other. -/
theorem Evolve.trans {s s' s'' : State} {es fs : List Event} (h : Evolve T s es s')
    (h' : Evolve T s' fs s'') : Evolve T s (es ++ fs) s'' := by
  induction h' with
  | refl => simpa using h
  | snoc _ heff ih =>
    rw [← List.append_assoc]
    exact .snoc ih heff

theorem Evolve.then {s s' s'' : State} (h : Evolve T s [] s') (h' : Effect T s' [] s'') :
    Evolve T s [] s'' :=
  h.trans h'.evolve

theorem Effect.quiet {s s' : State} {es : List Event} (h : Effect T s es s') :
    ∀ e ∈ es, e.Quiet T := by
  cases h with
  | note h => exact h
  | _ => exact fun e he => absurd he List.not_mem_nil

/-- A mild step makes only quiet events. -/
theorem Evolve.quiet {s s' : State} {es : List Event} (h : Evolve T s es s') :
    ∀ e ∈ es, e.Quiet T := by
  induction h with
  | refl => exact fun e he => absurd he List.not_mem_nil
  | snoc _ heff ih =>
    intro e he
    rcases List.mem_append.1 he with he | he
    · exact ih e he
    · exact heff.quiet e he

/-- A task that a mild function leaves: a callback other than `on_delete`, or a crash. -/
def Task.Plain : Task → Prop
  | .external cb => cb.call ≠ .delete
  | .crash => True
  | _ => False

/-- A call whose effects are mild and which leaves plain tasks. -/
structure Mild (T : Nat → Prop) (s : State) (o : Outcome) : Prop where
  evolve : Evolve T s o.events o.st
  plain : ∀ t ∈ o.tasks, t.Plain

namespace Mild

theorem of_evolve {s s' : State} (h : Evolve T s [] s') : Mild T s { st := s' } :=
  ⟨h, fun _ ht => absurd ht List.not_mem_nil⟩

theorem of_effect {s s' : State} (h : Effect T s [] s') : Mild T s { st := s' } :=
  of_evolve h.evolve

theorem same (s : State) : Mild T s { st := s } := of_evolve (.refl s)

theorem crash (s : State) : Mild T s (.crash s) :=
  ⟨.refl s, fun t ht => by rw [List.mem_singleton.1 ht]; trivial⟩

/-- A callback is mild. -/
theorem invoke (s : State) {cb : Callback} (h : cb.call ≠ .delete) : Mild T s (.invoke s cb) := by
  refine ⟨Effect.evolve (.note fun e he => ?_), fun t ht => ?_⟩
  · rw [List.mem_singleton.1 he]
    trivial
  · rw [List.mem_singleton.1 ht]
    exact h

/-- Mild after a change of the state. -/
theorem after {s s' : State} {o : Outcome} (h : Evolve T s [] s') (ho : Mild T s' o) :
    Mild T s o :=
  ⟨h.trans ho.evolve, ho.plain⟩

theorem log {s : State} {o : Outcome} {es : List Event} (hes : ∀ e ∈ es, e.Quiet T)
    (ho : Mild T s o) : Mild T s (o.log es) :=
  ⟨(Effect.evolve (.note hes)).trans ho.evolve, ho.plain⟩

/-- An event in front of a mild call. -/
theorem log_one {s : State} {o : Outcome} {e : Event} (he : e.Quiet T) (ho : Mild T s o) :
    Mild T s (o.log [e]) :=
  ho.log fun x hx => by
    rw [List.mem_singleton.1 hx]
    exact he

end Mild

/-! ## The dispatchers -/

variable (s : State) (idx : Nat)

/-- A call of a filter is mild. -/
theorem mild_callFilter (e : SockbufFilter × Nat) {call : Call} (h : call ≠ .delete) :
    Mild T s (callFilter s idx e call) :=
  .invoke s h

/-- A call of the user's handler is mild. -/
theorem mild_callHandler (defines : SockbufHandler → Bool) {call : Call} (h : call ≠ .delete) :
    Mild T s (callHandler s idx defines call) := by
  rw [callHandler]
  split
  · exact .crash s
  · split
    · exact .invoke s h
    · exact .same s

theorem callHandler_st (defines : SockbufHandler → Bool) (call : Call) :
    (callHandler s idx defines call).st = s := by
  rw [callHandler]
  split
  · rfl
  · split <;> rfl

theorem sockbufOnEof_st (level : Int) (err : Nat) : (sockbufOnEof s idx level err).st = s := by
  rw [sockbufOnEof]
  split
  · rfl
  · exact callHandler_st s idx _ _

theorem sockbufOnWritten_st (level : Int) (len remaining : Nat) :
    (sockbufOnWritten s idx level len remaining).st = s := by
  rw [sockbufOnWritten]
  split
  · rfl
  · exact callHandler_st s idx _ _

/-- `sockbuf_on_eof` is mild. -/
theorem mild_sockbufOnEof (level : Int) (err : Nat) : Mild T s (sockbufOnEof s idx level err) := by
  rw [sockbufOnEof]
  split
  · exact mild_callFilter s idx _ (by simp)
  · exact mild_callHandler s idx _ (by simp)

/-- `sockbuf_on_written` is mild. -/
theorem mild_sockbufOnWritten (level : Int) (len remaining : Nat) :
    Mild T s (sockbufOnWritten s idx level len remaining) := by
  rw [sockbufOnWritten]
  split
  · exact mild_callFilter s idx _ (by simp)
  · exact mild_callHandler s idx _ (by simp)

@[simp] theorem core_setPeer (k : Kernel) (sb : SockbufT) (peerIp : Option String) (peerPort : Int) :
    (sb.setPeer k peerIp peerPort).core = sb.core := rfl

/-- `sockbuf_on_connect` is mild. -/
theorem mild_sockbufOnConnect (k : Kernel) (level : Int) (peerIp : Option String) (peerPort : Int) :
    Mild T s (sockbufOnConnect k s idx level peerIp peerPort) := by
  rw [sockbufOnConnect]
  split
  · exact mild_callFilter s idx _ (by simp)
  · exact (mild_callHandler _ idx _ (by simp)).after
      (Effect.evolve (.detail (core_setPeer k _ peerIp peerPort)))

/-- `sockbuf_on_newclient` is mild. -/
theorem mild_sockbufOnNewclient (k : Kernel) (level : Int) (newidx : Nat) (peerIp : Option String)
    (peerPort : Int) : Mild T s (sockbufOnNewclient k s idx level newidx peerIp peerPort) := by
  rw [sockbufOnNewclient]
  split
  · split
    · exact mild_callFilter s idx _ (by simp)
    · exact .crash s
  · exact (mild_callHandler _ idx _ (by simp)).after
      (Effect.evolve (.detail (core_setPeer k _ peerIp peerPort)))

/-- `sockbuf_on_read` is mild. -/
theorem mild_sockbufOnRead (level : Int) (data : List UInt8) :
    Mild T s (sockbufOnRead s idx level data) := by
  rw [sockbufOnRead]
  split
  · exact mild_callFilter s idx _ (by simp)
  · split
    · exact .crash s
    · next stats hstats =>
      refine (mild_callHandler _ idx _ (by simp)).after (Effect.evolve (.detail ?_))
      simp [SockbufT.core, hstats]

/-- `sockbuf_close` is mild. -/
theorem evolve_sockbufClose (k : Kernel) : Evolve T s [] (sockbufClose k s idx) := by
  rw [sockbufClose]
  split
  · next h => exact Effect.evolve (.close k h.1)
  · exact .refl s

/-- An end that is found is mild. -/
theorem mild_sockbufGotEof (k : Kernel) (err : Nat) : Mild T s (sockbufGotEof k s idx err) :=
  (mild_sockbufOnEof _ idx _ _).after (evolve_sockbufClose s idx k)

/-! ## The output path -/

theorem evolve_countWrite (hT : T idx) (nbytes : Nat) : Evolve T s [] (countWrite s idx nbytes) := by
  rw [countWrite]
  split
  · exact Effect.evolve (.output hT rfl rfl fun _ h => absurd h (Nat.lt_irrefl _))
  · exact .refl s

theorem sockbufBlock_block (h : idx < s.nsockbufs) :
    ((sockbufBlock s idx).sbuf idx).flags.block = true := by
  simp [sockbufBlock, State.sbuf_update_self _ _ _ h]

/-- Bytes that are buffered are a mild change. -/
theorem evolve_writeRest (hT : T idx) (data : List UInt8) (nbytes : Nat) :
    Evolve T s [] (writeRest s idx data nbytes) := by
  rw [writeRest]
  split
  · exact .refl s
  · refine (Effect.evolve (.block hT)).then (.output hT rfl rfl fun hlt _ => ?_)
    exact sockbufBlock_block s idx (by simpa [sockbufBlock] using hlt)

/-- A write to the socket is mild. -/
theorem mild_sockbufRealWrite (hT : T idx) (k : Kernel) (data : List UInt8) :
    Mild T s (sockbufRealWrite k s idx data) := by
  rw [sockbufRealWrite]
  split
  · next hb => exact .of_effect (.output hT rfl rfl fun _ _ => hb)
  · split
    -- a write error: `EAGAIN` keeps the data, another one ends the connection
    · next err _ =>
      split
      · have hrest : Mild T s { st := writeRest s idx data 0 } :=
          .of_evolve (evolve_writeRest s idx hT data 0)
        exact hrest.log_one (e := .writeFailed idx err) hT
      · exact (mild_sockbufGotEof s idx k err).log_one hT
    · next nbytes _ =>
      have hrest : Mild T s { st := writeRest (countWrite s idx nbytes) idx data nbytes } :=
        .of_evolve ((evolve_countWrite s idx hT nbytes).trans (evolve_writeRest _ idx hT data nbytes))
      exact hrest.log_one (e := .wrote idx (data.take nbytes)) hT

/-- `sockbuf_on_write` is mild. -/
theorem mild_sockbufOnWrite (hT : T idx) (k : Kernel) (level : Int) (data : List UInt8) :
    Mild T s (sockbufOnWrite k s idx level data) := by
  rw [sockbufOnWrite]
  split
  · exact mild_callFilter s idx _ (by simp)
  · exact mild_sockbufRealWrite s idx hT k data

/-- `sockbuf_write` is mild. -/
theorem mild_sockbufWrite (hT : T idx) (k : Kernel) (data : List UInt8) (len : Int) :
    Mild T s (sockbufWrite k s idx data len) := by
  rw [sockbufWrite]
  split
  · refine Mild.log_one hT ?_
    exact (mild_sockbufOnWrite _ idx hT k _ _).after
      (Effect.evolve (.output hT rfl rfl fun _ h => absurd h (Nat.lt_irrefl _)))
  · exact .same s

/-- The test of a connection is mild. -/
theorem mild_sockbufGotWritableClient (k : Kernel) : Mild T s (sockbufGotWritableClient k s idx) := by
  rw [sockbufGotWritableClient]
  split
  · exact mild_sockbufGotEof s idx k _
  · refine (mild_sockbufOnConnect _ idx k _ _ _).after ?_
    refine (Effect.evolve (.connected idx)).trans ?_
    split
    · next h => exact Effect.evolve (.unblock h)
    · exact .refl _

theorem evolve_drainOutput (hT : T idx) (nbytes : Nat) :
    Evolve T s [] (drainOutput s idx nbytes) := by
  unfold drainOutput
  have hdrain : Evolve T s [] (s.update idx fun sb => sb.drain nbytes) := by
    refine Effect.evolve (.output hT rfl rfl fun _ h => ?_)
    exact absurd (Nat.lt_of_lt_of_le h (Nat.sub_le _ _)) (Nat.lt_irrefl _)
  -- the length only goes down
  refine hdrain.trans ?_
  dsimp only
  split
  · next h => exact Effect.evolve (.unblock h)
  · exact Effect.evolve (.output hT rfl rfl fun _ h => absurd h (Nat.lt_irrefl _))

/-- The test for writing is mild. -/
theorem mild_sockbufGotWritable (hT : T idx) (k : Kernel) :
    Mild T s (sockbufGotWritable k s idx) := by
  rw [sockbufGotWritable]
  split
  · exact (mild_sockbufGotEof s idx k _).log_one hT
  · split
    · exact ((mild_sockbufOnWritten _ idx _ _ _).after (evolve_drainOutput s idx hT _)).log_one hT
    · exact .same s

/-- The test for reading is mild. -/
theorem mild_sockbufGotReadable (k : Kernel) : Mild T s (sockbufGotReadable k s idx) := by
  rw [sockbufGotReadable]
  split
  · exact mild_sockbufGotEof s idx k _
  · exact mild_sockbufGotEof s idx k _
  · refine (mild_sockbufOnRead _ idx _ _).after (Effect.evolve (.detail ?_))
    simp [SockbufT.core, statsIn, Function.comp_def]

/-! ## Functions without callbacks -/

theorem evolve_sockbufRead : Evolve T s [] (sockbufRead s idx) := by
  rw [sockbufRead]
  split
  · exact Effect.evolve (.watch fun p => ⟨rfl, rfl, rfl⟩)
  · exact .refl s

theorem evolve_sockbufNoread : Evolve T s [] (sockbufNoread s idx) := by
  rw [sockbufNoread]
  split
  · exact Effect.evolve (.watch fun p => ⟨rfl, rfl, rfl⟩)
  · exact .refl s

theorem evolve_sockbufSetHandler (handler : SockbufHandler) (clientData : Nat) :
    Evolve T s [] (sockbufSetHandler s idx handler clientData) := by
  rw [sockbufSetHandler]
  split
  · exact Effect.evolve (.detail rfl)
  · exact .refl s

theorem evolve_sockbufAttachFilter (hT : T idx) (filter : SockbufFilter) (clientData : Nat) :
    Evolve T s [] (sockbufAttachFilter s idx filter clientData) := by
  rw [sockbufAttachFilter]
  split
  · exact Effect.evolve (.output hT rfl rfl fun _ h => absurd h (Nat.lt_irrefl _))
  · exact .refl s

theorem evolve_sockbufDetachFilter (hT : T idx) (filter : SockbufFilter) :
    Evolve T s [] (sockbufDetachFilter s idx filter) := by
  rw [sockbufDetachFilter]
  split
  · have hkeep : ∀ sb : SockbufT, (sb.detachFilter filter).sock = sb.sock ∧
        (sb.detachFilter filter).flags = sb.flags ∧ (sb.detachFilter filter).len = sb.len := by
      intro sb
      rw [SockbufT.detachFilter]
      split <;> exact ⟨rfl, rfl, rfl⟩
    refine Effect.evolve (.output hT (hkeep _).1 (hkeep _).2.1 fun _ h => ?_)
    rw [(hkeep _).2.2] at h
    exact absurd h (Nat.lt_irrefl _)
  · exact .refl s

/-- The sockbufs whose output path or filter chain a call may use. -/
def Api.Uses (f : Api) (idx : Nat) : Prop :=
  match f with
  | .write j _ _ => j = idx
  | .on j _ (.write _) => j = idx
  | .attachFilter j _ _ => j = idx
  | .detachFilter j _ => j = idx
  | _ => False

/-- The calls that are not mild: they hand out, connect or delete sockbufs, or are about listeners,
the event loop or the whole module. -/
def Api.Structural : Api → Bool
  | .new => true
  | .setSock .. => true
  | .delete _ => true
  | .attachListener _ => true
  | .detachListener _ => true
  | .updateAll => true
  | .shutdown => true
  | _ => false

/-- **Calls that are not structural are mild.** -/
theorem mild_apply {k : Kernel} {f : Api} {o : Outcome} (hf : f.Structural = false)
    (hT : ∀ j, f.Uses j → T j) (h : f.apply k s = some o) : Mild T s o := by
  cases f with
  | close idx => cases h; exact .of_evolve (evolve_sockbufClose s idx k)
  | write idx data len => cases h; exact mild_sockbufWrite s idx (hT idx rfl) k data len
  | read idx => cases h; exact .of_evolve (evolve_sockbufRead s idx)
  | noread idx => cases h; exact .of_evolve (evolve_sockbufNoread s idx)
  | setHandler idx handler clientData =>
    cases h; exact .of_evolve (evolve_sockbufSetHandler s idx handler clientData)
  | attachFilter idx filter clientData =>
    cases h; exact .of_evolve (evolve_sockbufAttachFilter s idx (hT idx rfl) filter clientData)
  | detachFilter idx filter =>
    cases h; exact .of_evolve (evolve_sockbufDetachFilter s idx (hT idx rfl) filter)
  | on idx level call =>
    cases call with
    | connect peerIp peerPort => cases h; exact mild_sockbufOnConnect s idx k level peerIp peerPort
    | eof err => cases h; exact mild_sockbufOnEof s idx level err
    | newclient newidx peerIp peerPort =>
      cases h; exact mild_sockbufOnNewclient s idx k level newidx peerIp peerPort
    | read data => cases h; exact mild_sockbufOnRead s idx level data
    | write data => cases h; exact mild_sockbufOnWrite s idx (hT idx rfl) k level data
    | written len remaining => cases h; exact mild_sockbufOnWritten s idx level len remaining
    | delete => cases h
  -- the structural calls are excluded by `hf`
  | new => simp [Api.Structural] at hf
  | setSock idx sock flags => simp [Api.Structural] at hf
  | delete idx => simp [Api.Structural] at hf
  | attachListener fd => simp [Api.Structural] at hf
  | detachListener fd => simp [Api.Structural] at hf
  | updateAll => simp [Api.Structural] at hf
  | shutdown => simp [Api.Structural] at hf

/-! ## The first part of `sockbuf_update_all` -/

/-- Before the loop nothing is done about a sockbuf. -/
theorem mem_events_sockbufUpdateAll {k : Kernel} {s : State} {e : Event}
    (he : e ∈ (sockbufUpdateAll k s).events) :
    e = .passBegin ∨ e = .pollFailed ∨ ∃ reports, e = .polled reports := by
  rw [sockbufUpdateAll] at he
  split at he
  · simp only [List.mem_cons, List.not_mem_nil, or_false] at he
    rcases he with rfl | rfl
    · exact Or.inl rfl
    · exact Or.inr (Or.inl rfl)
  · simp only [List.mem_cons, List.not_mem_nil, or_false] at he
    rcases he with rfl | rfl
    · exact Or.inl rfl
    · exact Or.inr (Or.inr ⟨_, rfl⟩)

end ExamplePrograms.Onethread.Sockbuf
