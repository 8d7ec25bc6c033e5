import ExamplePrograms.Onethread.UnbufCallbacks

/-!
# What a telnet client gets

The bytes that the server of `unbuf.c` hands to the socket of a connection are a function of what that
connection sent, chunk by chunk: `hello`, and then for each output of `telnet_filter_read` the bytes
`sent`. The other connections, what the kernel answers and when the socket is writable decide only how much
of it has been accepted so far. `Inv` is the invariant of the runs.
-/

set_option autoImplicit false

namespace ExamplePrograms.Onethread.Unbuf

open ExamplePrograms.Lib.Runs ExamplePrograms.Onethread.Sockbuf ExamplePrograms.Onethread.Telnet
open ExamplePrograms.Onethread.Sockbuf.State

/-! ## The invariant -/

/-- The number of slots in use. -/
def slots (tr : List Event) : Nat := 1 + (clients tr).length

/-- The connection with the session at `address` was sent and told what its chunks make of the telnet
filter. -/
def Streamed (address : Nat) (s : State) (d : Data) (tr : List Event) : Prop :=
  ∃ (cut : List Chunk) (session : TelnetT) (outs : List Output),
    cut.map Chunk.data = fed (address + 1) tr ∧
    readChunks { echo := true } cut = some (session, outs) ∧
    d.sessions[address]? = some session ∧
    received outs = heardFrom (address + 1) tr ∧
    Handed (address + 1) s tr (hello ++ outs.flatMap sent)

/-- The run of the module is clean, its slots are those of the program, and the streams of every connection
are those of its filter. -/
structure Inv (c : Process Data) : Prop where
  run : Run Sockbuf.step (Clean anySock) start c.config
  inUse : InUse Slot (slots c.config.trace) c.config.st
  stack : ∀ t ∈ c.config.stack, t.Polled 1 (slots c.config.trace)
  consecutive : (clients c.config.trace).map Prod.snd = List.range' 1 (clients c.config.trace).length
  sessions : c.data.sessions.length + 1 = slots c.config.trace
  about : ∀ e ∈ c.config.trace, ∀ j, e.On j → j < slots c.config.trace
  streams : ∀ address, address + 1 < slots c.config.trace →
    Streamed address c.config.st c.data c.config.trace

/-- One more chunk is read. -/
theorem readChunks_concat {session session' : TelnetT} {cut : List Chunk} {outs : List Output}
    (h : readChunks session cut = some (session', outs)) (chunk : Chunk) :
    readChunks session (cut ++ [chunk]) =
      (telnetFilterRead chunk.buf chunk.data.length session').map fun r => (r.1, outs ++ r.2) := by
  induction cut generalizing session outs with
  | nil =>
    cases h
    rw [List.nil_append, readChunks]
    cases telnetFilterRead chunk.buf chunk.data.length session' with
    | none => rfl
    | some r => simp [readChunks]
  | cons c cut ih =>
    rw [readChunks] at h
    obtain ⟨r, hr, hrest⟩ := Option.bind_eq_some_iff.1 h
    obtain ⟨r', hr', heq⟩ := Option.map_eq_some_iff.1 hrest
    cases heq
    rw [List.cons_append, readChunks, hr, Option.bind_some, ih hr', Option.map_map]
    cases telnetFilterRead chunk.buf chunk.data.length r'.1 with
    | none => rfl
    | some q => simp

/-- The reads that are reported of other sockbufs. -/
theorem unheard {j : Nat} {es : List Event} (h : ∀ cb ∈ callbacks es, cb.idx ≠ j) :
    fed j es = [] ∧ heardFrom j es = [] := by
  constructor
  · refine List.filterMap_eq_nil_iff.2 fun cb hcb => ?_
    cases hfed : Callback.fed cb with
    | none => rfl
    | some e =>
      have he : e.1 = cb.idx := by
        rw [Callback.fed] at hfed
        split at hfed
        · cases hfed
          rfl
        · cases hfed
      rw [Option.bind_some, if_neg (by rw [he]; exact h cb hcb)]
  · refine List.flatMap_eq_nil_iff.2 fun e he => ?_
    obtain ⟨cb, hcb, hheard⟩ := List.mem_filterMap.1 he
    have he : e.1 = cb.idx := by
      rw [Callback.heard] at hheard
      split at hheard
      · cases hheard
        rfl
      · cases hheard
    rw [if_neg (by rw [he]; exact h cb hcb)]

/-- Nothing is said about a sockbuf that no event names. -/
theorem untouched {j : Nat} {es : List Event} (h : ∀ e ∈ es, ¬ e.On j) :
    fed j es = [] ∧ heardFrom j es = [] ∧ ∀ e ∈ es, e.Elsewhere j := by
  have hidx : ∀ cb ∈ callbacks es, cb.idx ≠ j := by
    intro cb hcb
    obtain ⟨e, he, hasked⟩ := List.mem_filterMap.1 hcb
    cases e with
    | callback cb' =>
      cases hasked
      exact h _ he
    | _ => cases hasked
  refine ⟨(unheard hidx).1, (unheard hidx).2, fun e he => ?_⟩
  have hnot := h e he
  cases e <;> first | exact hnot | trivial

section Steps

variable {c : Process Data}

/-- The invariant of the tables. -/
theorem Inv.table (h : Inv c) : TableInv none c.config.st := by
  have hclean := (cleanInvariant_tableJ (G := anySock) fun _ _ => trivial).settled .init h.run
    fun t ht => (h.stack t ht).ordinary
  exact hclean.1

/-- A step that accepts no connection, works on the slots as `hP` says, and does for each connection
what `hstreams` says. -/
theorem Inv.next (h : Inv c) {s : State} {stack : List Task} {es : List Event} {d : Data}
    (hrun : Run Sockbuf.step (Clean anySock) start ⟨s, stack, c.config.trace ++ es⟩)
    (hP : InUse Slot (slots c.config.trace) s)
    (hstack : ∀ t ∈ stack, t.Polled 1 (slots c.config.trace)) (hclients : clients es = [])
    (habout : ∀ e ∈ es, ∀ j, e.On j → j < slots c.config.trace)
    (hsessions : d.sessions.length = c.data.sessions.length)
    (hstreams : ∀ address, address + 1 < slots c.config.trace →
      Streamed address c.config.st c.data c.config.trace →
      Streamed address s d (c.config.trace ++ es)) :
    Inv ⟨⟨s, stack, c.config.trace ++ es⟩, d⟩ := by
  have hc : clients (c.config.trace ++ es) = clients c.config.trace := by
    rw [clients_append, hclients, List.append_nil]
  have hs : slots (c.config.trace ++ es) = slots c.config.trace := by rw [slots, hc, slots]
  refine ⟨hrun, ?_, ?_, ?_, ?_, ?_, ?_⟩
  · show InUse Slot (slots (c.config.trace ++ es)) s
    rw [hs]
    exact hP
  · show ∀ t ∈ stack, t.Polled 1 (slots (c.config.trace ++ es))
    rw [hs]
    exact hstack
  · show (clients (c.config.trace ++ es)).map Prod.snd =
      List.range' 1 (clients (c.config.trace ++ es)).length
    rw [hc]
    exact h.consecutive
  · show d.sessions.length + 1 = slots (c.config.trace ++ es)
    rw [hs, hsessions]
    exact h.sessions
  · show ∀ e ∈ c.config.trace ++ es, ∀ j, e.On j → j < slots (c.config.trace ++ es)
    rw [hs]
    exact fun e he => (List.mem_append.1 he).elim (h.about e) (habout e)
  · show ∀ address, address + 1 < slots (c.config.trace ++ es) → _
    rw [hs]
    exact fun address ha => hstreams address ha (h.streams address ha)

/-- What another connection does is not seen. -/
theorem Streamed.frame {address i : Nat} {s s' : State} {d d' : Data} {tr es : List Event}
    (h : Streamed address s d tr) (hw : Within i s es s') (hi : i ≠ address + 1)
    (hd : d'.sessions[address]? = d.sessions[address]?) : Streamed address s' d' (tr ++ es) := by
  obtain ⟨cut, session, outs, hcut, hread, hsession, hheard, hhanded⟩ := h
  have hnot : ∀ e ∈ es, ¬ e.On (address + 1) := by
    intro e he hon
    have honi := hw.events e he
    cases e <;> first | exact hi (honi.symm.trans hon) | exact hon
  obtain ⟨hfed, hquiet, -⟩ := untouched hnot
  refine ⟨cut, session, outs, ?_, hread, hd.trans hsession, ?_, hhanded.frame hi hw⟩
  · rw [fed_append, hfed, List.append_nil, hcut]
  · rw [heardFrom_append, hquiet, List.append_nil, hheard]

/-- Events about no sockbuf. -/
theorem Streamed.idle {address : Nat} {s s' : State} {d : Data} {tr es : List Event}
    (h : Streamed address s d tr) (hslots : s'.sockbufs = s.sockbufs) (hes : ∀ e ∈ es, ∀ j, ¬ e.On j) :
    Streamed address s' d (tr ++ es) := by
  obtain ⟨cut, session, outs, hcut, hread, hsession, hheard, hhanded⟩ := h
  obtain ⟨hfed, hquiet, helse⟩ := untouched (j := address + 1) fun e he => hes e he _
  refine ⟨cut, session, outs, ?_, hread, hsession, ?_, hhanded.keep helse ?_ ?_⟩
  · rw [fed_append, hfed, List.append_nil, hcut]
  · rw [heardFrom_append, hquiet, List.append_nil, hheard]
  · rw [nsockbufs, nsockbufs, hslots]
  · rw [sbuf, sbuf, hslots]

/-- A step that is not about a sockbuf. -/
theorem Inv.idle (h : Inv c) {s : State} {stack : List Task} {es : List Event}
    (hrun : Run Sockbuf.step (Clean anySock) start ⟨s, stack, c.config.trace ++ es⟩)
    (hP : InUse Slot (slots c.config.trace) s) (hslots : s.sockbufs = c.config.st.sockbufs)
    (hstack : ∀ t ∈ stack, t.Polled 1 (slots c.config.trace))
    (hes : ∀ e ∈ es, (∀ j, ¬ e.On j) ∧ e.asked = none) :
    Inv ⟨⟨s, stack, c.config.trace ++ es⟩, c.data⟩ := by
  have hcbs : callbacks es = [] := List.filterMap_eq_nil_iff.2 fun e he => (hes e he).2
  refine h.next hrun hP hstack ?_ (fun e he j hj => absurd hj ((hes e he).1 j)) rfl
    fun address _ hst => hst.idle hslots fun e he => (hes e he).1
  rw [Sockbuf.clients, hcbs]
  rfl

/-- Work on the sockbuf `i`. -/
theorem Inv.work (h : Inv c) {i : Nat} (hi : i < slots c.config.trace) {r : Served Data}
    {stack : List Task}
    (hrun : Run Sockbuf.step (Clean anySock) start ⟨r.st, stack, c.config.trace ++ r.events⟩)
    (hstack : ∀ t ∈ stack, t.Polled 1 (slots c.config.trace))
    (hw : Within i c.config.st r.events r.st) (hclients : clients r.events = [])
    (hlength : r.data.sessions.length = c.data.sessions.length)
    (hothers : ∀ address, address + 1 ≠ i →
      r.data.sessions[address]? = c.data.sessions[address]?)
    (hself : ∀ address, address + 1 = i → Streamed address c.config.st c.data c.config.trace →
      Streamed address r.st r.data (c.config.trace ++ r.events)) :
    Inv ⟨⟨r.st, stack, c.config.trace ++ r.events⟩, r.data⟩ := by
  refine h.next hrun (h.inUse.within calm.keeps hw) hstack hclients ?_ hlength ?_
  · intro e he j hj
    have hon := hw.events e he
    have hij : j = i := by
      cases e <;> first | exact hj.symm.trans hon | exact absurd hj id
    exact hij ▸ hi
  · intro address _ hst
    by_cases hai : address + 1 = i
    · exact hself address hai hst
    · exact hst.frame hw (Ne.symm hai) (hothers address hai)

/-- A part of a callback that has read no chunk. -/
theorem Streamed.does {address : Nat} {s : State} {d : Data} {tr : List Event} {r : Served Data}
    (h : Streamed address s d tr) (hd : Does (address + 1) s d r [] []) :
    Streamed address r.st r.data (tr ++ r.events) := by
  obtain ⟨cut, session, outs, hcut, hread, hsession, hheard, hhanded⟩ := h
  refine ⟨cut, session, outs, ?_, hread, by rw [hd.sessions, hsession], ?_, ?_⟩
  · rw [fed_append, hd.fed, List.append_nil, hcut]
  · rw [heardFrom_append, hd.heard, List.append_nil, hheard]
  · have hlast := hd.handed _ _ hhanded
    rwa [List.append_nil] at hlast

/-- A chunk is read. -/
theorem Streamed.chunk {address : Nat} {s s' : State} {d : Data} {tr es : List Event}
    {r : Served Data} {data : List UInt8} (h : Streamed address s d tr)
    (hhanded' : ∀ text, Handed (address + 1) s tr text → Handed (address + 1) s' (tr ++ es) text)
    (hfed : fed (address + 1) es = [data]) (hquiet : heardFrom (address + 1) es = [])
    {chunk : Chunk} (hchunk : chunk.data = data) {session session' : TelnetT} {outs : List Output}
    (hsession : d.sessions[address]? = some session)
    (hread : telnetFilterRead chunk.buf chunk.data.length session = some (session', outs))
    (hd : Does (address + 1) s' { d with sessions := d.sessions.set address session' } r
      (outs.flatMap sent) (received outs)) :
    Streamed address r.st r.data (tr ++ es ++ r.events) := by
  obtain ⟨cut, session0, outs0, hcut, hread0, hsession0, hheard, hhanded⟩ := h
  have hsame : session0 = session := Option.some.inj (hsession0.symm.trans hsession)
  subst hsame
  refine ⟨cut ++ [chunk], session', outs0 ++ outs, ?_, ?_, ?_, ?_, ?_⟩
  · rw [List.map_append, hcut, fed_append, fed_append, hfed, hd.fed, List.append_nil, ← hchunk]
    rfl
  · rw [readChunks_concat hread0, hread]
    rfl
  · have hlt : address < d.sessions.length := (List.getElem?_eq_some_iff.1 hsession).1
    rw [hd.sessions, List.getElem?_set_self hlt]
  · rw [heardFrom_append, heardFrom_append, hquiet, hd.heard, List.append_nil, ← hheard, received,
      List.flatMap_append]
    rfl
  · have hlast := hd.handed _ _ (hhanded' _ hhanded)
    rw [List.flatMap_append, ← List.append_assoc]
    exact hlast

/-! ### Tasks of a pass -/

/-- An outcome that hands nothing to the socket and reports no read. -/
theorem does_of_outcome {idx : Nat} {s : State} {d d' : Data} {o : Outcome}
    (hw : Within idx s o.events o.st)
    (hh : ∀ es text, Handed idx s es text → Handed idx o.st (es ++ o.events) text)
    (hsilent : Silent idx o.events) (hd : d'.sessions = d.sessions) :
    Does idx s d ⟨d', o.st, o.events⟩ [] [] :=
  ⟨hw, hd, fun es text h => by rw [List.append_nil]; exact hh es text h, hsilent.fed, hsilent.heard,
    hsilent.clients⟩

/-- The dispatch of an event is not about the output. -/
theorem Handed.dispatched {idx i : Nat} {s : State} {kind : EventKind} {o : Outcome}
    (h : ∀ es text, Handed idx s es text → Handed idx o.st (es ++ o.events) text) (es : List Event)
    (text : List UInt8) (hh : Handed idx s es text) :
    Handed idx (o.log [.dispatched i kind]).st (es ++ (o.log [.dispatched i kind]).events) text := by
  have hfirst : Handed idx s (es ++ [.dispatched i kind]) text :=
    hh.quiet (by simp [Event.Elsewhere]) rfl
  have hlast := h _ _ hfirst
  rw [List.append_assoc] at hlast
  exact hlast

/-- Eof and the end of a write leave the connections as they are. -/
theorem Inv.quietly (h : Inv c) {i : Nat} (hi : i < slots c.config.trace) {c' : Process Data}
    {k : Kernel} {a : Answers} {t : Task} {rest : List Task} {o : Outcome}
    (hs : program.step c (.run k a) = some c') (hstack : c.config.stack = t :: rest)
    (ho : t.exec k c.config.st = some o) (hw : Within i c.config.st o.events o.st)
    (hh : ∀ es text, Handed i c.config.st es text → Handed i o.st (es ++ o.events) text)
    (hasks : o.Asks [] ∨ ∃ cd err, o.Asks [⟨none, cd, i, .eof err⟩]) : Inv c' := by
  have hrun := h.run.trans (faithful.step hs)
  have hrest : ∀ u ∈ rest, u.Polled 1 (slots c.config.trace) := fun u hu =>
    h.stack u (by rw [hstack]; exact List.mem_cons_of_mem _ hu)
  have hsilent : Silent i o.events := by
    refine .of_callbacks ?_
    rcases hasks with hasks | ⟨cd, err, hasks⟩
    · exact Or.inl hasks.events
    · exact Or.inr ⟨cd, i, err, hasks.events⟩
  -- the data behind the step, with the same sessions
  obtain ⟨d, hd, rfl⟩ : ∃ d : Data, d.sessions = c.data.sessions ∧
      c' = ⟨⟨o.st, rest, c.config.trace ++ o.events⟩, d⟩ := by
    rcases hasks with hasks | ⟨cd, err, hasks⟩
    · exact ⟨_, rfl, Program.step_none hs hstack ho hasks⟩
    · obtain ⟨r, hserve, hc'⟩ := Program.step_one hs hstack ho hasks
      have hr : r = servoneOnEof c.data o.st i err := (Option.some.inj hserve).symm
      refine ⟨(servoneOnEof c.data o.st i err).data, rfl, ?_⟩
      rw [hc', hr, servoneOnEof, List.append_nil]
  have hdoes := does_of_outcome hw hh hsilent hd
  refine h.work (r := ⟨d, o.st, o.events⟩) hi hrun hrest hw hsilent.clients (by rw [hd])
    (fun address _ => by rw [hd]) fun address haddress hst => ?_
  subst haddress
  exact hst.does hdoes

/-- The listening sockbuf reads, as a connection would. -/
theorem Inv.listener (h : Inv c) {c' : Process Data} {k : Kernel} {a : Answers} {t : Task}
    {rest : List Task} {o : Outcome} (hs : program.step c (.run k a) = some c')
    (hstack : c.config.stack = t :: rest) (ho : t.exec k c.config.st = some o)
    (hw : Within 0 c.config.st o.events o.st) {cd : Nat} {call : Call}
    (hasks : o.Asks [⟨none, cd, 0, call⟩])
    (hcall : (∃ err, call = .eof err) ∨ ∃ data, call = .read data) : Inv c' := by
  have hrun := h.run.trans (faithful.step hs)
  have hrest : ∀ u ∈ rest, u.Polled 1 (slots c.config.trace) := fun u hu =>
    h.stack u (by rw [hstack]; exact List.mem_cons_of_mem _ hu)
  have hzero : 0 < slots c.config.trace := by
    rw [slots]
    omega
  obtain ⟨r, hserve, rfl⟩ := Program.step_one hs hstack ho hasks
  have hl : Listener (c.config.st.sbuf 0) := (h.inUse.used 0 hzero).2.2
  have hl' : Listener (o.st.sbuf 0) := calm.keeps 0 _ _ hw.self hl
  obtain ⟨hw', hsessions, hclients⟩ : Within 0 o.st r.events r.st ∧
      r.data.sessions = c.data.sessions ∧ clients r.events = [] := by
    rcases hcall with ⟨err, rfl⟩ | ⟨data, rfl⟩
    · have hr : r = servoneOnEof c.data o.st 0 err := (Option.some.inj hserve).symm
      rw [hr]
      exact ⟨.refl 0 o.st, rfl, rfl⟩
    · exact listener_onRead hl' (show servoneOnRead a (a.kernel 0) c.data o.st 0 data = some r from hserve)
  have hnone : clients o.events = [] := by
    rcases hcall with ⟨err, rfl⟩ | ⟨data, rfl⟩ <;> rw [Sockbuf.clients, hasks.events] <;> rfl
  refine h.work (r := ⟨r.data, r.st, o.events ++ r.events⟩) hzero hrun hrest (hw.trans hw') ?_
    (by rw [hsessions]) (fun address _ => by rw [hsessions]) fun address haddress => ?_
  · rw [clients_append, hclients, hnone]
    rfl
  · exact absurd haddress (Nat.succ_ne_zero address)

/-- A connection reads a chunk, which goes to the telnet filter, or it is eof. -/
theorem Connection.gotReadable {address idx : Nat} {s : State}
    (hc : Connection address (s.sbuf idx)) (k : Kernel) :
    ((∃ cd err, (sockbufGotReadable k s idx).Asks [⟨none, cd, idx, .eof err⟩]) ∧
      ∀ es text, Handed idx s es text → Handed idx (sockbufGotReadable k s idx).st
        (es ++ (sockbufGotReadable k s idx).events) text) ∨
    ∃ data, data ≠ [] ∧
      (sockbufGotReadable k s idx).Asks [⟨some telnetFilter, address, idx, .read data⟩] ∧
      (sockbufGotReadable k s idx).events = [.callback ⟨some telnetFilter, address, idx, .read data⟩] ∧
      ∀ es text, Handed idx s es text → Handed idx (sockbufGotReadable k s idx).st
        (es ++ (sockbufGotReadable k s idx).events) text := by
  have hnone : (s.sbuf idx).filterAbove sockbufLevelInternal SockbufFilter.onEof = none :=
    hc.filterAbove_none rfl _
  have heof := fun err => asks_gotEof k err hnone hc.handler rfl
  rw [sockbufGotReadable]
  split
  · next err _ =>
    obtain ⟨err', hasks⟩ := heof err
    exact Or.inl ⟨⟨_, err', hasks⟩, fun es text hh => hh.gotEof k err⟩
  · obtain ⟨err', hasks⟩ := heof 0
    exact Or.inl ⟨⟨_, err', hasks⟩, fun es text hh => hh.gotEof k 0⟩
  · next data hne _ =>
    have hkeeps := (Within.update s idx fun sb => Keeps.mapStats sb (statsIn · data.length)).self
    rw [sockbufOnRead, hkeeps.filterAbove, hc.reads]
    refine Or.inr ⟨data, ?_, ⟨rfl, rfl⟩, rfl, fun es text hh => ?_⟩
    · rintro rfl
      exact hne rfl
    · refine hh.quiet (by simp [callFilter, Outcome.invoke, Event.Elsewhere]) ?_
      exact bare_update_stats s idx fun _ => rfl

/-- The telnet filter of the connection is given a chunk. -/
theorem Inv.chunk (h : Inv c) {address : Nat} (hi : address + 1 < slots c.config.trace)
    {c' : Process Data} {k : Kernel} {a : Answers} {t : Task} {rest : List Task} {o : Outcome}
    (hs : program.step c (.run k a) = some c') (hstack : c.config.stack = t :: rest)
    (ho : t.exec k c.config.st = some o) (hw : Within (address + 1) c.config.st o.events o.st)
    {data : List UInt8} (hne : data ≠ [])
    (hasks : o.Asks [⟨some telnetFilter, address, address + 1, .read data⟩])
    (hh : ∀ es text, Handed (address + 1) c.config.st es text →
      Handed (address + 1) o.st (es ++ o.events) text) : Inv c' := by
  have hrun := h.run.trans (faithful.step hs)
  have hrest : ∀ u ∈ rest, u.Polled 1 (slots c.config.trace) := fun u hu =>
    h.stack u (by rw [hstack]; exact List.mem_cons_of_mem _ hu)
  obtain ⟨r, hserve, rfl⟩ := Program.step_one hs hstack ho hasks
  have hc : Connection address (o.st.sbuf (address + 1)) :=
    Connection.keeps hw.self (h.inUse.used (address + 1) hi).2.2
  have hv : sockbufIsvalid o.st (address + 1) = true :=
    ((h.inUse.within calm.keeps hw).valid_iff _).2 hi
  obtain ⟨chunk, session, session', outs, hchunk, hsession, hread, hdoes⟩ :=
    filterRead_spec hc hv hne hserve
  refine h.work (r := ⟨r.data, r.st, o.events ++ r.events⟩) hi hrun hrest (hw.trans hdoes.within) ?_ ?_
    (fun other hother => ?_) fun other hother hst => ?_
  · rw [clients_append, hdoes.clients, List.append_nil, Sockbuf.clients, hasks.events]
    rfl
  · show r.data.sessions.length = _
    rw [hdoes.sessions, List.length_set]
  · show r.data.sessions[other]? = _
    rw [hdoes.sessions]
    exact List.getElem?_set_ne (fun hc => hother (by rw [hc]))
  · obtain rfl : other = address := by omega
    have hfed : fed (other + 1) o.events = [data] := by
      rw [fed, hasks.events]
      simp [Callback.fed]
    have hquiet : heardFrom (other + 1) o.events = [] := by
      rw [heardFrom, Sockbuf.heard, hasks.events]
      rfl
    have hlast := hst.chunk (hh _) hfed hquiet hchunk hsession hread hdoes
    rw [List.append_assoc] at hlast
    exact hlast

/-- The record of an accepted connection behind `sockbuf_set_handler` and `telnet_on`. -/
def greetedSlot (k : Kernel) (sock : Int) (clientData address : Nat) : SockbufT :=
  ({ acceptedSlot k sock with handler := some handler, clientData := clientData } :
    SockbufT).attachFilter telnetFilter address

/-- The slot of a new connection. -/
theorem connection_greetedSlot (k : Kernel) (sock : Int) (clientData address : Nat) :
    Connection address (greetedSlot k sock clientData address) := ⟨rfl, rfl, rfl, rfl, rfl⟩

/-- `telnet_on` and `sockbuf_set_handler` on the slot of an accepted connection. -/
theorem telnetOn_spec {s : State} {m : Nat} (hvalid : sockbufIsvalid s m = true) {k : Kernel}
    {sock : Int} (hlast : s.sbuf m = acceptedSlot k sock) (cd : Nat) (d : Data) (flags : TelnetT) :
    (telnetOn d (sockbufSetHandler s m handler cd) m flags).st.sbuf m =
        greetedSlot k sock cd d.sessions.length ∧
      (telnetOn d (sockbufSetHandler s m handler cd) m flags).st.nsockbufs = s.nsockbufs ∧
      (telnetOn d (sockbufSetHandler s m handler cd) m flags).st.ndeletedSockbufs =
        s.ndeletedSockbufs ∧
      ∀ j, j ≠ m → (telnetOn d (sockbufSetHandler s m handler cd) m flags).st.sbuf j = s.sbuf j := by
  have hset : sockbufSetHandler s m handler cd =
      s.update m fun sb => { sb with handler := some handler, clientData := cd } := by
    rw [sockbufSetHandler, if_pos hvalid]
  have hlt := (sockbufIsvalid_iff.1 hvalid).1
  generalize hs1 : (s.update m fun sb => { sb with handler := some handler, clientData := cd }) = s1
    at hset
  have hlast1 : s1.sbuf m = { acceptedSlot k sock with handler := some handler, clientData := cd } := by
    rw [← hs1, sbuf_update_self _ _ _ hlt, hlast]
  have hns1 : s1.nsockbufs = s.nsockbufs := by rw [← hs1, update_nsockbufs]
  have hvalid1 : sockbufIsvalid s1 m = true :=
    sockbufIsvalid_iff.2 ⟨by rw [hns1]; exact hlt, by rw [hlast1]; rfl, by rw [hlast1]; rfl⟩
  have hattach : sockbufAttachFilter s1 m telnetFilter d.sessions.length =
      s1.update m fun sb => sb.attachFilter telnetFilter d.sessions.length := by
    rw [sockbufAttachFilter, if_pos hvalid1]
  rw [telnetOn, hset, hattach]
  refine ⟨?_, ?_, ?_, fun j hj => ?_⟩
  · rw [sbuf_update_self _ _ _ (by rw [hns1]; exact hlt), hlast1]
    rfl
  · rw [update_nsockbufs, hns1]
  · rw [← hs1]
    rfl
  · rw [sbuf_update_ne _ _ _ (Ne.symm hj), ← hs1, sbuf_update_ne _ _ _ (Ne.symm hj)]

/-- `servone_on_connect` on the new slot, from the state `s` that `telnet_on` leaves: `hello` is sent. -/
structure Greets (m address : Nat) (o : Outcome) (d : Data) (r : Served Data) (s : State) : Prop where
  nsockbufs : s.nsockbufs = o.st.nsockbufs
  ndeleted : s.ndeletedSockbufs = o.st.ndeletedSockbufs
  others : ∀ j, j ≠ m → s.sbuf j = o.st.sbuf j
  connection : Connection address (s.sbuf m)
  fresh : (s.sbuf m).len = 0 ∧ (s.sbuf m).flags = { inbound := true }
  does : ∃ d', d'.sessions = d.sessions ++ [{ echo := true }] ∧ Does m s d' r hello []

/-- The handler of a new connection greets it. -/
theorem servoneOnConnect_spec {a : Answers} {d : Data} {o : Outcome} {cd m : Nat}
    {ip : Option String} {port : Int} {r : Served Data} {k : Kernel} {sock : Int}
    (hr : servoneOnConnect a d o.st cd m ip port = some r) (hvalid : sockbufIsvalid o.st m = true)
    (hlast : o.st.sbuf m = acceptedSlot k sock) : ∃ s, Greets m d.sessions.length o d r s := by
  obtain ⟨r1, h1, hrest⟩ := Option.bind_eq_some_iff.1 hr
  obtain ⟨r2, h2, rfl⟩ := after_some hrest
  obtain ⟨hslot, hns, hdel, hothers⟩ := telnetOn_spec hvalid hlast cd
    (d.print (.accepted (sockbufGetSock o.st m) ip port)) { echo := true }
  have hc : Connection d.sessions.length ((telnetOn (d.print (.accepted (sockbufGetSock o.st m) ip port))
      (sockbufSetHandler o.st m handler cd) m { echo := true }).st.sbuf m) := by
    rw [hslot]
    exact connection_greetedSlot k sock cd d.sessions.length
  have hd1 := does_passOnWrite hc h1
  have hd2 := does_passOnWrite (hc.keeps hd1.within.self) h2
  have hdoes := hd1.trans hd2
  rw [List.append_nil] at hdoes
  exact ⟨_, hns, hdel, hothers, hc, by rw [hslot]; exact ⟨rfl, rfl⟩, _, rfl, hdoes⟩

/-- An accepted connection takes the next slot and the next session, and is sent `hello`. -/
theorem Inv.accept (h : Inv c) {address : Nat} (hm : slots c.config.trace = address + 1) {k : Kernel}
    {sock : Int} {o : Outcome} (ho : Accepted k c.config.st 0 (address + 1) sock o) {a : Answers}
    {cd : Nat} {ip : Option String} {port : Int} {r : Served Data}
    (hr : servoneOnConnect a c.data o.st cd (address + 1) ip port = some r) {rest : List Task}
    {es : List Event} (hrest : ∀ t ∈ rest, t.Polled 1 (address + 1))
    (hcbs : callbacks es = [⟨none, cd, 0, .newclient (address + 1) ip port⟩])
    (hes : ∀ e ∈ es, ∀ j, e.On j → j = 0)
    (hrun : Run Sockbuf.step (Clean anySock) start
      ⟨r.st, rest, c.config.trace ++ (es ++ r.events)⟩) :
    Inv ⟨⟨r.st, rest, c.config.trace ++ (es ++ r.events)⟩, r.data⟩ := by
  have hinUse : InUse Slot (address + 1) c.config.st := hm ▸ h.inUse
  have hvalid := ho.valid hinUse
  have haddress : c.data.sessions.length = address := by
    have := h.sessions
    omega
  obtain ⟨s, hg⟩ := servoneOnConnect_spec hr hvalid ho.last
  obtain ⟨d', hd', hdoes⟩ := hg.does
  have hc := hg.connection
  rw [haddress] at hc
  have hsessions : r.data.sessions = c.data.sessions ++ [{ echo := true }] := hdoes.sessions.trans hd'
  have hclients : clients (c.config.trace ++ (es ++ r.events)) =
      clients c.config.trace ++ [(0, address + 1)] := by
    rw [clients_append, clients_append, hdoes.clients, List.append_nil]
    congr 1
    rw [Sockbuf.clients, hcbs]
    rfl
  have hslots : slots (c.config.trace ++ (es ++ r.events)) = address + 1 + 1 := by
    rw [slots, hclients, List.length_append, ← hm, slots]
    rfl
  refine ⟨hrun, ?_, ?_, ?_, ?_, ?_, ?_⟩
  · show InUse Slot (slots (c.config.trace ++ (es ++ r.events))) r.st
    rw [hslots]
    refine hinUse.push ?_ (fun j hj => ?_) ?_ ?_
    · rw [hdoes.within.nsockbufs, hg.nsockbufs, ho.nsockbufs]
    · rw [hdoes.within.others j hj, hg.others j hj, ho.others j hj]
    · rw [hdoes.within.ndeleted, hg.ndeleted, ho.ndeleted]
    · have hself := hdoes.within.self
      exact ⟨hself.avail.trans (by rw [hg.fresh.2]), hself.deleted.trans (by rw [hg.fresh.2]),
        hc.keeps hself⟩
  · show ∀ t ∈ rest, t.Polled 1 (slots (c.config.trace ++ (es ++ r.events)))
    rw [hslots]
    exact fun t ht => (hrest t ht).mono (Nat.le_succ _)
  · show (clients (c.config.trace ++ (es ++ r.events))).map Prod.snd =
      List.range' 1 (clients (c.config.trace ++ (es ++ r.events))).length
    have hcount : 1 + (clients c.config.trace).length = address + 1 := hm
    rw [hclients, List.map_append, h.consecutive, List.length_append, List.length_singleton,
      List.range'_concat, Nat.one_mul, hcount]
    rfl
  · show r.data.sessions.length + 1 = slots (c.config.trace ++ (es ++ r.events))
    rw [hslots, hsessions, List.length_append, haddress]
    rfl
  · show ∀ e ∈ c.config.trace ++ (es ++ r.events), ∀ j, e.On j →
      j < slots (c.config.trace ++ (es ++ r.events))
    rw [hslots]
    intro e he j hj
    rcases List.mem_append.1 he with he | he
    · have := h.about e he j hj
      omega
    · rcases List.mem_append.1 he with he | he
      · have := hes e he j hj
        omega
      · have := on_unique (hdoes.within.events e he) hj
        omega
  · show ∀ other, other + 1 < slots (c.config.trace ++ (es ++ r.events)) →
      Streamed other r.st r.data (c.config.trace ++ (es ++ r.events))
    rw [hslots]
    intro other hother
    by_cases hnewest : other = address
    · subst hnewest
      -- no event so far is about the new slot
      have hnew : ∀ e ∈ c.config.trace ++ es, ¬ e.On (other + 1) := by
        intro e he hon
        rcases List.mem_append.1 he with he | he
        · have := h.about e he _ hon
          omega
        · have := hes e he _ hon
          omega
      obtain ⟨hfed, hheard, helse⟩ := untouched hnew
      have hvalid' : sockbufIsvalid s (other + 1) = true :=
        sockbufIsvalid_iff.2 ⟨by rw [hg.nsockbufs]; exact (sockbufIsvalid_iff.1 hvalid).1,
          by rw [hg.fresh.2], by rw [hg.fresh.2]⟩
      have hinit : Handed (other + 1) s (c.config.trace ++ es) [] :=
        .init hvalid' hg.fresh.1 (elsewhere_bytes helse).1 (elsewhere_bytes helse).2.2
      have hhanded := hdoes.handed _ _ hinit
      rw [List.append_assoc] at hhanded
      refine ⟨[], { echo := true }, [], ?_, rfl, ?_, ?_, hhanded⟩
      · rw [← List.append_assoc, fed_append, hfed, hdoes.fed]
        rfl
      · rw [hsessions, ← haddress, List.getElem?_concat_length]
      · rw [← List.append_assoc, heardFrom_append, hheard, hdoes.heard]
        rfl
    · -- the connections that were there before
      obtain ⟨cut, session, outs, hcut, hread, hsession, hheard, hhanded⟩ := h.streams other (by omega)
      have hnot : ∀ e ∈ es ++ r.events, ¬ e.On (other + 1) := by
        intro e he hon
        rcases List.mem_append.1 he with he | he
        · have := hes e he _ hon
          omega
        · have := on_unique (hdoes.within.events e he) hon
          omega
      obtain ⟨hfed, hquiet, helse⟩ := untouched hnot
      refine ⟨cut, session, outs, ?_, hread, ?_, ?_, hhanded.keep helse ?_ ?_⟩
      · rw [fed_append, hfed, List.append_nil, hcut]
      · have hin : other < c.data.sessions.length := by omega
        rw [hsessions, List.getElem?_append_left hin, hsession]
      · rw [heardFrom_append, hquiet, List.append_nil, hheard]
      · rw [hdoes.within.nsockbufs, hg.nsockbufs, ho.nsockbufs]
        exact nsockbufs_le_sockbufNew _
      · rw [hdoes.within.others _ (by omega), hg.others _ (by omega), ho.others _ (by omega),
          sbuf_sockbufNew_old (by rw [hinUse.firstAvail_eq]; omega)
            (Nat.lt_of_lt_of_le (by omega) hinUse.le)]

/-- The listening sockbuf accepts a connection. -/
theorem Inv.accepts (h : Inv c) {c' : Process Data} {k : Kernel} {a : Answers} {rest : List Task}
    (hs : program.step c (.run k a) = some c') (hstack : c.config.stack = .readable 0 true :: rest)
    {sock : Int} (hacc : Accepted k c.config.st 0 (slots c.config.trace) sock
      (sockbufGotReadableServer k c.config.st 0)) : Inv c' := by
  have hrun := h.run.trans (faithful.step hs)
  have hrest : ∀ u ∈ rest, u.Polled 1 (slots c.config.trace) := fun u hu =>
    h.stack u (by rw [hstack]; exact List.mem_cons_of_mem _ hu)
  have hex : Task.exec k c.config.st (.readable 0 true) =
      some ((sockbufGotReadableServer k c.config.st 0).log [.dispatched 0 .readable]) := by
    rw [Task.exec, if_pos rfl]
  generalize hm : slots c.config.trace = m at hacc hrest
  generalize sockbufGotReadableServer k c.config.st 0 = o at hacc hex
  have hasks := hacc.asks.log (e := .dispatched 0 .readable) rfl
  obtain ⟨r, hserve, rfl⟩ := Program.step_one hs hstack hex hasks
  obtain ⟨address, rfl⟩ : ∃ address, m = address + 1 := ⟨(clients c.config.trace).length, by
    rw [← hm, slots, Nat.add_comm]⟩
  have hr : servoneOnConnect a c.data o.st (c.config.st.sbuf 0).clientData (address + 1)
      k.acceptPeer.1 k.acceptPeer.2 = some r := hserve
  refine h.accept hm hacc hr hrest hasks.events ?_ hrun
  intro e he j hj
  simp only [Outcome.log_events, hacc.events, List.mem_append, List.mem_cons, List.not_mem_nil,
    or_false] at he
  rcases he with rfl | rfl | rfl | rfl
  · exact hj.symm
  · exact absurd hj id
  · exact absurd hj id
  · exact hj.symm

/-- **One step** keeps the invariant. -/
theorem Inv.step (h : Inv c) {x : Move Answers} {c' : Process Data}
    (hs : program.step c x = some c') : Inv c' := by
  have hrun := h.run.trans (faithful.step hs)
  rcases Program.step_cases hs with ⟨k, -, hstack, rfl⟩ | ⟨k, a, t, rest, o, rfl, hstack, ho, hend⟩
  -- a pass begins
  · obtain ⟨hP, hslots, htasks⟩ := updateAll_spec (L := 1) h.inUse k
    refine h.idle hrun hP hslots (by simpa using htasks) fun e he => ?_
    rcases mem_events_sockbufUpdateAll he with rfl | rfl | ⟨reports, rfl⟩ <;>
      exact ⟨fun j hj => hj, rfl⟩
  have ht : t.Polled 1 (slots c.config.trace) := h.stack t (by rw [hstack]; exact List.mem_cons_self)
  have hrest : ∀ u ∈ rest, u.Polled 1 (slots c.config.trace) := fun u hu =>
    h.stack u (by rw [hstack]; exact List.mem_cons_of_mem _ hu)
  have hzero : 0 < slots c.config.trace := by
    rw [slots]
    omega
  have hl : Listener (c.config.st.sbuf 0) := (h.inUse.used 0 hzero).2.2
  -- the callbacks that the slots have
  have heof : ∀ i < slots c.config.trace,
      (c.config.st.sbuf i).filterAbove sockbufLevelInternal SockbufFilter.onEof = none ∧
        (c.config.st.sbuf i).filterAbove sockbufLevelInternal SockbufFilter.onWritten = none ∧
        (c.config.st.sbuf i).handler = some handler := by
    intro i hi
    have hslot := (h.inUse.used i hi).2.2
    cases i with
    | zero => exact ⟨hl.filterAbove _ _, hl.filterAbove _ _, hl.handler⟩
    | succ address =>
      exact ⟨Connection.filterAbove_none hslot rfl _, Connection.filterAbove_none hslot rfl _,
        Connection.handler hslot⟩
  cases t with
  | scan i n =>
    cases ho
    obtain ⟨hP, hslots, htasks, hevents⟩ := scan_spec calm h.inUse h.table i n
    rcases hend with ⟨-, rfl⟩ | ⟨cb, ts, r, hts, -⟩
    · refine h.idle hrun hP hslots (fun u hu => ?_) fun e he => ?_
      · exact (List.mem_append.1 hu).elim (htasks u) (hrest u)
      · rcases hevents with hev | hev
        · rw [hev] at he
          cases he
        · rw [hev] at he
          rw [List.mem_singleton.1 he]
          exact ⟨fun j hj => hj, rfl⟩
    · exact absurd (htasks (.external cb) (by rw [hts]; exact List.mem_cons_self)) id
  | writable i connecting =>
    obtain ⟨hi, rfl⟩ := ht
    obtain ⟨hnone, hwritten, hhandler⟩ := heof i hi
    have hw := (Within.gotWritable k c.config.st i).event (e := .dispatched i .writable) rfl
    refine h.quietly (o := (sockbufGotWritable k c.config.st i).log [.dispatched i .writable]) hi hs
      hstack rfl hw (Handed.dispatched fun es text hh => hh.gotWritable k) ?_
    rcases asks_gotWritable k hnone hwritten hhandler rfl rfl with hasks | ⟨err, hasks⟩
    · exact Or.inl (hasks.log rfl)
    · exact Or.inr ⟨_, err, hasks.log rfl⟩
  | hangup i =>
    obtain ⟨hnone, -, hhandler⟩ := heof i ht
    have hw := (Within.gotEof k c.config.st i 0).event (e := .dispatched i .hangup) rfl
    obtain ⟨err, hasks⟩ := asks_gotEof k 0 hnone hhandler rfl
    exact h.quietly (o := (sockbufGotEof k c.config.st i 0).log [.dispatched i .hangup]) ht hs hstack
      rfl hw (Handed.dispatched fun es text hh => hh.gotEof k 0) (Or.inr ⟨_, err, hasks.log rfl⟩)
  | readable i server =>
    have hslot := (h.inUse.used i ht.1).2.2
    cases server with
    | false =>
      have hw := (Within.gotReadable k c.config.st i).event (e := .dispatched i .readable) rfl
      cases i with
      | zero =>
        obtain ⟨call, hasks, hcall⟩ := asks_gotReadable k (hl.filterAbove _ _) (hl.filterAbove _ _)
          hl.stats hl.handler rfl rfl
        exact h.listener hs hstack rfl hw (hasks.log rfl) hcall
      | succ address =>
        rcases Connection.gotReadable hslot k with ⟨⟨cd, err, hasks⟩, hh⟩ | ⟨data, hne, hasks, -, hh⟩
        · exact h.quietly (o := (sockbufGotReadable k c.config.st (address + 1)).log
            [.dispatched (address + 1) .readable]) ht.1 hs hstack rfl hw (Handed.dispatched hh)
            (Or.inr ⟨cd, err, hasks.log rfl⟩)
        · exact h.chunk (o := (sockbufGotReadable k c.config.st (address + 1)).log
            [.dispatched (address + 1) .readable]) ht.1 hs hstack rfl hw hne (hasks.log rfl)
            (Handed.dispatched hh)
    | true =>
      obtain rfl : i = 0 := by
        have := ht.2 rfl
        omega
      rcases accept_cases h.inUse hzero k (hl.filterAbove _ _) hl.handler rfl with
        hidle | ⟨sock, -, hacc⟩
      · have hw : Within 0 c.config.st [.dispatched 0 .readable] c.config.st :=
          (Within.refl 0 _).event rfl
        have hex : Task.exec k c.config.st (.readable 0 true) =
            some (({ st := c.config.st } : Outcome).log [.dispatched 0 .readable]) := by
          rw [Task.exec, if_pos rfl, hidle]
        exact h.quietly hzero hs hstack hex hw (Handed.dispatched (o := { st := c.config.st })
          fun es text hh => by rw [List.append_nil]; exact hh) (Or.inl ((asks_none _).log rfl))
      · exact h.accepts hs hstack hacc
  | external cb => exact absurd ht id
  | delete j i => exact absurd ht id
  | deleteFinish j => exact absurd ht id
  | shutdown i => exact absurd ht id
  | crash => exact absurd ht id

end Steps

/-! ## The start -/

/-- The state in which the loop of `main` starts. -/
theorem inv_main {k : Kernel} {sock : Int} {c : Process Data} (h : main k sock = some c) : Inv c := by
  rw [main] at h
  split at h
  · cases h
  · have hempty : InUse Slot 0 {} := ⟨Nat.le_refl _, fun j hj => absurd hj (Nat.not_lt_zero j),
      fun j _ hlt => absurd hlt (Nat.not_lt_zero j), rfl⟩
    have hnew : sockbufIsvalid (sockbufNew {}).1 0 = true := sockbufIsvalid_sockbufNew _
    have hself : (sockbufNew {}).1.sbuf 0 = newSlot := sbuf_sockbufNew_self {}
    have hvalid : sockbufIsvalid (sockbufSetSock k (sockbufNew {}).1 0 sock { server := true }) 0 =
        true := by
      rw [isvalid_sockbufSetSock ⟨rfl, rfl⟩ hnew]
      exact hnew
    have hidx : (sockbufNew {}).2 = 0 := rfl
    simp only [hidx, Option.some.injEq] at h
    subst h
    generalize hs : sockbufSetSock k (sockbufNew {}).1 0 sock { server := true } = s at hvalid
    have hset : sockbufSetHandler s 0 handler 0 =
        s.update 0 fun sb => { sb with handler := some handler, clientData := 0 } := by
      rw [sockbufSetHandler, if_pos hvalid]
    have hcallbacks : callbacks (.created 0 :: attachEvents (sockbufNew {}).1 0 sock) = [] := by
      rw [attachEvents]
      split <;> rfl
    have hclients : clients (.created 0 :: attachEvents (sockbufNew {}).1 0 sock) = [] := by
      rw [clients, hcallbacks]
      rfl
    have hslots : slots (.created 0 :: attachEvents (sockbufNew {}).1 0 sock) = 1 := by
      rw [slots, hclients]
      rfl
    refine ⟨?_, ?_, fun t ht => absurd ht List.not_mem_nil, ?_, ?_, ?_, ?_⟩
    -- the three calls of `main`
    · refine Run.head (x := .call .new {}) ⟨rfl, trivial⟩
        (b := ⟨(sockbufNew {}).1, [], [.created 0]⟩) rfl ?_
      refine Run.head (x := .call (.setSock 0 sock { server := true }) k) ⟨rfl, ⟨rfl, rfl⟩, trivial⟩
        (b := ⟨s, [], [.created 0] ++ attachEvents (sockbufNew {}).1 0 sock⟩) ?_ ?_
      · simp only [Sockbuf.step, externalControl, if_true, Api.apply, Option.map_some, Config.after,
          List.append_nil, hs]
      · refine Run.head (x := .call (.setHandler 0 handler 0) k) ⟨rfl, trivial⟩ ?_ (.refl _)
        simp [Sockbuf.step, externalControl, Api.apply, Config.after]
    · show InUse Slot (slots _) (sockbufSetHandler s 0 handler 0)
      rw [hslots, hset]
      have hns : s.nsockbufs = (sockbufNew {}).1.nsockbufs := by
        rw [← hs, nsockbufs_sockbufSetSock k _ hnew]
      refine hempty.push (by rw [update_nsockbufs, hns]) (fun j hj => ?_) ?_ ?_
      · rw [sbuf_update_ne _ _ _ (Ne.symm hj), ← hs, sbuf_sockbufSetSock_ne hnew sock hj]
      · show s.ndeletedSockbufs = _
        rw [← hs, sockbufSetSock_ndeletedSockbufs k _ hnew]
        rfl
      · rw [sbuf_update_self _ _ _ (sockbufIsvalid_iff.1 hvalid).1, ← hs,
          sbuf_sockbufSetSock_self hnew, hself]
        exact ⟨rfl, rfl, rfl, rfl, rfl, rfl⟩
    · show (clients _).map _ = List.range' 1 (clients _).length
      rw [hclients]
      rfl
    · exact hslots.symm
    · show ∀ e ∈ (.created 0 :: attachEvents (sockbufNew {}).1 0 sock : List Event), ∀ j, e.On j →
        j < slots (.created 0 :: attachEvents (sockbufNew {}).1 0 sock)
      rw [hslots]
      intro e he j hj
      rcases List.mem_cons.1 he with rfl | he
      · exact absurd hj id
      · rw [attachEvents] at he
        split at he
        · rw [List.mem_singleton.1 he] at hj
          exact absurd hj id
        · cases he
    · show ∀ address, address + 1 < slots _ → _
      rw [hslots]
      intro address hlt
      omega

/-- The process runs `main` and then serves, whatever the kernel answers. -/
def Reached (k : Kernel) (sock : Int) (c : Process Data) : Prop :=
  ∃ c0, main k sock = some c0 ∧ Run program.step (fun _ _ => True) c0 c

/-- **The invariant** holds of every state reached. -/
theorem Reached.inv {k : Kernel} {sock : Int} {c : Process Data} (h : Reached k sock c) : Inv c := by
  obtain ⟨c0, hmain, hrun⟩ := h
  exact hrun.invariant (fun _ _ _ hc _ hs => hc.step hs) (inv_main hmain)

/-- A list of moves that executes reaches its state. -/
theorem reached_of_execute {k : Kernel} {sock : Int} (xs : List (Move Answers)) {c : Process Data}
    (h : (main k sock).bind (execute program.step (fun _ _ => True) · xs) = some c) :
    Reached k sock c := by
  obtain ⟨c0, hmain, hrun⟩ := Option.bind_eq_some_iff.1 h
  exact ⟨c0, hmain, run_of_execute xs hrun⟩

/-- A connection is accepted, its greeting is taken, and it sends a question mark. -/
def session : List (Move Answers) :=
  let a : Answers :=
    { kernel := fun _ => { write := .ok 200 }
      behind := List.replicate 4095 0
      fill := 0
      buf := ⟨List.replicate 1024 0, List.length_replicate⟩ }
  [.pass { poll := some [{ pollin := true }] }, .run {} a, .run { accept := 9 } a, .run {} a,
    .pass { poll := some [{}, { pollin := true }] }, .run {} a, .run {} a,
    .run { read := .ok [questionMark] } a]

/-- **What a client gets is made of what it sent.** The accepted connections have the slots from 1 on. The
kernel has taken a beginning of `hello` and of what the telnet filter makes of the chunks of the
connection, in its own session, and the rest waits in the buffer unless a write failed; the handler was
told the data in the same chunks. -/
theorem unbuf_streams {k : Kernel} {sock : Int} {c : Process Data} (h : Reached k sock c) :
    (clients c.config.trace).map Prod.snd = List.range' 1 (clients c.config.trace).length ∧
      ∀ idx ∈ (clients c.config.trace).map Prod.snd,
        ∃ (cut : List Chunk) (session : TelnetT) (outs : List Output),
          cut.map Chunk.data = fed idx c.config.trace ∧
          readChunks { echo := true } cut = some (session, outs) ∧
          received outs = heardFrom idx c.config.trace ∧
          accepted idx c.config.trace <+: hello ++ outs.flatMap sent ∧
          (¬ HardError idx c.config.trace →
            accepted idx c.config.trace ++ (c.config.st.sbuf idx).buffered =
              hello ++ outs.flatMap sent) := by
  have hinv := h.inv
  refine ⟨hinv.consecutive, fun idx hidx => ?_⟩
  rw [hinv.consecutive, List.mem_range'_1] at hidx
  obtain ⟨address, rfl⟩ : ∃ address, idx = address + 1 := ⟨idx - 1, by omega⟩
  obtain ⟨cut, session, outs, hcut, hread, -, hheard, hhanded⟩ := hinv.streams address hidx.2
  exact ⟨cut, session, outs, hcut, hread, hheard, hhanded.stream.1, hhanded.stream.2⟩

set_option maxRecDepth 20000 in
/-- A connection that sends a question mark. -/
theorem unbuf_streams_session : ∃ c, Reached {} 5 c ∧ fed 1 c.config.trace = [[questionMark]] ∧
    (clients c.config.trace).map Prod.snd = List.range' 1 (clients c.config.trace).length ∧
      ∀ idx ∈ (clients c.config.trace).map Prod.snd,
        ∃ (cut : List Chunk) (session : TelnetT) (outs : List Output),
          cut.map Chunk.data = fed idx c.config.trace ∧
          readChunks { echo := true } cut = some (session, outs) ∧
          received outs = heardFrom idx c.config.trace ∧
          accepted idx c.config.trace <+: hello ++ outs.flatMap sent ∧
          (¬ HardError idx c.config.trace →
            accepted idx c.config.trace ++ (c.config.st.sbuf idx).buffered =
              hello ++ outs.flatMap sent) :=
  ⟨_, reached_of_execute session rfl, rfl,
    unbuf_streams (reached_of_execute session rfl : Reached {} 5 _)⟩

/-! ## Clients that send text -/

/-- What a chunk of text is answered. -/
def answer (data : List UInt8) : List UInt8 :=
  discipline false data ++ if data = [questionMark] then usage else []

/-- A chunk of text is echoed under the discipline of `telnet_filter_write`, and then handed on. -/
theorem read_text {c : Chunk} (hcmd : telnetCmd ∉ c.data) (hnul : 0 ∉ c.data) :
    ∃ outs, telnetFilterRead c.buf c.data.length { echo := true } = some ({ echo := true }, outs) ∧
      outs.flatMap sent = answer c.data ∧ received outs = c.data := by
  have htake := c.take_buf
  have hne : c.data.length ≠ 0 := fun h => c.nonempty (List.length_eq_zero_iff.1 h)
  rw [telnetFilterRead_eq_passOn _ c.length_le (htake.symm ▸ hcmd), passOn_echo hne rfl,
    telnetFilterWrite_eq c.length_le (htake.symm ▸ hnul), Option.map_some, htake]
  refine ⟨_, rfl, ?_, ?_⟩
  · rw [answer]
    split
    · next hline =>
      rw [hline]
      simp [sent]
    · simp [sent]
  · split <;> simp [received, Output.received]

/-- Chunks without a command byte and without a NUL are passed on as they are. -/
theorem readChunks_text {cut : List Chunk} (hcmd : ∀ c ∈ cut, telnetCmd ∉ c.data)
    (hnul : ∀ c ∈ cut, 0 ∉ c.data) :
    ∃ outs, readChunks { echo := true } cut = some ({ echo := true }, outs) ∧
      outs.flatMap sent = (cut.map Chunk.data).flatMap answer ∧
      received outs = (cut.map Chunk.data).flatten := by
  induction cut with
  | nil => exact ⟨[], rfl, rfl, rfl⟩
  | cons c cut ih =>
    obtain ⟨outs, hread, hsent, hreceived⟩ :=
      read_text (hcmd c List.mem_cons_self) (hnul c List.mem_cons_self)
    obtain ⟨outs', hread', hsent', hreceived'⟩ :=
      ih (fun c' hc => hcmd c' (List.mem_cons_of_mem _ hc)) fun c' hc =>
        hnul c' (List.mem_cons_of_mem _ hc)
    refine ⟨outs ++ outs', ?_, ?_, ?_⟩
    · rw [readChunks, hread, Option.bind_some, hread', Option.map_some]
    · rw [List.flatMap_append, hsent, hsent', List.map_cons, List.flatMap_cons]
    · rw [received, List.flatMap_append, ← received, ← received, hreceived, hreceived', List.map_cons,
        List.flatten_cons]

/-- **A client that sends text gets it back.** Where no chunk of a connection has a telnet command or a NUL,
the handler is told exactly the bytes that came, and the client is sent `hello` and then chunk by chunk the
echo, with the usage after a chunk that is a question mark. -/
theorem unbuf_text {k : Kernel} {sock : Int} {c : Process Data} (h : Reached k sock c) {idx : Nat}
    (hidx : idx ∈ (clients c.config.trace).map Prod.snd)
    (htext : ∀ data ∈ fed idx c.config.trace, telnetCmd ∉ data ∧ 0 ∉ data) :
    heardFrom idx c.config.trace = (fed idx c.config.trace).flatten ∧
      accepted idx c.config.trace <+: hello ++ (fed idx c.config.trace).flatMap answer ∧
      (¬ HardError idx c.config.trace →
        accepted idx c.config.trace ++ (c.config.st.sbuf idx).buffered =
          hello ++ (fed idx c.config.trace).flatMap answer) := by
  have hinv := h.inv
  rw [hinv.consecutive, List.mem_range'_1] at hidx
  obtain ⟨address, rfl⟩ : ∃ address, idx = address + 1 := ⟨idx - 1, by omega⟩
  obtain ⟨cut, session, outs, hcut, hread, -, hheard, hhanded⟩ := hinv.streams address hidx.2
  have hchunk : ∀ ch ∈ cut, telnetCmd ∉ ch.data ∧ 0 ∉ ch.data := fun ch hch =>
    htext ch.data (hcut ▸ List.mem_map_of_mem hch)
  obtain ⟨outs', hread', hsent, hreceived⟩ :=
    readChunks_text (fun ch hch => (hchunk ch hch).1) fun ch hch => (hchunk ch hch).2
  cases hread.symm.trans hread'
  rw [hcut] at hsent hreceived
  rw [← hsent, ← hreceived]
  exact ⟨hheard.symm, hhanded.stream.1, hhanded.stream.2⟩

set_option maxRecDepth 20000 in
/-- A connection that sends a question mark, and what it is answered. -/
theorem unbuf_text_session : ∃ c, Reached {} 5 c ∧ fed 1 c.config.trace = [[questionMark]] ∧
    heardFrom 1 c.config.trace = (fed 1 c.config.trace).flatten ∧
      accepted 1 c.config.trace <+: hello ++ (fed 1 c.config.trace).flatMap answer ∧
      (¬ HardError 1 c.config.trace →
        accepted 1 c.config.trace ++ (c.config.st.sbuf 1).buffered =
          hello ++ (fed 1 c.config.trace).flatMap answer) := by
  refine ⟨_, reached_of_execute session rfl, rfl,
    unbuf_text (reached_of_execute session rfl : Reached {} 5 _) ?_ ?_⟩
  · exact List.mem_singleton.2 rfl
  · intro data hdata
    rw [List.mem_singleton.1 hdata]
    decide

end ExamplePrograms.Onethread.Unbuf
