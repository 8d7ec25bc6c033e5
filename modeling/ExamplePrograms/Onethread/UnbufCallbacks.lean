import ExamplePrograms.Onethread.Unbuf

/-!
# What a callback of the telnet server does

`Does` is what a part of a callback of `unbuf.c` does for one connection: the bytes that it hands to the
socket in the end, and those that it tells the handler. It composes, so that each function of the program
has one lemma.
-/

set_option autoImplicit false

namespace ExamplePrograms.Onethread.Unbuf

open ExamplePrograms.Lib.Runs ExamplePrograms.Onethread.Sockbuf ExamplePrograms.Onethread.Telnet
open ExamplePrograms.Onethread.Sockbuf.State

/-! ## What is sent and heard -/

/-- The text that answers a question mark. -/
def usage : List UInt8 :=
  [255, 247, 13, 10] ++ "usage: some crap here ....".toUTF8.data.toList ++ [13, 10] ++
    "       we like to be used properly".toUTF8.data.toList ++ [13, 10] ++
    "and then we should quit".toUTF8.data.toList ++ [13, 10, 45, 45, 62, 32]

/-- The bytes that a call of the filter hands to the socket in the end. -/
def sent : Output → List UInt8
  | .mode cmd what => [telnetCmd, cmd, what]
  | .write data => (telnetFilterWrite data data.length).getD []
  | .onWrite line => line
  | .onRead data => if data = [questionMark] then usage else []

/-- What a connection is told when it is accepted. -/
def hello : List UInt8 :=
  [telnetCmd, telnetWill, telnetSupressGa] ++ [telnetCmd, telnetWill, telnetEcho]

/-- The chunks that the telnet filter of `idx` was given, in order. -/
def Callback.fed (cb : Callback) : Option (Nat × List UInt8) :=
  match cb.owner, cb.call with
  | some _, .read data => some (cb.idx, data)
  | _, _ => none

/-- What the sockbuf fed to its filter, read by read. -/
def fed (idx : Nat) (es : List Event) : List (List UInt8) :=
  (callbacks es).filterMap fun cb =>
    (Callback.fed cb).bind fun e => if e.1 = idx then some e.2 else none

/-- The bytes that the handler of `idx` was given. -/
def heardFrom (idx : Nat) (es : List Event) : List UInt8 :=
  (heard es).flatMap fun e => if e.1 = idx then e.2 else []

/-- What was fed in two lists of events, one behind the other. -/
theorem fed_append (idx : Nat) (es fs : List Event) : fed idx (es ++ fs) = fed idx es ++ fed idx fs := by
  rw [fed, callbacks_append, List.filterMap_append]
  rfl

/-- What was heard in two lists of events. -/
theorem heardFrom_append (idx : Nat) (es fs : List Event) :
    heardFrom idx (es ++ fs) = heardFrom idx es ++ heardFrom idx fs := by
  rw [heardFrom, heard_append, List.flatMap_append]
  rfl

/-- Events in which no read and no accepted connection is reported. -/
structure Silent (idx : Nat) (es : List Event) : Prop where
  fed : fed idx es = []
  heard : heardFrom idx es = []
  clients : clients es = []

/-- A list of events without a callback but the end of a connection is silent. -/
theorem Silent.of_callbacks {idx : Nat} {es : List Event}
    (h : callbacks es = [] ∨ ∃ cd j err, callbacks es = [⟨none, cd, j, .eof err⟩]) : Silent idx es := by
  rcases h with h | ⟨cd, j, err, h⟩ <;>
    exact ⟨by rw [Unbuf.fed, h]; rfl, by rw [heardFrom, Sockbuf.heard, h]; rfl,
      by rw [Sockbuf.clients, h]; rfl⟩

/-- A part of a callback of `idx`, which sends `out` and tells the handler `inp`. -/
structure Does (idx : Nat) (s : State) (d : Data) (r : Served Data) (out inp : List UInt8) : Prop where
  within : Within idx s r.events r.st
  sessions : r.data.sessions = d.sessions
  handed : ∀ es text, Handed idx s es text → Handed idx r.st (es ++ r.events) (text ++ out)
  fed : fed idx r.events = []
  heard : heardFrom idx r.events = inp
  clients : clients r.events = []

namespace Does

variable {idx : Nat} {s : State} {d : Data} {r r' : Served Data} {out inp out' inp' : List UInt8}

/-- Nothing is done. -/
theorem refl (idx : Nat) (s : State) (d : Data) : Does idx s d ⟨d, s, []⟩ [] [] where
  within := .refl idx s
  sessions := rfl
  handed es text h := by
    rw [List.append_nil, List.append_nil]
    exact h
  fed := rfl
  heard := rfl
  clients := rfl

/-- Two parts, one behind the other. -/
theorem trans (h : Does idx s d r out inp) (h' : Does idx r.st r.data r' out' inp') :
    Does idx s d (after r.events r') (out ++ out') (inp ++ inp') where
  within := h.within.trans h'.within
  sessions := h'.sessions.trans h.sessions
  handed es text hh := by
    have hlast := h'.handed _ _ (h.handed es text hh)
    rw [List.append_assoc, List.append_assoc] at hlast
    exact hlast
  fed := by
    rw [after, fed_append, h.fed, h'.fed]
    rfl
  heard := by
    rw [after, heardFrom_append, h.heard, h'.heard]
  clients := by
    rw [after, clients_append, h.clients, h'.clients]
    rfl

/-- The lines that are printed are not part of it. -/
theorem of_sessions (h : Does idx s d r out inp) {d' : Data} (hd : d'.sessions = r.data.sessions) :
    Does idx s d { r with data := d' } out inp :=
  ⟨h.within, hd.trans h.sessions, h.handed, h.fed, h.heard, h.clients⟩

end Does

/-! ## The records -/

/-- The record of the listening sockbuf. -/
structure Listener (sb : SockbufT) : Prop where
  nfilters : sb.nfilters = 0
  handler : sb.handler = some handler
  stats : sb.stats.isSome = true
  connecting : sb.flags.connecting = false

/-- The record of a connection whose session is at `address`. -/
structure Connection (address : Nat) (sb : SockbufT) : Prop where
  chain : sb.chain = [(telnetFilter, address)]
  handler : sb.handler = some handler
  stats : sb.stats.isSome = true
  connecting : sb.flags.connecting = false
  server : sb.flags.server = false

/-- The sessions are allocated in the order of the connections. -/
def Slot : Nat → SockbufT → Prop
  | 0, sb => Listener sb
  | address + 1, sb => Connection address sb

/-- A flag that only falls stays down. -/
theorem flag_kept {b b' : Bool} (h : b' = true → b = true) (hb : b = false) : b' = false :=
  Bool.eq_false_iff.2 fun hc => Bool.false_ne_true (hb.symm.trans (h hc))

/-- A connection stays one. -/
theorem Connection.keeps {address : Nat} {sb sb' : SockbufT} (hk : Keeps sb sb')
    (h : Connection address sb) : Connection address sb' :=
  ⟨hk.chain.trans h.chain, hk.handler.trans h.handler, hk.stats.trans h.stats,
    flag_kept hk.connecting h.connecting, flag_kept hk.server h.server⟩

/-- The module keeps the slots of the program. -/
theorem calm : Calm 1 Slot where
  keeps j sb sb' hk h := by
    cases j with
    | zero =>
      exact ⟨hk.nfilters.trans h.nfilters, hk.handler.trans h.handler, hk.stats.trans h.stats,
        flag_kept hk.connecting h.connecting⟩
    | succ address => exact Connection.keeps hk h
  connecting j sb h := by
    cases j with
    | zero => exact h.connecting
    | succ address => exact h.connecting
  server j sb h hs := by
    cases j with
    | zero => exact Nat.one_pos
    | succ address => exact absurd hs (by rw [Connection.server h]; exact Bool.false_ne_true)

/-- No filter stands above the listener. -/
theorem Listener.filterAbove {sb : SockbufT} (h : Listener sb) (level : Int)
    (defines : SockbufFilter → Bool) : sb.filterAbove level defines = none := by
  rw [SockbufT.filterAbove, SockbufT.chain, h.nfilters]
  rfl

/-- No filter stands below the listener. -/
theorem Listener.filterBelow {sb : SockbufT} (h : Listener sb) (level : Int)
    (defines : SockbufFilter → Bool) : sb.filterBelow level defines = none := by
  rw [SockbufT.filterBelow, SockbufT.chain, h.nfilters]
  rfl

section Record

variable {address : Nat} {sb : SockbufT} (h : Connection address sb)

include h

/-- The telnet filter takes part in reading and writing only. -/
theorem Connection.filterAbove_none {defines : SockbufFilter → Bool}
    (hdef : defines telnetFilter = false) (level : Int) : sb.filterAbove level defines = none := by
  rw [SockbufT.filterAbove, h.chain]
  simp [hdef]

/-- A read of a connection goes to the telnet filter. -/
theorem Connection.reads :
    sb.filterAbove sockbufLevelInternal SockbufFilter.onRead = some (telnetFilter, address) := by
  rw [SockbufT.filterAbove, h.chain]
  rfl

/-- What the filter passes on is read by the user. -/
theorem Connection.read_last : sb.filterAbove telnetFilterLevel SockbufFilter.onRead = none := by
  rw [SockbufT.filterAbove, h.chain]
  rfl

/-- A write of a connection goes to the telnet filter. -/
theorem Connection.writes :
    sb.filterBelow sockbufLevelWriteInternal SockbufFilter.onWrite = some (telnetFilter, address) := by
  rw [SockbufT.filterBelow, h.chain]
  rfl

/-- What the filter passes on goes to the socket. -/
theorem Connection.write_last : sb.filterBelow telnetFilterLevel SockbufFilter.onWrite = none := by
  rw [SockbufT.filterBelow, h.chain]
  rfl

end Record

/-! ## Writing -/

section Functions

variable {a : Answers} {k : Kernel} {d : Data} {s : State} {idx address : Nat} {r : Served Data}

/-- The text of the filter goes to the socket. -/
theorem does_passOnWrite (hc : Connection address (s.sbuf idx)) {data : List UInt8}
    (h : passOnWrite k d s idx data = some r) : Does idx s d r data [] := by
  rw [passOnWrite, sockbufOnWrite, hc.write_last] at h
  obtain ⟨hst, hevents, hsessions⟩ := settleEof_st h
  have hsilent : Silent idx (sockbufRealWrite k s idx data).events := by
    refine .of_callbacks ?_
    rcases asks_realWrite k data (hc.filterAbove_none rfl _) hc.handler rfl with hasks | ⟨err, hasks⟩
    · exact Or.inl hasks.events
    · exact Or.inr ⟨_, _, err, hasks.events⟩
  refine ⟨?_, hsessions, ?_, ?_, ?_, ?_⟩
  · rw [hst, hevents]
    exact Within.realWrite k s idx data
  · rw [hst, hevents]
    exact fun es text hh => hh.realWrite k data
  · rw [hevents, hsilent.fed]
  · rw [hevents, hsilent.heard]
  · rw [hevents, hsilent.clients]

/-- A write through the filter sends the escaped text. -/
theorem does_filterWrite (hc : Connection address (s.sbuf idx)) {text : List UInt8}
    (h : filterWrite k d s idx text = some r) :
    Does idx s d r ((telnetFilterWrite text text.length).getD []) [] := by
  obtain ⟨line, hline, hrest⟩ := Option.bind_eq_some_iff.1 h
  rw [hline, Option.getD_some]
  split at hrest
  · next hnil =>
    cases hrest
    rw [hnil]
    exact .refl idx s d
  · exact does_passOnWrite hc hrest

/-- A `sockbuf_write` of the program comes back to the filter. -/
theorem does_settleWrite (hc : Connection address (s.sbuf idx)) (hv : sockbufIsvalid s idx = true)
    {text : List UInt8} (h : settleWrite k d (sockbufWrite k s idx text text.length) = some r) :
    Does idx s d r ((telnetFilterWrite text text.length).getD []) [] := by
  have hcount := Within.countSubmit s idx text.length
  have hwrite : sockbufWrite k s idx text text.length =
      ⟨countSubmit s idx text.length, [.external ⟨some telnetFilter, address, idx, .write text⟩],
        [.submitted idx text, .callback ⟨some telnetFilter, address, idx, .write text⟩]⟩ := by
    have harg : writeArgument text text.length = text := by
      rw [writeArgument, if_neg (Int.not_lt.2 (Int.natCast_nonneg _)), Int.toNat_natCast,
        List.take_length]
    rw [sockbufWrite, if_pos hv]
    simp only [harg, sockbufOnWrite, hcount.self.filterBelow, hc.writes]
    rfl
  have hfirst : Does idx s d ⟨d, countSubmit s idx text.length,
      [.submitted idx text, .callback ⟨some telnetFilter, address, idx, .write text⟩]⟩ [] [] := by
    refine ⟨Within.event (e := .submitted idx text) rfl (Within.event (e := .callback _) rfl hcount), rfl,
      fun es t hh => ?_, rfl, rfl, rfl⟩
    rw [List.append_nil, Handed]
    have hbare : (countSubmit s idx text.length).bare idx = s.bare idx :=
      bare_update_stats s idx fun _ => rfl
    -- a submitted text is not yet one that is handed to the socket
    have hout : accepted idx [.submitted idx text,
        .callback ⟨some telnetFilter, address, idx, .write text⟩] = [] := rfl
    have hhard : ¬ HardError idx [.submitted idx text,
        .callback ⟨some telnetFilter, address, idx, .write text⟩] := by
      rintro ⟨err, -, hm⟩
      simp at hm
    rw [hbare, accepted_append, hout, List.append_nil, hardError_append,
      or_iff_left_of_imp fun hc => absurd hc hhard]
    exact hh
  rw [hwrite, settleWrite] at h
  obtain ⟨r', hr', rfl⟩ := after_some h
  exact hfirst.trans (does_filterWrite (hc.keeps hcount.self) hr')

/-! ## Reading -/

/-- The usage text. -/
theorem render_usage : render usageFormat (.ready usageArgs) = some usage := by decide

/-- The text of the question mark has room in the buffer of `iprintf`. -/
theorem iprintf_usage (a : Answers) (k : Kernel) (s : State) (idx : Nat) :
    iprintf a.fill (stackBuf a.buf.1 a.buf.2) k s idx usageFormat (.ready usageArgs) =
      some (sockbufWrite k s idx usage usage.length, (usage.length : Int)) := by
  have hroom : InRoom (room (some (stackBuf a.buf.1 a.buf.2))) usageFormat usage := Or.inl (by
    show ((usage.length : Nat) : Int) < 1014
    decide)
  have hexact := (eggMvsprintf_exact_iff render_usage a.fill (some (stackBuf a.buf.1 a.buf.2)) true).2
    ⟨hroom, fun _ hm => absurd hm (by decide)⟩
  obtain ⟨p, hp, hholds, hfinal⟩ := hexact
  rw [iprintf, hp, Option.bind_some, hfinal, if_pos rfl, Option.map_some, sockbufWrite_take hholds]

/-- The usage text needs no escapes. -/
theorem usage_filtered : telnetFilterWrite usage usage.length = some usage := by
  have h0 : 0 ∉ usage.take usage.length := by decide
  rw [telnetFilterWrite_eq (Nat.le_refl _) h0, List.take_length]
  decide

/-- The handler of a read sends what it answers. -/
theorem does_servoneOnRead (hc : Connection address (s.sbuf idx)) (hv : sockbufIsvalid s idx = true)
    {data : List UInt8} (h : servoneOnRead a k d s idx data = some r) :
    Does idx s d r (sent (.onRead data)) [] := by
  rw [servoneOnRead] at h
  dsimp only at h
  split at h
  · next hq =>
    rw [iprintf_usage, Option.bind_some] at h
    obtain ⟨r', hr', rfl⟩ := Option.map_eq_some_iff.1 h
    have hdoes := does_settleWrite hc hv hr'
    rw [usage_filtered, Option.getD_some] at hdoes
    rw [sent, if_pos hq]
    exact hdoes.of_sessions rfl
  · next hq =>
    cases h
    rw [sent, if_neg hq]
    exact (Does.refl idx s d).of_sessions rfl

/-- What the filter passes on is heard, and answered. -/
theorem does_passOnRead (hc : Connection address (s.sbuf idx)) (hv : sockbufIsvalid s idx = true)
    {data : List UInt8} (h : passOnRead a k d s idx data = some r) :
    Does idx s d r (sent (.onRead data)) data := by
  obtain ⟨stats, hstats⟩ := Option.isSome_iff_exists.1 hc.stats
  have hread : sockbufOnRead s idx telnetFilterLevel data =
      callHandler (s.update idx fun sb =>
        { sb with stats := some { stats with bytesIn := stats.bytesIn + UInt64.ofNat data.length } })
        idx SockbufHandler.onRead (.read data) := by
    rw [sockbufOnRead, hc.read_last]
    simp only [hstats]
  have hw := Within.onRead s idx telnetFilterLevel data
  rw [hread] at hw
  rw [passOnRead, hread] at h
  generalize hs' : s.update idx (fun sb =>
    { sb with stats := some { stats with bytesIn := stats.bytesIn + UInt64.ofNat data.length } }) = s' at h hw
  have hhandler : (s'.sbuf idx).handler = some handler := by
    rw [← hs', sbuf_update_keeps s idx _ SockbufT.handler rfl, hc.handler]
  have hcall : callHandler s' idx SockbufHandler.onRead (.read data) =
      .invoke s' ⟨none, (s'.sbuf idx).clientData, idx, .read data⟩ := by
    rw [callHandler, hhandler]
    rfl
  rw [hcall] at h hw
  obtain ⟨r', hr', rfl⟩ := after_some h
  have hfirst : Does idx s d ⟨d, s', [.callback ⟨none, (s'.sbuf idx).clientData, idx, .read data⟩]⟩
      [] data := by
    refine ⟨hw, rfl, fun es t hh => ?_, rfl, ?_, rfl⟩
    · rw [List.append_nil]
      refine hh.quiet (by simp [Event.Elsewhere]) ?_
      rw [← hs']
      exact bare_update_stats s idx fun _ => rfl
    · simp [heardFrom, Sockbuf.heard, callbacks, Event.asked, Callback.heard]
  have hvalid : sockbufIsvalid s' idx = true :=
    isvalid_of_flags (Nat.le_of_eq hw.nsockbufs.symm) hw.self.avail hw.self.deleted hv
  have hboth := hfirst.trans (does_servoneOnRead (hc.keeps hw.self) hvalid hr')
  rw [List.nil_append, List.append_nil] at hboth
  exact hboth

/-! ## The telnet filter -/

/-- One output of the filter. -/
theorem does_call (hc : Connection address (s.sbuf idx)) (hv : sockbufIsvalid s idx = true)
    {out : Output} (h : call a k d s idx out = some r) : Does idx s d r (sent out) out.received := by
  cases out with
  | mode cmd what => exact does_passOnWrite hc h
  | onWrite line => exact does_passOnWrite hc h
  | write data => exact does_settleWrite hc hv h
  | onRead data => exact does_passOnRead hc hv h

/-- The outputs of the filter, one after the other. -/
theorem does_calls (hc : Connection address (s.sbuf idx)) (hv : sockbufIsvalid s idx = true)
    {outs : List Output} {i : Nat} (h : calls a idx i outs d s = some r) :
    Does idx s d r (outs.flatMap sent) (received outs) := by
  induction outs generalizing i d s r with
  | nil =>
    cases h
    exact .refl idx s d
  | cons out outs ih =>
    obtain ⟨r1, h1, hrest⟩ := Option.bind_eq_some_iff.1 h
    obtain ⟨r2, h2, rfl⟩ := after_some hrest
    have hfirst := does_call hc hv h1
    have hvalid : sockbufIsvalid r1.st idx = true :=
      isvalid_of_flags (Nat.le_of_eq hfirst.within.nsockbufs.symm) hfirst.within.self.avail
        hfirst.within.self.deleted hv
    exact hfirst.trans (ih (hc.keeps hfirst.within.self) hvalid h2)

/-- A chunk is decoded with the session of the connection, and the session is written back. -/
theorem filterRead_spec (hc : Connection address (s.sbuf idx)) (hv : sockbufIsvalid s idx = true)
    {data : List UInt8} (hne : data ≠ []) (h : filterRead a d s idx address data = some r) :
    ∃ (chunk : Chunk) (session session' : TelnetT) (outs : List Output), chunk.data = data ∧
      d.sessions[address]? = some session ∧
      telnetFilterRead chunk.buf chunk.data.length session = some (session', outs) ∧
      Does idx s { d with sessions := d.sessions.set address session' } r (outs.flatMap sent)
        (received outs) := by
  rw [filterRead] at h
  split at h
  · next hsize =>
    obtain ⟨⟨session', outs⟩, hread, hcalls⟩ := Option.bind_eq_some_iff.1 h
    obtain ⟨session, hsession, hread⟩ := Option.bind_eq_some_iff.1 hread
    exact ⟨⟨data, a.behind, hne, hsize⟩, session, session', outs, rfl, hsession, hread,
      does_calls hc hv hcalls⟩
  · cases h

/-- The handler of the listening sockbuf is not asked to read, but could be. -/
theorem listener_onRead (hl : Listener (s.sbuf idx)) {data : List UInt8}
    (h : servoneOnRead a k d s idx data = some r) :
    Within idx s r.events r.st ∧ r.data.sessions = d.sessions ∧ clients r.events = [] := by
  rw [servoneOnRead] at h
  dsimp only at h
  split at h
  · rw [iprintf_usage, Option.bind_some] at h
    obtain ⟨r', hr', rfl⟩ := Option.map_eq_some_iff.1 h
    have hw := Within.write k s idx usage usage.length
    -- without a filter the text goes to the socket at once
    have hasks : (sockbufWrite k s idx usage usage.length).Asks [] ∨ ∃ cd err,
        (sockbufWrite k s idx usage usage.length).Asks [⟨none, cd, idx, .eof err⟩] := by
      rw [sockbufWrite]
      split
      · have hkeeps := (Within.countSubmit s idx (writeArgument usage usage.length).length).self
        simp only [sockbufOnWrite, hkeeps.filterBelow, hl.filterBelow]
        rcases asks_realWrite k (writeArgument usage usage.length)
            ((hkeeps.filterAbove _ _).trans (hl.filterAbove _ _)) (hkeeps.handler.trans hl.handler)
            rfl with hasks | ⟨err, hasks⟩
        · exact Or.inl (hasks.log rfl)
        · exact Or.inr ⟨_, err, hasks.log rfl⟩
      · exact Or.inl (asks_none s)
    have hsettle : settleWrite k d (sockbufWrite k s idx usage usage.length) =
        settleEof d (sockbufWrite k s idx usage usage.length) := by
      rcases hasks with hasks | ⟨cd, err, hasks⟩ <;> rw [settleWrite, hasks.tasks] <;> rfl
    rw [hsettle] at hr'
    obtain ⟨hst, hevents, hsessions⟩ := settleEof_st hr'
    refine ⟨?_, hsessions, ?_⟩
    · show Within idx s r'.events r'.st
      rw [hst, hevents]
      exact hw
    · show clients r'.events = []
      rw [hevents]
      rcases hasks with hasks | ⟨cd, err, hasks⟩ <;> rw [Sockbuf.clients, hasks.events] <;> rfl
  · cases h
    exact ⟨.refl idx s, rfl, rfl⟩

end Functions

end ExamplePrograms.Onethread.Unbuf
