import ExamplePrograms.Circ.ConnectionData
import ExamplePrograms.Circ.RoundTrip
import ExamplePrograms.Circ.Send
import ExamplePrograms.Circ.SessionIds

/-!
# From `circ_send` to a callback

A message that one program sends as a line, and that reaches another one as the data of a read, calls the
entry of the session's table that `circ_process` finds for its command, and the message that the callback
gets has the parts that were sent. The line ends that the network library cuts off are not part of the
data of a read.

The second part is about the flag `CIRC_CONNECTED`, which `circ_connect` tests and nothing sets.
-/

set_option autoImplicit false

namespace ExamplePrograms.Circ

open ExamplePrograms.Lib.CString ExamplePrograms.Lib.Runs

/-- Runs in which the array stays in place while it is pointed to, and no allocation fails. -/
def Steady (s : State) (x : Action × Env) : Prop := ArrayKept s x ∧ x.2.realloc ≠ .failed

instance (s : State) (x : Action × Env) : Decidable (Steady s x) := by unfold Steady; infer_instance

/-- The fields of `m` read back as the parts of `l`. -/
structure Reads (m : CircMessage) (l : IrcLine) : Prop where
  nick : m.str m.nick = l.source.map Source.nick
  ident : m.str m.ident = l.source.bind Source.ident
  host : m.str m.host = l.source.bind Source.host
  command : m.str m.command = some l.command
  argc : m.argc = l.params.length
  args : m.args = l.params.map some

/-- The entry of the table for a command, and the call that it gets. -/
def called (sess : CircSession) (sid : Int) (command : List UInt8) (m : CircMessage) : List Output :=
  ((sess.callbacks.find? fun cb => sameText command cb.command).map fun cb =>
    Output.callback cb.callback sid sess.data m).toList

section Delivery

variable {s : State}

/-- The session of an open connection. -/
theorem entry_of_conn (h : Run step Steady start s) {c : Conn} (hc : c ∈ s.conns) :
    ∃ sess, Entry s c.opener c.connData.index sess := by
  have hinv : Sound s ∧ EventsReachOwn s :=
    h.invariant (I := fun s => Sound s ∧ EventsReachOwn s) (fun _ _ _ hc hok hs =>
      (arrayKept_iff hc.1 hc.2 hs).imp id fun hiff => hiff.2 hok.1) sound_start
  obtain ⟨hlive, hown⟩ := hinv.2 c hc
  have hlength := hinv.1.length (by rw [hlive.1]; rfl)
  have hlt := hlive.2
  refine ⟨s.sessions.get ⟨c.connData.index, hlt⟩, ?_, by rw [hlive.1]; rfl, List.getElem?_eq_getElem hlt⟩
  have hblock : ¬ (s.block = none ∧ c.opener = 0) := by
    rw [hlive.1]
    exact fun hnone => nomatch hnone.1
  rw [State.circFetch, if_neg (by omega), if_neg hblock]
  exact congrArg some (by omega)

/-- `circ_process` on the line of a message. -/
theorem Entry.circProcess_render {sid : Int} {idx : Nat} {sess : CircSession}
    (h : Entry s sid idx sess) (env : Env) (l : IrcLine) :
    ∃ m, Reads m l ∧ circProcess env s sid l.render =
      some ⟨s.update idx fun sess => { sess with msg := m }, 0, called sess sid l.command m⟩ := by
  obtain ⟨m, hparse, hnick, hident, hhost, hcommand, hargc, hargs⟩ := circParse_render l
  refine ⟨m, ⟨hnick, hident, hhost, hcommand, hargc, hargs⟩, ?_⟩
  rw [circProcess, h.fetch, Option.bind_some, h.record env, Option.bind_some, hparse, Option.map_some]
  simp only [hcommand]
  rw [called]
  cases sess.callbacks.find? fun cb => sameText l.command cb.command <;> rfl

/-- **A message arrives as it was sent.** One program sends a message whose line has at most 509 bytes; what
it writes is the line and CR LF. In any run of another program, where the line is read from an open
connection, the first entry of the table of the connection's session that has the command, but for the case
of letters, is called and nothing else, with a message that reads back as the one that was sent; the other
sessions are not touched. -/
theorem circ_link {s₁ s : State} {sid₁ : Int} {idx₁ : Nat} {sess₁ : CircSession}
    (hsender : Entry s₁ sid₁ idx₁ sess₁) (l : IrcLine) (hlen : l.render.length ≤ 509)
    (h : Run step Steady start s) {nsid : Int} {c : Conn}
    (hc : (s.conns.find? fun c => c.nsid == nsid) = some c) (env₁ env : Env) :
    ∃ o₁ data len sess m o,
      circSend env₁ s₁ sid₁ l.render = some o₁ ∧ o₁.out = [.write sess₁.nsid data len] ∧
      data.take len = l.render ++ [13, 10] ∧
      s.sessions[c.connData.index]? = some sess ∧ Reads m l ∧
      (Action.event nsid (.read (data.take (len - 2)))).apply env s = some o ∧
      o.out = called sess c.opener l.command m ∧
      o.st = s.update c.connData.index fun sess => { sess with msg := m } := by
  obtain ⟨sess, hentry⟩ := entry_of_conn h (List.mem_of_find?_eq_some hc)
  obtain ⟨m, hreads, hprocess⟩ := hentry.circProcess_render env l
  have hline : (sendBuffer l.render).take (l.render.length + 2) = l.render ++ [13, 10] := by
    rw [((sendBuffer_line_iff l.render).2 ⟨hlen, l.noNul⟩).2, List.take_of_length_le hlen]
  have hdata : (sendBuffer l.render).take (l.render.length + 2 - 2) = l.render := by
    have htake := congrArg (List.take l.render.length) hline
    rwa [List.take_take, Nat.min_eq_left (Nat.le_add_right _ _), List.take_left] at htake
  refine ⟨_, _, _, sess, m,
    ⟨s.update c.connData.index fun sess => { sess with msg := m }, 0, called sess c.opener l.command m⟩,
    hsender.circSend env₁ l.render, rfl, hline, hentry.entry, hreads, ?_, rfl, rfl⟩
  rw [Action.apply, hc, Option.bind_some, circOn_opener h c (List.mem_of_find?_eq_some hc), NetEvent.text,
    hdata, hprocess]
  rfl

/-- A session with a callback for `"p"`, and its connection. -/
def listening : List (Action × Env) :=
  [(.create none [⟨[112], 5⟩] 1, {}), (.connect 0 [] 6667, { nsid := 7 })]

/-- The session behind it. -/
def listeningSession : CircSession := { nsid := 7, data := 1, callbacks := [⟨[112], 5⟩] }

/-- The state behind it. -/
def listeningState : State where
  block := some 0
  nblocks := 1
  sessions := [listeningSession]
  nsessions := 1
  conns := [⟨7, ⟨0, 0⟩, 0⟩]

/-- A line with a source and two parameters, sent and received. -/
theorem circ_link_shortLine :
    (listeningState.conns.find? fun c => c.nsid == 7) = some ⟨7, ⟨0, 0⟩, 0⟩ ∧
    ∃ o₁ data len sess m o,
      circSend {} oneSession 0 shortLine.render = some o₁ ∧ o₁.out = [.write 0 data len] ∧
      data.take len = shortLine.render ++ [13, 10] ∧
      listeningState.sessions[0]? = some sess ∧ Reads m shortLine ∧
      (Action.event 7 (.read (data.take (len - 2)))).apply {} listeningState = some o ∧
      o.out = called sess 0 shortLine.command m ∧
      o.st = listeningState.update 0 fun sess => { sess with msg := m } := by
  have hrun : Run step Steady start listeningState := run_of_execute listening rfl
  have hentry : Entry oneSession 0 0 { data := 1 } := ⟨rfl, rfl, rfl⟩
  have hconn : (listeningState.conns.find? fun c => c.nsid == 7) = some ⟨7, ⟨0, 0⟩, 0⟩ := rfl
  have hlink := circ_link hentry shortLine (by decide) hrun hconn {} {}
  exact ⟨hconn, hlink⟩

end Delivery

/-! ## A flag that is never set -/

/-- One step keeps the array sound. -/
theorem sound_step {s s' : State} (hs : Sound s) {x : Action × Env} (hstep : step s x = some s') :
    Sound s' := by
  obtain ⟨a, env⟩ := x
  obtain ⟨o, ho, rfl⟩ := Option.map_eq_some_iff.1 hstep
  cases a with
  | create host callbacks data =>
    cases ho
    exact create_sound hs env host callbacks data
  | connect sid host port =>
    rcases circConnect_cases ho with ⟨hkeep, -⟩ | ⟨idx, b, s', hkeep, -, -, -, -, -, hst⟩
    · exact hkeep.sound hs
    · rw [hst]
      exact ⟨(hkeep.sound hs).length, (hkeep.sound hs).fresh⟩
  | destroy sid => exact (keeps_circSessionDestroy ho).sound hs
  | disconnect sid message => exact (keeps_circDisconnect ho).sound hs
  | send sid text => exact (keeps_circSend ho).sound hs
  | event nsid e =>
    obtain ⟨c, -, ho⟩ := Option.bind_eq_some_iff.1 ho
    obtain ⟨o', ho', rfl⟩ := Option.map_eq_some_iff.1 ho
    exact ((keeps_circProcess ho').trans (keeps_afterEvent o'.st nsid e)).sound hs

/-- The flag is clear in every session. -/
def Idle (s : State) : Prop := ∀ sess ∈ s.sessions, sess.flags.connected = false

section Idle

variable {s s' : State}

/-- A change of a session that sets no flag. -/
theorem Idle.update (h : Idle s) (idx : Nat) {f : CircSession → CircSession}
    (hf : ∀ sess : CircSession, sess.flags.connected = false → (f sess).flags.connected = false) :
    Idle (s.update idx f) := by
  intro sess hsess
  obtain ⟨i, hi⟩ := List.mem_iff_getElem?.1 hsess
  rw [State.update, List.getElem?_modify] at hi
  obtain ⟨sess', hsess', rfl⟩ := Option.map_eq_some_iff.1 hi
  have hidle := h sess' (List.mem_of_getElem? hsess')
  split
  · exact hf sess' hidle
  · exact hidle

/-- A new session is not connected. -/
theorem Idle.create (h : Idle s) (hempty : s.block = none → s.nsessions = 0) (env : Env)
    (host : Option (List UInt8)) (callbacks : List CircCallback) (data : Nat) :
    Idle (circSessionCreate env s host callbacks data).st := by
  rw [circSessionCreate]
  split
  · exact fun sess hsess => absurd hsess List.not_mem_nil
  · intro sess hsess
    rcases List.mem_append.1 hsess with hold | hnew
    · split at hold
      · exact h sess hold
      · next hblock =>
        -- a first block holds nothing from before
        rw [hempty (by simpa using hblock)] at hold
        exact absurd hold List.not_mem_nil
    · rw [List.mem_singleton.1 hnew]

/-- No call and no event sets the flag. -/
theorem Idle.apply (h : Idle s) (hempty : s.block = none → s.nsessions = 0) {x : Action} {env : Env}
    {o : Outcome} (ho : x.apply env s = some o) : Idle o.st := by
  have hsend : ∀ {s : State} {sid : Int} {text : List UInt8} {o : Outcome}, Idle s →
      circSend env s sid text = some o → Idle o.st := by
    intro s sid text o h ho
    rw [circSend] at ho
    split at ho
    · cases ho
      exact h
    · obtain ⟨sess, -, rfl⟩ := Option.map_eq_some_iff.1 ho
      exact h
  have hdisconnect : ∀ {s : State} {sid : Int} {message : Option (List UInt8)} {o : Outcome}, Idle s →
      circDisconnect env s sid message = some o → Idle o.st := by
    intro s sid message o h ho
    rw [circDisconnect] at ho
    split at ho
    · cases ho
      exact h
    · obtain ⟨o', ho', rfl⟩ := Option.map_eq_some_iff.1 ho
      have hst : Idle o'.st := hsend (h.update _ fun _ _ => rfl) ho'
      exact hst
  cases x with
  | create host callbacks data =>
    cases ho
    exact h.create hempty env host callbacks data
  | destroy sid =>
    have ho : circSessionDestroy env s sid = some o := ho
    rw [circSessionDestroy] at ho
    split at ho
    · cases ho
      exact h
    · refine hdisconnect (h.update _ fun sess hidle => ?_) ho
      exact hidle
  | connect sid host port =>
    have ho : circConnect env s sid host port = some o := ho
    rw [circConnect] at ho
    split at ho
    · cases ho
      exact h
    · obtain ⟨sess, -, rfl⟩ := Option.map_eq_some_iff.1 ho
      split
      · exact h
      · dsimp only
        split
        · exact h.update _ fun _ hidle => hidle
        · exact h.update _ fun _ hidle => hidle
  | disconnect sid message => exact hdisconnect h ho
  | send sid text => exact hsend h ho
  | event nsid e =>
    obtain ⟨c, -, ho⟩ := Option.bind_eq_some_iff.1 ho
    obtain ⟨o', ho', rfl⟩ := Option.map_eq_some_iff.1 ho
    obtain ⟨idx, -, ho'⟩ := Option.bind_eq_some_iff.1 ho'
    obtain ⟨sess, -, ho'⟩ := Option.bind_eq_some_iff.1 ho'
    obtain ⟨msg, -, rfl⟩ := Option.map_eq_some_iff.1 ho'
    have hidle : Idle (s.update idx fun sess => { sess with msg := msg }) := h.update _ fun _ hidle => hidle
    have hafter : ∀ t : State, Idle t → Idle (t.afterEvent nsid e) := by
      intro t ht
      cases e <;> exact ht
    refine hafter _ ?_
    dsimp only
    split
    · exact hidle
    · split <;> exact hidle

/-- **`circ_connect` never finds a session connected.** In every run in which no allocation fails, a
`circ_connect` of a session in use opens another connection, whatever connections the session has: it never
returns 0, the session writes to the new one from then on, and the old ones stay open beside it. -/
theorem circ_connect_again (h : Run step (fun _ x => x.2.realloc ≠ .failed) start s) {sid : Int}
    {idx : Nat} {sess : CircSession} (he : Entry s sid idx sess) (env : Env) (host : List UInt8)
    (port : Int) :
    ∃ o, circConnect env s sid host port = some o ∧ o.out = [.connect host port sess.host] ∧ o.ret ≠ 0 ∧
      Entry o.st sid idx { sess with nsid := env.nsid } ∧
      ∀ c ∈ s.conns, c.nsid ≠ env.nsid → c ∈ o.st.conns := by
  have hinv := h.invariant (I := fun s => (Sound s ∧ Numbered s) ∧ Idle s) (fun t x t' hI hx hs => by
    obtain ⟨o, ho, rfl⟩ := Option.map_eq_some_iff.1 hs
    exact ⟨⟨sound_step hI.1.1 hs, numbered_step hI.1.1 hI.1.2 hx hs⟩, hI.2.apply hI.1.2.empty ho⟩)
    ⟨⟨sound_start.1, fun _ => rfl, rfl⟩, fun _ hsess => absurd hsess List.not_mem_nil⟩
  have hidle := hinv.2 sess (List.mem_of_getElem? he.entry)
  have hupdated := he.update fun sess => { sess with nsid := env.nsid }
  rw [circConnect, he.fetch]
  simp only [he.record env, Option.map_some, hidle, Bool.false_eq_true, if_false]
  split
  · exact ⟨_, rfl, rfl, by simp, hupdated, fun c hc _ => hc⟩
  · refine ⟨_, rfl, rfl, by simp, ⟨hupdated.fetch, hupdated.block, hupdated.entry⟩, fun c hc hne => ?_⟩
    exact List.mem_cons_of_mem _ (List.mem_filter.2 ⟨hc, by simpa using hne⟩)

/-- A session that listens is connected once more. -/
theorem circ_connect_again_listening : ∃ o,
    circConnect { nsid := 8 } listeningState 0 [] 6667 = some o ∧ o.out = [.connect [] 6667 none] ∧
      o.ret ≠ 0 ∧ Entry o.st 0 0 { listeningSession with nsid := 8 } ∧
      ∀ c ∈ listeningState.conns, c.nsid ≠ 8 → c ∈ o.st.conns := by
  have hrun : Run step (fun _ x => x.2.realloc ≠ .failed) start listeningState :=
    run_of_execute listening rfl
  have hentry : Entry listeningState 0 0 listeningSession := ⟨rfl, rfl, rfl⟩
  exact circ_connect_again hrun hentry { nsid := 8 } [] 6667

end Idle

end ExamplePrograms.Circ
