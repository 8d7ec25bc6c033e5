import ExamplePrograms.Onethread.Mvsprintf
import ExamplePrograms.Onethread.Sockbuf.Program
import ExamplePrograms.Onethread.Telnet.Deletion
import ExamplePrograms.Onethread.Telnet.Segmentation

/-!
# A telnet server

`unbuf.c`: a listening sockbuf whose connections get the telnet filter, with echo on, and are told so. The
callbacks of the telnet filter are part of the program, as those of its handler are: `telnet_filter_read`
makes the calls that `telnetFilterRead` lists, and the text of a `sockbuf_write` comes back to
`telnet_filter_write`.

A call that ends in a callback of the program runs that callback to its end. The only one that a write
can end in is `servone_on_eof`, when the socket refuses it.
-/

set_option autoImplicit false

namespace ExamplePrograms.Onethread.Unbuf

open ExamplePrograms.Lib.Runs ExamplePrograms.Onethread.Sockbuf ExamplePrograms.Onethread.Telnet
open ExamplePrograms.Onethread.Sockbuf.State

/-- A line that is printed. -/
inductive Line where
  | accepted (sock : Int) (peerIp : Option String) (peerPort : Int)
  | closed (sock : Int) (err : Nat)
  | received (c : UInt8)
  deriving DecidableEq, Repr

/-- The sessions that `telnet_on` allocated, by address, and the lines printed so far. -/
structure Data where
  sessions : List TelnetT := []
  printed : List Line := []
  deriving DecidableEq, Repr

/-- What the system answers to the calls of one callback, in order; the bytes that stand behind a read in
the buffer of `sockbuf_got_readable`; and the memory that `iprintf` finds. -/
structure Answers where
  kernel : Nat → Kernel
  behind : List UInt8
  fill : UInt8
  buf : { cells : List UInt8 // cells.length = 1024 }

/-- A line that is printed. -/
def Data.print (d : Data) (line : Line) : Data := { d with printed := d.printed ++ [line] }

/-- The handler of every sockbuf of the program. -/
def handler : SockbufHandler := { onEof := true, onNewclient := true, onRead := true }

/-- `servone_on_eof`. -/
def servoneOnEof (d : Data) (s : State) (idx err : Nat) : Served Data where
  data := d.print (.closed (sockbufGetSock s idx) err)
  st := s

/-- Put the events `es` before those of `r`. -/
def after (es : List Event) (r : Served Data) : Served Data := { r with events := es ++ r.events }

/-- The end of a write: nobody is called, or the handler with eof. -/
def settleEof (d : Data) (o : Outcome) : Option (Served Data) :=
  match o.tasks with
  | [] => some ⟨d, o.st, o.events⟩
  | [.external ⟨none, _, idx, .eof err⟩] => some (after o.events (servoneOnEof d o.st idx err))
  | _ => none

/-- `sockbuf_on_write(idx, TELNET_FILTER_LEVEL, data, len)`. -/
def passOnWrite (k : Kernel) (d : Data) (s : State) (idx : Nat) (data : List UInt8) :
    Option (Served Data) :=
  settleEof d (sockbufOnWrite k s idx telnetFilterLevel data)

/-- `telnet_mode`: three bytes to the level below the filter. -/
def telnetMode (k : Kernel) (d : Data) (s : State) (idx : Nat) (cmd what : UInt8) :
    Option (Served Data) :=
  passOnWrite k d s idx [telnetCmd, cmd, what]

/-- `telnet_filter_write`, called by the module. -/
def filterWrite (k : Kernel) (d : Data) (s : State) (idx : Nat) (text : List UInt8) :
    Option (Served Data) :=
  (telnetFilterWrite text text.length).bind fun line =>
    if line = [] then some ⟨d, s, []⟩ else passOnWrite k d s idx line

/-- The end of a `sockbuf_write`, which calls the filter where there is one. -/
def settleWrite (k : Kernel) (d : Data) (o : Outcome) : Option (Served Data) :=
  match o.tasks with
  | [.external ⟨some _, _, idx, .write text⟩] =>
      (filterWrite k d o.st idx text).map (after o.events)
  | _ => settleEof d o

/-! ## The handler -/

/-- `"\r\n"`. -/
def crlfPieces : List Piece := [.literal 13 (by decide), .literal 10 (by decide)]

/-- `"%c%c\r\n%s\r\n%s\r\n%s\r\n--> "`. -/
def usageFormat : List Piece :=
  [.conversion, .conversion] ++ crlfPieces ++ [.conversion] ++ crlfPieces ++ [.conversion] ++
    crlfPieces ++ [.conversion] ++ crlfPieces ++
    [.literal 45 (by decide), .literal 45 (by decide), .literal 62 (by decide), .literal 32 (by decide)]

/-- The arguments of the usage text. -/
def usageArgs : List (List UInt8) :=
  [[255], [247], "usage: some crap here ....".toUTF8.data.toList,
    "       we like to be used properly".toUTF8.data.toList,
    "and then we should quit".toUTF8.data.toList]

/-- `'?'`. -/
def questionMark : UInt8 := 63

/-- `servone_on_read`. -/
def servoneOnRead (a : Answers) (k : Kernel) (d : Data) (s : State) (idx : Nat)
    (data : List UInt8) : Option (Served Data) :=
  let print := fun r : Served Data => { r with data := r.data.print (.received (data.headD 0)) }
  if data = [questionMark] then
    (iprintf a.fill (stackBuf a.buf.1 a.buf.2) k s idx usageFormat (.ready usageArgs)).bind fun r =>
      (settleWrite k d r.1).map print
  else some (print ⟨d, s, []⟩)

/-! ## The telnet filter -/

/-- `sockbuf_on_read(idx, TELNET_FILTER_LEVEL, data, len)`. -/
def passOnRead (a : Answers) (k : Kernel) (d : Data) (s : State) (idx : Nat) (data : List UInt8) :
    Option (Served Data) :=
  let o := sockbufOnRead s idx telnetFilterLevel data
  match o.tasks with
  | [.external ⟨none, _, idx, .read data⟩] =>
      (servoneOnRead a k d o.st idx data).map (after o.events)
  | _ => none

/-- A call of `telnet_filter_read`. -/
def call (a : Answers) (k : Kernel) (d : Data) (s : State) (idx : Nat) :
    Output → Option (Served Data)
  | .mode cmd what => telnetMode k d s idx cmd what
  | .write data => settleWrite k d (sockbufWrite k s idx data data.length)
  | .onWrite line => passOnWrite k d s idx line
  | .onRead data => passOnRead a k d s idx data

/-- Its calls, the `i`-th of them answered by `a.kernel i`. -/
def calls (a : Answers) (idx : Nat) : Nat → List Output → Data → State → Option (Served Data)
  | _, [], d, s => some ⟨d, s, []⟩
  | i, out :: outs, d, s =>
      (call a (a.kernel i) d s idx out).bind fun r =>
        (calls a idx (i + 1) outs r.data r.st).map (after r.events)

/-- `telnet_filter_read` with the session at `address`. The flags are its own while it runs, and are
written back here at its end. -/
def filterRead (a : Answers) (d : Data) (s : State) (idx address : Nat) (data : List UInt8) :
    Option (Served Data) :=
  if data.length + 1 + a.behind.length = 4097 then
    (d.sessions[address]?.bind (telnetFilterRead (data ++ 0 :: a.behind) data.length)).bind fun r =>
      calls a idx 0 r.2 { d with sessions := d.sessions.set address r.1 } s
  else none

/-- `telnet_on(idx, flags)`. -/
def telnetOn (d : Data) (s : State) (idx : Nat) (flags : TelnetT) : Served Data where
  data := { d with sessions := d.sessions ++ [flags] }
  st := sockbufAttachFilter s idx telnetFilter d.sessions.length

/-! ## The program -/

/-- `servone_on_connect`. -/
def servoneOnConnect (a : Answers) (d : Data) (s : State) (clientData newidx : Nat)
    (peerIp : Option String) (peerPort : Int) : Option (Served Data) :=
  let d := d.print (.accepted (sockbufGetSock s newidx) peerIp peerPort)
  let r := telnetOn d (sockbufSetHandler s newidx handler clientData) newidx { echo := true }
  (telnetMode (a.kernel 0) r.data r.st newidx telnetWill telnetSupressGa).bind fun r =>
    (telnetMode (a.kernel 1) r.data r.st newidx telnetWill telnetEcho).map (after r.events)

/-- The callbacks of the handler, and those of the telnet filter, which is the only filter. -/
def serve (a : Answers) (d : Data) (s : State) (cb : Callback) : Option (Served Data) :=
  match cb.owner, cb.call with
  | none, .newclient newidx ip port => servoneOnConnect a d s cb.clientData newidx ip port
  | none, .eof err => some (servoneOnEof d s cb.idx err)
  | none, .read data => servoneOnRead a (a.kernel 0) d s cb.idx data
  | some _, .read data => filterRead a d s cb.idx cb.clientData data
  | some _, .write data => filterWrite (a.kernel 0) d s cb.idx data
  | _, _ => none

/-- The program: what it does in each of the callbacks of the module. -/
def program : Program Data Answers := ⟨serve⟩

/-- `main` up to its loop, with the result of its `socket_create`. -/
def main (k : Kernel) (sock : Int) : Option (Process Data) :=
  if sock < 0 then none
  else
    let s := (sockbufNew {}).1
    let sbuf := (sockbufNew {}).2
    some
      { config :=
          { st := sockbufSetHandler (sockbufSetSock k s sbuf sock { server := true }) sbuf handler 0
            trace := .created sbuf :: attachEvents s sbuf sock }
        data := {} }

/-! ## The callbacks call module functions -/

/-- A call with the events before it. -/
theorem after_some {es : List Event} {x : Option (Served Data)} {r : Served Data}
    (h : x.map (after es) = some r) : ∃ r', x = some r' ∧ r = after es r' := by
  obtain ⟨r', hr', rfl⟩ := Option.map_eq_some_iff.1 h
  exact ⟨r', hr', rfl⟩

/-- The two ends of a write. -/
theorem settleEof_cases {d : Data} {o : Outcome} {r : Served Data} (h : settleEof d o = some r) :
    o.tasks = [] ∧ r = ⟨d, o.st, o.events⟩ ∨
      ∃ cd idx err, o.tasks = [.external ⟨none, cd, idx, .eof err⟩] ∧
        r = ⟨d.print (.closed (sockbufGetSock o.st idx) err), o.st, o.events⟩ := by
  rw [settleEof] at h
  split at h
  · next htasks => exact Or.inl ⟨htasks, (Option.some.inj h).symm⟩
  · next cd idx err htasks =>
    refine Or.inr ⟨cd, idx, err, htasks, ?_⟩
    rw [← Option.some.inj h, after, servoneOnEof, List.append_nil]
  · cases h

/-- The end of a connection changes nothing of the sessions. -/
theorem settleEof_st {d : Data} {o : Outcome} {r : Served Data} (h : settleEof d o = some r) :
    r.st = o.st ∧ r.events = o.events ∧ r.data.sessions = d.sessions := by
  rcases settleEof_cases h with ⟨-, rfl⟩ | ⟨cd, idx, err, -, rfl⟩ <;> exact ⟨rfl, rfl, rfl⟩

/-- An eof that the module reports is one of its calls. -/
theorem calls_settleEof {f : Api} {k : Kernel} {s : State} {o : Outcome} {d : Data} {r : Served Data}
    (hf : f.Clean anySock s) (ho : f.apply k s = some o) (h : settleEof d o = some r) :
    Calls s r.events r.st := by
  obtain ⟨hst, hevents, -⟩ := settleEof_st h
  rw [hst, hevents]
  rcases settleEof_cases h with ⟨htasks, -⟩ | ⟨cd, idx, err, htasks, -⟩
  · exact .call hf ho htasks
  · have hnested := Calls.nested hf ho htasks (by simp) (.refl o.st)
    rwa [List.append_nil] at hnested

section Calls

variable {a : Answers} {k : Kernel} {d : Data} {s : State} {idx : Nat} {r : Served Data}

/-- A write below the filter is a list of calls. -/
theorem calls_passOnWrite {data : List UInt8} (h : passOnWrite k d s idx data = some r) :
    Calls s r.events r.st :=
  calls_settleEof (f := .on idx telnetFilterLevel (.write data)) (k := k) trivial rfl h

/-- A write through the filter is a list of calls. -/
theorem calls_filterWrite {text : List UInt8} (h : filterWrite k d s idx text = some r) :
    Calls s r.events r.st := by
  obtain ⟨line, -, hline⟩ := Option.bind_eq_some_iff.1 h
  split at hline
  · cases hline
    exact .refl s
  · exact calls_passOnWrite hline

/-- A `sockbuf_write` of the program is a list of calls. -/
theorem calls_settleWrite {f : Api} {o : Outcome} (hf : f.Clean anySock s) (ho : f.apply k s = some o)
    (h : settleWrite k d o = some r) : Calls s r.events r.st := by
  rw [settleWrite] at h
  split at h
  · next htasks =>
    obtain ⟨r', hr', rfl⟩ := after_some h
    exact .nested hf ho htasks (by simp) (calls_filterWrite hr')
  · exact calls_settleEof hf ho h

/-- What the handler of a read does is a list of calls. -/
theorem calls_servoneOnRead {data : List UInt8} (h : servoneOnRead a k d s idx data = some r) :
    Calls s r.events r.st := by
  rw [servoneOnRead] at h
  dsimp only at h
  split at h
  · obtain ⟨p, hp, hsettle⟩ := Option.bind_eq_some_iff.1 h
    obtain ⟨r', hr', rfl⟩ := Option.map_eq_some_iff.1 hsettle
    -- the call of `iprintf` is one of `sockbuf_write`
    obtain ⟨printed, -, hprinted⟩ := Option.bind_eq_some_iff.1 hp
    obtain ⟨len, -, rfl⟩ := Option.map_eq_some_iff.1 hprinted
    have hcalls : Calls s r'.events r'.st :=
      calls_settleWrite (f := .write idx printed.output len) (k := k) trivial rfl hr'
    exact hcalls
  · cases h
    exact .refl s

/-- What the filter hands out is a list of calls. -/
theorem calls_call {out : Output} (h : call a k d s idx out = some r) : Calls s r.events r.st := by
  cases out with
  | mode cmd what => exact calls_passOnWrite h
  | onWrite line => exact calls_passOnWrite h
  | write data => exact calls_settleWrite (f := .write idx data data.length) trivial rfl h
  | onRead data =>
    rw [call, passOnRead] at h
    split at h
    · next htasks =>
      obtain ⟨r', hr', rfl⟩ := after_some h
      exact .nested (f := .on idx telnetFilterLevel (.read data)) (k := k) trivial rfl htasks (by simp)
        (calls_servoneOnRead hr')
    · cases h

/-- The outputs of the filter are a list of calls. -/
theorem calls_calls {outs : List Output} {i : Nat} (h : calls a idx i outs d s = some r) :
    Calls s r.events r.st := by
  induction outs generalizing i d s r with
  | nil =>
    cases h
    exact .refl s
  | cons out outs ih =>
    obtain ⟨r1, h1, hrest⟩ := Option.bind_eq_some_iff.1 h
    obtain ⟨r2, h2, rfl⟩ := after_some hrest
    exact (calls_call h1).trans (ih h2)

/-- What the handler of a new connection does is a list of calls. -/
theorem calls_servoneOnConnect {clientData newidx : Nat} {ip : Option String} {port : Int}
    (h : servoneOnConnect a d s clientData newidx ip port = some r) : Calls s r.events r.st := by
  obtain ⟨r1, h1, hrest⟩ := Option.bind_eq_some_iff.1 h
  obtain ⟨r2, h2, rfl⟩ := after_some hrest
  have hset : Calls s [] (sockbufSetHandler s newidx handler clientData) :=
    .call (f := .setHandler newidx handler clientData) (k := {}) trivial rfl rfl
  have hattach := Calls.call (f := .attachFilter newidx telnetFilter d.sessions.length) (k := {})
    (s := sockbufSetHandler s newidx handler clientData) trivial rfl rfl
  exact hset.trans (hattach.trans ((calls_passOnWrite h1).trans (calls_passOnWrite h2)))

end Calls

/-- The callbacks of the program only call the module. -/
theorem faithful : program.Faithful := by
  intro a d s cb r h
  have hserve : serve a d s cb = some r := h
  rw [serve] at hserve
  split at hserve
  · next hcall => exact ⟨by simp [hcall], calls_servoneOnConnect hserve⟩
  · next hcall =>
    cases hserve
    exact ⟨by simp [hcall], .refl s⟩
  · next hcall => exact ⟨by simp [hcall], calls_servoneOnRead hserve⟩
  · next hcall =>
    rw [filterRead] at hserve
    split at hserve
    · obtain ⟨p, -, hcalls⟩ := Option.bind_eq_some_iff.1 hserve
      exact ⟨by simp [hcall], calls_calls hcalls⟩
    · cases hserve
  · next hcall => exact ⟨by simp [hcall], calls_filterWrite hserve⟩
  · cases hserve

end ExamplePrograms.Onethread.Unbuf
