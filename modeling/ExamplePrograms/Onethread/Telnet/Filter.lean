import ExamplePrograms.Lib.Loops
import ExamplePrograms.Onethread.Memutil

/-!
# The telnet filter

`telnet_filter_read` and `telnet_filter_write` of `telnet.c`. Each is a loop over a block of memory
through a moving pointer, which is the offset of its cell in the block. An access outside the block,
and a `memmove` of a negative number of bytes, is undefined: then there is no result, as there is none
when a loop is never left.

What the filter does is the list of the calls it makes. Their own effects belong to the sockbuf module.
-/

set_option autoImplicit false

namespace ExamplePrograms.Onethread.Telnet

open ExamplePrograms.Lib.Loops ExamplePrograms.Lib.Memory

/-- `TELNET_ECHO`: the option to echo. -/
def telnetEcho : UInt8 := 1

/-- `TELNET_SUPRESS_GA`: the option to suppress go-ahead. -/
def telnetSupressGa : UInt8 := 3

/-- `TELNET_AYT`: are you there? -/
def telnetAyt : UInt8 := 246

/-- `TELNET_WILL`. -/
def telnetWill : UInt8 := 251

/-- `TELNET_WONT`. -/
def telnetWont : UInt8 := 252

/-- `TELNET_DO`. -/
def telnetDo : UInt8 := 253

/-- `TELNET_DONT`. -/
def telnetDont : UInt8 := 254

/-- `TELNET_CMD`: the byte before every command. -/
def telnetCmd : UInt8 := 255

/-- `telnet_t`: the bits `TFLAG_ECHO` and `TFLAG_PASSWORD` of its flags, and the other bits. -/
structure TelnetT where
  echo : Bool := false
  password : Bool := false
  others : Nat := 0
  deriving DecidableEq, Repr

/-- Received data is echoed. -/
def TelnetT.echoes (session : TelnetT) : Bool := session.echo && !session.password

/-- The calls of the filter: `telnet_mode`, `sockbuf_write`, `sockbuf_on_write` by
`telnet_filter_write`, and `sockbuf_on_read`. -/
inductive Output where
  | mode (cmd what : UInt8)
  | write (data : List UInt8)
  | onWrite (data : List UInt8)
  | onRead (data : List UInt8)
  deriving DecidableEq, Repr

/-! ## `telnet_filter_write` -/

/-- `'\n'`. -/
def lf : UInt8 := 10

/-- `'\r'`. -/
def cr : UInt8 := 13

/-- `'\007'`. -/
def bel : UInt8 := 7

/-- `'\255'`. C reads the digits as octal, so that this is not `telnetCmd`. -/
def octal255 : UInt8 := 173

/-- `"\r\n"`. -/
def crlf : List UInt8 := [cr, lf]

/-- `filterchars` without its terminator. -/
def filterchars : List UInt8 := [lf, cr, 2, bel, 15, 22, 31, octal255]

/-- `strchr(filterchars, c)`, which finds the terminator as well. -/
def isFiltered (c : UInt8) : Bool := c == 0 || filterchars.contains c

/-- The attribute that a formatting byte turns on. -/
def escCode (c : UInt8) : Option UInt8 :=
  if c = 2 then some 1
  else if c = 15 then some 0
  else if c = 22 then some 7
  else if c = 31 then some 4
  else none

/-- `"\033[%dm"` for a number of one digit. -/
def escape (n : UInt8) : List UInt8 := [27, 91, 48 + n, 109]

/-- The state of the loop: the offset of `data`, and `len`, `newline` and `code`. -/
structure WriteState where
  pos : Nat
  len : Nat
  newline : EggStr
  code : Bool

namespace WriteState

/-- Bytes are appended to the line. -/
def append (s : WriteState) (src : List UInt8) : WriteState :=
  { s with newline := eggAppendStr s.newline src }

/-- `data += n; len -= n`. -/
def skip (s : WriteState) (n : Nat) : WriteState := { s with pos := s.pos + n, len := s.len - n }

/-- The formatting is reset before a line ends. -/
def reset (s : WriteState) : WriteState :=
  if s.code then { s.append (escape 0) with code := false } else s

/-- A NUL counts as the end of a line behind a CR. Behind another byte it is not skipped. -/
def nul (s : WriteState) (data : List UInt8) : Round WriteState :=
  if s.pos = 0 then .undefined
  else
    match data[s.pos - 1]? with
    | none => .undefined
    | some c => .again (if c = cr then (s.append crlf).skip 1 else s)

end WriteState

/-- The inner loop: it copies at most `n` bytes to `temp` and stops at a filtered one. -/
def copyRun (data : List UInt8) : Nat → Nat → Option (List UInt8)
  | 0, _ => some []
  | n + 1, pos =>
      match data[pos]? with
      | none => none
      | some c => if isFiltered c then some [] else (copyRun data n (pos + 1)).map (c :: ·)

/-- One round of the loop of `telnet_filter_write`. -/
def writeRound (data : List UInt8) (s : WriteState) : Round WriteState :=
  if s.len = 0 then .exit s
  else
    match data[s.pos]? with
    | none => .undefined
    | some c =>
        if c = 0 then s.nul data
        else if c = bel then .again (s.skip 1)
        else if c = cr then .again (s.reset.skip 1)
        else if c = lf then .again ((s.reset.append crlf).skip 1)
        else if c = octal255 then .again ((s.append [octal255, octal255]).skip 1)
        else
          match escCode c with
          | some n => .again { (s.append (escape n)).skip 1 with code := true }
          | none =>
              -- an unfiltered byte: `temp` takes 63 bytes of the run and a terminator
              match copyRun data (min 63 s.len) s.pos with
              | none => .undefined
              | some temp => .again ((s.append temp).skip temp.length)

/-- `telnet_filter_write` on the first `len` bytes of `data`: what it passes on when this is not
empty. Every round but one that is repeated for ever lowers `len`. -/
def telnetFilterWrite (data : List UInt8) (len : Nat) : Option (List UInt8) :=
  (iterate (writeRound data) (len + 1) ⟨0, len, .empty, false⟩).map fun s => s.newline.text

/-! ## `telnet_filter_read` -/

/-- The `n` bytes from `buf + cmd` on. A negative `n` is a huge number as a `size_t`. -/
def window (buf : List UInt8) (cmd : Nat) (n : Int) : List UInt8 :=
  if n < 0 then buf.drop cmd else (buf.drop cmd).take n.toNat

/-- `memchr(buf + cmd, c, n)`. The search is undefined when it leaves the block. -/
def memchr (buf : List UInt8) (cmd : Nat) (c : UInt8) (n : Int) : Option (Option Nat) :=
  if c ∈ window buf cmd n then some (some (cmd + (window buf cmd n).idxOf c))
  else if 0 ≤ n ∧ cmd + n ≤ buf.length then some none
  else none

/-- What the `switch` decides: where `cmd` is after it, how many bytes are removed there, the session
and the calls. -/
structure Command where
  cmd : Nat
  remove : Nat
  session : TelnetT
  out : List Output := []

/-- `TELNET_DO`. -/
def telnetOnDo (session : TelnetT) (arg : UInt8) : TelnetT × List Output :=
  if arg &&& (telnetEcho ||| telnetSupressGa) ≠ 0 then
    -- either bit of the option turns the echo on
    if session.echo then (session, [])
    else ({ session with echo := true }, [.mode telnetWill arg])
  else (session, [.mode telnetWont arg])

/-- `TELNET_DONT`. -/
def telnetOnDont (session : TelnetT) (arg : UInt8) : TelnetT × List Output :=
  if arg = telnetEcho ∧ session.echo = true then
    ({ session with echo := false }, [.mode telnetWont arg])
  else (session, [])

/-- `"[YES]\r\n"`. -/
def telnetYes : List UInt8 := [91, 89, 69, 83, 93] ++ crlf

/-- The `switch` over the type of a command. -/
def telnetSwitch (buf : List UInt8) (cmd : Nat) (session : TelnetT) (type : UInt8) :
    Option Command :=
  if type = telnetAyt then some ⟨cmd, 1, session, [.write telnetYes]⟩
  -- a doubled command byte: the second one is removed and the first one kept
  else if type = telnetCmd then some ⟨cmd + 1, 1, session, []⟩
  else if type = telnetDo then
    buf[cmd + 2]?.map fun arg =>
      ⟨cmd, 3, (telnetOnDo session arg).1, (telnetOnDo session arg).2⟩
  else if type = telnetDont then
    buf[cmd + 2]?.map fun arg =>
      ⟨cmd, 3, (telnetOnDont session arg).1, (telnetOnDont session arg).2⟩
  else if type = telnetWill then some ⟨cmd, 3, session, []⟩
  else if type = telnetWont then some ⟨cmd, 3, session, []⟩
  else some ⟨cmd, 2, session, []⟩

/-- The state of the loop: the memory from `data` on, the offset of `cmd`, `len` and the session,
with the calls so far. -/
structure ReadState where
  buf : List UInt8
  cmd : Nat
  len : Int
  session : TelnetT
  out : List Output

/-- The `memmove` over the bytes of a command. It takes the terminator with it. -/
def ReadState.removeCommand (s : ReadState) (c : Command) : Round ReadState :=
  let n : Int := s.len - c.cmd - c.remove + 1
  if n < 0 ∨ s.buf.length < c.cmd + c.remove + n then .undefined
  else
    .again
      { buf := memmove s.buf c.cmd (c.cmd + c.remove) n.toNat
        cmd := c.cmd
        len := s.len - c.remove
        session := c.session
        out := s.out ++ c.out }

/-- One round of the loop of `telnet_filter_read`. -/
def readRound (s : ReadState) : Round ReadState :=
  match memchr s.buf s.cmd telnetCmd s.len with
  | none => .undefined
  | some none => .exit s
  | some (some cmd) =>
      -- the bytes behind `cmd` are read whether or not they were received
      match s.buf[cmd + 1]?.bind (telnetSwitch s.buf cmd s.session) with
      | none => .undefined
      | some c => s.removeCommand c

/-- The part behind the loop: the data that is left is echoed and passed on. -/
def passOn (s : ReadState) : Option (TelnetT × List Output) :=
  if s.len = 0 then some (s.session, s.out)
  else
    let data := s.buf.take s.len.toNat
    if s.session.echoes then
      (telnetFilterWrite s.buf s.len.toNat).map fun line =>
        (s.session, s.out ++ (if line = [] then [] else [.onWrite line]) ++ [.onRead data])
    else some (s.session, s.out ++ [.onRead data])

/-- `telnet_filter_read` on the first `len` bytes of `buf`. Every round lowers `len`. -/
def telnetFilterRead (buf : List UInt8) (len : Nat) (session : TelnetT) :
    Option (TelnetT × List Output) :=
  (iterate readRound (len + 1) ⟨buf, 0, len, session, []⟩).bind passOn

/-! ## The number of rounds -/

/-- `memchr` finds nothing outside its range. -/
theorem memchr_eq_some {buf : List UInt8} {cmd i : Nat} {c : UInt8} {n : Int}
    (h : memchr buf cmd c n = some (some i)) : cmd ≤ i ∧ (0 ≤ n → (i : Int) < cmd + n) := by
  rw [memchr] at h
  split at h
  · next hmem =>
    have hlt := List.idxOf_lt_length_iff.2 hmem
    have hi := Option.some.inj (Option.some.inj h)
    refine ⟨by omega, fun hn => ?_⟩
    rw [window, if_neg (by omega)] at hi hlt
    rw [List.length_take] at hlt
    omega
  · split at h <;> cases h

/-- A command is not before its byte, and something of it is removed. -/
theorem telnetSwitch_spec {buf : List UInt8} {cmd : Nat} {session : TelnetT} {type : UInt8}
    {c : Command} (h : telnetSwitch buf cmd session type = some c) :
    cmd ≤ c.cmd ∧ 1 ≤ c.remove := by
  rw [telnetSwitch] at h
  split at h
  · cases h
    exact ⟨Nat.le_refl _, Nat.le_refl _⟩
  split at h
  · cases h
    exact ⟨Nat.le_succ _, Nat.le_refl _⟩
  split at h
  · obtain ⟨arg, -, rfl⟩ := Option.map_eq_some_iff.1 h
    exact ⟨Nat.le_refl _, Nat.le_add_left 1 _⟩
  split at h
  · obtain ⟨arg, -, rfl⟩ := Option.map_eq_some_iff.1 h
    exact ⟨Nat.le_refl _, Nat.le_add_left 1 _⟩
  split at h
  · cases h
    exact ⟨Nat.le_refl _, Nat.le_add_left 1 _⟩
  split at h
  · cases h
    exact ⟨Nat.le_refl _, Nat.le_add_left 1 _⟩
  · cases h
    exact ⟨Nat.le_refl _, Nat.le_add_left 1 _⟩

/-- What a round of `telnet_filter_read` that goes on has done. -/
theorem readRound_again {s s' : ReadState} (h : readRound s = .again s') :
    ∃ cmd type c, memchr s.buf s.cmd telnetCmd s.len = some (some cmd) ∧
      s.buf[cmd + 1]? = some type ∧ telnetSwitch s.buf cmd s.session type = some c ∧
      s.removeCommand c = .again s' := by
  rw [readRound] at h
  split at h
  · cases h
  · cases h
  · next cmd hcmd =>
    split at h
    · cases h
    · next c hc =>
      obtain ⟨type, htype, hswitch⟩ := Option.bind_eq_some_iff.1 hc
      exact ⟨cmd, type, c, hcmd, htype, hswitch, h⟩

/-- The round that leaves the loop changes nothing. -/
theorem readRound_exit {s s' : ReadState} (h : readRound s = .exit s') : s' = s := by
  rw [readRound] at h
  split at h
  · cases h
  · cases h
    rfl
  · split at h
    · cases h
    · rw [ReadState.removeCommand] at h
      split at h <;> cases h

/-- A round of `telnet_filter_read` lowers `len`: with a `len` that is not positive there is no
command to find or a negative number of bytes to move. -/
theorem readRound_variant {s s' : ReadState} (h : readRound s = .again s') :
    s'.len.toNat < s.len.toNat := by
  obtain ⟨cmd, type, c, hcmd, -, hswitch, hmove⟩ := readRound_again h
  obtain ⟨hle, hlt⟩ := memchr_eq_some hcmd
  obtain ⟨hle', hremove⟩ := telnetSwitch_spec hswitch
  simp only [ReadState.removeCommand] at hmove
  split at hmove
  · cases hmove
  · next hn =>
    cases hmove
    show (s.len - c.remove).toNat < s.len.toNat
    omega

/-- A run that starts at an ordinary character is not empty. -/
theorem copyRun_pos {data : List UInt8} {n pos : Nat} {c : UInt8} {temp : List UInt8}
    (hc : data[pos]? = some c) (hf : isFiltered c = false) (hn : 0 < n)
    (h : copyRun data n pos = some temp) : 0 < temp.length := by
  obtain ⟨m, rfl⟩ : ∃ m, n = m + 1 := ⟨n - 1, by omega⟩
  rw [copyRun] at h
  simp only [hc, hf, Bool.false_eq_true, if_false, Option.map_eq_some_iff] at h
  obtain ⟨rest, -, rfl⟩ := h
  exact Nat.succ_pos _

end ExamplePrograms.Onethread.Telnet
