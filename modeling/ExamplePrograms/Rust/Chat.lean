import Mathlib.Data.List.Basic
import Mathlib.Tactic.Common

/-!
# The chat server's tasks

A connection of `chat/src/main.rs` is a task of two futures: `RegisterFuture` reads the nick, the
first line, and makes the `Link` of a `Peer`, which sends back every line. Both are polled with the
line reader and the socket as their environment, which answers each read and each write in any way it
likes. A poll is a function of the future and these answers; its log records what the future did: the
reads and writes with their answers, and the wake-ups it asked for with `notify`.

`echo_exact` says that a peer sends back what it reads.
-/

set_option autoImplicit false

namespace ExamplePrograms.Rust

/-! ## The environment -/

/-- The bytes of a line as the reader gives it, without its end. -/
abbrev Line := List UInt8

/-- `Poll<α, E>`: `Ok(Async::Ready(a))`, `Ok(Async::NotReady)` or `Err(_)`. -/
inductive Poll (α : Type) where
  | ready (a : α)
  | notReady
  | err
  deriving DecidableEq, Repr

/-- The kinds of errors that `try_write` tells apart. -/
inductive ErrorKind where
  | interrupted
  | wouldBlock
  | other
  deriving DecidableEq, Repr

/-- The answer to a write of `len` bytes. A socket accepts no more bytes than it is given. -/
inductive WriteResult (len : Nat) where
  | ok (n : Nat) (within : n ≤ len)
  | err (kind : ErrorKind)
  deriving DecidableEq, Repr

/-- The answers of one poll: those of the reader in turn, and that of the socket. -/
structure Env where
  read : Nat → Poll (Option Line)
  write : (len : Nat) → WriteResult len

/-- What a future does in a poll. -/
inductive Event where
  | read (outcome : Poll (Option Line))
  | write (buf : List UInt8) (outcome : WriteResult buf.length)
  | notify

/-- The lines that the reader gave. -/
def linesRead : List Event → List Line
  | [] => []
  | .read (.ready (some l)) :: log => l :: linesRead log
  | _ :: log => linesRead log

/-- The bytes that the socket accepted. -/
def sent : List Event → List UInt8
  | [] => []
  | .write buf (.ok n _) :: log => buf.take n ++ sent log
  | _ :: log => sent log

/-- What a poll leaves to be seen: what it did, its answer, and the bytes it left in `tx_buf`. -/
structure Call where
  log : List Event
  result : Poll Unit
  pending : List UInt8

/-! ## Registration -/

variable {Addr : Type}

/-- A registered connection. The halves of its stream are the environment. -/
structure Link (Addr : Type) where
  addr : Addr
  nick : Line
  txBuf : List UInt8

/-- The fields are options in the source; `rx` and `tx` say whether the halves are there. -/
structure RegisterFuture (Addr : Type) where
  addr : Option Addr
  rx : Bool
  tx : Bool
  nick : Option Line

/-- `register`. -/
def register (addr : Addr) : RegisterFuture Addr :=
  { addr := some addr, rx := true, tx := true, nick := none }

/-- `RegisterFuture::poll`. An `unwrap` of `None` panics. -/
def RegisterFuture.poll (fut : RegisterFuture Addr) (env : Env) :
    Option (RegisterFuture Addr × List Event × Poll (Link Addr)) :=
  if fut.rx then
    let outcome := env.read 0
    match outcome with
    | .ready (some nick) =>
        match fut.addr with
        | some addr =>
            if fut.tx then
              some (⟨none, false, false, none⟩, [.read outcome], .ready ⟨addr, nick, []⟩)
            else none
        | none => none
    | .ready none => some ({ fut with nick := none }, [.read outcome], .notReady)
    | .notReady => some (fut, [.read outcome], .notReady)
    | .err => some (fut, [.read outcome], .err)
  else none

/-! ## The peer -/

/-- A registered peer. -/
structure Peer (Addr : Type) where
  link : Link Addr

/-- `LINES_PER_TICK`. -/
def linesPerTick : Nat := 10

/-- The end of a line that is sent. -/
def crlf : List UInt8 := [13, 10]

/-- The loop of a poll over the `k` reads from `i` on: what it did, the buffer, and whether the reader
failed. -/
def readLoop (read : Nat → Poll (Option Line)) :
    Nat → Nat → List UInt8 → List Event × List UInt8 × Bool
  | 0, _, txBuf => ([], txBuf, false)
  | k + 1, i, txBuf =>
      let outcome := read i
      match outcome with
      | .ready (some l) =>
          -- the reader has not said that it is not ready, so nothing else wakes the task
          let notified := if i + 1 = linesPerTick then [Event.notify] else []
          let rest := readLoop read k (i + 1) (txBuf ++ l ++ crlf)
          (.read outcome :: notified ++ rest.1, rest.2)
      | .err => ([.read outcome], txBuf, true)
      -- the end of the stream stops the loop like a reader that is not ready
      | _ => ([.read outcome], txBuf, false)

/-- The write of a poll: what it did, the buffer, and whether it failed. -/
def flush (write : (len : Nat) → WriteResult len) (txBuf : List UInt8) :
    List Event × List UInt8 × Bool :=
  if txBuf = [] then ([], txBuf, false)
  else
    let outcome := write txBuf.length
    match outcome with
    | .ok n _ => if n = 0 then ([.write txBuf outcome], txBuf, true)
        else ([.write txBuf outcome], txBuf.drop n, false)
    -- an interrupted write is tried again in the next poll; any other error ends the task
    | .err .interrupted => ([.write txBuf outcome], txBuf, false)
    | .err _ => ([.write txBuf outcome], txBuf, true)

/-- The wake-up for the bytes that are left. -/
def notifyPending (txBuf : List UInt8) : List Event := if txBuf = [] then [] else [.notify]

/-- The peer with other bytes to send. -/
def Peer.withBuf (p : Peer Addr) (txBuf : List UInt8) : Peer Addr :=
  { link := { p.link with txBuf := txBuf } }

/-- `Peer::poll`. -/
def Peer.poll (p : Peer Addr) (env : Env) : Peer Addr × Call :=
  let (reads, txBuf, readFailed) := readLoop env.read linesPerTick 0 p.link.txBuf
  if readFailed then (p.withBuf txBuf, ⟨reads, .err, txBuf⟩)
  else
    let (writes, txBuf, writeFailed) := flush env.write txBuf
    if writeFailed then (p.withBuf txBuf, ⟨reads ++ writes, .err, txBuf⟩)
    else
      (p.withBuf txBuf, ⟨reads ++ writes ++ notifyPending txBuf, .notReady, txBuf⟩)

/-- A sequence of polls of a peer. -/
def Peer.polls (p : Peer Addr) : List Env → Peer Addr × List Call
  | [] => (p, [])
  | env :: envs =>
      let (p', call) := p.poll env
      let (p'', calls) := Peer.polls p' envs
      (p'', call :: calls)

/-! ## What the reader offers -/

/-- The lines that come at the reads from `i` on, `k` at most. -/
def arriving (read : Nat → Poll (Option Line)) : Nat → Nat → List Line
  | _, 0 => []
  | i, k + 1 =>
      match read i with
      | .ready (some l) => l :: arriving read (i + 1) k
      | _ => []

/-- The answer behind these lines, if there are fewer than `k`. -/
def stopping (read : Nat → Poll (Option Line)) : Nat → Nat → Option (Poll (Option Line))
  | _, 0 => none
  | i, k + 1 =>
      match read i with
      | .ready (some _) => stopping read (i + 1) k
      | outcome => some outcome

/-- Lines as they are sent. -/
def framed (ls : List Line) : List UInt8 := ls.flatMap fun l => l ++ crlf

/-- The end of the loop: there were as many lines as it takes and it asks for another poll, or an answer
stopped it. -/
def stopLog : Option (Poll (Option Line)) → List Event
  | none => [.notify]
  | some outcome => [.read outcome]

/-- What the loop does. -/
def loopLog (ls : List Line) (stop : Option (Poll (Option Line))) : List Event :=
  ls.map (fun l => .read (.ready (some l))) ++ stopLog stop

/-- The read loop, by the lines that arrive and by what stops it. -/
theorem readLoop_eq (read : Nat → Poll (Option Line)) (k i : Nat) (txBuf : List UInt8)
    (hpos : 0 < k) (hk : i + k = linesPerTick) :
    readLoop read k i txBuf =
      (loopLog (arriving read i k) (stopping read i k), txBuf ++ framed (arriving read i k),
        decide (stopping read i k = some .err)) := by
  induction k generalizing i txBuf with
  | zero => omega
  | succ k ih =>
    rw [readLoop, arriving, stopping]
    cases hread : read i with
    | notReady => simp [loopLog, stopLog, framed]
    | err => simp [loopLog, stopLog, framed]
    | ready line =>
      cases line with
      | none => simp [loopLog, stopLog, framed]
      | some l =>
        rcases Nat.eq_zero_or_pos k with rfl | hpos'
        · simp [loopLog, stopLog, framed, readLoop, arriving, stopping, hk]
        -- not the tenth line, so there is no wake-up
        · have hmore : ¬ i + 1 = linesPerTick := by omega
          simp only [if_neg hmore, ih (i + 1) _ hpos' (by omega)]
          simp [loopLog, stopLog, framed]

/-- The limit on the lines of one poll. -/
theorem length_arriving_le (read : Nat → Poll (Option Line)) (k i : Nat) :
    (arriving read i k).length ≤ k := by
  induction k generalizing i with
  | zero => exact Nat.le_refl 0
  | succ k ih =>
    rw [arriving]
    split
    · exact Nat.succ_le_succ (ih (i + 1))
    · exact Nat.zero_le _

/-- The loop does not stop at a line. -/
theorem stopping_ne_line (read : Nat → Poll (Option Line)) (k i : Nat) (l : Line) :
    stopping read i k ≠ some (.ready (some l)) := by
  induction k generalizing i with
  | zero => exact fun h => nomatch h
  | succ k ih =>
    rw [stopping]
    split
    · exact ih (i + 1)
    · next hne =>
      intro h
      exact hne l (Option.some.inj h)

/-! ## The echo -/

@[simp] theorem linesRead_append (log log' : List Event) :
    linesRead (log ++ log') = linesRead log ++ linesRead log' := by
  induction log using linesRead.induct with
  | case1 => rfl
  | case2 l log ih => exact congrArg (l :: ·) ih
  | case3 e log hne ih => rw [List.cons_append, linesRead.eq_3 _ _ hne, linesRead.eq_3 _ _ hne, ih]

@[simp] theorem sent_append (log log' : List Event) : sent (log ++ log') = sent log ++ sent log' := by
  induction log using sent.induct with
  | case1 => rfl
  | case2 buf n within log ih => simp only [List.cons_append, sent, ih, List.append_assoc]
  | case3 e log hne ih => rw [List.cons_append, sent.eq_3 _ _ hne, sent.eq_3 _ _ hne, ih]

/-- The text of lines behind others. -/
theorem framed_append (ls ls' : List Line) : framed (ls ++ ls') = framed ls ++ framed ls' :=
  List.flatMap_append

/-- The lines read by the loop. -/
theorem linesRead_loopLog (read : Nat → Poll (Option Line)) (k i : Nat) :
    linesRead (loopLog (arriving read i k) (stopping read i k)) = arriving read i k := by
  have hmap : ∀ ls : List Line, linesRead (ls.map fun l => Event.read (.ready (some l))) = ls := by
    intro ls
    induction ls with
    | nil => rfl
    | cons l ls ih => exact congrArg (l :: ·) ih
  rw [loopLog, linesRead_append, hmap]
  cases hstop : stopping read i k with
  | none => exact List.append_nil _
  | some outcome =>
    cases outcome with
    | notReady => exact List.append_nil _
    | err => exact List.append_nil _
    | ready line =>
      cases line with
      | none => exact List.append_nil _
      -- an answer that stops the loop is no line
      | some l => exact absurd hstop (stopping_ne_line read k i l)

/-- The loop sends nothing. -/
theorem sent_loopLog (ls : List Line) (stop : Option (Poll (Option Line))) :
    sent (loopLog ls stop) = [] := by
  have hmap : sent (ls.map fun l => Event.read (.ready (some l))) = [] := by
    induction ls with
    | nil => rfl
    | cons l ls ih => exact ih
  rw [loopLog, sent_append, hmap]
  cases stop <;> rfl

/-- The write reads nothing, and what it sends is the front of the buffer. -/
theorem flush_accounts (write : (len : Nat) → WriteResult len) (txBuf : List UInt8) :
    linesRead (flush write txBuf).1 = [] ∧
      sent (flush write txBuf).1 ++ (flush write txBuf).2.1 = txBuf := by
  rw [flush]
  split
  · exact ⟨rfl, rfl⟩
  · cases hw : write txBuf.length with
    | ok n within =>
      dsimp only
      split
      · next hn =>
        subst hn
        exact ⟨rfl, rfl⟩
      · refine ⟨rfl, ?_⟩
        rw [sent, sent, List.append_nil, List.take_append_drop]
    | err kind =>
      cases kind with
      | interrupted => exact ⟨rfl, rfl⟩
      | wouldBlock => exact ⟨rfl, rfl⟩
      | other => exact ⟨rfl, rfl⟩

/-- One poll, from what the reader offers. -/
theorem Peer.poll_eq (p : Peer Addr) (env : Env) :
    let ls := arriving env.read 0 linesPerTick
    let stop := stopping env.read 0 linesPerTick
    let txBuf := p.link.txBuf ++ framed ls
    let w := flush env.write txBuf
    p.poll env =
      if stop = some .err then (p.withBuf txBuf, ⟨loopLog ls stop, .err, txBuf⟩)
      else if w.2.2 = true then (p.withBuf w.2.1, ⟨loopLog ls stop ++ w.1, .err, w.2.1⟩)
      else (p.withBuf w.2.1,
        ⟨loopLog ls stop ++ w.1 ++ notifyPending w.2.1, .notReady, w.2.1⟩) := by
  intro ls stop txBuf w
  rw [Peer.poll, readLoop_eq env.read linesPerTick 0 _ (by decide) rfl]
  by_cases hstop : stop = some .err
  · simp only [stop] at hstop
    simp only [hstop, decide_true, if_true, stop, ls, txBuf]
  · simp only [stop] at hstop
    simp only [hstop, decide_false, Bool.false_eq_true, if_false, stop, ls, txBuf, w]

/-- A notification reads and sends nothing. -/
theorem notifyPending_accounts (txBuf : List UInt8) :
    linesRead (notifyPending txBuf) = [] ∧ sent (notifyPending txBuf) = [] := by
  rw [notifyPending]
  split
  · exact ⟨rfl, rfl⟩
  · exact ⟨rfl, rfl⟩

/-- One poll: what is sent and what stays in the buffer is what was in the buffer and the lines. -/
theorem Peer.poll_accounts (p : Peer Addr) (env : Env) :
    linesRead (p.poll env).2.log = arriving env.read 0 linesPerTick ∧
      sent (p.poll env).2.log ++ (p.poll env).1.link.txBuf =
        p.link.txBuf ++ framed (arriving env.read 0 linesPerTick) := by
  have hreads := linesRead_loopLog env.read linesPerTick 0
  have hquiet := sent_loopLog (arriving env.read 0 linesPerTick) (stopping env.read 0 linesPerTick)
  obtain ⟨hnone, hsent⟩ :=
    flush_accounts env.write (p.link.txBuf ++ framed (arriving env.read 0 linesPerTick))
  rw [Peer.poll_eq]
  split
  -- the reader failed: nothing is sent and everything stays
  · refine ⟨hreads, ?_⟩
    rw [hquiet]
    rfl
  · split
    · constructor
      · rw [linesRead_append, hreads, hnone, List.append_nil]
      · rw [sent_append, hquiet, List.nil_append]
        exact hsent
    · constructor
      · rw [linesRead_append, linesRead_append, hreads, hnone, (notifyPending_accounts _).1,
          List.append_nil, List.append_nil]
      · rw [sent_append, sent_append, hquiet, (notifyPending_accounts _).2, List.append_nil,
          List.nil_append]
        exact hsent

/-- The lines that the readers of some polls offer to a peer, ten of each at most. -/
def offeredLines (envs : List Env) : List Line := envs.flatMap fun env => arriving env.read 0 linesPerTick

/-- A sequence of polls, from a peer with any buffer. -/
theorem Peer.polls_accounts (envs : List Env) (p : Peer Addr) :
    linesRead ((p.polls envs).2.flatMap Call.log) = offeredLines envs ∧
    sent ((p.polls envs).2.flatMap Call.log) ++ (p.polls envs).1.link.txBuf =
      p.link.txBuf ++ framed (offeredLines envs) ∧
    ∀ call ∈ (p.polls envs).2, (linesRead call.log).length ≤ linesPerTick := by
  induction envs generalizing p with
  | nil => exact ⟨rfl, by simp [Peer.polls, sent, offeredLines, framed], fun call h => nomatch h⟩
  | cons env envs ih =>
    obtain ⟨hreads, hone⟩ := p.poll_accounts env
    obtain ⟨hlines, hrest, hlimit⟩ := ih (p.poll env).1
    have hoffered : offeredLines (env :: envs) = arriving env.read 0 linesPerTick ++ offeredLines envs :=
      List.flatMap_cons
    refine ⟨?_, ?_, ?_⟩
    · rw [Peer.polls, List.flatMap_cons, linesRead_append, hreads, hlines, hoffered]
    · calc sent ((p.polls (env :: envs)).2.flatMap Call.log) ++ (p.polls (env :: envs)).1.link.txBuf
          = sent (p.poll env).2.log ++ (sent (((p.poll env).1.polls envs).2.flatMap Call.log) ++
              ((p.poll env).1.polls envs).1.link.txBuf) := by
            rw [Peer.polls, List.flatMap_cons, sent_append, List.append_assoc]
        _ = p.link.txBuf ++ framed (arriving env.read 0 linesPerTick) ++ framed (offeredLines envs) := by
            rw [hrest, ← List.append_assoc, hone]
        _ = _ := by rw [hoffered, framed_append, List.append_assoc]
    · intro call hcall
      rw [Peer.polls] at hcall
      rcases List.mem_cons.1 hcall with rfl | hcall
      · rw [hreads]
        exact length_arriving_le env.read linesPerTick 0
      · exact hlimit call hcall

/-- `Peer::new`. -/
def Peer.new (link : Link Addr) : Peer Addr := { link }

/-- The link of a registered connection has nothing to send yet. -/
theorem register_txBuf {fut fut' : RegisterFuture Addr} {env : Env} {log : List Event}
    {link : Link Addr} (h : fut.poll env = some (fut', log, .ready link)) : link.txBuf = [] := by
  rw [RegisterFuture.poll] at h
  split at h
  · dsimp only at h
    split at h
    · split at h
      · split at h
        · cases h
          rfl
        · cases h
      · cases h
    · cases h
    · cases h
    · cases h
  · cases h

/-- A peer sends back exactly what it reads: after every sequence of polls, with any answers of the
reader and of the socket, it has read the lines that the reader offered, and the bytes the socket accepted
and those in `tx_buf` are the lines read, each with its CR LF. No poll takes more than ten lines. -/
theorem echo_exact (addr : Addr) (nick : Line) (envs : List Env) :
    let run := (Peer.new ⟨addr, nick, []⟩).polls envs
    let log := run.2.flatMap Call.log
    linesRead log = offeredLines envs ∧
      sent log ++ run.1.link.txBuf = framed (linesRead log) ∧
      ∀ call ∈ run.2, (linesRead call.log).length ≤ 10 := by
  obtain ⟨hlines, hsent, hlimit⟩ := Peer.polls_accounts envs (Peer.new ⟨addr, nick, []⟩)
  refine ⟨hlines, ?_, hlimit⟩
  rw [hlines]
  exact hsent

end ExamplePrograms.Rust
