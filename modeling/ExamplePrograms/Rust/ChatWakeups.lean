import ExamplePrograms.Lib.Runs
import ExamplePrograms.Rust.Chat

/-!
# Wake-ups and failures of the chat tasks

A task is polled again only when the reader or the socket answered that it is not ready, or when the
task asked for it. `Lively` is what a poll owes: a poll that is not ready has arranged the next one, a
poll that fails has a cause, and the end of the input completes the task once nothing is left to send.

Two answers are missed. A write that would block fails the task, and the end of the input is taken for
an input that is not ready, for which nobody wakes the task. `lively_iff` says that a run of a
connection is lively exactly when neither happens in it.
-/

set_option autoImplicit false

namespace ExamplePrograms.Rust

open ExamplePrograms.Lib.Runs

variable {Addr : Type}

/-! ## What a poll owes -/

/-- The event arranges that the task is polled again. -/
def Event.wakes : Event → Bool
  | .read .notReady => true
  | .write _ (.err .wouldBlock) => true
  | .notify => true
  | _ => false

/-- The event is a reason to fail: the reader failed, or the writer did for good or accepted nothing of
some bytes. -/
def Event.faults : Event → Bool
  | .read .err => true
  | .write _ (.err .other) => true
  | .write buf (.ok n _) => buf ≠ [] && n = 0
  | _ => false

/-- The reader reports the end of its input. -/
def Event.ends : Event → Bool
  | .read (.ready none) => true
  | _ => false

/-- A poll that keeps the rules of a future: one that is not ready has arranged to be woken, an error has a
cause, and the end of the input completes it once nothing is left to send. -/
structure Lively (c : Call) : Prop where
  woken : c.result = .notReady → c.log.any Event.wakes = true
  caused : c.result = .err → c.log.any Event.faults = true
  completes : c.log.any Event.ends = true → c.pending = [] → c.result ≠ .notReady

/-! ## The task of a connection -/

/-- `register(sock).and_then(Peer::new)`. -/
inductive Task (Addr : Type) where
  | registering (fut : RegisterFuture Addr)
  | peer (p : Peer Addr)

/-- Poll the future the task is at. -/
def Task.poll : Task Addr → Env → Option (Task Addr × Call)
  | .registering fut, env =>
      match fut.poll env with
      | some (_, log, .ready link) => some (.peer (Peer.new link), ⟨log, .ready (), []⟩)
      | some (fut', log, .notReady) => some (.registering fut', ⟨log, .notReady, []⟩)
      | some (fut', log, .err) => some (.registering fut', ⟨log, .err, []⟩)
      | none => none
  | .peer p, env => some (.peer (p.poll env).1, (p.poll env).2)

/-- A task and its polls so far. -/
structure Session (Addr : Type) where
  task : Task Addr
  calls : List Call

/-- The session of a new connection. -/
def Session.start (addr : Addr) : Session Addr := ⟨.registering (register addr), []⟩

/-- A poll of the session. -/
def sessionStep (s : Session Addr) (env : Env) : Option (Session Addr) :=
  (s.task.poll env).map fun r => ⟨r.1, s.calls ++ [r.2]⟩

/-! ## The condition -/

/-- The number of bytes the socket accepted. -/
def WriteResult.accepted {len : Nat} : WriteResult len → Nat
  | .ok n _ => n
  | .err _ => 0

/-- Neither answer is missed in the poll of a peer: the reader fails first, or the write would not
block, and the reader is not at its end with nothing left to send. -/
def Peer.Responds (p : Peer Addr) (env : Env) : Prop :=
  let stop := stopping env.read 0 linesPerTick
  let txBuf := p.link.txBuf ++ framed (arriving env.read 0 linesPerTick)
  stop = some .err ∨
    if txBuf = [] then stop ≠ some (.ready none)
    else env.write txBuf.length ≠ .err .wouldBlock ∧
      ¬ (stop = some (.ready none) ∧ (env.write txBuf.length).accepted = txBuf.length)

instance (p : Peer Addr) (env : Env) : Decidable (p.Responds env) :=
  inferInstanceAs (Decidable (stopping env.read 0 linesPerTick = some .err ∨ ite _ _ _))

/-- The condition on a poll of a task. -/
def Task.Responds : Task Addr → Env → Prop
  | .registering _, env => env.read 0 ≠ .ready none
  | .peer p, env => p.Responds env

instance (t : Task Addr) (env : Env) : Decidable (t.Responds env) :=
  match t with
  | .registering _ => inferInstanceAs (Decidable (env.read 0 ≠ .ready none))
  | .peer p => inferInstanceAs (Decidable (p.Responds env))

/-! ## A poll of a peer -/

/-- Events of a log that are no lines, read off the stop of the loop. -/
theorem any_loopLog {f : Event → Bool} (hf : ∀ l, f (.read (.ready (some l))) = false)
    (ls : List Line) (stop : Option (Poll (Option Line))) :
    (loopLog ls stop).any f = (stopLog stop).any f := by
  have hmap : (ls.map fun l => Event.read (.ready (some l))).any f = false := by
    simp [hf]
  rw [loopLog, List.any_append, hmap, Bool.false_or]

/-- A poll that completes is lively. -/
theorem lively_ready (log : List Event) (pending : List UInt8) :
    Lively ⟨log, .ready (), pending⟩ := by
  constructor
  · intro hres
    cases hres
  · intro hres
    cases hres
  · intro _ _ hres
    cases hres

/-- An error is lively exactly when something failed. -/
theorem lively_err_iff {log : List Event} {pending : List UInt8} :
    Lively ⟨log, .err, pending⟩ ↔ log.any Event.faults = true := by
  constructor
  · intro h
    exact h.caused rfl
  · intro h
    constructor
    · intro hres
      cases hres
    · intro _
      exact h
    · intro _ _ hres
      cases hres

/-- A poll that is not ready is lively exactly when it is woken and keeps what is to be sent. -/
theorem lively_notReady_iff {log : List Event} {pending : List UInt8} :
    Lively ⟨log, .notReady, pending⟩ ↔
      log.any Event.wakes = true ∧ (log.any Event.ends = true → pending ≠ []) := by
  constructor
  · intro h
    exact ⟨h.woken rfl, fun hend hnil => h.completes hend hnil rfl⟩
  · rintro ⟨hwoken, hend⟩
    constructor
    · intro _
      exact hwoken
    · intro hres
      cases hres
    · intro hends hnil
      exact absurd hnil (hend hends)

/-- A poll that asks for another one because bytes are left. -/
theorem lively_pending {log : List Event} {pending : List UInt8} (h : pending ≠ []) :
    Lively ⟨log ++ notifyPending pending, .notReady, pending⟩ := by
  rw [notifyPending, if_neg h, lively_notReady_iff, List.any_append]
  exact ⟨Bool.or_true _, fun _ => h⟩

/-- A poll that leaves nothing to send is woken by what ended its loop, or by nobody. -/
theorem lively_drained_iff {ls : List Line} {stop : Option (Poll (Option Line))} {es : List Event}
    (herr : stop ≠ some .err) (hline : ∀ l, stop ≠ some (.ready (some l)))
    (hwakes : es.any Event.wakes = false) (hends : es.any Event.ends = false) :
    Lively ⟨loopLog ls stop ++ es ++ notifyPending [], .notReady, []⟩ ↔
      stop ≠ some (.ready none) := by
  have hlog : loopLog ls stop ++ es ++ notifyPending [] = loopLog ls stop ++ es := by
    rw [notifyPending, if_pos rfl, List.append_nil]
  have hw : (loopLog ls stop ++ es).any Event.wakes = (stopLog stop).any Event.wakes := by
    rw [List.any_append, hwakes, Bool.or_false, any_loopLog fun l => rfl]
  have he : (loopLog ls stop ++ es).any Event.ends = (stopLog stop).any Event.ends := by
    rw [List.any_append, hends, Bool.or_false, any_loopLog fun l => rfl]
  rw [hlog, lively_notReady_iff, hw, he]
  cases stop with
  | none => simp [stopLog, Event.wakes, Event.ends]
  | some outcome =>
    cases outcome with
    | notReady => simp [stopLog, Event.wakes, Event.ends]
    | err => exact absurd rfl herr
    | ready line =>
      cases line with
      | none => simp [stopLog, Event.wakes]
      | some l => exact absurd rfl (hline l)

/-- A count of bytes is not an error. -/
theorem WriteResult.ok_ne_err {len n : Nat} (within : n ≤ len) (kind : ErrorKind) :
    WriteResult.ok n within ≠ .err kind := by
  intro h
  cases h

/-- Errors of different kinds differ. -/
theorem WriteResult.err_ne_err {len : Nat} {kind kind' : ErrorKind} (h : kind ≠ kind') :
    (WriteResult.err kind : WriteResult len) ≠ .err kind' := by
  intro heq
  cases heq
  exact h rfl

/-- A poll of a peer is lively exactly when neither answer is missed. -/
theorem Peer.poll_lively_iff (p : Peer Addr) (env : Env) :
    Lively (p.poll env).2 ↔ p.Responds env := by
  have hline : ∀ l, stopping env.read 0 linesPerTick ≠ some (.ready (some l)) :=
    stopping_ne_line env.read linesPerTick 0
  rw [Peer.poll_eq, Peer.Responds]
  by_cases herr : stopping env.read 0 linesPerTick = some .err
  · -- the reader fails
    rw [if_pos herr]
    refine iff_of_true (lively_err_iff.2 ?_) (Or.inl herr)
    rw [any_loopLog fun l => rfl, herr]
    rfl
  · rw [if_neg herr, or_iff_right herr]
    generalize arriving env.read 0 linesPerTick = ls
    generalize stopping env.read 0 linesPerTick = stop at *
    generalize p.link.txBuf ++ framed ls = txBuf
    -- no fault is in what the loop did, so a failure needs one in the write
    have hfaults : (loopLog ls stop).any Event.faults = false := by
      rw [any_loopLog fun l => rfl]
      match stop, herr with
      | none, _ => rfl
      | some .notReady, _ => rfl
      | some (.ready _), _ => rfl
      | some .err, herr => exact absurd rfl herr
    by_cases hbuf : txBuf = []
    -- nothing is written, and what ended the loop is all that can wake the task
    · subst hbuf
      rw [flush, if_pos rfl, if_neg Bool.false_ne_true, if_pos rfl]
      exact lively_drained_iff herr hline rfl rfl
    · rw [flush, if_neg hbuf, if_neg hbuf]
      have hpos : txBuf.length ≠ 0 := mt List.eq_nil_of_length_eq_zero hbuf
      cases hw : env.write txBuf.length with
      | ok n within =>
        by_cases hn : n = 0
        · -- nothing of some bytes is accepted
          subst hn
          refine iff_of_true (lively_err_iff.2 ?_) ⟨WriteResult.ok_ne_err _ _, ?_⟩
          · rw [List.any_append, hfaults]
            simp [Event.faults, hbuf]
          · intro hall
            exact hpos hall.2.symm
        · simp only [if_neg hn, if_neg Bool.false_ne_true]
          by_cases hall : n = txBuf.length
          -- all of the bytes are accepted
          · have hdrop : txBuf.drop n = [] := List.drop_eq_nil_of_le (Nat.le_of_eq hall.symm)
            rw [hdrop, lively_drained_iff herr hline rfl rfl]
            constructor
            · intro h
              exact ⟨WriteResult.ok_ne_err _ _, fun hend => h hend.1⟩
            · intro h hend
              exact h.2 ⟨hend, hall⟩
          -- some bytes are left, and the task asks for another poll
          · have hdrop : txBuf.drop n ≠ [] := by
              rw [Ne, List.drop_eq_nil_iff]
              omega
            exact iff_of_true (lively_pending hdrop)
              ⟨WriteResult.ok_ne_err _ _, fun h => hall h.2⟩
      | err kind =>
        cases kind with
        | interrupted =>
          exact iff_of_true (lively_pending hbuf)
            ⟨WriteResult.err_ne_err (by decide), fun h => hpos h.2.symm⟩
        | wouldBlock =>
          -- the poll fails and its log has no cause for that
          refine iff_of_false ?_ (fun h => h.1 rfl)
          intro h
          have hcause := lively_err_iff.1 h
          rw [List.any_append, hfaults] at hcause
          exact Bool.false_ne_true hcause
        | other =>
          refine iff_of_true (lively_err_iff.2 ?_)
            ⟨WriteResult.err_ne_err (by decide), fun h => hpos h.2.symm⟩
          rw [List.any_append, hfaults]
          rfl

/-! ## Runs of a connection -/

/-- A future that has not completed still has what it gives away at its end. -/
def Task.Intact : Task Addr → Prop
  | .registering fut => fut.addr.isSome = true ∧ fut.rx = true ∧ fut.tx = true
  | .peer _ => True

/-- A poll of a task does not panic, and is lively exactly when neither answer is missed. -/
theorem Task.poll_lively_iff {t : Task Addr} (h : t.Intact) (env : Env) :
    ∃ t' c, t.poll env = some (t', c) ∧ t'.Intact ∧ (Lively c ↔ t.Responds env) := by
  cases t with
  | peer p => exact ⟨_, _, rfl, trivial, p.poll_lively_iff env⟩
  | registering fut =>
    obtain ⟨addr, rx, tx, nick⟩ := fut
    obtain ⟨haddr, hrx, htx⟩ := h
    obtain ⟨a, rfl⟩ := Option.isSome_iff_exists.1 haddr
    cases hrx
    cases htx
    rw [Task.poll, RegisterFuture.poll, if_pos rfl, Task.Responds]
    cases hread : env.read 0 with
    | notReady =>
      have hlively : Lively ⟨[.read .notReady], .notReady, []⟩ := by
        rw [lively_notReady_iff]
        exact ⟨rfl, fun hend => absurd hend Bool.false_ne_true⟩
      exact ⟨_, _, rfl, ⟨rfl, rfl, rfl⟩, iff_of_true hlively (by decide)⟩
    | err => exact ⟨_, _, rfl, ⟨rfl, rfl, rfl⟩, iff_of_true (lively_err_iff.2 rfl) (by decide)⟩
    | ready line =>
      cases line with
      | some l =>
        refine ⟨_, _, rfl, trivial, iff_of_true (lively_ready _ _) ?_⟩
        intro h
        cases h
      | none =>
        -- the end of the input is not a nick and nothing wakes the task
        refine ⟨_, _, rfl, ⟨rfl, rfl, rfl⟩, iff_of_false ?_ (fun h => h rfl)⟩
        exact fun h => h.completes rfl rfl rfl

/-- **A session is lively** exactly when its environment responds in every poll. -/
theorem session_lively_iff (envs : List Env) (s : Session Addr) (h : s.task.Intact) :
    ∃ s', execute sessionStep (fun _ _ => True) s envs = some s' ∧
      ((∀ c ∈ s'.calls, Lively c) ↔ (∀ c ∈ s.calls, Lively c) ∧
        execute sessionStep (fun s env => s.task.Responds env) s envs = some s') := by
  induction envs generalizing s with
  | nil => exact ⟨s, rfl, (and_iff_left rfl).symm⟩
  | cons env envs ih =>
    obtain ⟨t', c, hpoll, hintact, hlively⟩ := Task.poll_lively_iff h env
    have hstep : sessionStep s env = some ⟨t', s.calls ++ [c]⟩ := by
      rw [sessionStep, hpoll]
      rfl
    obtain ⟨s', hrun, hiff⟩ := ih ⟨t', s.calls ++ [c]⟩ hintact
    have hcalls : (∀ x ∈ s.calls ++ [c], Lively x) ↔ (∀ x ∈ s.calls, Lively x) ∧ Lively c := by
      rw [List.forall_mem_append, List.forall_mem_singleton]
    refine ⟨s', ?_, ?_⟩
    · rw [execute, if_pos trivial, hstep]
      exact hrun
    · rw [hiff, hcalls, hlively, execute]
      by_cases hresp : s.task.Responds env
      · rw [if_pos hresp, hstep, Option.bind_some, and_iff_left hresp]
      -- the run under the condition stops here, and this poll is not lively
      · rw [if_neg hresp]
        refine iff_of_false (fun hall => hresp hall.1.2) ?_
        intro hall
        cases hall.2

/-- In every run of a connection, with any answers of the reader and of the socket, every poll is
lively exactly when in no poll of the run the write would block or the reader is at its end with nothing
left to send. -/
theorem lively_iff (addr : Addr) (envs : List Env) :
    ∃ s, execute sessionStep (fun _ _ => True) (Session.start addr) envs = some s ∧
      ((∀ c ∈ s.calls, Lively c) ↔
        execute sessionStep (fun s env => s.task.Responds env) (Session.start addr) envs = some s) := by
  obtain ⟨s, hrun, hiff⟩ := session_lively_iff envs (Session.start addr) ⟨rfl, rfl, rfl⟩
  refine ⟨s, hrun, hiff.trans (and_iff_right ?_)⟩
  intro c hc
  cases hc

/-- The connection is closed before the first line: the task is not ready and nobody wakes it. -/
theorem closed_before_nick :
    let closed : Env := { read := fun _ => .ready none, write := fun len => .ok len (Nat.le_refl len) }
    ∃ s, execute sessionStep (fun _ _ => True) (Session.start ()) [closed] = some s ∧
      ¬ ∀ c ∈ s.calls, Lively c := by
  intro closed
  refine ⟨_, rfl, ?_⟩
  intro h
  exact (h _ (List.mem_singleton_self _)).completes rfl rfl rfl

end ExamplePrograms.Rust
