import ExamplePrograms.Lib.Parallel
import ExamplePrograms.Rust.ChatWakeups

/-!
# The chat server

`main` of `chat/src/main.rs` spawns a task for every connection that `incoming` gives, and the executor polls
the tasks in any order. A stream of connections that fails ends the listener, and so does the panic of
`register` at a connection whose peer is gone; the tasks that were spawned go on. A task that has failed is
dropped.

`server_echoes` says that every connection gets what it would get alone: its first line is the nick, and
each later line is sent back to it.
-/

set_option autoImplicit false

namespace ExamplePrograms.Rust

open ExamplePrograms.Lib

variable {Addr : Type}

/-! ## The tasks -/

/-- The task has completed or failed in its last poll. -/
def Session.ended (s : Session Addr) : Bool := s.calls.getLast?.any fun c => c.result != .notReady

/-- A poll of `register(sock).and_then(Peer::new)`, with the answers to the two futures: the peer is polled
at once when the connection has been registered. -/
def pollTask (s : Session Addr) (envs : Env × Env) : Option (Session Addr) :=
  (sessionStep s envs.1).bind fun s' =>
    match s.task, s'.task with
    | .registering _, .peer _ => sessionStep s' envs.2
    | _, _ => some s'

/-- The executor polls a task that has not ended. -/
def taskStep (s : Session Addr) (envs : Env × Env) : Option (Session Addr) :=
  if s.ended then none else pollTask s envs

/-! ## The server -/

/-- What `incoming` gives. The address of a peer that is gone cannot be had. -/
inductive Incoming (Addr : Type) where
  | accepted (peerAddr : Option Addr)
  | failed

/-- The listener and the sessions that it has spawned. -/
structure Server (Addr : Type) where
  listening : Bool
  sessions : List (Session Addr)

/-- The server before the first connection. -/
def Server.start : Server Addr := ⟨true, []⟩

/-- A connection that comes in, or a poll of a task. -/
inductive ServerAct (Addr : Type) where
  | incoming (x : Incoming Addr)
  | poll (i : Nat) (envs : Env × Env)

/-- The listener's task at what `incoming` gives. -/
def Server.incoming (s : Server Addr) : Incoming Addr → Server Addr
  | .accepted (some addr) => { s with sessions := s.sessions ++ [Session.start addr] }
  -- `unwrap` panics, which the executor takes for the end of the task
  | .accepted none => { s with listening := false }
  | .failed => { s with listening := false }

/-- One act of the server. -/
def serverStep (s : Server Addr) : ServerAct Addr → Option (Server Addr)
  | .incoming x => if s.listening then some (s.incoming x) else none
  | .poll i envs =>
      s.sessions[i]?.bind fun t => (taskStep t envs).map fun t' => { s with sessions := s.sessions.set i t' }

/-- A list of acts, one after the other. -/
def serverRun (s : Server Addr) (acts : List (ServerAct Addr)) : Option (Server Addr) :=
  acts.foldlM serverStep s

/-! ## Each connection alone -/

/-- The addresses of the connections that are registered. -/
def registered : List (ServerAct Addr) → List Addr
  | [] => []
  | .incoming (.accepted (some addr)) :: acts => addr :: registered acts
  | _ :: acts => registered acts

/-- The polls of one connection. -/
def pollsOf (i : Nat) : List (ServerAct Addr) → List (Env × Env)
  | [] => []
  | .poll j envs :: acts => if j = i then envs :: pollsOf i acts else pollsOf i acts
  | _ :: acts => pollsOf i acts

/-- What an action is for the tasks. -/
def ServerAct.acts : ServerAct Addr → List (Parallel.Act (Session Addr) (Env × Env))
  | .incoming (.accepted (some addr)) => [.spawn (Session.start addr)]
  | .incoming _ => []
  | .poll i envs => [.step i envs]

/-- The sessions run in parallel. -/
theorem serverStep_sessions {s s' : Server Addr} {a : ServerAct Addr} (h : serverStep s a = some s') :
    Parallel.run taskStep s.sessions a.acts = some s'.sessions := by
  cases a with
  | incoming x =>
    rw [serverStep] at h
    split at h
    · cases h
      cases x with
      | failed => rfl
      | accepted peerAddr =>
        cases peerAddr with
        | none => rfl
        | some addr => rfl
    · cases h
  | poll i envs =>
    obtain ⟨t, ht, hset⟩ := Option.bind_eq_some_iff.1 h
    obtain ⟨t', ht', rfl⟩ := Option.map_eq_some_iff.1 hset
    rw [ServerAct.acts, Parallel.run, List.foldlM_cons, Parallel.next, ht, Option.bind_some, ht']
    rfl

/-- A run of the server is a run of the tasks. -/
theorem serverRun_sessions {acts : List (ServerAct Addr)} {s s' : Server Addr}
    (h : serverRun s acts = some s') :
    Parallel.run taskStep s.sessions (acts.flatMap ServerAct.acts) = some s'.sessions := by
  induction acts generalizing s with
  | nil =>
    cases h
    rfl
  | cons a acts ih =>
    rw [serverRun, List.foldlM_cons] at h
    obtain ⟨s₁, hstep, hrest⟩ := Option.bind_eq_some_iff.1 h
    rw [List.flatMap_cons, Parallel.run_append, serverStep_sessions hstep]
    exact ih hrest

/-- The sessions that are spawned are those of the registered connections. -/
theorem spawned_acts (acts : List (ServerAct Addr)) :
    Parallel.spawned (acts.flatMap ServerAct.acts) = (registered acts).map Session.start := by
  induction acts with
  | nil => rfl
  | cons a acts ih =>
    rw [List.flatMap_cons]
    cases a with
    | poll i envs => exact ih
    | incoming x =>
      cases x with
      | failed => exact ih
      | accepted peerAddr =>
        cases peerAddr with
        | none => exact ih
        | some addr => exact congrArg (Session.start addr :: ·) ih

/-- The steps of a session are its own polls. -/
theorem stepsOf_acts (i : Nat) (acts : List (ServerAct Addr)) :
    Parallel.stepsOf i (acts.flatMap ServerAct.acts) = pollsOf i acts := by
  induction acts with
  | nil => rfl
  | cons a acts ih =>
    rw [List.flatMap_cons]
    cases a with
    | poll j envs =>
      rw [ServerAct.acts, List.singleton_append, Parallel.stepsOf, pollsOf, ih]
    | incoming x =>
      cases x with
      | failed => exact ih
      | accepted peerAddr =>
        cases peerAddr with
        | none => exact ih
        | some addr => exact ih

/-! ## What a connection sends back -/

/-- The log of all polls. -/
def Session.log (s : Session Addr) : List Event := s.calls.flatMap Call.log

/-- What has been read and sent: nothing before the nick, and then what came behind it, but for the bytes
that are still to be sent. -/
def Session.Echoes (addr : Addr) (s : Session Addr) : Prop :=
  match s.task with
  | .registering fut => fut = register addr ∧ linesRead s.log = [] ∧ sent s.log = []
  | .peer p => p.link.addr = addr ∧ ∃ ls, linesRead s.log = p.link.nick :: ls ∧
      sent s.log ++ p.link.txBuf = framed ls

/-- A session that was not polled yet. -/
theorem echoes_start (addr : Addr) : (Session.start addr).Echoes addr := ⟨rfl, rfl, rfl⟩

/-- A poll of a peer changes the buffer only. -/
theorem Peer.poll_withBuf (p : Peer Addr) (env : Env) : ∃ txBuf, (p.poll env).1 = p.withBuf txBuf := by
  rw [Peer.poll_eq]
  split
  · exact ⟨_, rfl⟩
  · split
    · exact ⟨_, rfl⟩
    · exact ⟨_, rfl⟩

/-- A poll of a connection that is being registered. -/
theorem sessionStep_register (addr : Addr) (calls : List Call) (env : Env) :
    sessionStep ⟨.registering (register addr), calls⟩ env = some
      (match env.read 0 with
        | .ready (some nick) => ⟨.peer (Peer.new ⟨addr, nick, []⟩),
            calls ++ [⟨[.read (.ready (some nick))], .ready (), []⟩]⟩
        | .err => ⟨.registering (register addr), calls ++ [⟨[.read .err], .err, []⟩]⟩
        | outcome => ⟨.registering (register addr), calls ++ [⟨[.read outcome], .notReady, []⟩]⟩) := by
  rw [sessionStep, Task.poll, RegisterFuture.poll, register]
  cases env.read 0 with
  | notReady => rfl
  | err => rfl
  | ready line => cases line <;> rfl

@[simp] theorem Session.log_snoc (t : Task Addr) (calls : List Call) (c : Call) :
    Session.log ⟨t, calls ++ [c]⟩ = calls.flatMap Call.log ++ c.log := by
  simp [Session.log]

/-- One poll of a session that has not ended. -/
theorem Session.Echoes.step {addr : Addr} {s : Session Addr} (h : s.Echoes addr) (env : Env) :
    ∃ s', sessionStep s env = some s' ∧ s'.Echoes addr := by
  obtain ⟨task, calls⟩ := s
  cases task with
  | registering fut =>
    obtain ⟨rfl, hread, hsent⟩ := h
    have hstays : ∀ c : Call, linesRead c.log = [] → sent c.log = [] →
        Session.Echoes addr ⟨.registering (register addr), calls ++ [c]⟩ := by
      intro c hread' hsent'
      refine ⟨rfl, ?_, ?_⟩
      · rw [Session.log_snoc, linesRead_append, hread', List.append_nil]
        exact hread
      · rw [Session.log_snoc, sent_append, hsent', List.append_nil]
        exact hsent
    refine ⟨_, sessionStep_register addr calls env, ?_⟩
    cases env.read 0 with
    | notReady => exact hstays _ rfl rfl
    | err => exact hstays _ rfl rfl
    | ready line =>
      cases line with
      | none => exact hstays _ rfl rfl
      | some nick =>
        refine ⟨rfl, [], ?_, ?_⟩
        · rw [Session.log_snoc, linesRead_append]
          exact congrArg (· ++ [nick]) hread
        · rw [Session.log_snoc, sent_append]
          exact congrArg (fun bytes => bytes ++ [] ++ []) hsent
  | peer p =>
    obtain ⟨haddr, ls, hread, hsent⟩ := h
    obtain ⟨txBuf, hp⟩ := p.poll_withBuf env
    obtain ⟨hlines, haccounts⟩ := p.poll_accounts env
    refine ⟨⟨.peer (p.poll env).1, calls ++ [(p.poll env).2]⟩, rfl, ?_,
      ls ++ arriving env.read 0 linesPerTick, ?_, ?_⟩
    · rw [hp]
      exact haddr
    · rw [Session.log_snoc, linesRead_append, hlines, hp]
      exact congrArg (· ++ arriving env.read 0 linesPerTick) hread
    · rw [Session.log_snoc, sent_append, List.append_assoc, haccounts, ← List.append_assoc, framed_append]
      exact congrArg (· ++ framed (arriving env.read 0 linesPerTick)) hsent

/-- A poll of a task that has not ended does not panic. -/
theorem Session.Echoes.poll {addr : Addr} {s : Session Addr} (h : s.Echoes addr) (envs : Env × Env) :
    ∃ s', pollTask s envs = some s' ∧ s'.Echoes addr := by
  obtain ⟨s₁, hs₁, h₁⟩ := h.step envs.1
  obtain ⟨s₂, hs₂, h₂⟩ := h₁.step envs.2
  rw [pollTask, hs₁, Option.bind_some]
  cases s.task with
  | peer p => exact ⟨s₁, rfl, h₁⟩
  | registering fut =>
    cases s₁.task with
    | peer p => exact ⟨s₂, hs₂, h₂⟩
    | registering fut' => exact ⟨s₁, rfl, h₁⟩

/-- **A session echoes** after any polls. -/
theorem Session.Echoes.run {addr : Addr} {s s' : Session Addr} {polls : List (Env × Env)}
    (h : s.Echoes addr) (hrun : polls.foldlM taskStep s = some s') : s'.Echoes addr := by
  induction polls generalizing s with
  | nil =>
    cases hrun
    exact h
  | cons envs polls ih =>
    rw [List.foldlM_cons] at hrun
    obtain ⟨s₁, hstep, hrest⟩ := Option.bind_eq_some_iff.1 hrun
    obtain ⟨s₂, hs₂, h₂⟩ := h.poll envs
    rw [taskStep] at hstep
    split at hstep
    · cases hstep
    · rw [hs₂] at hstep
      cases hstep
      exact ih h₂ hrest

/-! ## What its reader offers -/

/-- The lines that the reader of a connection offers in its polls: the nick in the first poll that finds a
line, at most ten lines for the peer that is polled at once, and at most ten in each later poll. -/
def offered : List (Env × Env) → List Line
  | [] => []
  | envs :: polls =>
      match envs.1.read 0 with
      | .ready (some nick) => nick :: offeredLines (envs.2 :: polls.map Prod.fst)
      | _ => offered polls

/-- What the polls offer to a task. -/
def Task.offers : Task Addr → List (Env × Env) → List Line
  | .registering _, polls => offered polls
  | .peer _, polls => offeredLines (polls.map Prod.fst)

/-- A poll of a peer reads what it is offered. -/
theorem sessionStep_peer_reads {p : Peer Addr} {calls : List Call} {env : Env} {s' : Session Addr}
    (h : sessionStep ⟨.peer p, calls⟩ env = some s') (polls : List (Env × Env)) :
    linesRead s'.log ++ s'.task.offers polls =
      linesRead (calls.flatMap Call.log) ++ offeredLines (env :: polls.map Prod.fst) := by
  cases h
  rw [Session.log_snoc, linesRead_append, (p.poll_accounts env).1, List.append_assoc]
  rfl

/-- What a poll reads is the front of what is offered. -/
theorem Session.Echoes.poll_reads {addr : Addr} {s s' : Session Addr} (h : s.Echoes addr)
    {envs : Env × Env} (hpoll : pollTask s envs = some s') (polls : List (Env × Env)) :
    linesRead s'.log ++ s'.task.offers polls = linesRead s.log ++ s.task.offers (envs :: polls) := by
  obtain ⟨task, calls⟩ := s
  obtain ⟨s₁, hs₁, hpoll⟩ := Option.bind_eq_some_iff.1 hpoll
  cases task with
  | peer p =>
    cases hpoll
    exact sessionStep_peer_reads hs₁ polls
  | registering fut =>
    obtain ⟨rfl, hread, -⟩ := h
    have hstays : ∀ c : Call, linesRead c.log = [] →
        linesRead (Session.log ⟨.registering (register addr), calls ++ [c]⟩) ++ offered polls =
          linesRead (Session.log ⟨.registering (register addr), calls⟩) ++ offered polls := by
      intro c hc
      rw [Session.log_snoc, linesRead_append, hc, List.append_nil]
      rfl
    rw [sessionStep_register, Option.some.injEq] at hs₁
    rw [show ∀ fut, (Task.registering fut).offers (envs :: polls) = offered (envs :: polls) from
      fun _ => rfl, offered]
    cases henv : envs.1.read 0 with
    | notReady =>
      rw [henv] at hs₁
      subst hs₁
      cases hpoll
      exact hstays _ rfl
    | err =>
      rw [henv] at hs₁
      subst hs₁
      cases hpoll
      exact hstays _ rfl
    | ready line =>
      rw [henv] at hs₁
      subst hs₁
      cases line with
      | none =>
        cases hpoll
        exact hstays _ rfl
      -- the nick, and what the peer reads at once
      | some nick =>
        rw [sessionStep_peer_reads hpoll polls, List.flatMap_append, linesRead_append, List.append_assoc]
        rfl

/-- A session reads what its reader offers it. -/
theorem Session.Echoes.run_reads {addr : Addr} {s s' : Session Addr} {polls : List (Env × Env)}
    (h : s.Echoes addr) (hrun : polls.foldlM taskStep s = some s') :
    linesRead s'.log = linesRead s.log ++ s.task.offers polls := by
  induction polls generalizing s with
  | nil =>
    cases hrun
    cases s'.task <;> exact (List.append_nil _).symm
  | cons envs polls ih =>
    rw [List.foldlM_cons] at hrun
    obtain ⟨s₁, hstep, hrest⟩ := Option.bind_eq_some_iff.1 hrun
    rw [taskStep] at hstep
    split at hstep
    · cases hstep
    · obtain ⟨s₂, hs₂, h₂⟩ := h.poll envs
      rw [hs₂] at hstep
      cases hstep
      rw [ih h₂ hrest]
      exact h.poll_reads hs₂ polls

/-- **The connections of the server.** Whatever connections come and in whatever order their tasks are
polled, there is one session for each connection that was registered, and it is what its polls alone make
of it. It has read the lines that its reader offered, of which the first is its nick; the bytes that its
socket accepted and those in `tx_buf` are the lines behind it, each with its CR LF. A poll of a task that
has not ended never panics. -/
theorem server_echoes {acts : List (ServerAct Addr)} {s : Server Addr}
    (h : serverRun Server.start acts = some s) :
    s.sessions.length = (registered acts).length ∧
    ∀ i t, s.sessions[i]? = some t → ∃ addr, (registered acts)[i]? = some addr ∧
      (pollsOf i acts).foldlM taskStep (Session.start addr) = some t ∧
      linesRead t.log = offered (pollsOf i acts) ∧ t.Echoes addr ∧
      (t.ended = false → ∀ envs, (taskStep t envs).isSome = true) := by
  have hrun := serverRun_sessions h
  constructor
  · rw [Parallel.length_run hrun, spawned_acts, List.length_map]
    exact Nat.zero_add _
  · intro i t ht
    have halone := Parallel.run_getElem? hrun i
    rw [spawned_acts, stepsOf_acts, ht] at halone
    obtain ⟨t₀, ht₀, hpolls⟩ := Option.bind_eq_some_iff.1 halone.symm
    rw [show Server.start.sessions = ([] : List (Session Addr)) from rfl, List.nil_append,
      List.getElem?_map] at ht₀
    obtain ⟨addr, haddr, rfl⟩ := Option.map_eq_some_iff.1 ht₀
    have hechoes := (echoes_start addr).run hpolls
    have hreads := (echoes_start addr).run_reads hpolls
    refine ⟨addr, haddr, hpolls, hreads, hechoes, fun hended envs => ?_⟩
    obtain ⟨t', ht', -⟩ := hechoes.poll envs
    rw [taskStep, hended, if_neg Bool.false_ne_true, ht']
    rfl

/-- Two connections and one that is gone; the first one sends its nick and a line, of which three bytes
are written. -/
theorem server_echoes_two :
    let env : Env := ⟨fun i => if i = 0 then .ready (some [104, 105]) else .notReady,
      fun len => if h : 3 ≤ len then .ok 3 h else .err .interrupted⟩
    let acts : List (ServerAct Nat) := [.incoming (.accepted (some 1)), .poll 0 (env, env),
      .incoming (.accepted (some 2)), .incoming (.accepted none), .poll 0 (env, env)]
    ∃ s, serverRun Server.start acts = some s ∧ s.sessions.length = (registered acts).length ∧
      ∀ i t, s.sessions[i]? = some t → ∃ addr, (registered acts)[i]? = some addr ∧
        (pollsOf i acts).foldlM taskStep (Session.start addr) = some t ∧
        linesRead t.log = offered (pollsOf i acts) ∧ t.Echoes addr ∧
        (t.ended = false → ∀ envs, (taskStep t envs).isSome = true) :=
  ⟨_, rfl, server_echoes rfl⟩

end ExamplePrograms.Rust
