import ExamplePrograms.Circ.Sessions

/-!
# The data of a connection

`circ_connect` registers the address of its session for the connection, and the handlers read their
session through it. The address is that of an element of an array that grows: as soon as `realloc`
moves the array, or loses it, the addresses of all open connections are dangling. `circ_fetch` also lets
the index behind the last session pass, which is the address of no session.

`ArrayKept` is the condition that neither happens. It is exact: the first step that breaks it leaves a
connection whose next event is read through an address that is not that of its session
(`arrayKept_iff`).
-/

set_option autoImplicit false

namespace ExamplePrograms.Circ

open ExamplePrograms.Lib.Runs

/-- What the handlers read through the data of the connection is an element of the array, and the one
of the session that opened the connection. -/
structure ReachesOwn (s : State) (c : Conn) : Prop where
  live : s.Live c.connData
  own : (c.connData.index : Int) = c.opener

/-- The next event of every open connection reaches its own session. -/
def EventsReachOwn (s : State) : Prop := ∀ c ∈ s.conns, ReachesOwn s c

/-- While a connection is open `realloc` leaves the array where it is, and no connection is opened for
the index behind the last session. -/
def ArrayKept (s : State) : Action × Env → Prop
  | (.create _ _ _, env) => s.conns = [] ∨ env.realloc = .inPlace
  | (.connect sid _ _, env) =>
      sid = s.nsessions →
        s.block = none ∨ env.nsid = -1 ∨ (env.stray s.nsessions).flags.connected = true
  | _ => True

instance (s : State) (x : Action × Env) : Decidable (ArrayKept s x) := by
  obtain ⟨a, env⟩ := x
  cases a <;> simp only [ArrayKept] <;> infer_instance

/-! ## What the functions do to the array -/

/-- The array stays where it is with the numbers of its elements, and no connection is opened. -/
structure Keeps (s s' : State) : Prop where
  block : s'.block = s.block
  nblocks : s'.nblocks = s.nblocks
  sids : s'.sessions.map CircSession.sid = s.sessions.map CircSession.sid
  nsessions : s'.nsessions = s.nsessions
  conns : ∀ c ∈ s'.conns, c ∈ s.conns

namespace Keeps

variable {s s' s'' : State}

theorem refl (s : State) : Keeps s s := ⟨rfl, rfl, rfl, rfl, fun _ hc => hc⟩

theorem trans (h : Keeps s s') (h' : Keeps s' s'') : Keeps s s'' where
  block := h'.block.trans h.block
  nblocks := h'.nblocks.trans h.nblocks
  sids := h'.sids.trans h.sids
  nsessions := h'.nsessions.trans h.nsessions
  conns := fun c hc => h.conns c (h'.conns c hc)

/-- The array keeps its size. -/
theorem length (h : Keeps s s') : s'.sessions.length = s.sessions.length := by
  simpa using congrArg List.length h.sids

/-- A change of one session that keeps its identifier. -/
theorem update (s : State) (idx : Nat) {f : CircSession → CircSession}
    (hf : ∀ sess, (f sess).sid = sess.sid) : Keeps s (s.update idx f) where
  block := rfl
  nblocks := rfl
  sids := by
    refine List.ext_getElem? fun i => ?_
    simp only [State.update, List.getElem?_map, List.getElem?_modify]
    cases s.sessions[i]? with
    | none => rfl
    | some sess =>
      refine congrArg some ?_
      show CircSession.sid (if idx = i then f sess else sess) = sess.sid
      split
      · exact hf sess
      · rfl
  nsessions := rfl
  conns := fun _ hc => hc

/-- An address that is in the array stays in it. -/
theorem live (h : Keeps s s') {p : Ptr} (hp : s.Live p) : s'.Live p :=
  ⟨h.block.trans hp.1, h.length ▸ hp.2⟩

/-- A connection keeps reaching its own session. -/
theorem reachesOwn (h : Keeps s s') {c : Conn} (hc : ReachesOwn s c) : ReachesOwn s' c :=
  ⟨h.live hc.live, hc.own⟩

end Keeps

section Functions

variable {env : Env} {s : State} {o : Outcome}

/-- `circ_send` changes no session. -/
theorem keeps_circSend {sid : Int} {text : List UInt8} (h : circSend env s sid text = some o) :
    Keeps s o.st := by
  rw [circSend] at h
  split at h
  · cases h
    exact .refl s
  · obtain ⟨sess, -, rfl⟩ := Option.map_eq_some_iff.1 h
    exact .refl s

/-- `circ_disconnect` changes only flags. -/
theorem keeps_circDisconnect {sid : Int} {message : Option (List UInt8)}
    (h : circDisconnect env s sid message = some o) : Keeps s o.st := by
  rw [circDisconnect] at h
  split at h
  · cases h
    exact .refl s
  · next idx _ =>
    obtain ⟨o', ho', rfl⟩ := Option.map_eq_some_iff.1 h
    have hst : Keeps s (s.update idx fun sess =>
        { sess with flags := { sess.flags with connected := false } }) := .update s idx fun _ => rfl
    have hsend := keeps_circSend ho'
    exact hst.trans hsend

/-- `circ_session_destroy` changes only flags. -/
theorem keeps_circSessionDestroy {sid : Int} (h : circSessionDestroy env s sid = some o) :
    Keeps s o.st := by
  rw [circSessionDestroy] at h
  split at h
  · cases h
    exact .refl s
  · next idx _ =>
    have hst : Keeps s (s.update idx fun sess =>
        { sess with flags := { sess.flags with destroy := true } }) := .update s idx fun _ => rfl
    exact hst.trans (keeps_circDisconnect h)

/-- `circ_process` changes only the parsed message. -/
theorem keeps_circProcess {sid : Int} {buffer : List UInt8}
    (h : circProcess env s sid buffer = some o) : Keeps s o.st := by
  obtain ⟨idx, -, h⟩ := Option.bind_eq_some_iff.1 h
  obtain ⟨sess, -, h⟩ := Option.bind_eq_some_iff.1 h
  obtain ⟨msg, -, rfl⟩ := Option.map_eq_some_iff.1 h
  have hst : Keeps s (s.update idx fun sess => { sess with msg := msg }) :=
    .update s idx fun _ => rfl
  dsimp only
  split
  · exact hst
  · split <;> exact hst

/-- The handlers of the network library change only flags. -/
theorem keeps_afterEvent (s : State) (nsid : Int) (e : NetEvent) : Keeps s (s.afterEvent nsid e) := by
  cases e with
  | close => exact ⟨rfl, rfl, rfl, rfl, fun c hc => (List.mem_filter.1 hc).1⟩
  | _ => exact .refl s

/-- What `circ_connect` does: it opens no connection, and it says why if `circ_fetch` lets the index of
an array pass; or it opens one for such an index. -/
theorem circConnect_cases {sid : Int} {host : List UInt8} {port : Int}
    (h : circConnect env s sid host port = some o) :
    (Keeps s o.st ∧ ∀ idx : Nat, (idx : Int) = sid → idx ≤ s.nsessions → s.block = none ∨
      env.nsid = -1 ∨ (s.sessions.getD idx (env.stray idx)).flags.connected = true) ∨
    ∃ (idx b : Nat) (s' : State), Keeps s s' ∧ (idx : Int) = sid ∧ idx ≤ s.nsessions ∧
      s.block = some b ∧ env.nsid ≠ -1 ∧
      (s.sessions.getD idx (env.stray idx)).flags.connected = false ∧
      o.st = { s' with conns :=
        ⟨env.nsid, ⟨b, idx⟩, sid⟩ :: s.conns.filter fun c => c.nsid != env.nsid } := by
  rw [circConnect] at h
  split at h
  · next hidx =>
    cases h
    refine Or.inl ⟨.refl s, fun idx hsid hle => Or.inl ?_⟩
    exact (State.circFetch_none hidx (by omega) (by omega)).1
  · next idx hidx =>
    obtain ⟨sess, hsess, rfl⟩ := Option.map_eq_some_iff.1 h
    obtain ⟨b, hb, rfl⟩ := Option.map_eq_some_iff.1 hsess
    have hkeep : Keeps s (s.update idx fun sess => { sess with nsid := env.nsid }) :=
      .update s idx fun _ => rfl
    obtain ⟨hsid, hle⟩ := State.circFetch_some hidx
    split
    · next hconnected =>
      refine Or.inl ⟨.refl s, fun idx' hsid' _ => Or.inr (Or.inr ?_)⟩
      obtain rfl : idx' = idx := by omega
      exact hconnected
    next hconnected =>
    dsimp only
    split
    · next hnsid => exact Or.inl ⟨hkeep, fun _ _ _ => Or.inr (Or.inl hnsid)⟩
    next hnsid =>
    refine Or.inr ⟨idx, b, _, hkeep, hsid, hle, hb, hnsid, by simpa using hconnected, ?_⟩
    rw [hb]
    rfl

/-- What `circ_session_create` does: a new element with the next number behind the old ones, in the old
block only if `realloc` leaves it in place. -/
theorem circSessionCreate_cases (env : Env) (s : State) (host : Option (List UInt8))
    (callbacks : List CircCallback) (data : Nat) :
    (env.realloc = .failed ∧ (circSessionCreate env s host callbacks data).st.block = none ∧
      (circSessionCreate env s host callbacks data).st.conns = s.conns) ∨
    (env.realloc ≠ .failed ∧ ∃ new : CircSession, new.sid = s.nsessions ∧
      (circSessionCreate env s host callbacks data).st =
        { s with
          block := if s.block.isSome && env.realloc == .inPlace then s.block else some s.nblocks
          nblocks := if s.block.isSome && env.realloc == .inPlace then s.nblocks else s.nblocks + 1
          sessions := (if s.block.isSome then s.sessions else (List.range s.nsessions).map env.stray) ++
            [new]
          nsessions := s.nsessions + 1 }) := by
  rw [circSessionCreate]
  by_cases hfail : env.realloc = .failed
  · rw [if_pos hfail]
    exact Or.inl ⟨hfail, rfl, rfl⟩
  · rw [if_neg hfail]
    exact Or.inr ⟨hfail, _, rfl, rfl⟩

end Functions

/-! ## Steps -/

/-- The array has as many elements as `nsessions` says, and its block is an old one. -/
structure Sound (s : State) : Prop where
  length : s.block.isSome = true → s.sessions.length = s.nsessions
  fresh : ∀ b, s.block = some b → b < s.nblocks

section Step

variable {s s' : State}

/-- What keeps the array keeps it sound. -/
theorem Keeps.sound (h : Keeps s s') (hs : Sound s) : Sound s' where
  length := fun hb => by
    rw [h.length, h.nsessions]
    exact hs.length (h.block ▸ hb)
  fresh := fun b hb => by
    rw [h.nblocks]
    exact hs.fresh b (h.block ▸ hb)

/-- **`circ_session_create`** keeps the array sound. -/
theorem create_sound (hs : Sound s) (env : Env) (host : Option (List UInt8))
    (callbacks : List CircCallback) (data : Nat) :
    Sound (circSessionCreate env s host callbacks data).st := by
  rcases circSessionCreate_cases env s host callbacks data with
    ⟨-, hblock, -⟩ | ⟨-, new, -, hnew⟩
  · refine ⟨fun hb => ?_, fun b hb => ?_⟩
    · rw [hblock] at hb
      cases hb
    · rw [hblock] at hb
      cases hb
  rw [hnew]
  refine ⟨fun _ => ?_, fun b hb => ?_⟩
  · show (_ ++ [new]).length = s.nsessions + 1
    rw [List.length_append, List.length_singleton]
    split
    · next hsome => rw [hs.length hsome]
    · rw [List.length_map, List.length_range]
  · -- the block is the old one, or the next that has not been used
    simp only at hb ⊢
    split at hb
    · next hstays =>
      rw [if_pos hstays]
      exact hs.fresh b hb
    · next hstays =>
      rw [if_neg hstays]
      cases hb
      exact Nat.lt_succ_self _

/-- Creating a session keeps the open connections just when the array stays in its place. -/
theorem create_reachesOwn (hs : Sound s) (hown : EventsReachOwn s) {env : Env}
    (host : Option (List UInt8)) (callbacks : List CircCallback) (data : Nat)
    (hst : s' = (circSessionCreate env s host callbacks data).st) :
    Sound s' ∧ (EventsReachOwn s' ↔ s.conns = [] ∨ env.realloc = .inPlace) := by
  refine ⟨hst ▸ create_sound hs env host callbacks data, ?_⟩
  rcases circSessionCreate_cases env s host callbacks data with
    ⟨hfail, hblock, hconns⟩ | ⟨hok, new, -, hnew⟩
  -- there is no array any more, so every open connection is dangling
  · rw [← hst] at hblock hconns
    rw [hfail]
    constructor
    · intro h
      refine Or.inl (List.eq_nil_iff_forall_not_mem.2 fun c hc => ?_)
      have := (h c (hconns ▸ hc)).live.1
      rw [hblock] at this
      cases this
    · rintro (h | h)
      · intro c hc
        rw [hconns, h] at hc
        exact absurd hc List.not_mem_nil
      · cases h
  · rw [← hst] at hnew
    by_cases hstays : (s.block.isSome && env.realloc == .inPlace) = true
    -- the addresses in the block stay good, and the new element is behind them
    · obtain ⟨hsome, hplace⟩ := Bool.and_eq_true_iff.1 hstays
      rw [if_pos hstays, if_pos hstays, if_pos hsome] at hnew
      subst hnew
      refine iff_of_true (fun c hc => ?_) (Or.inr (by simpa using hplace))
      have h := hown c hc
      refine ⟨⟨h.live.1, ?_⟩, h.own⟩
      exact Nat.lt_of_lt_of_le h.live.2 (by rw [List.length_append]; exact Nat.le_add_right _ _)
    · rw [if_neg hstays, if_neg hstays] at hnew
      subst hnew
      constructor
      · intro h
        -- The block of the array is a new one, and so is not that of an open connection.
        refine Or.inl (List.eq_nil_iff_forall_not_mem.2 fun c hc => ?_)
        have hnew := Option.some.inj (h c hc).live.1
        have hold := hs.fresh _ (hown c hc).live.1
        omega
      · rintro (h | hplace)
        · intro c hc
          rw [show s.conns = [] from h] at hc
          exact absurd hc List.not_mem_nil
        · intro c hc
          have hsome := (hown c hc).live.1
          rw [hsome, hplace] at hstays
          exact absurd rfl hstays

/-- Opening a connection keeps the others, and the new one reaches its own session just when it is not
opened for the index behind the last. -/
theorem connect_reachesOwn (hs : Sound s) (hown : EventsReachOwn s) {env : Env} {sid : Int}
    {host : List UInt8} {port : Int} {o : Outcome}
    (ho : circConnect env s sid host port = some o) :
    Sound o.st ∧ (EventsReachOwn o.st ↔
      (sid = s.nsessions →
        s.block = none ∨ env.nsid = -1 ∨ (env.stray s.nsessions).flags.connected = true)) := by
  have hlast : s.block.isSome = true →
      s.sessions.getD s.nsessions (env.stray s.nsessions) = env.stray s.nsessions := fun hb => by
    rw [List.getD_eq_getElem?_getD, List.getElem?_eq_none (Nat.le_of_eq (hs.length hb))]
    rfl
  rcases circConnect_cases ho with
    ⟨hkeep, hwhy⟩ | ⟨idx, b, s', hkeep, hsid, hle, hb, hnsid, hfree, hst⟩
  · refine ⟨hkeep.sound hs, iff_of_true (fun c hc => hkeep.reachesOwn (hown c (hkeep.conns c hc))) ?_⟩
    intro hsid
    rcases hwhy s.nsessions hsid.symm (Nat.le_refl _) with hb | hor
    · exact Or.inl hb
    · cases hb : s.block with
      | none => exact Or.inl rfl
      | some b =>
        rw [hlast (by rw [hb]; rfl)] at hor
        exact Or.inr hor
  · have hsome : s.block.isSome = true := by rw [hb]; rfl
    have hkeep' : Keeps s { s' with conns := s.conns.filter fun c => c.nsid != env.nsid } :=
      ⟨hkeep.block, hkeep.nblocks, hkeep.sids, hkeep.nsessions, fun c hc => (List.mem_filter.1 hc).1⟩
    rw [hst]
    refine ⟨⟨(hkeep'.sound hs).length, (hkeep'.sound hs).fresh⟩, ?_⟩
    constructor
    · intro h hlastsid
      -- The new connection would be that of the index behind the last session.
      have hlt : idx < s'.sessions.length := (h _ List.mem_cons_self).live.2
      rw [hkeep.length, hs.length hsome] at hlt
      omega
    · intro h c hc
      rcases List.mem_cons.1 hc with rfl | hc
      -- a session behind the last one is the stray record, which is not connected here
      · have hne : idx ≠ s.nsessions := by
          rintro rfl
          rw [hlast hsome] at hfree
          rcases h hsid.symm with h | h | h
          · rw [hb] at h
            cases h
          · exact hnsid h
          · rw [hfree] at h
            cases h
        refine ⟨⟨hkeep.block.trans hb, ?_⟩, hsid⟩
        show idx < s'.sessions.length
        rw [hkeep.length, hs.length hsome]
        omega
      · have := hkeep'.reachesOwn (hown c (hkeep'.conns c hc))
        exact ⟨this.live, this.own⟩

/-- A step from a state in which every event reaches its own session keeps this just when it keeps the
array. -/
theorem arrayKept_iff (hs : Sound s) (hown : EventsReachOwn s) {x : Action × Env}
    (hstep : step s x = some s') : Sound s' ∧ (EventsReachOwn s' ↔ ArrayKept s x) := by
  obtain ⟨a, env⟩ := x
  obtain ⟨o, ho, rfl⟩ := Option.map_eq_some_iff.1 hstep
  have hkeeps : Keeps s o.st → ArrayKept s (a, env) →
      Sound o.st ∧ (EventsReachOwn o.st ↔ ArrayKept s (a, env)) := fun h hkept =>
    ⟨h.sound hs, iff_of_true (fun c hc => h.reachesOwn (hown c (h.conns c hc))) hkept⟩
  cases a with
  | create host callbacks data =>
    cases ho
    exact create_reachesOwn hs hown host callbacks data rfl
  | connect sid host port => exact connect_reachesOwn hs hown ho
  | destroy sid => exact hkeeps (keeps_circSessionDestroy ho) trivial
  | disconnect sid message => exact hkeeps (keeps_circDisconnect ho) trivial
  | send sid text => exact hkeeps (keeps_circSend ho) trivial
  | event nsid e =>
    obtain ⟨c, -, ho⟩ := Option.bind_eq_some_iff.1 ho
    obtain ⟨o', ho', rfl⟩ := Option.map_eq_some_iff.1 ho
    exact hkeeps ((keeps_circProcess ho').trans (keeps_afterEvent o'.st nsid e)) trivial

end Step

/-! ## Runs -/

/-- The state before the first call. -/
theorem sound_start : Sound start ∧ EventsReachOwn start :=
  ⟨⟨fun h => absurd h (by decide), fun b h => absurd h (by simp [start])⟩,
    fun _ h => absurd h List.not_mem_nil⟩

/-- An address in the array leads to the session at its index. -/
theorem through_of_live {s : State} {p : Ptr} (h : s.Live p) (env : Env) :
    s.sessions[p.index]? = some (s.through env p) := by
  rw [State.through, if_pos h, List.getD_eq_getElem?_getD, List.getElem?_eq_getElem h.2]
  rfl

/-- **Network events reach their own session** in a run that keeps the array: what a handler reads
through the data of a connection is the element of the session that opened it. -/
theorem events_reach_own_session {s : State} (h : Run step ArrayKept start s) :
    ∀ c ∈ s.conns, ∀ env : Env, ReachesOwn s c ∧
      s.sessions[c.connData.index]? = some (s.through env c.connData) := by
  have hinv : Sound s ∧ EventsReachOwn s :=
    h.invariant (I := fun s => Sound s ∧ EventsReachOwn s) (fun _ _ _ hc hok hs =>
      (arrayKept_iff hc.1 hc.2 hs).imp id fun hiff => hiff.2 hok) sound_start
  exact fun c hc env => ⟨hinv.2 c hc, through_of_live (hinv.2 c hc).live env⟩

/-- Two sessions with a connection each, and a third one that is created in the same block. -/
def keptRun : List (Action × Env) :=
  [(.create none [] 1, {}), (.create none [] 2, { realloc := .moved }), (.connect 0 [] 6667, { nsid := 7 }),
    (.connect 1 [] 6667, { nsid := 8 }), (.create none [] 3, {}), (.event 8 .connect, {})]

/-- The array moves before the second connection is opened, and both connections reach their sessions. -/
theorem events_reach_own_session_kept :
    ∃ s, execute step ArrayKept start keptRun = some s ∧
      s.conns = [⟨8, ⟨1, 1⟩, 1⟩, ⟨7, ⟨1, 0⟩, 0⟩] ∧
      ∀ c ∈ s.conns, ∀ env : Env, ReachesOwn s c ∧
        s.sessions[c.connData.index]? = some (s.through env c.connData) :=
  ⟨_, rfl, rfl, events_reach_own_session (run_of_execute keptRun rfl)⟩

/-- A session is connected, and the next one moves the array. -/
def movedRun : List (Action × Env) :=
  [(.create none [] 1, {}), (.connect 0 [] 6667, { nsid := 7 }),
    (.create none [] 2, { realloc := .moved })]

/-- The handlers of the open connection would read through a dangling address. -/
theorem dangling_conn_data :
    ∃ s, execute step (fun _ _ => True) start movedRun = some s ∧
      s.conns = [⟨7, ⟨0, 0⟩, 0⟩] ∧ s.block = some 1 ∧ ¬ EventsReachOwn s := by
  refine ⟨_, rfl, rfl, rfl, fun h => ?_⟩
  exact absurd (h _ List.mem_cons_self).live (by decide)

/-! ## The session of an event -/

/-- Every element has its index as its number, and a table without a block has no element. -/
structure Numbered (s : State) : Prop where
  empty : s.block = none → s.nsessions = 0
  sids : s.sessions.map CircSession.sid = (List.range s.sessions.length).map Int.ofNat

/-- What keeps the array keeps its numbers. -/
theorem Keeps.numbered {s s' : State} (h : Keeps s s') (hs : Numbered s) : Numbered s' where
  empty := fun hb => by
    rw [h.nsessions]
    exact hs.empty (h.block ▸ hb)
  sids := by rw [h.sids, h.length, hs.sids]

/-- `circ_session_create` numbers the sessions by their positions, if no allocation fails. -/
theorem create_numbered {s : State} (hsound : Sound s) (hs : Numbered s) {env : Env}
    (hok : env.realloc ≠ .failed) (host : Option (List UInt8)) (callbacks : List CircCallback)
    (data : Nat) : Numbered (circSessionCreate env s host callbacks data).st := by
  rcases circSessionCreate_cases env s host callbacks data with ⟨hfail, -⟩ | ⟨-, new, hsid, hnew⟩
  · exact absurd hfail hok
  rw [hnew]
  have hold : ∀ old : List CircSession, old.map CircSession.sid = (List.range old.length).map Int.ofNat →
      old.length = s.nsessions → (old ++ [new]).map CircSession.sid =
        (List.range (old ++ [new]).length).map Int.ofNat := by
    intro old hmap hlen
    rw [List.length_append, List.length_singleton, List.range_succ, List.map_append, List.map_append,
      hmap, List.map_singleton, List.map_singleton, hsid, hlen]
    rfl
  -- the first session: there are no stray records before it
  cases hb : s.block with
  | none =>
    refine ⟨fun h => by simp at h, hold _ ?_ ?_⟩
    · rw [hs.empty hb]
      rfl
    · rw [hs.empty hb]
      rfl
  | some b =>
    refine ⟨fun h => ?_, hold _ hs.sids (hsound.length (by rw [hb]; rfl))⟩
    simp only at h
    split at h <;> cases h

/-- **One step** keeps the numbers, if no allocation fails. -/
theorem numbered_step {s s' : State} {x : Action × Env} (hsound : Sound s) (hs : Numbered s)
    (hok : x.2.realloc ≠ .failed) (hstep : step s x = some s') : Numbered s' := by
  obtain ⟨a, env⟩ := x
  obtain ⟨o, ho, rfl⟩ := Option.map_eq_some_iff.1 hstep
  cases a with
  | create host callbacks data =>
    cases ho
    exact create_numbered hsound hs hok host callbacks data
  | connect sid host port =>
    rcases circConnect_cases ho with ⟨hkeep, -⟩ | ⟨idx, b, s', hkeep, -, -, -, -, -, hst⟩
    · exact hkeep.numbered hs
    · rw [hst]
      exact ⟨(hkeep.numbered hs).empty, (hkeep.numbered hs).sids⟩
  | destroy sid => exact (keeps_circSessionDestroy ho).numbered hs
  | disconnect sid message => exact (keeps_circDisconnect ho).numbered hs
  | send sid text => exact (keeps_circSend ho).numbered hs
  | event nsid e =>
    obtain ⟨c, -, ho⟩ := Option.bind_eq_some_iff.1 ho
    obtain ⟨o', ho', rfl⟩ := Option.map_eq_some_iff.1 ho
    exact ((keeps_circProcess ho').trans (keeps_afterEvent o'.st nsid e)).numbered hs

/-- If moreover no allocation fails, a handler has its event processed for the session that opened
the connection. -/
theorem circOn_opener {s : State}
    (h : Run step (fun s x => ArrayKept s x ∧ x.2.realloc ≠ .failed) start s) :
    ∀ c ∈ s.conns, ∀ (env : Env) (e : NetEvent),
      circOn env s e c.connData = circProcess env s c.opener e.text := by
  have hinv : (Sound s ∧ EventsReachOwn s) ∧ Numbered s :=
    h.invariant (I := fun s => (Sound s ∧ EventsReachOwn s) ∧ Numbered s)
      (fun _ _ _ hc hok hs => ⟨(arrayKept_iff hc.1.1 hc.1.2 hs).imp id fun hiff => hiff.2 hok.1,
        numbered_step hc.1.1 hc.2 hok.2 hs⟩) ⟨sound_start, fun _ => rfl, rfl⟩
  intro c hc env e
  obtain ⟨hlive, hown⟩ := hinv.1.2 c hc
  have hsids := congrArg (·[c.connData.index]?) hinv.2.sids
  simp only [List.getElem?_map, through_of_live hlive env, List.getElem?_range hlive.2,
    Option.map_some, Option.some.injEq] at hsids
  rw [circOn, hsids, ← hown]
  rfl

/-- The condition is exact: a run keeps the array just when events reach their own session behind each
of its steps. -/
theorem arrayKept_run_iff (s : State) : Run step ArrayKept start s ↔
    Run step (fun s x => ∀ s', step s x = some s' → EventsReachOwn s') start s := by
  constructor
  · exact fun h => h.imp (I := fun s => Sound s ∧ EventsReachOwn s)
      (fun _ _ _ hc hok hs => (arrayKept_iff hc.1 hc.2 hs).imp id fun hiff => hiff.2 hok)
      (fun _ _ _ hc hok _ _ hs' => (arrayKept_iff hc.1 hc.2 hs').2.2 hok) sound_start
  · exact fun h => h.imp (I := fun s => Sound s ∧ EventsReachOwn s)
      (fun _ _ s' hc hok hs => ⟨(arrayKept_iff hc.1 hc.2 hs).1, hok s' hs⟩)
      (fun _ _ s' hc hok hs => (arrayKept_iff hc.1 hc.2 hs).2.1 (hok s' hs)) sound_start

end ExamplePrograms.Circ
