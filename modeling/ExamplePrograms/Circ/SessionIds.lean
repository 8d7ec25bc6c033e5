import ExamplePrograms.Circ.ConnectionData

/-!
# Session ids

Every function that takes a session id looks it up with `circ_fetch`, which compares it with
`nsessions` only. `History` is what a user of the library knows of the ids: which of them have been
returned by `circ_session_create` and not been destroyed since. `IdChecked` is what the test ought to do
for an id: `circ_session_valid` knows these ids, and a call with any other one fails before it has
touched an entry of the array.

The test lets the index behind the last session pass. It says nothing about the flag that
`circ_session_destroy` sets, and nothing about the array that a failed `realloc` has lost.
`IdGood` is the condition under which an id does not notice (`idChecked_iff`).
-/

set_option autoImplicit false

namespace ExamplePrograms.Circ

open ExamplePrograms.Lib.Runs

/-! ## Calls with an id -/

/-- The functions that take a session id, without the id. -/
inductive IdCall where
  | data
  | connect (host : List UInt8) (port : Int)
  | disconnect (message : Option (List UInt8))
  | send (text : List UInt8)
  | destroy

/-- What a call returns: a number, or an address that may be NULL. -/
inductive Answer where
  | int (ret : Int)
  | pointer (data : Option Nat)

/-- The state after a call, its answer and its calls. -/
structure Effect where
  st : State
  answer : Answer
  out : List Output

/-- What a call leaves and answers. -/
def Outcome.effect (o : Outcome) : Effect := ⟨o.st, .int o.ret, o.out⟩

namespace IdCall

/-- The call with an id. -/
def apply (env : Env) (s : State) (sid : Int) : IdCall → Option Effect
  | data => (circSessionData env s sid).map fun p => ⟨s, .pointer p, []⟩
  | connect host port => (circConnect env s sid host port).map Outcome.effect
  | disconnect message => (circDisconnect env s sid message).map Outcome.effect
  | send text => (circSend env s sid text).map Outcome.effect
  | destroy => (circSessionDestroy env s sid).map Outcome.effect

/-- The answer of a call that fails. -/
def failure : IdCall → Answer
  | data => .pointer none
  | _ => .int (-1)

/-- The call fails and does nothing. -/
def Fails (call : IdCall) (env : Env) (s : State) (sid : Int) : Prop :=
  call.apply env s sid = some ⟨s, call.failure, []⟩

end IdCall

/-- The states agree on `sessions[idx]` and outside the array. -/
structure SameEntry (idx : Nat) (s s' : State) : Prop where
  block : s'.block = s.block
  nsessions : s'.nsessions = s.nsessions
  conns : s'.conns = s.conns
  entry : s'.sessions[idx]? = s.sessions[idx]?

/-- The call touches no entry but `sessions[idx]`: the other ones, and what stands outside the array,
make no difference to it and stay as they are. -/
def IdCall.TouchesOnly (call : IdCall) (env : Env) (s : State) (sid : Int) (idx : Nat) : Prop :=
  ∃ (f : CircSession → CircSession) (conns : List Conn) (answer : Answer) (out : List Output),
    ∀ (env' : Env) (s' : State), env'.nsid = env.nsid → SameEntry idx s s' →
      call.apply env' s' sid = some ⟨{ s'.update idx f with conns := conns }, answer, out⟩

/-! ## The history of the ids -/

/-- `live` are the ids that have been returned and not been destroyed since. `initialised` are the
entries of the array that a `circ_session_create` has written, and `lost` is the number of sessions at
the last failed `realloc`. -/
structure History where
  live : List Int := []
  initialised : List Nat := []
  lost : Nat := 0

/-- The history behind a call with the outcome `o`. -/
def History.next (h : History) (s : State) (o : Outcome) : Action → History
  | .create _ _ _ =>
      if o.ret = -1 then { h with initialised := [], lost := s.nsessions }
      else
        { h with
          live := o.ret :: h.live
          -- a new block has nothing of the old array in it
          initialised := s.nsessions :: if s.block.isSome then h.initialised else [] }
  | .destroy sid => if o.ret = -1 then h else { h with live := h.live.filter (· ≠ sid) }
  | _ => h

/-- A step with the history. -/
def idStep (p : State × History) (x : Action × Env) : Option (State × History) :=
  (x.1.apply x.2 p.1).map fun o => (o.st, p.2.next p.1 o x.1)

/-- `circ_session_valid` knows the id just when it is live, and every call with it fails or touches only
its own entry, which is initialised. -/
structure IdChecked (s : State) (h : History) (sid : Int) : Prop where
  valid : circSessionValid s sid = 1 ↔ sid ∈ h.live
  calls : ∀ (call : IdCall) (env : Env), call.Fails env s sid ∨
    ∃ idx : Nat, (idx : Int) = sid ∧ idx < s.nsessions ∧ idx ∈ h.initialised ∧
      call.TouchesOnly env s sid idx

/-- The id is out of the range that `circ_fetch` lets pass, it is live and its entry has not been lost,
or it is that of the first entry of no array and not live. -/
def IdGood (s : State) (h : History) (sid : Int) : Prop :=
  sid < 0 ∨ s.nsessions < sid ∨ (h.lost ≤ sid ∧ sid ∈ h.live) ∨
    (s.block = none ∧ sid = 0 ∧ sid ∉ h.live)

/-! ## What a call touches -/

/-- `sessions[idx]` is the entry `sess` of the id. -/
structure Entry (s : State) (sid : Int) (idx : Nat) (sess : CircSession) : Prop where
  fetch : s.circFetch sid = some idx
  block : s.block.isSome = true
  entry : s.sessions[idx]? = some sess

section Touches

variable {env : Env} {s s' : State} {sid : Int} {idx : Nat} {sess : CircSession}

/-- The record of a session that is found. -/
theorem Entry.record (h : Entry s sid idx sess) (env : Env) : s.record env idx = some sess := by
  obtain ⟨b, hb⟩ := Option.isSome_iff_exists.1 h.block
  rw [State.record, hb, Option.map_some, List.getD_eq_getElem?_getD, h.entry]
  rfl

/-- A session that is found and changed. -/
theorem Entry.update (h : Entry s sid idx sess) (f : CircSession → CircSession) :
    Entry (s.update idx f) sid idx (f sess) where
  fetch := h.fetch
  block := h.block
  entry := by
    show (s.sessions.modify idx f)[idx]? = some (f sess)
    rw [List.getElem?_modify, h.entry]
    simp

/-- A session that another step leaves alone. -/
theorem Entry.same (h : Entry s sid idx sess) (hs : SameEntry idx s s') : Entry s' sid idx sess where
  fetch := by
    have hfetch := h.fetch
    rw [State.circFetch] at hfetch ⊢
    rw [hs.nsessions, hs.block]
    exact hfetch
  block := hs.block ▸ h.block
  entry := hs.entry.trans h.entry

/-- `circ_send` to a session that is found. -/
theorem Entry.circSend (h : Entry s sid idx sess) (env : Env) (text : List UInt8) :
    circSend env s sid text =
      some ⟨s, text.length, [.write sess.nsid (sendBuffer text) (text.length + 2)]⟩ := by
  rw [ExamplePrograms.Circ.circSend]
  rw [h.fetch]
  dsimp only
  rw [h.record env]
  rfl

/-- `circ_disconnect` of a session that is found. -/
theorem Entry.circDisconnect (h : Entry s sid idx sess) (env : Env)
    (message : Option (List UInt8)) :
    circDisconnect env s sid message =
      some ⟨s.update idx fun sess => { sess with flags := { sess.flags with connected := false } }, 0,
        [.write sess.nsid (sendBuffer (quitText message)) ((quitText message).length + 2)]⟩ := by
  rw [ExamplePrograms.Circ.circDisconnect]
  rw [h.fetch]
  dsimp only
  rw [(h.update _).circSend env]
  rfl

/-- `circ_session_destroy` of a session that is found. -/
theorem Entry.circSessionDestroy (h : Entry s sid idx sess) (env : Env) :
    circSessionDestroy env s sid =
      some ⟨s.update idx fun sess => { sess with flags := { connected := false, destroy := true } }, 0,
        [.write sess.nsid (sendBuffer (quitText none)) ((quitText none).length + 2)]⟩ := by
  rw [ExamplePrograms.Circ.circSessionDestroy]
  rw [h.fetch]
  dsimp only
  rw [(h.update _).circDisconnect env]
  simp only [State.update, List.modify_modify_eq]
  rfl

/-- A call with the id of an entry touches only this entry. -/
theorem Entry.touchesOnly (h : Entry s sid idx sess) (env : Env) (call : IdCall) :
    call.TouchesOnly env s sid idx := by
  cases call with
  | data =>
    refine ⟨id, s.conns, .pointer (some sess.data), [], fun env' s' _ hs => ?_⟩
    have h' := h.same hs
    rw [IdCall.apply, circSessionData, h'.fetch, ← hs.conns]
    dsimp only
    rw [h'.record env', State.update, List.modify_id]
    rfl
  | connect host port =>
    by_cases hconnected : sess.flags.connected = true
    · refine ⟨id, s.conns, .int 0, [], fun env' s' _ hs => ?_⟩
      have h' := h.same hs
      rw [IdCall.apply, circConnect, h'.fetch, ← hs.conns]
      dsimp only
      rw [h'.record env', Option.map_some, if_pos hconnected, State.update, List.modify_id]
      rfl
    by_cases hnsid : env.nsid = -1
    · refine ⟨fun sess => { sess with nsid := env.nsid }, s.conns, .int (-1),
        [.connect host port sess.host], fun env' s' henv hs => ?_⟩
      have h' := h.same hs
      rw [IdCall.apply, circConnect, h'.fetch, ← hs.conns, ← henv]
      dsimp only
      rw [h'.record env', Option.map_some, if_neg hconnected, if_pos (henv.trans hnsid)]
      rfl
    · refine ⟨fun sess => { sess with nsid := env.nsid },
        ⟨env.nsid, ⟨s.block.getD 0, idx⟩, sid⟩ :: s.conns.filter fun c => c.nsid != env.nsid, .int 1,
        [.connect host port sess.host], fun env' s' henv hs => ?_⟩
      have h' := h.same hs
      rw [IdCall.apply, circConnect, h'.fetch, ← hs.conns, ← hs.block, ← henv]
      dsimp only
      rw [h'.record env', Option.map_some, if_neg hconnected, if_neg (henv ▸ hnsid)]
      rfl
  | disconnect message =>
    refine ⟨fun sess => { sess with flags := { sess.flags with connected := false } }, s.conns, .int 0,
      [.write sess.nsid (sendBuffer (quitText message)) ((quitText message).length + 2)],
      fun env' s' _ hs => ?_⟩
    rw [IdCall.apply, (h.same hs).circDisconnect env' message, ← hs.conns]
    rfl
  | send text =>
    refine ⟨id, s.conns, .int text.length,
      [.write sess.nsid (sendBuffer text) (text.length + 2)], fun env' s' _ hs => ?_⟩
    rw [IdCall.apply, (h.same hs).circSend env' text, ← hs.conns, State.update, List.modify_id]
    rfl
  | destroy =>
    refine ⟨fun sess => { sess with flags := { connected := false, destroy := true } }, s.conns, .int 0,
      [.write sess.nsid (sendBuffer (quitText none)) ((quitText none).length + 2)],
      fun env' s' _ hs => ?_⟩
    rw [IdCall.apply, (h.same hs).circSessionDestroy env', ← hs.conns]
    rfl

/-- A call with an id that is not found fails. -/
theorem fails_of_fetch (h : s.circFetch sid = none) (env : Env) (call : IdCall) :
    call.Fails env s sid := by
  cases call with
  | data =>
    rw [IdCall.Fails, IdCall.apply, circSessionData, h]
    rfl
  | connect host port =>
    rw [IdCall.Fails, IdCall.apply, circConnect, h]
    rfl
  | disconnect message =>
    rw [IdCall.Fails, IdCall.apply, circDisconnect, h]
    rfl
  | send text =>
    rw [IdCall.Fails, IdCall.apply, circSend, h]
    rfl
  | destroy =>
    rw [IdCall.Fails, IdCall.apply, circSessionDestroy, h]
    rfl

/-- `circ_session_valid` answers whether the session is found. -/
theorem valid_iff : circSessionValid s sid = 1 ↔ s.circFetch sid ≠ none := by
  rw [circSessionValid]
  cases s.circFetch sid with
  | none => exact iff_of_false (by decide) fun h => h rfl
  | some idx => exact iff_of_true rfl fun h => by cases h

/-- `circ_session_data` with an id that is found does not fail. -/
theorem not_fails_data (h : s.circFetch sid = some idx) (env : Env) :
    ¬ IdCall.data.Fails env s sid := by
  intro hfails
  rw [IdCall.Fails, IdCall.apply, circSessionData, h, Option.map_map] at hfails
  obtain ⟨sess, -, hsess⟩ := Option.map_eq_some_iff.1 hfails
  cases hsess

end Touches

/-! ## The history of a run -/

/-- What the history knows of the state. -/
structure Recorded (s : State) (h : History) : Prop where
  sound : Sound s
  live : ∀ sid ∈ h.live, 0 ≤ sid ∧ sid < s.nsessions
  initialised : ∀ i, i ∈ h.initialised ↔ h.lost ≤ i ∧ i < s.nsessions
  lost : h.lost ≤ s.nsessions
  null : s.block = none → h.lost = s.nsessions

section Run

variable {s s' : State} {h h' : History}

/-- What keeps the array keeps the history true. -/
theorem Keeps.recorded (hkeep : Keeps s s') (hr : Recorded s h) : Recorded s' h where
  sound := hkeep.sound hr.sound
  live := hkeep.nsessions ▸ hr.live
  initialised := hkeep.nsessions ▸ hr.initialised
  lost := hkeep.nsessions ▸ hr.lost
  null := fun hb => by
    rw [hkeep.nsessions]
    exact hr.null (hkeep.block ▸ hb)

/-- `circ_session_create` enters the new session into the history. -/
theorem create_recorded (hr : Recorded s h) (env : Env) (host : Option (List UInt8))
    (callbacks : List CircCallback) (data : Nat) :
    Recorded (circSessionCreate env s host callbacks data).st
      (h.next s (circSessionCreate env s host callbacks data) (.create host callbacks data)) := by
  have hsound := create_sound hr.sound env host callbacks data
  by_cases hfail : env.realloc = .failed
  · -- the array is lost
    rw [circSessionCreate, if_pos hfail] at hsound ⊢
    exact
      { sound := hsound
        live := hr.live
        initialised := fun i => iff_of_false List.not_mem_nil fun hi => Nat.not_lt.2 hi.1 hi.2
        lost := Nat.le_refl _
        null := fun _ => rfl }
  · rw [circSessionCreate, if_neg hfail] at hsound ⊢
    have hret : (s.nsessions : Int) ≠ -1 := by omega
    rw [History.next, if_neg hret]
    refine ⟨hsound, ?_, ?_, Nat.le_succ_of_le hr.lost, ?_⟩
    · intro sid hsid
      show 0 ≤ sid ∧ sid < ((s.nsessions + 1 : Nat) : Int)
      rcases List.mem_cons.1 hsid with rfl | hsid
      · exact ⟨Int.natCast_nonneg _, Int.lt_succ _⟩
      · have := hr.live sid hsid
        omega
    · intro i
      show i ∈ s.nsessions :: _ ↔ h.lost ≤ i ∧ i < s.nsessions + 1
      rw [List.mem_cons]
      have hlost := hr.lost
      cases hb : s.block with
      | none =>
        -- only the new entry is initialised
        have hnull := hr.null hb
        simp only [Option.isSome_none, Bool.false_eq_true, if_false, List.not_mem_nil, or_false]
        omega
      | some b =>
        simp only [Option.isSome_some, if_true, hr.initialised i]
        omega
    · intro hb
      simp only at hb
      split at hb
      · next hstays =>
        rw [hb] at hstays
        cases hstays
      · cases hb

/-- A step keeps the history true. -/
theorem recorded_step {x : Action × Env} (hr : Recorded s h)
    (hstep : idStep (s, h) x = some (s', h')) : Recorded s' h' := by
  obtain ⟨a, env⟩ := x
  obtain ⟨o, ho, hnext⟩ := Option.map_eq_some_iff.1 hstep
  cases hnext
  cases a with
  | create host callbacks data =>
    cases ho
    exact create_recorded hr env host callbacks data
  | destroy sid =>
    have hkeep := (keeps_circSessionDestroy ho).recorded hr
    show Recorded o.st (if o.ret = -1 then h else _)
    split
    · exact hkeep
    · exact { hkeep with live := fun i hi => hkeep.live i (List.mem_filter.1 hi).1 }
  | connect sid host port =>
    rcases circConnect_cases ho with ⟨hkeep, -⟩ | ⟨idx, b, s'', hkeep, -, -, -, -, -, hst⟩
    · exact hkeep.recorded hr
    · have hr' := hkeep.recorded hr
      show Recorded o.st h
      rw [hst]
      exact ⟨⟨hr'.sound.length, hr'.sound.fresh⟩, hr'.live, hr'.initialised, hr'.lost, hr'.null⟩
  | disconnect sid message => exact (keeps_circDisconnect ho).recorded hr
  | send sid text => exact (keeps_circSend ho).recorded hr
  | event nsid e =>
    obtain ⟨c, -, ho⟩ := Option.bind_eq_some_iff.1 ho
    obtain ⟨o', ho', rfl⟩ := Option.map_eq_some_iff.1 ho
    exact ((keeps_circProcess ho').trans (keeps_afterEvent o'.st nsid e)).recorded hr

end Run

/-- The history before the first call. -/
theorem recorded_start : Recorded start {} where
  sound := sound_start.1
  live := fun _ hmem => absurd hmem List.not_mem_nil
  initialised := fun i => iff_of_false List.not_mem_nil fun hi => absurd hi.2 (Nat.not_lt_zero i)
  lost := Nat.le_refl 0
  null := fun _ => rfl

/-! ## The test of an id -/

section Check

variable {s : State} {h : History} {sid : Int}

/-- An id that is not found is checked just when it is not live. -/
theorem idChecked_of_none (hfetch : s.circFetch sid = none) : IdChecked s h sid ↔ sid ∉ h.live := by
  have hvalid : ¬ circSessionValid s sid = 1 := fun hv => valid_iff.1 hv hfetch
  constructor
  · exact fun hchecked hlive => hvalid (hchecked.valid.2 hlive)
  · exact fun hlive => ⟨iff_of_false hvalid hlive, fun call env => Or.inl (fails_of_fetch hfetch env call)⟩

/-- An id that is found is checked just when it is live and its entry has not been lost. -/
theorem idChecked_of_some (hr : Recorded s h) {idx : Nat} (hfetch : s.circFetch sid = some idx) :
    IdChecked s h sid ↔ h.lost ≤ sid ∧ sid ∈ h.live := by
  obtain ⟨hsid, -⟩ := State.circFetch_some hfetch
  have hvalid : circSessionValid s sid = 1 := valid_iff.2 (by rw [hfetch]; exact fun h => by cases h)
  constructor
  · intro hchecked
    refine ⟨?_, hchecked.valid.1 hvalid⟩
    -- `circ_session_data` does not fail, so the entry it reads has to be initialised
    rcases hchecked.calls .data {} with hfails | ⟨i, hi, -, hinit, -⟩
    · exact absurd hfails (not_fails_data hfetch {})
    · have := ((hr.initialised i).1 hinit).1
      omega
  · rintro ⟨hlost, hlive⟩
    refine ⟨iff_of_true hvalid hlive, fun call env => Or.inr ?_⟩
    have hlt : idx < s.nsessions := by
      have := (hr.live sid hlive).2
      omega
    have hblock : s.block.isSome = true := by
      cases hb : s.block with
      | none =>
        have := hr.null hb
        omega
      | some b => rfl
    have hentry : idx < s.sessions.length := hr.sound.length hblock ▸ hlt
    have hown : Entry s sid idx s.sessions[idx] :=
      ⟨hfetch, hblock, List.getElem?_eq_getElem hentry⟩
    exact ⟨idx, hsid, hlt, (hr.initialised idx).2 ⟨by omega, hlt⟩, hown.touchesOnly env call⟩

/-- The test of an id in a state with a true history. -/
theorem Recorded.checked_iff (hr : Recorded s h) (sid : Int) :
    IdChecked s h sid ↔ IdGood s h sid := by
  have hlive := hr.live sid
  cases hfetch : s.circFetch sid with
  | none =>
    rw [idChecked_of_none hfetch]
    by_cases hrange : 0 ≤ sid ∧ sid ≤ s.nsessions
    · obtain ⟨hb, hzero⟩ := State.circFetch_none hfetch hrange.1 hrange.2
      have hnull := hr.null hb
      constructor
      · exact fun hdead => Or.inr (Or.inr (Or.inr ⟨hb, hzero, hdead⟩))
      · rintro (hneg | hgt | ⟨hlost, -⟩ | ⟨-, -, hdead⟩) hmem
        · omega
        · omega
        · have := hlive hmem
          omega
        · exact hdead hmem
    · refine iff_of_true (fun hmem => ?_) ?_
      · have := hlive hmem
        omega
      · by_cases hneg : sid < 0
        · exact Or.inl hneg
        · exact Or.inr (Or.inl (by omega))
  | some idx =>
    rw [idChecked_of_some hr hfetch]
    obtain ⟨hsid, hle⟩ := State.circFetch_some hfetch
    constructor
    · exact fun hgood => Or.inr (Or.inr (Or.inl hgood))
    · rintro (hneg | hgt | hgood | ⟨hb, hzero, -⟩)
      · omega
      · omega
      · exact hgood
      · -- the first entry of no array is not found
        rw [State.circFetch, if_neg (by omega), if_pos ⟨hb, hzero⟩] at hfetch
        cases hfetch

end Check

/-- The runs of the program with their history. -/
def IdRun (s : State) (h : History) : Prop := Run idStep (fun _ _ => True) (start, {}) (s, h)

/-- **The history is true** in every run. -/
theorem IdRun.recorded {s : State} {h : History} (hrun : IdRun s h) : Recorded s h :=
  Run.invariant (I := fun p => Recorded p.1 p.2) (fun _ _ _ hr _ hstep => recorded_step hr hstep) hrun
    recorded_start

/-- **Session ids** are checked just when they are out of range, or live with an entry that has not been
lost. -/
theorem idChecked_iff {s : State} {h : History} (hrun : IdRun s h) (sid : Int) :
    IdChecked s h sid ↔ IdGood s h sid :=
  hrun.recorded.checked_iff sid

/-- Two sessions, the first of which is destroyed. -/
def destroyedRun : List (Action × Env) :=
  [(.create none [] 1, {}), (.create none [] 2, { realloc := .moved }), (.destroy 0, {})]

/-- A destroyed session and one that is not. -/
theorem idChecked_destroyed :
    ∃ s h, execute idStep (fun _ _ => True) (start, {}) destroyedRun = some (s, h) ∧ h.live = [1] ∧
      (IdChecked s h 1 ↔ IdGood s h 1) :=
  ⟨_, _, rfl, rfl, idChecked_iff (run_of_execute destroyedRun rfl) 1⟩

/-- The id behind the last session is taken for a valid one, and so is that of a session that has been
destroyed. -/
theorem not_idChecked_destroyed :
    ∃ s h, execute idStep (fun _ _ => True) (start, {}) destroyedRun = some (s, h) ∧
      circSessionValid s 2 = 1 ∧ ¬ IdChecked s h 2 ∧ circSessionValid s 0 = 1 ∧ ¬ IdChecked s h 0 := by
  refine ⟨_, _, rfl, rfl, fun hchecked => ?_, rfl, fun hchecked => ?_⟩
  · exact absurd (hchecked.valid.1 rfl) (by decide)
  · exact absurd (hchecked.valid.1 rfl) (by decide)

end ExamplePrograms.Circ
