import ExamplePrograms.Onethread.Sockbuf.Machine

/-!
# The callback of an event

The functions `sockbuf_on_connect`, `sockbuf_on_newclient`, `sockbuf_on_eof`, `sockbuf_on_read` and
`sockbuf_on_written` have one loop: it looks for the first filter above a level that defines a callback,
and calls it. Behind the loop comes the user's handler. `Selected` says which callback that is, and
`dispatch` is the loop with the callback it tests and the one it calls kept apart.

`sockbuf_on_newclient` tests `on_connect`. It calls the right callback just when the first filter above
the level that defines one of the two callbacks defines them both (`dispatches_iff`).
-/

set_option autoImplicit false

namespace ExamplePrograms.Onethread.Sockbuf

/-! ## The rule -/

/-- The filter defines the callback of the event. -/
def Call.definedBy : Call → SockbufFilter → Bool
  | .connect _ _ => SockbufFilter.onConnect
  | .eof _ => SockbufFilter.onEof
  | .newclient _ _ _ => SockbufFilter.onNewclient
  | .read _ => SockbufFilter.onRead
  | .write _ => SockbufFilter.onWrite
  | .written _ _ => SockbufFilter.onWritten
  | .delete => SockbufFilter.onDelete

/-- The user's handler defines the callback of the event. There is none for what it has written. -/
def Call.handledBy : Call → SockbufHandler → Bool
  | .connect _ _ => SockbufHandler.onConnect
  | .eof _ => SockbufHandler.onEof
  | .newclient _ _ _ => SockbufHandler.onNewclient
  | .read _ => SockbufHandler.onRead
  | .write _ => fun _ => false
  | .written _ _ => SockbufHandler.onWritten
  | .delete => SockbufHandler.onDelete

/-- The events that go up the chain. -/
def Call.Upward : Call → Prop
  | .write _ => False
  | .delete => False
  | _ => True

/-- The entry of a chain takes an event from the level on. -/
def Takes (level : Int) (call : Call) (e : SockbufFilter × Nat) : Prop :=
  call.definedBy e.1 = true ∧ level < e.1.level

/-- The callback that an event calls from a level on: that of the first filter that takes it, that of
the user's handler if there is no such filter, or none. -/
inductive Selected (sb : SockbufT) (idx : Nat) (level : Int) (call : Call) : Option Callback → Prop
  | filter (a : List (SockbufFilter × Nat)) (e : SockbufFilter × Nat)
      (b : List (SockbufFilter × Nat)) (hchain : sb.chain = a ++ e :: b) (he : Takes level call e)
      (ha : ∀ x ∈ a, ¬ Takes level call x) :
      Selected sb idx level call (some ⟨some e.1, e.2, idx, call⟩)
  | handler (h : SockbufHandler) (hnone : ∀ x ∈ sb.chain, ¬ Takes level call x)
      (hh : sb.handler = some h) (hdef : call.handledBy h = true) :
      Selected sb idx level call (some ⟨none, sb.clientData, idx, call⟩)
  | nobody (h : SockbufHandler) (hnone : ∀ x ∈ sb.chain, ¬ Takes level call x)
      (hh : sb.handler = some h) (hdef : call.handledBy h = false) :
      Selected sb idx level call none

/-- The function calls the callback, or none, and nothing else. -/
structure Dispatches (o : Outcome) (target : Option Callback) : Prop where
  tasks : o.tasks = target.toList.map Task.external
  events : o.events = target.toList.map Event.callback

/-! ## Searching -/

section Search

variable {sb : SockbufT} {idx : Nat} {level : Int} {call : Call}

/-- The filter that is found is the first that takes the callback. -/
theorem filterAbove_eq_some {e : SockbufFilter × Nat} :
    sb.filterAbove level call.definedBy = some e ↔
      ∃ a b, sb.chain = a ++ e :: b ∧ Takes level call e ∧ ∀ x ∈ a, ¬ Takes level call x := by
  rw [SockbufT.filterAbove, List.find?_eq_some_iff_append]
  simp only [Bool.and_eq_true, decide_eq_true_iff, Bool.not_eq_true', Bool.and_eq_false_iff,
    decide_eq_false_iff_not, Takes, not_and]
  constructor
  · rintro ⟨he, a, b, hchain, ha⟩
    refine ⟨a, b, hchain, he, fun x hx hdef => (ha x hx).resolve_left ?_⟩
    rw [hdef]
    exact Bool.noConfusion
  · rintro ⟨a, b, hchain, he, ha⟩
    refine ⟨he, a, b, hchain, fun x hx => ?_⟩
    by_cases hdef : call.definedBy x.1 = true
    · exact Or.inr (ha x hx hdef)
    · exact Or.inl (Bool.eq_false_iff.2 hdef)

/-- No filter is found exactly when none takes the callback. -/
theorem filterAbove_eq_none :
    sb.filterAbove level call.definedBy = none ↔ ∀ x ∈ sb.chain, ¬ Takes level call x := by
  rw [SockbufT.filterAbove, List.find?_eq_none]
  refine forall₂_congr fun x _ => not_congr ?_
  rw [Bool.and_eq_true, decide_eq_true_iff]
  rfl

/-- The callback of the rule, searched for. -/
def SockbufT.target (sb : SockbufT) (h : SockbufHandler) (idx : Nat) (level : Int) (call : Call) :
    Option Callback :=
  match sb.filterAbove level call.definedBy with
  | some e => some ⟨some e.1, e.2, idx, call⟩
  | none => if call.handledBy h then some ⟨none, sb.clientData, idx, call⟩ else none

/-- The target of a callback. -/
theorem selected_iff {h : SockbufHandler} (hh : sb.handler = some h) {target : Option Callback} :
    Selected sb idx level call target ↔ target = sb.target h idx level call := by
  constructor
  · rintro (⟨a, e, b, hchain, he, ha⟩ | ⟨h', hnone, hh', hdef⟩ | ⟨h', hnone, hh', hdef⟩)
    · rw [SockbufT.target, filterAbove_eq_some.2 ⟨a, b, hchain, he, ha⟩]
    · obtain rfl : h' = h := Option.some.inj (hh'.symm.trans hh)
      rw [SockbufT.target, filterAbove_eq_none.2 hnone]
      exact (if_pos hdef).symm
    · obtain rfl : h' = h := Option.some.inj (hh'.symm.trans hh)
      rw [SockbufT.target, filterAbove_eq_none.2 hnone]
      exact (if_neg (by rw [hdef]; exact Bool.noConfusion)).symm
  · rintro rfl
    rw [SockbufT.target]
    split
    · next e he =>
      obtain ⟨a, b, hchain, he, ha⟩ := filterAbove_eq_some.1 he
      exact .filter a e b hchain he ha
    · next hnone =>
      split
      · next hdef => exact .handler h (filterAbove_eq_none.1 hnone) hh hdef
      · next hdef => exact .nobody h (filterAbove_eq_none.1 hnone) hh (Bool.eq_false_iff.2 hdef)

/-- Two searches find the same element just when the first one that either looks for is what both look
for. -/
theorem find?_eq_find?_iff {α : Type} (p q : α → Bool) (l : List α) :
    l.find? p = l.find? q ↔
      ∀ e, l.find? (fun x => p x || q x) = some e → p e = true ∧ q e = true := by
  induction l with
  | nil => exact iff_of_true rfl fun e he => by cases he
  | cons b l ih =>
    rw [List.find?_cons, List.find?_cons, List.find?_cons]
    cases hp : p b with
    | true =>
      cases hq : q b with
      | true =>
        refine iff_of_true rfl fun e he => ?_
        cases he
        exact ⟨hp, hq⟩
      | false =>
        refine iff_of_false (fun heq => ?_) fun h => ?_
        · -- what the second search finds is not `b`
          have hb := List.find?_some heq.symm
          rw [hq] at hb
          cases hb
        · have := (h b rfl).2
          rw [hq] at this
          cases this
    | false =>
      cases hq : q b with
      | true =>
        refine iff_of_false (fun heq => ?_) fun h => ?_
        · have hb := List.find?_some heq
          rw [hp] at hb
          cases hb
        · have := (h b rfl).1
          rw [hp] at this
          cases this
      | false => exact ih

end Search

/-! ## The loop -/

/-- The loop of a function for an event. It tests the callback `tested`, and calls that of the event. The
state `s'` is what the function has written before it comes to the user's handler. -/
def dispatch (s s' : State) (idx : Nat) (level : Int) (tested : SockbufFilter → Bool)
    (call : Call) : Outcome :=
  match (s.sbuf idx).filterAbove level tested with
  | some e => if call.definedBy e.1 then callFilter s idx e call else .crash s
  | none => callHandler s' idx call.handledBy call

section Loop

variable {s s' : State} {idx : Nat} {level : Int} {call : Call} {h : SockbufHandler}

/-- A callback is dispatched to its target. -/
theorem dispatches_invoke (s : State) (cb : Callback) : Dispatches (.invoke s cb) (some cb) :=
  ⟨rfl, rfl⟩

/-- No more than one callback is called. -/
theorem Dispatches.unique {o : Outcome} {t t' : Option Callback} (h : Dispatches o t)
    (h' : Dispatches o t') : t = t' := by
  have htasks := h.tasks.symm.trans h'.tasks
  cases t with
  | none =>
    cases t' with
    | none => rfl
    | some cb' => cases htasks
  | some cb =>
    cases t' with
    | none => cases htasks
    | some cb' =>
      cases htasks
      rfl

/-- A call of a null pointer dispatches nothing. -/
theorem not_dispatches_crash (s : State) (t : Option Callback) : ¬ Dispatches (.crash s) t := by
  intro hd
  have htasks := hd.tasks
  cases t with
  | none => cases htasks
  | some cb => cases htasks

/-- The user's handler is the target where it defines the callback. -/
theorem dispatches_callHandler (hh : (s.sbuf idx).handler = some h) (call : Call) :
    Dispatches (callHandler s idx call.handledBy call)
      (if call.handledBy h then some ⟨none, (s.sbuf idx).clientData, idx, call⟩ else none) := by
  rw [callHandler, hh]
  dsimp only
  split
  · exact ⟨rfl, rfl⟩
  · exact ⟨rfl, rfl⟩

/-- The loop calls the callback of the rule just when both searches find the same filter. -/
theorem dispatch_iff (hh : (s.sbuf idx).handler = some h)
    (hhandler : (s'.sbuf idx).handler = (s.sbuf idx).handler)
    (hclient : (s'.sbuf idx).clientData = (s.sbuf idx).clientData)
    (tested : SockbufFilter → Bool) :
    Dispatches (dispatch s s' idx level tested call) ((s.sbuf idx).target h idx level call) ↔
      (s.sbuf idx).filterAbove level tested = (s.sbuf idx).filterAbove level call.definedBy := by
  rw [dispatch]
  cases htested : (s.sbuf idx).filterAbove level tested with
  | some e =>
    dsimp only
    by_cases hdef : call.definedBy e.1 = true
    · rw [if_pos hdef]
      have hcall : Dispatches (callFilter s idx e call) (some ⟨some e.1, e.2, idx, call⟩) :=
        dispatches_invoke s _
      rw [SockbufT.target]
      constructor
      · intro hd
        have heq := hcall.unique hd
        split at heq
        · next e' he' =>
          rw [he']
          simp only [Option.some.injEq, Callback.mk.injEq, and_true] at heq
          exact congrArg some (Prod.ext heq.1 heq.2)
        · split at heq
          · cases heq
          · cases heq
      · intro heq
        rw [← heq]
        exact hcall
    · -- the filter that is found does not define the callback, and is not what the rule finds
      rw [if_neg hdef]
      refine iff_of_false (not_dispatches_crash s _) fun heq => hdef ?_
      obtain ⟨-, -, -, he, -⟩ := filterAbove_eq_some.1 heq.symm
      exact he.1
  | none =>
    have hcall := dispatches_callHandler (hhandler.trans hh) call
    rw [hclient] at hcall
    dsimp only
    rw [SockbufT.target]
    constructor
    · intro hd
      have heq := hcall.unique hd
      cases hown : (s.sbuf idx).filterAbove level call.definedBy with
      | none => rfl
      | some e =>
        -- the callback of a filter is not that of the user's handler
        rw [hown] at heq
        dsimp only at heq
        split at heq
        · cases heq
        · cases heq
    · intro heq
      rw [← heq]
      exact hcall

end Loop

/-! ## The functions -/

/-- The callback that the loop for an event tests. -/
def Call.tested : Call → SockbufFilter → Bool
  | .newclient _ _ _ => SockbufFilter.onConnect
  | call => call.definedBy

/-- What the function for an event writes before it comes to the user's handler. -/
def arrived (k : Kernel) (s : State) (idx : Nat) (stats : SockbufStats) : Call → State
  | .connect peerIp peerPort => s.update idx fun sb => sb.setPeer k peerIp peerPort
  | .newclient newidx peerIp peerPort => s.update newidx fun sb => sb.setPeer k peerIp peerPort
  | .read data =>
      s.update idx fun sb =>
        { sb with stats := some { stats with bytesIn := stats.bytesIn + UInt64.ofNat data.length } }
  | _ => s

section Functions

variable {s : State} {idx : Nat} {level : Int} {call : Call} {stats : SockbufStats}

theorem SockbufT.setPeer_handler (k : Kernel) (sb : SockbufT) (peerIp : Option String)
    (peerPort : Int) : (sb.setPeer k peerIp peerPort).handler = sb.handler ∧
      (sb.setPeer k peerIp peerPort).clientData = sb.clientData := by
  rw [SockbufT.setPeer, SockbufT.socketGetName]
  split <;> exact ⟨rfl, rfl⟩

theorem arrived_keeps (k : Kernel) (s : State) (idx : Nat) (stats : SockbufStats) (call : Call) :
    ((arrived k s idx stats call).sbuf idx).handler = (s.sbuf idx).handler ∧
      ((arrived k s idx stats call).sbuf idx).clientData = (s.sbuf idx).clientData := by
  have hupdate : ∀ (j : Nat) (f : SockbufT → SockbufT),
      (∀ sb, (f sb).handler = sb.handler ∧ (f sb).clientData = sb.clientData) →
        ((s.update j f).sbuf idx).handler = (s.sbuf idx).handler ∧
          ((s.update j f).sbuf idx).clientData = (s.sbuf idx).clientData := fun j f hf =>
    ⟨State.sbuf_update_keeps s j f SockbufT.handler (hf _).1 idx,
      State.sbuf_update_keeps s j f SockbufT.clientData (hf _).2 idx⟩
  cases call with
  | connect peerIp peerPort => exact hupdate idx _ fun sb => sb.setPeer_handler k peerIp peerPort
  | newclient newidx peerIp peerPort =>
    exact hupdate newidx _ fun sb => sb.setPeer_handler k peerIp peerPort
  | read data => exact hupdate idx _ fun _ => ⟨rfl, rfl⟩
  | eof err => exact ⟨rfl, rfl⟩
  | write data => exact ⟨rfl, rfl⟩
  | written len remaining => exact ⟨rfl, rfl⟩
  | delete => exact ⟨rfl, rfl⟩

/-- A loop that tests the callback it calls never calls one that is not defined. -/
theorem dispatch_own (s s' : State) (idx : Nat) (level : Int) (call : Call) :
    dispatch s s' idx level call.definedBy call =
      match (s.sbuf idx).filterAbove level call.definedBy with
      | some e => callFilter s idx e call
      | none => callHandler s' idx call.handledBy call := by
  rw [dispatch]
  split
  · next e he =>
    obtain ⟨-, -, -, htakes, -⟩ := filterAbove_eq_some.1 he
    exact if_pos htakes.1
  · rfl

/-- The functions for the events that go up are the loop, each with the callback that it tests. -/
theorem sockbufOn_eq_dispatch (hstats : (s.sbuf idx).stats = some stats) (k : Kernel) (level : Int)
    (hup : call.Upward) : sockbufOn k s idx level call =
      some (dispatch s (arrived k s idx stats call) idx level call.tested call) := by
  cases call with
  | connect peerIp peerPort =>
    exact congrArg some (dispatch_own s _ idx level (.connect peerIp peerPort)).symm
  | newclient newidx peerIp peerPort => rfl
  | eof err => exact congrArg some (dispatch_own s _ idx level (.eof err)).symm
  | read data =>
    refine congrArg some (Eq.trans ?_ (dispatch_own s _ idx level (.read data)).symm)
    rw [sockbufOnRead, hstats]
    rfl
  | written len remaining =>
    exact congrArg some (dispatch_own s _ idx level (.written len remaining)).symm
  | write data => exact absurd hup id
  | delete => exact absurd hup id

/-- The loop for the event finds the filter of the rule: for a new client, the first filter above the
level that defines one of `on_connect` and `on_newclient` defines them both. -/
def Call.FindsOwn (sb : SockbufT) (level : Int) : Call → Prop
  | .newclient _ _ _ => ∀ e, sb.filterAbove level (fun f => f.onConnect || f.onNewclient) = some e →
      e.1.onConnect = true ∧ e.1.onNewclient = true
  | _ => True

/-- The filter that is found is the right one exactly when both tests agree. -/
theorem findsOwn_iff (sb : SockbufT) (level : Int) (call : Call) : call.FindsOwn sb level ↔
    sb.filterAbove level call.tested = sb.filterAbove level call.definedBy := by
  cases call with
  | newclient newidx peerIp peerPort =>
    have hboth : ∀ e : SockbufFilter × Nat,
        ((e.1.onConnect || e.1.onNewclient) && decide (level < e.1.level)) =
          ((e.1.onConnect && decide (level < e.1.level)) ||
            (e.1.onNewclient && decide (level < e.1.level))) := fun e =>
      Bool.and_or_distrib_right _ _ _
    show (∀ e, sb.filterAbove level (fun f => f.onConnect || f.onNewclient) = some e →
      e.1.onConnect = true ∧ e.1.onNewclient = true) ↔
        sb.filterAbove level SockbufFilter.onConnect = sb.filterAbove level SockbufFilter.onNewclient
    unfold SockbufT.filterAbove
    rw [find?_eq_find?_iff, funext hboth]
    refine forall_congr' fun e => forall_congr' fun he => ?_
    -- what is found is above the level
    have hfound := List.find?_some he
    rw [← hboth, Bool.and_eq_true] at hfound
    rw [hfound.2, Bool.and_true, Bool.and_true]
  | connect peerIp peerPort => exact iff_of_true trivial rfl
  | eof err => exact iff_of_true trivial rfl
  | read data => exact iff_of_true trivial rfl
  | write data => exact iff_of_true trivial rfl
  | written len remaining => exact iff_of_true trivial rfl
  | delete => exact iff_of_true trivial rfl

/-- **Selection**: the function for an event that goes up the chain calls the callback of the rule just
when its loop finds the filter of the rule. -/
theorem dispatches_iff {h : SockbufHandler} {o : Outcome} {k : Kernel}
    (hhandler : (s.sbuf idx).handler = some h) (hstats : (s.sbuf idx).stats = some stats)
    (hup : call.Upward) (ho : sockbufOn k s idx level call = some o) :
    (∃ target, Selected (s.sbuf idx) idx level call target ∧ Dispatches o target) ↔
      call.FindsOwn (s.sbuf idx) level := by
  rw [sockbufOn_eq_dispatch hstats k level hup] at ho
  cases ho
  obtain ⟨hkeep, hkeep'⟩ := arrived_keeps k s idx stats call
  rw [findsOwn_iff, ← dispatch_iff hhandler hkeep hkeep']
  constructor
  · rintro ⟨target, hsel, hd⟩
    rwa [(selected_iff hhandler).1 hsel] at hd
  · exact fun hd => ⟨_, (selected_iff hhandler).2 rfl, hd⟩

/-- A sockbuf whose handler defines `on_newclient`, with a filter that defines `on_connect`. -/
def listening (onNewclient : Bool) : State :=
  sockbufAttachFilter (sockbufSetHandler (sockbufNew {}).1 0 { onNewclient := true } 9) 0
    { id := 1, level := 5, onConnect := true, onNewclient := onNewclient } 11

/-- A filter that defines both callbacks. -/
theorem dispatches_both :
    ∃ o, sockbufOn {} (listening true) 0 sockbufLevelInternal (.newclient 1 none 6667) = some o ∧
      ((∃ target, Selected ((listening true).sbuf 0) 0 sockbufLevelInternal (.newclient 1 none 6667)
        target ∧ Dispatches o target) ↔
          (Call.newclient 1 none 6667).FindsOwn ((listening true).sbuf 0) sockbufLevelInternal) :=
  ⟨_, rfl, dispatches_iff rfl rfl trivial rfl⟩

/-- A filter without `on_newclient` is called through a null pointer, where the user's handler ought to
be called. -/
theorem newclient_crashes :
    ∃ o, sockbufOn {} (listening false) 0 sockbufLevelInternal (.newclient 1 none 6667) = some o ∧
      o.tasks = [.crash] ∧ ¬ ∃ target, Selected ((listening false).sbuf 0) 0 sockbufLevelInternal
        (.newclient 1 none 6667) target ∧ Dispatches o target := by
  refine ⟨_, rfl, rfl, ?_⟩
  rintro ⟨target, -, hd⟩
  exact not_dispatches_crash _ target hd

end Functions

end ExamplePrograms.Onethread.Sockbuf
