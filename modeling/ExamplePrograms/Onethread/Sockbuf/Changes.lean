import ExamplePrograms.Onethread.Sockbuf.Consistency

/-!
# Runs with re-entered deletions

Every run but one in which `sockbuf_shutdown` is called. External code may call the module from any
callback, an `on_delete` callback included, and with any flags. `Change` lists what one call or one
task does to the state, and `changes_run` is the induction: what every change keeps holds in every
state of such a run.
-/

set_option autoImplicit false

namespace ExamplePrograms.Onethread.Sockbuf

open ExamplePrograms.Lib.Runs

/-- The primitive changes of the module, with the answers of kernels in `K`. -/
inductive Change (K : Kernel → Prop) : State → List Event → State → Prop
  | effect {s s' : State} {es : List Event} (h : Effect (fun _ => True) s es s') : Change K s es s'
  | create (s : State) : Change K s [.created (sockbufNew s).2] (sockbufNew s).1
  | setSock (s : State) {k : Kernel} (hk : K k) (idx : Nat) (sock : Int) (flags : Flags) :
      Change K s (attachEvents s idx sock) (sockbufSetSock k s idx sock flags)
  | mark {s : State} {idx : Nat} (h : sockbufIsvalid s idx = true) :
      Change K s [.deleted idx]
        (s.update idx fun sb => { sb with flags := { sb.flags with deleted := true } })
  | deleteFinish (s : State) (idx : Nat) : Change K s [] (sockbufDeleteFinish s idx)
  | attachListener (s : State) {k : Kernel} (hk : K k) (fd : Int) :
      Change K s [.attachedListener fd] (sockbufAttachListener k s fd)
  | detachListener (s : State) (fd : Int) :
      Change K s [.detachedListener fd] (sockbufDetachListener s fd)
  | poll (s : State) {k : Kernel} (hk : K k) :
      Change K s (sockbufUpdateAll k s).events (sockbufUpdateAll k s).st
  | dispatch (s : State) (idx : Nat) (kind : EventKind) : Change K s [.dispatched idx kind] s
  | finish (s : State) : Change K s (updateFinish s).events (updateFinish s).st

/-- A sequence of changes. -/
inductive Changes (K : Kernel → Prop) : State → List Event → State → Prop
  | refl (s : State) : Changes K s [] s
  | snoc {s s' s'' : State} {es fs : List Event} :
      Changes K s es s' → Change K s' fs s'' → Changes K s (es ++ fs) s''

variable {K : Kernel → Prop}

namespace Changes

/-- One change. -/
theorem single {s s' : State} {es : List Event} (h : Change K s es s') : Changes K s es s' := by
  have hone := Changes.snoc (.refl s) h
  simpa using hone

/-- Changes, one behind the other. -/
theorem trans {s s' s'' : State} {es fs : List Event} (h : Changes K s es s')
    (h' : Changes K s' fs s'') : Changes K s (es ++ fs) s'' := by
  induction h' with
  | refl => simpa using h
  | snoc _ hchange ih =>
    rw [← List.append_assoc]
    exact .snoc ih hchange

/-- A mild step consists of changes. -/
theorem of_evolve {s s' : State} {es : List Event} (h : Evolve (fun _ => True) s es s') :
    Changes K s es s' := by
  induction h with
  | refl => exact .refl _
  | snoc _ heff ih => exact .snoc ih (.effect heff)

/-- What every change keeps, all of them keep. -/
theorem invariant {I : State → List Event → Prop}
    (hchange : ∀ s es s' tr, I s tr → Change K s es s' → I s' (tr ++ es)) {s s' : State}
    {es tr : List Event} (h : Changes K s es s') (hI : I s tr) : I s' (tr ++ es) := by
  induction h with
  | refl => simpa using hI
  | snoc _ hc ih =>
    rw [← List.append_assoc]
    exact hchange _ _ _ _ ih hc

/-- A property of the state alone. -/
theorem keeps {P : State → Prop} (hchange : ∀ s es s', P s → Change K s es s' → P s')
    {s s' : State} {es : List Event} (h : Changes K s es s') (hP : P s) : P s' := by
  induction h with
  | refl => exact hP
  | snoc _ hc ih => exact hchange _ _ _ ih hc

end Changes

/-- A task other than the rest of a shutdown. -/
def Task.Running : Task → Prop
  | .shutdown _ => False
  | _ => True

/-- What a function does that is not part of a shutdown. -/
structure Works (K : Kernel → Prop) (s : State) (o : Outcome) : Prop where
  changes : Changes K s o.events o.st
  running : ∀ t ∈ o.tasks, t.Running

namespace Works

variable {s s' : State} {o : Outcome}

/-- A mild call makes changes. -/
theorem of_mild (h : Mild (fun _ => True) s o) : Works K s o := by
  refine ⟨.of_evolve h.evolve, fun t ht => ?_⟩
  have hplain := h.plain t ht
  cases t with
  | shutdown i => exact absurd hplain id
  | _ => trivial

theorem of_change {es : List Event} (h : Change K s es s') : Works K s { st := s', events := es } :=
  ⟨.single h, fun _ ht => absurd ht List.not_mem_nil⟩

theorem same (s : State) : Works K s { st := s } :=
  ⟨.refl s, fun _ ht => absurd ht List.not_mem_nil⟩

/-- A call behind some changes. -/
theorem after {es : List Event} (h : Changes K s es s') (ho : Works K s' o) : Works K s (o.log es) :=
  ⟨h.trans ho.changes, ho.running⟩

theorem andThen {ts : List Task} (h : Works K s o) (hts : ∀ t ∈ ts, t.Running) :
    Works K s (o.andThen ts) := by
  refine ⟨h.changes, fun t ht => ?_⟩
  rcases List.mem_append.1 ht with ht | ht
  · exact h.running t ht
  · exact hts t ht

end Works

section Functions

variable (s : State) (idx : Nat)

/-- A callback is no change. -/
theorem works_invoke (cb : Callback) : Works K s (.invoke s cb) := by
  refine ⟨.single (.effect (.note fun e he => ?_)), fun t ht => ?_⟩
  · rw [List.mem_singleton.1 he]
    trivial
  · rw [List.mem_singleton.1 ht]
    trivial

theorem works_crash : Works K s (.crash s) :=
  ⟨.refl s, fun t ht => by rw [List.mem_singleton.1 ht]; trivial⟩

/-- A call of the user's handler is no change. -/
theorem works_callHandler (defines : SockbufHandler → Bool) (call : Call) :
    Works K s (callHandler s idx defines call) := by
  rw [callHandler]
  split
  · exact works_crash s
  · split
    · exact works_invoke s _
    · exact .same s

/-- `sockbuf_delete` makes changes. -/
theorem works_sockbufDelete : Works K s (sockbufDelete s idx) := by
  rw [sockbufDelete]
  split
  · next hv =>
    refine ⟨.single (.mark hv), fun t ht => ?_⟩
    rw [List.mem_singleton.1 ht]
    trivial
  · exact .same s

/-- The callbacks of a deletion make none. -/
theorem works_sockbufDeleteCallbacks (i : Nat) : Works K s (sockbufDeleteCallbacks s idx i) := by
  have hrest : ∀ t : Task, t.Running → ∀ u ∈ [t], u.Running := fun t ht u hu => by
    rwa [List.mem_singleton.1 hu]
  rw [sockbufDeleteCallbacks]
  split
  · split
    · exact (works_crash s).andThen (hrest _ trivial)
    · split
      · exact (works_invoke s _).andThen (hrest _ trivial)
      · exact ⟨.refl s, hrest _ trivial⟩
  · exact (works_callHandler s idx _ _).andThen (hrest _ trivial)

/-- `sockbuf_update_all` makes changes. -/
theorem works_sockbufUpdateAll {k : Kernel} (hk : K k) : Works K s (sockbufUpdateAll k s) := by
  refine ⟨.single (.poll s hk), fun t ht => ?_⟩
  rw [sockbufUpdateAll] at ht
  split at ht
  · rw [List.mem_singleton.1 ht]
    trivial
  · rw [List.mem_singleton.1 ht]
    trivial

/-- An accepted connection makes changes. -/
theorem works_sockbufGotReadableServer {k : Kernel} (hk : K k) :
    Works K s (sockbufGotReadableServer k s idx) := by
  rw [sockbufGotReadableServer]
  dsimp only
  split
  · exact .same s
  · next hsock =>
    generalize k.sysAccept (s.sbuf idx).sock = sock at hsock ⊢
    -- a new slot, its socket, the callback
    have hnew : Changes K s [.created (sockbufNew s).2] (sockbufNew s).1 := .single (.create s)
    have hset := Change.setSock (sockbufNew s).1 hk (sockbufNew s).2 sock { inbound := true }
    rw [attachEvents, if_pos ⟨sockbufIsvalid_sockbufNew s, by omega⟩] at hset
    exact (Works.of_mild (mild_sockbufOnNewclient _ idx k _ _ _ _)).after (hnew.snoc hset)

/-- The head of the loop makes changes. -/
theorem works_updateScan (i n : Nat) : Works K s (updateScan s i n) := by
  rw [updateScan]
  dsimp only
  split
  · split
    · exact ⟨.refl s, fun t ht => by rw [List.mem_singleton.1 ht]; trivial⟩
    · refine ⟨.refl s, fun t ht => ?_⟩
      rcases List.mem_append.1 ht with ht | ht
      · have hord := ordinary_eventTasks _ _ _ t ht
        cases t with
        | shutdown i => exact absurd hord id
        | _ => trivial
      · rw [List.mem_singleton.1 ht]
        trivial
  · refine ⟨.single (.finish s), fun t ht => ?_⟩
    rw [(updateFinish_cases s).2.1] at ht
    exact absurd ht List.not_mem_nil

end Functions

/-- **Every call of the module** makes changes. -/
theorem works_apply {f : Api} {k : Kernel} {s : State} {o : Outcome} (hk : K k)
    (hf : f ≠ .shutdown) (h : f.apply k s = some o) : Works K s o := by
  cases hs : f.Structural with
  | false => exact .of_mild (mild_apply s hs (fun _ _ => trivial) h)
  | true =>
    cases f with
    | new => cases h; exact .of_change (.create s)
    | setSock idx sock flags => cases h; exact .of_change (.setSock s hk idx sock flags)
    | delete idx => cases h; exact works_sockbufDelete s idx
    | attachListener fd => cases h; exact .of_change (.attachListener s hk fd)
    | detachListener fd => cases h; exact .of_change (.detachListener s fd)
    | updateAll => cases h; exact works_sockbufUpdateAll s hk
    | shutdown => exact absurd rfl hf
    | _ => cases hs

/-- **Every task** makes changes. -/
theorem works_exec {t : Task} {k : Kernel} {s : State} {o : Outcome} (hk : K k)
    (ht : t.Running) (h : t.exec k s = some o) : Works K s o := by
  cases t with
  | external cb => cases h
  | crash => cases h
  | shutdown i => exact absurd ht id
  | writable idx connecting =>
    cases h
    refine Works.after (.single (.dispatch s idx .writable)) (.of_mild ?_)
    split
    · exact mild_sockbufGotWritableClient s idx k
    · exact mild_sockbufGotWritable s idx trivial k
  | readable idx server =>
    cases h
    refine Works.after (.single (.dispatch s idx .readable)) ?_
    split
    · exact works_sockbufGotReadableServer s idx hk
    · exact .of_mild (mild_sockbufGotReadable s idx k)
  | hangup idx =>
    cases h
    exact (Works.of_mild (mild_sockbufGotEof s idx k 0)).after (.single (.dispatch s idx .hangup))
  | scan i n => cases h; exact works_updateScan s i n
  | delete idx i => cases h; exact works_sockbufDeleteCallbacks s idx i
  | deleteFinish idx => cases h; exact .of_change (.deleteFinish s idx)

/-- The action is not a call of `sockbuf_shutdown`. -/
def NoShutdown (_ : Config) : Action → Prop
  | .call f _ => f ≠ .shutdown
  | _ => True

instance (c : Config) : (a : Action) → Decidable (NoShutdown c a)
  | .call f _ => inferInstanceAs (Decidable (f ≠ .shutdown))
  | .ret => instDecidableTrue
  | .run _ => instDecidableTrue

/-- A step works on the state and leaves no part of a shutdown on the stack. -/
theorem step_changes {c c' : Config} {a : Action} (hok : NoShutdown c a)
    (hc : ∀ t ∈ c.stack, t.Running) (h : step c a = some c') :
    (∃ es, Changes (fun _ => True) c.st es c'.st ∧ c'.trace = c.trace ++ es) ∧
      ∀ t ∈ c'.stack, t.Running := by
  have hafter : ∀ (rest : List Task) (o : Outcome), (∀ t ∈ rest, t.Running) →
      Works (fun _ => True) c.st o →
      (∃ es, Changes (fun _ => True) c.st es (c.after rest o).st ∧
          (c.after rest o).trace = c.trace ++ es) ∧
        ∀ t ∈ (c.after rest o).stack, t.Running := by
    intro rest o hrest ho
    refine ⟨⟨o.events, ho.changes, rfl⟩, fun t ht => ?_⟩
    rcases List.mem_append.1 ht with ht | ht
    · exact ho.running t ht
    · exact hrest t ht
  rcases step_cases h with ⟨f, k, o, rfl, -, ho, rfl⟩ | ⟨cb, rest, rfl, hs, rfl⟩ |
    ⟨k, t, rest, o, rfl, hs, ho, rfl⟩
  · exact hafter c.stack o hc (works_apply trivial hok ho)
  · rw [hs] at hc
    exact ⟨⟨[], .refl _, (List.append_nil _).symm⟩, fun t ht => hc t (List.mem_cons_of_mem _ ht)⟩
  · rw [hs] at hc
    exact hafter rest o (fun u hu => hc u (List.mem_cons_of_mem _ hu))
      (works_exec trivial (hc t List.mem_cons_self) ho)

/-- What every change keeps holds in every state of a run without a shutdown. -/
theorem changes_run {I : State → List Event → Prop} (hinit : I {} [])
    (hchange : ∀ s es s' tr, I s tr → Change (fun _ => True) s es s' → I s' (tr ++ es)) {c : Config}
    (h : Run step NoShutdown start c) : I c.st c.trace := by
  have hrun : (∀ t ∈ c.stack, t.Running) ∧ I c.st c.trace := by
    refine h.invariant (I := fun c => (∀ t ∈ c.stack, t.Running) ∧ I c.st c.trace) ?_
      ⟨fun _ ht => absurd ht List.not_mem_nil, hinit⟩
    intro c a c' hc hok hs
    obtain ⟨⟨es, hes, htrace⟩, hstack⟩ := step_changes hok hc.1 hs
    refine ⟨hstack, ?_⟩
    rw [htrace]
    exact hes.invariant hchange hc.2
  exact hrun.2

end ExamplePrograms.Onethread.Sockbuf
