import Mathlib.Data.List.Induction
import Mathlib.Data.List.Nodup
import Mathlib.Logic.Function.Basic
import ExamplePrograms.Onethread.Sockbuf.Consistency

/-!
# Dispatched events were reported

An event that the loop of `sockbuf_update_all` dispatches to a sockbuf should have been reported by
`poll` for that sockbuf with the socket it has, and no report should be dispatched twice. `Explained`
says so of a trace: every dispatch has a report as its source, and no two have the same.

The loop reads the word of an entry when it comes to it, and its tests may run long after that. The
invariant `EventInv` carries a source for every test that is still on the stack (`Sourced`), and says
of every word in the table that the last `poll` wrote it, unless the sockbuf was created or got a socket
since (`words`), and that a pass meets no entry twice (`PassesMet`). `EventsDue` is the condition under which
the loop may then use a word: it is news since the last `poll`, or the pass has its own report of it.
-/

set_option autoImplicit false

namespace ExamplePrograms.Onethread.Sockbuf

open ExamplePrograms.Lib.Runs State

/-! ## Sources of a dispatch -/

/-- The sockbuf is a new one or has a new socket. -/
def Event.renews (idx : Nat) : Event → Bool
  | .created j => j == idx
  | .attached j _ => j == idx
  | _ => false

/-- The event is a dispatch to the sockbuf. -/
def Event.dispatches (idx : Nat) : Event → Bool
  | .dispatched j _ => j == idx
  | _ => false

/-- Event `p` of the trace is a `poll` that reports `kind` for the sockbuf, which is then neither
created nor given a socket before event `q`. -/
structure Reported (tr : List Event) (p q idx : Nat) (kind : EventKind) : Prop where
  before : p < q
  source : ∃ reports r, tr[p]? = some (.polled reports) ∧ (idx, r) ∈ reports ∧ r.has kind = true
  same : ∀ m e, p < m → m < q → tr[m]? = some e → e.renews idx = false

/-- `src` assigns to every dispatch its own report. -/
structure Explained (tr : List Event) (src : Nat → Nat) : Prop where
  reported : ∀ q idx kind, tr[q]? = some (.dispatched idx kind) → Reported tr (src q) q idx kind
  once : ∀ q q' idx kind, tr[q]? = some (.dispatched idx kind) →
    tr[q']? = some (.dispatched idx kind) → src q = src q' → q = q'

/-- Every dispatched event was reported, and every reported event is dispatched at most once. -/
def NoStaleEvents (tr : List Event) : Prop := ∃ src, Explained tr src

/-! ## Since the last poll -/

/-- What an event does to the events since the last poll. -/
def sinceStep (es : List Event) : Event → List Event
  | .polled _ => []
  | e => es ++ [e]

/-- The events behind the last `poll`. -/
def sincePoll (tr : List Event) : List Event := tr.foldl sinceStep []

/-- Event `p` is the last `poll`, with these reports. -/
def LastPoll (tr : List Event) (p : Nat) (reports : List (Nat × Revents)) : Prop :=
  ∃ pre, tr = pre ++ .polled reports :: sincePoll tr ∧ pre.length = p

/-- The event is a poll that succeeded. -/
def Event.isPoll : Event → Bool
  | .polled _ => true
  | _ => false

/-- An event that is no poll, behind the others. -/
theorem sincePoll_snoc (tr : List Event) {e : Event} (he : e.isPoll = false) :
    sincePoll (tr ++ [e]) = sincePoll tr ++ [e] := by
  simp only [sincePoll, List.foldl_append, List.foldl_cons, List.foldl_nil]
  cases e <;> first | rfl | exact absurd he (by simp [Event.isPoll])

/-- The last poll behind an event that is no poll. -/
theorem lastPoll_snoc {tr : List Event} {e : Event} {p : Nat} {reports : List (Nat × Revents)}
    (he : e.isPoll = false) : LastPoll (tr ++ [e]) p reports ↔ LastPoll tr p reports := by
  rw [LastPoll]
  rw [sincePoll_snoc tr he]
  constructor
  · rintro ⟨pre, htr, hp⟩
    -- both traces end in `e`, which can be cut off
    have htr' : tr ++ [e] = (pre ++ .polled reports :: sincePoll tr) ++ [e] := by simpa using htr
    exact ⟨pre, (List.append_inj' htr' rfl).1, hp⟩
  · rintro ⟨pre, htr, hp⟩
    refine ⟨pre, ?_, hp⟩
    rw [← List.cons_append, ← List.append_assoc, ← htr]

/-- The last poll is the one just made. -/
theorem lastPoll_polled (tr : List Event) (reports : List (Nat × Revents)) :
    LastPoll (tr ++ [.polled reports]) tr.length reports := by
  refine ⟨tr, ?_, rfl⟩
  simp [sincePoll, sinceStep]

/-- There is one last poll. -/
theorem LastPoll.unique {tr : List Event} {p p' : Nat} {reports reports' : List (Nat × Revents)}
    (h : LastPoll tr p reports) (h' : LastPoll tr p' reports') : p = p' := by
  obtain ⟨pre, htr, rfl⟩ := h
  obtain ⟨pre', htr', rfl⟩ := h'
  have := congrArg List.length (htr.symm.trans htr')
  simp only [List.length_append, List.length_cons] at this
  omega

/-- The last poll stands in the trace. -/
theorem LastPoll.getElem? {tr : List Event} {p : Nat} {reports : List (Nat × Revents)}
    (h : LastPoll tr p reports) : tr[p]? = some (.polled reports) := by
  obtain ⟨pre, htr, rfl⟩ := h
  rw [htr, List.getElem?_append_right (Nat.le_refl _), Nat.sub_self]
  rfl

theorem LastPoll.lt {tr : List Event} {p : Nat} {reports : List (Nat × Revents)}
    (h : LastPoll tr p reports) : p < tr.length :=
  (List.getElem?_eq_some_iff.1 h.getElem?).1

/-- What stands behind the last poll is in `sincePoll`. -/
theorem LastPoll.mem_since {tr : List Event} {p m : Nat} {e : Event}
    {reports : List (Nat × Revents)} (h : LastPoll tr p reports) (hm : p < m)
    (he : tr[m]? = some e) : e ∈ sincePoll tr := by
  obtain ⟨pre, htr, rfl⟩ := h
  rw [htr, List.getElem?_append_right (Nat.le_of_lt hm)] at he
  obtain ⟨d, hd⟩ := Nat.exists_eq_add_of_lt hm
  rw [show m - pre.length = d + 1 by omega, List.getElem?_cons_succ] at he
  exact List.mem_of_getElem? he

/-- No poll was made since the last one. -/
theorem isPoll_of_mem_sincePoll {tr : List Event} {e : Event} (h : e ∈ sincePoll tr) :
    e.isPoll = false := by
  induction tr using List.reverseRecOn with
  | nil => exact absurd h List.not_mem_nil
  | append_singleton tr x ih =>
    cases hx : x.isPoll with
    | false =>
      rw [sincePoll_snoc tr hx] at h
      rcases List.mem_append.1 h with h | h
      · exact ih h
      · rw [List.mem_singleton.1 h]
        exact hx
    -- nothing stands behind a poll
    | true =>
      cases x with
      | polled reports => simp [sincePoll, sinceStep] at h
      | _ => cases hx

/-- What stands behind the last poll. -/
theorem LastPoll.drop_eq {tr : List Event} {p : Nat} {reports : List (Nat × Revents)}
    (h : LastPoll tr p reports) : tr.drop (p + 1) = sincePoll tr := by
  obtain ⟨pre, htr, rfl⟩ := h
  conv_lhs => rw [htr]
  rw [← List.singleton_append, ← List.append_assoc]
  exact List.drop_left' (by simp)

/-- No poll stands behind the last one. -/
theorem LastPoll.ge {tr : List Event} {p q : Nat} {reports reports' : List (Nat × Revents)}
    (h : LastPoll tr p reports) (hq : tr[q]? = some (.polled reports')) : q ≤ p := by
  by_contra hlt
  have hpoll := isPoll_of_mem_sincePoll (h.mem_since (Nat.lt_of_not_le hlt) hq)
  cases hpoll

/-! ## The passes that go on -/

/-- The number of the events so far, and where the passes that go on have polled. -/
def passStep (o : Nat × List Nat) (e : Event) : Nat × List Nat :=
  (o.1 + 1,
    match e with
    | .polled _ => o.1 :: o.2
    | .passEnd => o.2.tail
    | _ => o.2)

/-- Where the passes that go on have polled, the innermost one first. -/
def openPolls (tr : List Event) : List Nat := (tr.foldl passStep (0, [])).2

/-- The event ends a pass. -/
def Event.isPassEnd : Event → Bool
  | .passEnd => true
  | _ => false

section OpenPolls

variable {tr : List Event}

theorem fst_foldl_passStep (tr : List Event) (o : Nat × List Nat) :
    (tr.foldl passStep o).1 = o.1 + tr.length := by
  induction tr generalizing o with
  | nil => rfl
  | cons e tr ih =>
    rw [List.foldl_cons, ih, List.length_cons]
    show o.1 + 1 + tr.length = o.1 + (tr.length + 1)
    omega

/-- A poll opens a pass. -/
theorem openPolls_polled (tr : List Event) (reports : List (Nat × Revents)) :
    openPolls (tr ++ [.polled reports]) = tr.length :: openPolls tr := by
  rw [openPolls, List.foldl_append, List.foldl_cons, List.foldl_nil, passStep, fst_foldl_passStep,
    Nat.zero_add]
  rfl

/-- The end of a pass closes the innermost one. -/
theorem openPolls_passEnd (tr : List Event) : openPolls (tr ++ [.passEnd]) = (openPolls tr).tail := by
  rw [openPolls, List.foldl_append]
  rfl

/-- Other events leave the open passes. -/
theorem openPolls_snoc (tr : List Event) {e : Event} (hpoll : e.isPoll = false)
    (hend : e.isPassEnd = false) : openPolls (tr ++ [e]) = openPolls tr := by
  rw [openPolls, List.foldl_append]
  cases e <;> first | cases hpoll; done | cases hend; done | rfl

/-- Every open pass has its poll. -/
theorem exists_polled_of_mem_openPolls {p : Nat} (h : p ∈ openPolls tr) :
    ∃ reports, tr[p]? = some (.polled reports) := by
  induction tr using List.reverseRecOn with
  | nil => exact absurd h List.not_mem_nil
  | append_singleton tr e ih =>
    have hold : p ∈ openPolls tr → ∃ reports, (tr ++ [e])[p]? = some (.polled reports) := fun hp => by
      obtain ⟨reports, hget⟩ := ih hp
      exact ⟨reports, by rw [List.getElem?_append_left (List.getElem?_eq_some_iff.1 hget).1, hget]⟩
    cases e with
    | polled reports =>
      rw [openPolls_polled] at h
      rcases List.mem_cons.1 h with rfl | hp
      · exact ⟨reports, List.getElem?_concat_length⟩
      · exact hold hp
    | passEnd =>
      rw [openPolls_passEnd] at h
      exact hold (List.mem_of_mem_tail h)
    | _ =>
      rw [openPolls_snoc tr rfl rfl] at h
      exact hold h

theorem lt_length_of_mem_openPolls {p : Nat} (h : p ∈ openPolls tr) : p < tr.length := by
  obtain ⟨reports, hget⟩ := exists_polled_of_mem_openPolls h
  exact (List.getElem?_eq_some_iff.1 hget).1

/-- An inner pass has polled later. -/
theorem pairwise_openPolls (tr : List Event) : (openPolls tr).Pairwise fun p q => q < p := by
  induction tr using List.reverseRecOn with
  | nil => exact .nil
  | append_singleton tr e ih =>
    cases e with
    | polled reports =>
      rw [openPolls_polled]
      exact List.pairwise_cons.2 ⟨fun q hq => lt_length_of_mem_openPolls hq, ih⟩
    | passEnd =>
      rw [openPolls_passEnd]
      exact ih.sublist (List.tail_sublist _)
    | _ =>
      rw [openPolls_snoc tr rfl rfl]
      exact ih

end OpenPolls

/-- What the poll at `p` reported. -/
def reportsAt (tr : List Event) (p : Nat) : List (Nat × Revents) :=
  match tr[p]? with
  | some (.polled reports) => reports
  | _ => []

theorem polled_of_mem_reportsAt {tr : List Event} {p : Nat} {x : Nat × Revents}
    (h : x ∈ reportsAt tr p) : ∃ reports, tr[p]? = some (.polled reports) ∧ x ∈ reports := by
  rw [reportsAt] at h
  split at h
  · next reports hp => exact ⟨reports, hp, h⟩
  · exact absurd h List.not_mem_nil

/-- The sockbuf was created or got a socket behind event `p`. -/
def RenewedSince (tr : List Event) (p idx : Nat) : Prop :=
  ∃ e ∈ tr.drop (p + 1), e.renews idx = true

/-- A sockbuf that was renewed stays so. -/
theorem RenewedSince.append {tr : List Event} {p idx : Nat} (h : RenewedSince tr p idx)
    (es : List Event) : RenewedSince (tr ++ es) p idx := by
  obtain ⟨e, he, hrenews⟩ := h
  rw [RenewedSince, List.drop_append]
  exact ⟨e, List.mem_append_left _ he, hrenews⟩

/-- A sockbuf that is renewed now. -/
theorem RenewedSince.snoc {tr : List Event} {p idx : Nat} {e : Event} (hp : p < tr.length)
    (he : e.renews idx = true) : RenewedSince (tr ++ [e]) p idx := by
  rw [RenewedSince, List.drop_append_of_le_length hp]
  exact ⟨e, List.mem_append_right _ (List.mem_singleton_self e), he⟩

/-! ## Traces that grow -/

section Grow

variable {tr : List Event} {src : Nat → Nat} {p q idx : Nat} {kind : EventKind}

/-- A report stays good behind further events. -/
theorem Reported.append (h : Reported tr p q idx kind) (hq : q ≤ tr.length) (es : List Event) :
    Reported (tr ++ es) p q idx kind := by
  obtain ⟨hlt, ⟨reports, r, hp, hr, hk⟩, hsame⟩ := h
  refine ⟨hlt, ⟨reports, r, ?_, hr, hk⟩, fun m e hm hmq he => hsame m e hm hmq ?_⟩
  · rw [List.getElem?_append_left (by omega)]
    exact hp
  · rw [List.getElem?_append_left (by omega)] at he
    exact he

/-- A report stays due behind an event that does not renew the sockbuf. -/
theorem Reported.snoc {e : Event} (h : Reported tr p tr.length idx kind)
    (he : e.renews idx = false) : Reported (tr ++ [e]) p (tr ++ [e]).length idx kind := by
  obtain ⟨hlt, hsource, hsame⟩ := h.append (Nat.le_refl _) [e]
  have hlen : (tr ++ [e]).length = tr.length + 1 := List.length_append
  refine ⟨by omega, hsource, fun m x hm hmq hx => ?_⟩
  -- an event of the old trace, or the new one
  rcases Nat.lt_or_ge m tr.length with h' | h'
  · exact hsame m x hm h' hx
  · have hm' : m = tr.length := by omega
    subst hm'
    rw [List.getElem?_append_right (Nat.le_refl _), Nat.sub_self] at hx
    cases hx
    exact he

/-- A dispatch stands in the trace or is the last event. -/
theorem getElem?_snoc_dispatched {e : Event} {q idx : Nat} {kind : EventKind}
    (h : (tr ++ [e])[q]? = some (.dispatched idx kind)) :
    (q < tr.length ∧ tr[q]? = some (.dispatched idx kind)) ∨
      (q = tr.length ∧ e = .dispatched idx kind) := by
  rcases Nat.lt_or_ge q tr.length with hq | hq
  · rw [List.getElem?_append_left hq] at h
    exact Or.inl ⟨hq, h⟩
  · have hlt : q < (tr ++ [e]).length := (List.getElem?_eq_some_iff.1 h).1
    have hq' : q = tr.length := by
      rw [List.length_append, List.length_singleton] at hlt
      omega
    subst hq'
    rw [List.getElem?_append_right (Nat.le_refl _), Nat.sub_self] at h
    exact Or.inr ⟨rfl, Option.some.inj h⟩

/-- An event that is no dispatch needs no source. -/
theorem Explained.snoc {e : Event} (h : Explained tr src)
    (he : ∀ idx kind, e ≠ .dispatched idx kind) : Explained (tr ++ [e]) src := by
  refine ⟨fun q idx kind hq => ?_, fun q q' idx kind hq hq' hsrc => ?_⟩
  · rcases getElem?_snoc_dispatched hq with ⟨hlt, hq⟩ | ⟨-, rfl⟩
    · exact (h.reported q idx kind hq).append (Nat.le_of_lt hlt) _
    · exact absurd rfl (he idx kind)
  · rcases getElem?_snoc_dispatched hq with ⟨-, hq⟩ | ⟨-, rfl⟩
    · rcases getElem?_snoc_dispatched hq' with ⟨-, hq'⟩ | ⟨-, rfl⟩
      · exact h.once q q' idx kind hq hq' hsrc
      · exact absurd rfl (he idx kind)
    · exact absurd rfl (he idx kind)

/-- A dispatch with a source that no dispatch before it has. -/
theorem Explained.dispatch (h : Explained tr src) (hrep : Reported tr p tr.length idx kind)
    (hunused : ∀ q, tr[q]? = some (.dispatched idx kind) → src q ≠ p) :
    Explained (tr ++ [.dispatched idx kind]) (Function.update src tr.length p) := by
  have hold : ∀ q, q < tr.length → Function.update src tr.length p q = src q := fun q hq =>
    Function.update_of_ne (Nat.ne_of_lt hq) _ _
  refine ⟨fun q j kd hq => ?_, fun q q' j kd hq hq' hsrc => ?_⟩
  · rcases getElem?_snoc_dispatched hq with ⟨hlt, hq⟩ | ⟨rfl, heq⟩
    · rw [hold q hlt]
      exact (h.reported q j kd hq).append (Nat.le_of_lt hlt) _
    -- the new dispatch has the source `p`
    · cases heq
      rw [Function.update_self]
      exact hrep.append (Nat.le_refl _) _
  · rcases getElem?_snoc_dispatched hq with ⟨hlt, hq⟩ | ⟨rfl, heq⟩
    -- an old dispatch does not have the source of the new one
    · rw [hold q hlt] at hsrc
      rcases getElem?_snoc_dispatched hq' with ⟨hlt', hq'⟩ | ⟨rfl, heq⟩
      · rw [hold q' hlt'] at hsrc
        exact h.once q q' j kd hq hq' hsrc
      · cases heq
        rw [Function.update_self] at hsrc
        exact absurd hsrc (hunused q hq)
    · cases heq
      rcases getElem?_snoc_dispatched hq' with ⟨hlt', hq'⟩ | ⟨rfl, -⟩
      · rw [Function.update_self, hold q' hlt'] at hsrc
        exact absurd hsrc.symm (hunused q' hq')
      · rfl

end Grow

/-! ## Tests on the stack -/

/-- The test that a task makes: of which sockbuf, and for what. -/
def Task.test : Task → Option (Nat × EventKind)
  | .writable idx _ => some (idx, .writable)
  | .readable idx _ => some (idx, .readable)
  | .hangup idx => some (idx, .hangup)
  | _ => none

/-- The tests that are still to be made. -/
def stackTests (stack : List Task) : List (Nat × EventKind) := stack.filterMap Task.test

/-- The entry that a pass comes to next. -/
def Task.next : Task → Option Nat
  | .scan i _ => some i
  | _ => none

/-- The entries that the passes on the stack come to next. -/
def stackScans (stack : List Task) : List Nat := stack.filterMap Task.next

/-- The sockbuf that the task on top tests. -/
def topTest (stack : List Task) : Option Nat := (stack.head?.bind Task.test).map Prod.fst

/-- The tests that a word passes, in the order in which the loop makes them. -/
def Revents.kinds (r : Revents) : List EventKind :=
  [EventKind.writable, .readable, .hangup].filter r.has

/-- The tests of a word that are left on the stack. -/
theorem stackTests_eventTasks (r : Revents) (idx : Nat) (flags : Flags) :
    stackTests (eventTasks r idx flags) = r.kinds.map fun kind => (idx, kind) := by
  cases hw : r.pollout <;> cases hr : r.pollin <;> cases hh : r.hangup <;>
    simp [stackTests, eventTasks, Revents.kinds, Revents.has, Task.test, hw, hr, hh]

theorem nodup_kinds (r : Revents) : r.kinds.Nodup := List.Pairwise.filter _ (by decide)

/-! ## The invariant -/

/-- `obs` names a report for each of the `tests`; `top` is the sockbuf that the task on top tests. The
source of a test is not the last poll unless its sockbuf is being worked on. -/
structure Sourced (tr : List Event) (src : Nat → Nat) (tests : List (Nat × EventKind))
    (top : Option Nat) (obs : List (Nat × (Nat × EventKind))) : Prop where
  tests : obs.map Prod.snd = tests
  distinct : obs.Nodup
  due : ∀ o ∈ obs, Reported tr o.1 tr.length o.2.1 o.2.2
  unused : ∀ o ∈ obs, ∀ q, tr[q]? = some (.dispatched o.2.1 o.2.2) → src q ≠ o.1
  current : ∀ o ∈ obs, ∀ reports, LastPoll tr o.1 reports →
    (∃ e ∈ sincePoll tr, e.dispatches o.2.1 = true) ∨ top = some o.2.1

/-- A word in the table is what the last poll reported for the sockbuf of its entry, unless the
sockbuf was created or got a socket since. -/
def WordsReported (s : State) (tr : List Event) : Prop :=
  ∀ i idx p, EntryAt s i idx p → (∃ e ∈ sincePoll tr, e.renews idx = true) ∨
    ∃ q reports, LastPoll tr q reports ∧ (idx, p.revents) ∈ reports

/-- The report at `p` is the source of a dispatch to the sockbuf or of a test of it. -/
def Uses (tr : List Event) (src : Nat → Nat) (obs : List (Nat × (Nat × EventKind))) (p idx : Nat) :
    Prop :=
  (∃ q kind, tr[q]? = some (.dispatched idx kind) ∧ src q = p) ∨ ∃ o ∈ obs, o.1 = p ∧ o.2.1 = idx

/-- A pass that has polled at `p` and comes to entry `i` next: the entries of the sockbufs that its poll was
used for stand before `i`, but for those that were renewed. -/
def MetBefore (s : State) (tr : List Event) (src : Nat → Nat) (obs : List (Nat × (Nat × EventKind)))
    (i p : Nat) : Prop :=
  ∀ idx, Uses tr src obs p idx → RenewedSince tr p idx ∨ ∀ j q, EntryAt s j idx q → j < i

/-- `scans` are the entries that the passes on the stack come to next. -/
def PassesMet (s : State) (tr : List Event) (src : Nat → Nat) (obs : List (Nat × (Nat × EventKind)))
    (scans : List Nat) : Prop :=
  List.Forall₂ (MetBefore s tr src obs) scans (openPolls tr)

/-- Bounds of the table, its words, and a source for every dispatch made or to be made. -/
structure EventInv (s : State) (tests : List (Nat × EventKind)) (top : Option Nat) (scans : List Nat)
    (tr : List Event) : Prop where
  bounds : TableBounds s
  nodup : s.idxs.Nodup
  words : WordsReported s tr
  sources : ∃ src obs, Explained tr src ∧ Sourced tr src tests top obs ∧ PassesMet s tr src obs scans

/-- Events that are no `poll` or end of a pass, no dispatch and renew no sockbuf. -/
def Event.Still : Event → Prop
  | .polled _ => False
  | .passEnd => False
  | .dispatched _ _ => False
  | .created _ => False
  | .attached _ _ => False
  | _ => True

/-- Quiet events are still. -/
theorem Event.Quiet.still {T : Nat → Prop} {e : Event} (h : e.Quiet T) : e.Still := by
  cases e <;> trivial

section Sourced

variable {tr : List Event} {src : Nat → Nat} {tests : List (Nat × EventKind)} {top : Option Nat}
  {obs : List (Nat × (Nat × EventKind))}

/-- An event that is neither a poll nor a dispatch, and renews none of the sockbufs to be tested. -/
theorem Sourced.snoc {e : Event} (h : Sourced tr src tests top obs) (hpoll : e.isPoll = false)
    (hdisp : ∀ idx kind, e ≠ .dispatched idx kind)
    (hrenew : ∀ x ∈ tests, e.renews x.1 = false) : Sourced (tr ++ [e]) src tests top obs := by
  refine ⟨h.tests, h.distinct, fun o ho => ?_, fun o ho q hq => ?_, fun o ho reports hlast => ?_⟩
  · refine (h.due o ho).snoc (hrenew o.2 ?_)
    rw [← h.tests]
    exact List.mem_map_of_mem ho
  · rcases getElem?_snoc_dispatched hq with ⟨-, hq⟩ | ⟨-, rfl⟩
    · exact h.unused o ho q hq
    · exact absurd rfl (hdisp _ _)
  · rw [lastPoll_snoc hpoll] at hlast
    rw [sincePoll_snoc tr hpoll]
    rcases h.current o ho reports hlast with ⟨x, hx, hd⟩ | htop
    · exact Or.inl ⟨x, List.mem_append_left _ hx, hd⟩
    · exact Or.inr htop

/-- A poll: what is still to be tested was reported before it. -/
theorem Sourced.polled (h : Sourced tr src tests top obs) (reports : List (Nat × Revents)) :
    Sourced (tr ++ [.polled reports]) src tests top obs := by
  refine ⟨h.tests, h.distinct, fun o ho => (h.due o ho).snoc rfl, fun o ho q hq => ?_,
    fun o ho reports' hlast => ?_⟩
  · rcases getElem?_snoc_dispatched hq with ⟨-, hq⟩ | ⟨-, heq⟩
    · exact h.unused o ho q hq
    · exact absurd heq (by simp)
  · have hpos := hlast.unique (lastPoll_polled tr reports)
    -- the source of a test lies before this poll
    exact absurd (h.due o ho).before (by omega)

/-- The test on top is made. -/
theorem Sourced.dispatch {idx : Nat} {kind : EventKind} (hex : Explained tr src)
    (h : Sourced tr src ((idx, kind) :: tests) (some idx) obs) :
    ∃ src' obs', Explained (tr ++ [.dispatched idx kind]) src' ∧
      Sourced (tr ++ [.dispatched idx kind]) src' tests none obs' ∧
      ∀ p j, Uses (tr ++ [.dispatched idx kind]) src' obs' p j → Uses tr src obs p j := by
  obtain ⟨o, obs, rfl⟩ : ∃ o rest, obs = o :: rest := by
    cases hobs : obs with
    | nil => exact absurd h.tests (by simp [hobs])
    | cons o rest => exact ⟨o, rest, rfl⟩
  obtain ⟨ho, htests⟩ := List.cons.inj h.tests
  obtain ⟨hfresh, hdistinct⟩ := List.nodup_cons.1 h.distinct
  have hdue := h.due o List.mem_cons_self
  have hunused := h.unused o List.mem_cons_self
  rw [ho] at hdue hunused
  refine ⟨_, obs, hex.dispatch hdue hunused, ⟨htests, hdistinct, fun x hx => ?_, fun x hx q hq => ?_,
    fun x hx reports hlast => ?_⟩, ?_⟩
  · exact (h.due x (List.mem_cons_of_mem _ hx)).snoc rfl
  · rcases getElem?_snoc_dispatched hq with ⟨hlt, hq⟩ | ⟨rfl, heq⟩
    · rw [Function.update_of_ne (Nat.ne_of_lt hlt)]
      exact h.unused x (List.mem_cons_of_mem _ hx) q hq
    · -- the report used now is not that of another test of the same kind
      rw [Function.update_self]
      intro hpos
      simp only [Event.dispatched.injEq] at heq
      have hxo : x = o := by
        refine Prod.ext hpos.symm ?_
        rw [ho]
        exact Prod.ext heq.1.symm heq.2.symm
      exact hfresh (hxo ▸ hx)
  · rw [lastPoll_snoc rfl] at hlast
    rw [sincePoll_snoc tr rfl]
    rcases h.current x (List.mem_cons_of_mem _ hx) reports hlast with ⟨e, he, hd⟩ | htop
    · exact Or.inl ⟨e, List.mem_append_left _ he, hd⟩
    · exact Or.inl ⟨.dispatched idx kind, by simp, by simp [Event.dispatches, Option.some.inj htop]⟩
  -- the report used now was that of the test
  · rintro p j (⟨q, kind', hq, rfl⟩ | ⟨x, hx, hp, hj⟩)
    · rcases getElem?_snoc_dispatched hq with ⟨hlt, hq⟩ | ⟨rfl, heq⟩
      · rw [Function.update_of_ne (Nat.ne_of_lt hlt)]
        exact Or.inl ⟨q, kind', hq, rfl⟩
      · cases heq
        rw [Function.update_self]
        exact Or.inr ⟨o, List.mem_cons_self, rfl, by rw [ho]⟩
    · exact Or.inr ⟨x, List.mem_cons_of_mem _ hx, hp, hj⟩

/-- No test is on top. -/
theorem Sourced.weaken (h : Sourced tr src tests none obs) (top : Option Nat) :
    Sourced tr src tests top obs := by
  refine ⟨h.tests, h.distinct, h.due, h.unused, fun o ho reports hlast => ?_⟩
  rcases h.current o ho reports hlast with hd | hc
  · exact Or.inl hd
  · exact absurd hc (by simp)

/-- The tests of a word whose events the poll at `p` reported for the sockbuf, which was not renewed since,
where the report was used neither for a dispatch nor for a test. -/
theorem Sourced.scan {idx p : Nat} {r r' : Revents} {reports : List (Nat × Revents)}
    (h : Sourced tr src tests none obs) (hp : tr[p]? = some (.polled reports)) (hr : (idx, r') ∈ reports)
    (hkinds : ∀ kind ∈ r.kinds, r'.has kind = true) (hsame : ¬ RenewedSince tr p idx)
    (hfree : ¬ Uses tr src obs p idx) :
    Sourced tr src ((r.kinds.map fun kind => (idx, kind)) ++ tests) (some idx)
      ((r.kinds.map fun kind => (p, (idx, kind))) ++ obs) := by
  have hrep : ∀ kind ∈ r.kinds, Reported tr p tr.length idx kind := by
    intro kind hk
    refine ⟨(List.getElem?_eq_some_iff.1 hp).1, ⟨reports, r', hp, hr, hkinds kind hk⟩, ?_⟩
    intro m e hm _ he
    obtain ⟨d, rfl⟩ := Nat.exists_eq_add_of_lt hm
    have hmem : e ∈ tr.drop (p + 1) := by
      refine List.mem_of_getElem? (i := d) ?_
      rw [List.getElem?_drop, ← he]
      congr 1
      omega
    by_contra hrenews
    exact hsame ⟨e, hmem, by simpa using hrenews⟩
  refine ⟨?_, ?_, fun o ho => ?_, fun o ho q hq => ?_, fun o ho reports' hl => ?_⟩
  · rw [List.map_append, h.tests, List.map_map]
    rfl
  · refine List.nodup_append.2 ⟨?_, h.distinct, ?_⟩
    · exact (nodup_kinds r).map fun a b hab => by simpa using hab
    · rintro a ha b hb rfl
      obtain ⟨kind, -, rfl⟩ := List.mem_map.1 ha
      exact hfree (Or.inr ⟨_, hb, rfl, rfl⟩)
  · rcases List.mem_append.1 ho with ho | ho
    · obtain ⟨kind, hk, rfl⟩ := List.mem_map.1 ho
      exact hrep kind hk
    · exact h.due o ho
  · rcases List.mem_append.1 ho with ho | ho
    · obtain ⟨kind, -, rfl⟩ := List.mem_map.1 ho
      exact fun hsrc => hfree (Or.inl ⟨q, kind, hq, hsrc⟩)
    · exact h.unused o ho q hq
  · rcases List.mem_append.1 ho with ho | ho
    · obtain ⟨kind, -, rfl⟩ := List.mem_map.1 ho
      exact Or.inr rfl
    · exact (h.weaken (some idx)).current o ho reports' hl

/-- The last poll was not used for a sockbuf that was not worked on since. -/
theorem Sourced.last_free {idx p : Nat} {reports : List (Nat × Revents)} (hex : Explained tr src)
    (h : Sourced tr src tests none obs) (hlast : LastPoll tr p reports)
    (hsince : ∀ e ∈ sincePoll tr, e.dispatches idx = false) : ¬ Uses tr src obs p idx := by
  rintro (⟨q, kind, hq, rfl⟩ | ⟨o, ho, rfl, rfl⟩)
  -- a dispatch with the last poll as its source would be one of the events since
  · have hpq := (hex.reported q idx kind hq).before
    have hnone := hsince _ (hlast.mem_since hpq hq)
    simp [Event.dispatches] at hnone
  -- and so would be one to the sockbuf of a test that is left
  · rcases h.current o ho reports hlast with ⟨e, he, hd⟩ | hc
    · rw [hsince e he] at hd
      exact absurd hd (by simp)
    · exact absurd hc (by simp)

/-! ## The passes and the table -/

/-- An event that is no dispatch uses no report. -/
theorem Uses.of_snoc {e : Event} {p idx : Nat} (he : ∀ j kind, e ≠ .dispatched j kind)
    (h : Uses (tr ++ [e]) src obs p idx) : Uses tr src obs p idx := by
  rcases h with ⟨q, kind, hq, hsrc⟩ | hobs
  · rcases getElem?_snoc_dispatched hq with ⟨-, hq⟩ | ⟨-, heq⟩
    · exact Or.inl ⟨q, kind, hq, hsrc⟩
    · exact absurd heq (he idx kind)
  · exact Or.inr hobs

/-- A relation between passes and polls, changed for the polls that are there. -/
theorem forall₂_imp_of_mem {R S : Nat → Nat → Prop} {scans polls : List Nat}
    (h : List.Forall₂ R scans polls) (himp : ∀ i, ∀ p ∈ polls, R i p → S i p) :
    List.Forall₂ S scans polls := by
  induction h with
  | nil => exact .nil
  | cons hR _ ih =>
    exact .cons (himp _ _ List.mem_cons_self hR) (ih fun i p hp => himp i p (List.mem_cons_of_mem _ hp))

end Sourced

/-! ## The table -/

/-- Every entry of `s'` that is kept is an entry of `s` with the same word, and no further back. -/
structure KeepsWords (s : State) (keep : Nat → Prop) (s' : State) : Prop where
  bounds : TableBounds s'
  nodup : s'.idxs.Nodup
  entry : ∀ i idx p, EntryAt s' i idx p → keep idx →
    ∃ i' q, i ≤ i' ∧ EntryAt s i' idx q ∧ q.revents = p.revents

section KeepsWords

variable {s s' : State} {keep : Nat → Prop}

/-- A state with the same table. -/
theorem KeepsWords.congr (hnodup : s.idxs.Nodup) (hb' : TableBounds s')
    (hidxs : s'.idxs = s.idxs) (hfds : s'.fds = s.fds) : KeepsWords s keep s' :=
  ⟨hb', hidxs ▸ hnodup, fun i _ p he _ => ⟨i, p, Nat.le_refl i, he.congr hidxs hfds, rfl⟩⟩

/-- A change of a record touches no word. -/
theorem KeepsWords.update (hb : TableBounds s) (hnodup : s.idxs.Nodup) (idx : Nat)
    (f : SockbufT → SockbufT) : KeepsWords s keep (s.update idx f) :=
  .congr hnodup ⟨hb.idxArray, hb.pollfds⟩ rfl rfl

/-- A change of an entry may keep its word. -/
theorem KeepsWords.updateEntry (hb : TableBounds s) (hnodup : s.idxs.Nodup) (idx : Nat)
    {f : Pollfd → Pollfd} (hf : ∀ p, (f p).fd = p.fd) (hrev : ∀ p, (f p).revents = p.revents) :
    KeepsWords s keep (s.updateEntry idx f) := by
  have hsame := SameTable.updateEntry s idx hf
  refine ⟨hsame.bounds hb, hsame.idxs ▸ hnodup, fun i j p he _ => ?_⟩
  rcases EntryAt.of_modify hsame.idxs (fds_updateEntry s idx f) he with
    ⟨-, he'⟩ | ⟨rfl, q, he', rfl⟩
  · exact ⟨i, p, Nat.le_refl i, he', rfl⟩
  · exact ⟨_, q, Nat.le_refl _, he', (hrev q).symm⟩

/-- What is kept by two changes. -/
theorem KeepsWords.trans {s'' : State} (h : KeepsWords s keep s') (h' : KeepsWords s' keep s'') :
    KeepsWords s keep s'' := by
  refine ⟨h'.bounds, h'.nodup, fun i idx p he hk => ?_⟩
  obtain ⟨i', q, hle, he', hq⟩ := h'.entry i idx p he hk
  obtain ⟨i'', r, hle', he'', hr⟩ := h.entry i' idx q he' hk
  exact ⟨i'', r, Nat.le_trans hle hle', he'', hr.trans hq⟩

theorem KeepsWords.updateBoth (hb : TableBounds s) (hnodup : s.idxs.Nodup) (idx : Nat)
    (f : SockbufT → SockbufT) {g : Pollfd → Pollfd} (hg : ∀ p, (g p).fd = p.fd)
    (hrev : ∀ p, (g p).revents = p.revents) :
    KeepsWords s keep ((s.update idx f).updateEntry idx g) := by
  have h : KeepsWords s keep (s.update idx f) := .update hb hnodup idx f
  exact h.trans (.updateEntry h.bounds h.nodup idx hg hrev)

/-- An entry that is removed touches no other word. -/
theorem KeepsWords.drop {idx : Nat} (hnodup : s.idxs.Nodup) (h : DropsEntry s idx s') :
    KeepsWords s keep s' := by
  refine ⟨h.bounds, ?_, fun i j p he _ => ?_⟩
  · rw [h.idxs]
    exact hnodup.sublist (List.eraseIdx_sublist _ _)
  -- the entries behind the one that is dropped move forward
  · rcases h.entryAt he with ⟨-, he'⟩ | ⟨-, he'⟩
    · exact ⟨i, p, Nat.le_refl i, he', rfl⟩
    · exact ⟨i + 1, p, Nat.le_succ i, he', rfl⟩

/-- A mild step touches no word but those it removes. -/
theorem KeepsWords.effect {T : Nat → Prop} {es : List Event} (hb : TableBounds s)
    (hnodup : s.idxs.Nodup) (he : Effect T s es s') : KeepsWords s keep s' := by
  cases he with
  | note _ => exact .congr hnodup hb rfl rfl
  | detail _ => exact .update hb hnodup _ _
  | connected idx => exact .update hb hnodup _ _
  | output _ _ _ _ => exact .update hb hnodup _ _
  | block _ => exact .updateBoth hb hnodup _ _ (fun _ => rfl) fun _ => rfl
  | unblock _ => exact .updateBoth hb hnodup _ _ (fun _ => rfl) fun _ => rfl
  | watch hf => exact .updateEntry hb hnodup _ (fun p => (hf p).1) fun p => (hf p).2.1
  | close k hv => exact .drop hnodup (dropsEntry_sockbufSetSock k {} hv hb)

/-- Giving a sockbuf a socket touches no word but its own. -/
theorem KeepsWords.giveSock (hb : TableBounds s) (hnodup : s.idxs.Nodup) (k : Kernel) {idx : Nat}
    {sock : Int} {flags : Flags} (hv : sockbufIsvalid s idx = true) (hs : sock ≠ -1) :
    KeepsWords s (· ≠ idx) (sockbufSetSock k s idx sock flags) := by
  by_cases hm : idx ∈ s.idxs
  · obtain ⟨hb', hidxs, hfds, -⟩ := table_sockbufSetSock_mem k flags hv hs hb hm
    refine ⟨hb', hidxs ▸ hnodup, fun i j p he hj => ?_⟩
    rcases EntryAt.of_modify hidxs hfds he with ⟨-, he'⟩ | ⟨rfl, q, he', -⟩
    · exact ⟨i, p, Nat.le_refl i, he', rfl⟩
    · exact absurd he'.eq_of_findEntry hj
  · obtain ⟨hb', hidxs, hfds, -⟩ := table_sockbufSetSock_not_mem k flags hv hs hb hm
    refine ⟨hb', ?_, fun i j p he hj => ?_⟩
    · rw [hidxs]
      exact nodup_concat hnodup hm
    · rcases EntryAt.of_append hb hidxs hfds he with he' | ⟨-, hj', -⟩
      · exact ⟨i, p, Nat.le_refl i, he', rfl⟩
      · exact absurd hj' hj

end KeepsWords

/-! ## What the functions keep -/

/-- The word `r` of the sockbuf may be used: since the last poll the sockbuf was neither renewed nor worked
on, or the pass that uses it has polled these events itself and the sockbuf was not renewed since. -/
def WordDue (tr : List Event) (idx : Nat) (r : Revents) : Prop :=
  (∀ e ∈ sincePoll tr, e.renews idx = false ∧ e.dispatches idx = false) ∨
    ∃ p ∈ (openPolls tr).head?, (∀ e ∈ tr.drop (p + 1), e.renews idx = false) ∧
      ∃ x ∈ reportsAt tr p, x.1 = idx ∧ ∀ kind ∈ r.kinds, x.2.has kind = true

section EventInv

variable {s s' : State} {tests : List (Nat × EventKind)} {top : Option Nat} {scans scans' : List Nat}
  {tr : List Event}

/-- No test is on top. -/
theorem EventInv.weaken (h : EventInv s tests none scans tr) (top : Option Nat) :
    EventInv s tests top scans tr := by
  obtain ⟨src, obs, hex, hsrc, hpass⟩ := h.sources
  exact ⟨h.bounds, h.nodup, h.words, src, obs, hex, hsrc.weaken top, hpass⟩

/-- The entries that a pass has met stay behind it. -/
theorem MetBefore.keeps {src : Nat → Nat} {obs : List (Nat × (Nat × EventKind))} {i p : Nat}
    (h : MetBefore s tr src obs i p) (hk : KeepsWords s (fun _ => True) s') :
    MetBefore s' tr src obs i p := by
  intro idx huse
  refine (h idx huse).imp_right fun hpos j q he => ?_
  obtain ⟨j', q', hle, he', -⟩ := hk.entry j idx q he trivial
  exact Nat.lt_of_le_of_lt hle (hpos j' q' he')

/-- A change that keeps the words keeps the invariant. -/
theorem EventInv.state (h : EventInv s tests top scans tr) (hk : KeepsWords s (fun _ => True) s') :
    EventInv s' tests top scans tr := by
  obtain ⟨src, obs, hex, hsrc, hpass⟩ := h.sources
  refine ⟨hk.bounds, hk.nodup, fun i idx p he => ?_, src, obs, hex, hsrc,
    hpass.imp fun _ _ hmet => hmet.keeps hk⟩
  obtain ⟨i', q, -, he', hq⟩ := hk.entry i idx p he trivial
  rw [← hq]
  exact h.words i' idx q he'

/-- An event that is neither a poll nor a dispatch. The words that are not kept are those of a sockbuf
that it renews, and `hopen` says which passes go on. -/
theorem EventInv.event {keep : Nat → Prop} {e : Event} (h : EventInv s tests top scans tr)
    (hk : KeepsWords s keep s') (hpoll : e.isPoll = false) (hdisp : ∀ idx kind, e ≠ .dispatched idx kind)
    (hkeep : ∀ idx, ¬ keep idx → e.renews idx = true) (hrenew : ∀ x ∈ tests, e.renews x.1 = false)
    (hopen : ∀ R : Nat → Nat → Prop, List.Forall₂ R scans (openPolls tr) →
      List.Forall₂ R scans' (openPolls (tr ++ [e]))) : EventInv s' tests top scans' (tr ++ [e]) := by
  obtain ⟨src, obs, hex, hsrc, hpass⟩ := h.sources
  refine ⟨hk.bounds, hk.nodup, fun i idx p he => ?_, src, obs, hex.snoc hdisp,
    hsrc.snoc hpoll hdisp hrenew, hopen _ (forall₂_imp_of_mem hpass fun i p hp hmet idx huse => ?_)⟩
  · rw [sincePoll_snoc tr hpoll]
    by_cases hidx : keep idx
    · obtain ⟨i', q, -, he', hq⟩ := hk.entry i idx p he hidx
      rcases h.words i' idx q he' with ⟨x, hx, hr⟩ | ⟨pos, reports, hlast, hmem⟩
      · exact Or.inl ⟨x, List.mem_append_left _ hx, hr⟩
      · exact Or.inr ⟨pos, reports, (lastPoll_snoc hpoll).2 hlast, hq ▸ hmem⟩
    -- the word was not kept, so `e` renews the sockbuf
    · exact Or.inl ⟨e, by simp, hkeep idx hidx⟩
  · rcases hmet idx (huse.of_snoc hdisp) with hren | hpos
    · exact Or.inl (hren.append [e])
    · by_cases hidx : keep idx
      · refine Or.inr fun j q he => ?_
        obtain ⟨j', q', hle, he', -⟩ := hk.entry j idx q he hidx
        exact Nat.lt_of_le_of_lt hle (hpos j' q' he')
      · exact Or.inl (.snoc (lt_length_of_mem_openPolls hp) (hkeep idx hidx))

/-- The same passes go on behind an event that is no poll and ends no pass. -/
theorem forall₂_openPolls_snoc {e : Event} (hpoll : e.isPoll = false) (hend : e.isPassEnd = false)
    (R : Nat → Nat → Prop) (h : List.Forall₂ R scans (openPolls tr)) :
    List.Forall₂ R scans (openPolls (tr ++ [e])) := by
  rw [openPolls_snoc tr hpoll hend]
  exact h

/-- A still event keeps the invariant. -/
theorem EventInv.stillEvent {e : Event} (h : EventInv s tests top scans tr) (he : e.Still) :
    EventInv s tests top scans (tr ++ [e]) := by
  have hk : KeepsWords s (fun _ => True) s := .congr h.nodup h.bounds rfl rfl
  have hpoll : e.isPoll = false := by cases e <;> first | rfl | exact absurd he id
  have hend : e.isPassEnd = false := by cases e <;> first | rfl | exact absurd he id
  refine h.event hk hpoll (fun _ _ hc => ?_) (fun _ hc => absurd trivial hc) (fun x _ => ?_)
    (forall₂_openPolls_snoc hpoll hend)
  · rw [hc] at he
    exact he
  · cases e <;> first | rfl | exact absurd he id

theorem EventInv.still {es : List Event} (h : EventInv s tests top scans tr) (hes : ∀ e ∈ es, e.Still) :
    EventInv s tests top scans (tr ++ es) := by
  induction es generalizing tr with
  | nil => simpa using h
  | cons e es ih =>
    have hrest := ih (h.stillEvent (hes e List.mem_cons_self))
      fun x hx => hes x (List.mem_cons_of_mem _ hx)
    simpa using hrest

/-- A mild call keeps the invariant. -/
theorem EventInv.mild {o : Outcome} (h : EventInv s tests top scans tr)
    (ho : Mild (fun _ => True) s o) : EventInv o.st tests top scans (tr ++ o.events) :=
  ho.evolve.invariant (I := fun s tr => EventInv s tests top scans tr)
    (fun _ _ _ _ hinv he => (hinv.state (.effect hinv.bounds hinv.nodup he)).still
      fun e hmem => (he.quiet e hmem).still) h

/-- `sockbuf_new` hands out a sockbuf that no test is left for. -/
theorem EventInv.new (h : EventInv s tests top scans tr)
    (htests : ∀ x ∈ tests, x.1 ≠ (sockbufNew s).2) :
    EventInv (sockbufNew s).1 tests top scans (tr ++ [.created (sockbufNew s).2]) := by
  have hk : KeepsWords s (fun _ => True) (sockbufNew s).1 :=
    .congr h.nodup ⟨h.bounds.idxArray, h.bounds.pollfds⟩ rfl rfl
  refine h.event hk rfl (fun _ _ => by simp) (fun _ hc => absurd trivial hc) (fun x hx => ?_)
    (forall₂_openPolls_snoc rfl rfl)
  exact beq_eq_false_iff_ne.2 fun hc => htests x hx hc.symm

/-- `sockbuf_set_sock` gives a socket to a sockbuf that no test is left for, or takes it away. -/
theorem EventInv.setSock (h : EventInv s tests top scans tr) (k : Kernel) (idx : Nat) (sock : Int)
    (flags : Flags)
    (htests : sockbufIsvalid s idx = true → sock ≠ -1 → ∀ x ∈ tests, x.1 ≠ idx) :
    EventInv (sockbufSetSock k s idx sock flags) tests top scans (tr ++ attachEvents s idx sock) := by
  cases hv : sockbufIsvalid s idx with
  | false =>
    have hnone : attachEvents s idx sock = [] := by simp [attachEvents, hv]
    rw [sockbufSetSock, if_pos hv, hnone, List.append_nil]
    exact h
  | true =>
    by_cases hs : sock = -1
    · have hnone : attachEvents s idx sock = [] := by simp [attachEvents, hs]
      rw [hnone, List.append_nil, hs]
      exact h.state (.drop h.nodup (dropsEntry_sockbufSetSock k flags hv h.bounds))
    · rw [attachEvents, if_pos ⟨hv, hs⟩]
      refine h.event (.giveSock h.bounds h.nodup k hv hs) rfl (fun _ _ => by simp)
        (fun j hj => ?_) (fun x hx => ?_) (forall₂_openPolls_snoc rfl rfl)
      · exact beq_iff_eq.2 (not_not.1 hj).symm
      · exact beq_eq_false_iff_ne.2 fun hc => htests hv hs x hx hc.symm

/-- A successful poll writes the word of every entry. -/
theorem EventInv.poll (h : EventInv s tests top scans tr) (words : List Revents) (d : Nat) :
    EventInv { s with depth := d, pollfds := writeRevents s words } tests top (0 :: scans)
      (tr ++ [.polled (pollReports s words)]) := by
  obtain ⟨src, obs, hex, hsrc, hpass⟩ := h.sources
  have hnot : ∀ j kind, Event.polled (pollReports s words) ≠ .dispatched j kind := fun _ _ => by simp
  refine ⟨bounds_writeRevents h.bounds words d, h.nodup, fun i idx p he => ?_, src, obs,
    hex.snoc hnot, hsrc.polled _, ?_⟩
  · refine Or.inr ⟨_, _, lastPoll_polled tr _, ?_⟩
    -- entry and word stand at one position, so `poll` reports them together
    have hword : ((List.take s.npollfds (writeRevents s words)).map Pollfd.revents)[i]? =
        some p.revents := by
      rw [List.getElem?_map]
      exact congrArg (Option.map Pollfd.revents) he.cell
    exact List.mem_of_getElem? (List.getElem?_zip_eq_some.2 ⟨he.idx, hword⟩)
  · rw [PassesMet, openPolls_polled]
    refine .cons (fun idx huse => ?_) (hpass.imp fun i p hmet idx huse => ?_)
    -- this poll is the source of nothing yet
    · rcases huse.of_snoc hnot with ⟨q, kind, hq, hsource⟩ | ⟨o, ho, hsource, -⟩
      · have hbefore := (hex.reported q idx kind hq).before
        have hlt := (List.getElem?_eq_some_iff.1 hq).1
        omega
      · have hbefore := (hsrc.due o ho).before
        omega
    · refine (hmet idx (huse.of_snoc hnot)).imp (·.append _) fun hpos j q he => ?_
      obtain ⟨q', he'⟩ := h.bounds.entryAt_of_idx he.idx
      exact hpos j q' he'

/-- The test on top is made. -/
theorem EventInv.dispatch {idx : Nat} {kind : EventKind}
    (h : EventInv s ((idx, kind) :: tests) (some idx) scans tr) :
    EventInv s tests none scans (tr ++ [.dispatched idx kind]) := by
  obtain ⟨src, obs, hex, hsrc, hpass⟩ := h.sources
  obtain ⟨src', obs', hex', hsrc', huses⟩ := hsrc.dispatch hex
  refine ⟨h.bounds, h.nodup, fun i j p he => ?_, src', obs', hex', hsrc',
    forall₂_openPolls_snoc rfl rfl _ (hpass.imp fun i p hmet j huse =>
      (hmet j (huses p j huse)).imp_left (·.append _))⟩
  rw [sincePoll_snoc tr rfl]
  rcases h.words i j p he with ⟨x, hx, hr⟩ | ⟨pos, reports, hlast, hmem⟩
  · exact Or.inl ⟨x, List.mem_append_left _ hx, hr⟩
  · exact Or.inr ⟨pos, reports, (lastPoll_snoc rfl).2 hlast, hmem⟩

/-- The loop goes on to the next entry. -/
theorem EventInv.next {i : Nat} (h : EventInv s tests top (i :: scans) tr) :
    EventInv s tests top ((i + 1) :: scans) tr := by
  obtain ⟨src, obs, hex, hsrc, hpass⟩ := h.sources
  refine ⟨h.bounds, h.nodup, h.words, src, obs, hex, hsrc, ?_⟩
  rw [PassesMet] at hpass ⊢
  generalize openPolls tr = polls at hpass
  cases hpass with
  | cons hmet hrest =>
    refine .cons (fun idx huse => (hmet idx huse).imp_right fun hpos j q he => ?_) hrest
    exact Nat.lt_succ_of_lt (hpos j q he)

/-- The loop comes to a word that is due. -/
theorem EventInv.scan {i idx : Nat} {p : Pollfd} (h : EventInv s tests none (i :: scans) tr)
    (he : EntryAt s i idx p) (hdue : WordDue tr idx p.revents) :
    EventInv s ((p.revents.kinds.map fun kind => (idx, kind)) ++ tests) (some idx) ((i + 1) :: scans)
      tr := by
  obtain ⟨src, obs, hex, hsrc, hpass⟩ := h.sources
  rw [PassesMet] at hpass
  generalize hpolls : openPolls tr = polls at hpass
  cases hpass with
  | @cons _ own _ polls hmet hrest =>
  have hown : ∃ reports, tr[own]? = some (.polled reports) :=
    exists_polled_of_mem_openPolls (hpolls ▸ List.mem_cons_self)
  -- a report of these events that was not used, of the pass itself or of a later poll
  obtain ⟨pos, reports, r', hle, hpos, hr, hkinds, hsame, hfree⟩ : ∃ pos reports r', own ≤ pos ∧
      tr[pos]? = some (.polled reports) ∧ (idx, r') ∈ reports ∧
      (∀ kind ∈ p.revents.kinds, r'.has kind = true) ∧ ¬ RenewedSince tr pos idx ∧
      ¬ Uses tr src obs pos idx := by
    rcases hdue with hsince | ⟨pos, hhead, hsame, x, hx, rfl, hkinds⟩
    · rcases h.words i idx p he with ⟨x, hx, hrenews⟩ | ⟨pos, reports, hlast, hmem⟩
      -- the sockbuf was not renewed, so its word is that of the last poll
      · rw [(hsince x hx).1] at hrenews
        exact absurd hrenews (by simp)
      · refine ⟨pos, reports, p.revents, hlast.ge hown.choose_spec, hlast.getElem?, hmem,
          fun kind hk => (List.mem_filter.1 hk).2, ?_,
          hsrc.last_free hex hlast fun e he => (hsince e he).2⟩
        rintro ⟨e, hmem, hrenews⟩
        rw [hlast.drop_eq] at hmem
        rw [(hsince e hmem).1] at hrenews
        exact absurd hrenews (by simp)
    · rw [hpolls, List.head?_cons, Option.mem_some_iff] at hhead
      subst hhead
      obtain ⟨reports, hpos, hx⟩ := polled_of_mem_reportsAt hx
      have hnot : ¬ RenewedSince tr own x.1 := by
        rintro ⟨e, hmem, hrenews⟩
        rw [hsame e hmem] at hrenews
        exact absurd hrenews (by simp)
      -- the pass has not met the entry before
      refine ⟨own, reports, x.2, Nat.le_refl _, hpos, hx, hkinds, hnot, fun huse => ?_⟩
      rcases hmet x.1 huse with hren | hbefore
      · exact hnot hren
      · exact absurd (hbefore i p he) (Nat.lt_irrefl i)
  refine ⟨h.bounds, h.nodup, h.words, src, _, hex, hsrc.scan hpos hr hkinds hsame hfree, ?_⟩
  have hnew : ∀ q j, Uses tr src ((p.revents.kinds.map fun kind => (pos, (idx, kind))) ++ obs) q j →
      (q = pos ∧ j = idx) ∨ Uses tr src obs q j := by
    rintro q j (hdisp | ⟨o, ho, rfl, rfl⟩)
    · exact Or.inr (Or.inl hdisp)
    · rcases List.mem_append.1 ho with ho | ho
      · obtain ⟨kind, -, rfl⟩ := List.mem_map.1 ho
        exact Or.inl ⟨rfl, rfl⟩
      · exact Or.inr (Or.inr ⟨o, ho, rfl, rfl⟩)
  rw [PassesMet, hpolls]
  refine .cons (fun j huse => ?_) (forall₂_imp_of_mem hrest fun i' q hq hmet' j huse => ?_)
  · rcases hnew own j huse with ⟨-, rfl⟩ | hold
    · refine Or.inr fun j' q he' => ?_
      rw [← he.findEntry h.nodup, ← he'.findEntry h.nodup]
      exact Nat.lt_succ_self _
    · exact (hmet j hold).imp_right fun hbefore j' q he' => Nat.lt_succ_of_lt (hbefore j' q he')
  -- the polls of the outer passes are older
  · rcases hnew q j huse with ⟨rfl, -⟩ | hold
    · have hlt := List.rel_of_pairwise_cons (hpolls ▸ pairwise_openPolls tr) hq
      omega
    · exact hmet' j hold

/-- The loop ends, and with it the pass. -/
theorem EventInv.finish {i : Nat} (h : EventInv s tests top (i :: scans) tr) :
    EventInv (updateFinish s).st tests top scans (tr ++ (updateFinish s).events) := by
  have hk : KeepsWords s (fun _ => True) (updateFinish s).st := by
    rcases (updateFinish_cases s).2.2 with hs | hs
    · rw [hs]
      exact .congr h.nodup ⟨h.bounds.idxArray, h.bounds.pollfds⟩ rfl rfl
    · rw [hs]
      exact .congr h.nodup ⟨h.bounds.idxArray, h.bounds.pollfds⟩ rfl rfl
  rw [(updateFinish_cases s).1]
  refine h.event hk rfl (fun _ _ => by simp) (fun _ hc => absurd trivial hc) (fun _ _ => rfl) ?_
  intro R hR
  rw [openPolls_passEnd]
  generalize openPolls tr = polls at hR
  cases hR with
  | cons _ hrest => exact hrest

end EventInv

/-! ## The condition on a step -/

/-- A shutdown is in progress. -/
def inShutdown : List Task → Bool
  | .shutdown _ :: _ => true
  | _ => false

/-- Every poll succeeds, and the module is not shut down. -/
def PollsSucceed (c : Config) : Action → Prop
  | .call f k => f ≠ .shutdown ∧ (f = .updateAll → k.poll.isSome = true)
  | .ret => True
  | .run _ => inShutdown c.stack = false

/-- The sockbuf that a call creates or gives a socket to. -/
def Api.renewed (s : State) : Api → Option Nat
  | .new => some (sockbufNew s).2
  | .setSock idx sock _ => if sockbufIsvalid s idx && sock != -1 then some idx else none
  | _ => none

/-- The sockbuf that is created for an accepted connection. -/
def Task.renewed (k : Kernel) (s : State) : Task → Option Nat
  | .readable idx true =>
      if k.sysAccept (s.sbuf idx).sock < 0 then none else some (sockbufNew s).2
  | _ => none

/-- The sockbuf and the word that the loop comes to, when it tests for an event of the word. -/
def Task.meets (s : State) : Task → Option (Nat × Revents)
  | .scan i n =>
      if n ≠ 0 ∧ i < s.npollfds ∧ (s.pollfds.getD i { fd := 0 }).revents.kinds ≠ [] then
        some (s.idxArray.getD i 0, (s.pollfds.getD i { fd := 0 }).revents)
      else none
  | _ => none

/-- A sockbuf is not created or given a socket while a test of it is left on the stack, and the words that
the loop comes to are due. -/
def EventsDue (c : Config) : Action → Prop
  | .call f _ => ∀ idx ∈ f.renewed c.st, ∀ x ∈ stackTests c.stack, x.1 ≠ idx
  | .ret => True
  | .run k => ∀ t ∈ c.stack.head?,
      (∀ idx ∈ t.renewed k c.st, ∀ x ∈ stackTests c.stack.tail, x.1 ≠ idx) ∧
      ∀ w ∈ t.meets c.st, WordDue c.trace w.1 w.2

instance (c : Config) : (a : Action) → Decidable (PollsSucceed c a)
  | .call f k =>
      inferInstanceAs (Decidable (f ≠ .shutdown ∧ (f = .updateAll → k.poll.isSome = true)))
  | .ret => .isTrue trivial
  | .run _ => inferInstanceAs (Decidable (inShutdown c.stack = false))

instance (tr : List Event) (idx : Nat) (r : Revents) : Decidable (WordDue tr idx r) := by
  unfold WordDue; infer_instance

instance (c : Config) : (a : Action) → Decidable (EventsDue c a)
  | .call f _ =>
      inferInstanceAs (Decidable (∀ idx ∈ f.renewed c.st, ∀ x ∈ stackTests c.stack, x.1 ≠ idx))
  | .ret => .isTrue trivial
  | .run k =>
      inferInstanceAs (Decidable (∀ t ∈ c.stack.head?,
        (∀ idx ∈ t.renewed k c.st, ∀ x ∈ stackTests c.stack.tail, x.1 ≠ idx) ∧
        ∀ w ∈ t.meets c.st, WordDue c.trace w.1 w.2))

/-! ## Steps -/

section Step

variable {s : State} {top : Option Nat} {tr : List Event} {rest : List Task}

theorem stackTests_append {ts : List Task} (h : ∀ t ∈ ts, t.test = none) (rest : List Task) :
    stackTests (ts ++ rest) = stackTests rest := by
  rw [stackTests, List.filterMap_append, List.filterMap_eq_nil_iff.2 h]
  rfl

/-- A task that tests nothing and is no pass. -/
def Task.Idle (t : Task) : Prop := t.test = none ∧ t.next = none

/-- A plain task is idle. -/
theorem Task.Plain.idle {t : Task} (h : t.Plain) : t.Idle := by
  cases t <;> first | exact ⟨rfl, rfl⟩ | exact absurd h id

/-- Idle tasks are left above the others. -/
theorem EventInv.push {ts : List Task}
    (h : EventInv s (stackTests rest) none (stackScans rest) tr) (hts : ∀ t ∈ ts, t.Idle) :
    EventInv s (stackTests (ts ++ rest)) (topTest (ts ++ rest)) (stackScans (ts ++ rest)) tr := by
  have hscans : stackScans (ts ++ rest) = stackScans rest := by
    rw [stackScans, List.filterMap_append, List.filterMap_eq_nil_iff.2 fun t ht => (hts t ht).2]
    rfl
  rw [stackTests_append fun t ht => (hts t ht).1, hscans]
  exact h.weaken _

/-- The invariant of a configuration. -/
def EventState (c : Config) : Prop :=
  EventInv c.st (stackTests c.stack) (topTest c.stack) (stackScans c.stack) c.trace

/-- A mild call keeps the invariant. -/
theorem eventState_mild {c : Config} {o : Outcome}
    (h : EventInv c.st (stackTests rest) none (stackScans rest) c.trace)
    (ho : Mild (fun _ => True) c.st o) : EventState (c.after rest o) :=
  (h.mild ho).push fun t ht => (ho.plain t ht).idle

/-- **A call of the module** keeps the invariant. -/
theorem eventState_apply {c : Config} {f : Api} {k : Kernel} {o : Outcome}
    (h : EventInv c.st (stackTests c.stack) none (stackScans c.stack) c.trace)
    (hpoll : PollsSucceed c (.call f k)) (hdue : EventsDue c (.call f k))
    (ho : f.apply k c.st = some o) : EventState (c.after c.stack o) := by
  have hnone : ∀ t ∈ ([] : List Task), t.Idle := fun _ ht => absurd ht List.not_mem_nil
  cases hf : f.Structural with
  | false => exact eventState_mild h (mild_apply c.st hf (fun _ _ => trivial) ho)
  | true =>
    cases f with
    | new =>
      cases ho
      exact (h.new fun x hx => hdue _ rfl x hx).push hnone
    | setSock idx sock flags =>
      cases ho
      refine (h.setSock k idx sock flags fun hv hs x hx => ?_).push hnone
      exact hdue idx (by simp [Api.renewed, hv, hs]) x hx
    | delete idx =>
      cases ho
      rw [sockbufDelete]
      split
      · have hk : KeepsWords c.st (fun _ => True) (c.st.update idx fun sb =>
            { sb with flags := { sb.flags with deleted := true } }) :=
          .update h.bounds h.nodup idx _
        exact ((h.state hk).stillEvent (e := .deleted idx) trivial).push fun t ht => by
          rw [List.mem_singleton.1 ht]; exact ⟨rfl, rfl⟩
      · exact eventState_mild h (.same _)
    | attachListener fd =>
      cases ho
      have hk : KeepsWords c.st (fun _ => True) (sockbufAttachListener k c.st fd) :=
        .congr h.nodup (bounds_sockbufAttachListener h.bounds k fd) rfl
          (fds_sockbufAttachListener h.bounds k fd)
      exact ((h.state hk).stillEvent (e := .attachedListener fd) trivial).push hnone
    | detachListener fd =>
      cases ho
      obtain ⟨hb, hfds, -⟩ := table_sockbufDetachListener h.bounds fd
      have hidxs : (sockbufDetachListener c.st fd).idxs = c.st.idxs := by
        rw [sockbufDetachListener]
        split <;> rfl
      have hk : KeepsWords c.st (fun _ => True) (sockbufDetachListener c.st fd) :=
        .congr h.nodup hb hidxs hfds
      exact ((h.state hk).stillEvent (e := .detachedListener fd) trivial).push hnone
    | updateAll =>
      cases ho
      cases hp : k.poll with
      -- a failed poll would leave words that nothing reported
      | none => exact absurd (hpoll.2 rfl) (by simp [hp])
      | some words =>
        have hbegin := (h.stillEvent (e := .passBegin) trivial).poll words (c.st.depth + 1)
        have hpush (n : Nat) : EventInv _ (stackTests (.scan 0 n :: c.stack))
            (topTest (.scan 0 n :: c.stack)) (stackScans (.scan 0 n :: c.stack)) _ :=
          EventInv.weaken hbegin _
        simpa [EventState, Config.after, sockbufUpdateAll, hp] using hpush _
    | shutdown => exact absurd rfl hpoll.1
    | _ => simp [Api.Structural] at hf

/-- A connection is accepted after the dispatch of the event. -/
theorem eventState_accept {c : Config} {k : Kernel} {idx : Nat}
    (h : EventInv c.st (stackTests rest) none (stackScans rest) c.trace)
    (hdue : ∀ j ∈ (Task.readable idx true).renewed k c.st, ∀ x ∈ stackTests rest, x.1 ≠ j) :
    EventState (c.after rest (sockbufGotReadableServer k c.st idx)) := by
  rw [sockbufGotReadableServer]
  dsimp only
  split
  · exact eventState_mild h (.same _)
  · next hsock =>
    -- the slot handed out for the connection has no test left on the stack
    have htests : ∀ x ∈ stackTests rest, x.1 ≠ (sockbufNew c.st).2 :=
      hdue _ (by simp [Task.renewed, hsock])
    generalize k.sysAccept (c.st.sbuf idx).sock = sock at hsock
    have hset := (h.new htests).setSock k (sockbufNew c.st).2 sock { inbound := true }
      fun _ _ => htests
    rw [attachEvents, if_pos ⟨sockbufIsvalid_sockbufNew c.st, by omega⟩] at hset
    have ho := mild_sockbufOnNewclient (T := fun _ => True)
      (sockbufSetSock k (sockbufNew c.st).1 (sockbufNew c.st).2 sock { inbound := true }) idx k
      sockbufLevelInternal (sockbufNew c.st).2 k.acceptPeer.1 k.acceptPeer.2
    have hlast : EventInv _ (stackTests (_ ++ rest)) _ _ _ :=
      (hset.mild ho).push fun t ht => (ho.plain t ht).idle
    simpa [EventState, Config.after] using hlast

/-- The task on top when the loop has read a word. -/
theorem topTest_eventTasks (r : Revents) (idx : Nat) (flags : Flags) (i n : Nat) (rest : List Task) :
    topTest (eventTasks r idx flags ++ [.scan i n] ++ rest) =
      if r.kinds = [] then none else some idx := by
  cases hw : r.pollout <;> cases hr : r.pollin <;> cases hh : r.hangup <;>
    simp [topTest, eventTasks, Revents.kinds, Revents.has, Task.test, hw, hr, hh]

/-- The passes when the loop has read a word. -/
theorem stackScans_eventTasks (r : Revents) (idx : Nat) (flags : Flags) (i n : Nat) (rest : List Task) :
    stackScans (eventTasks r idx flags ++ [.scan i n] ++ rest) = i :: stackScans rest := by
  rw [List.append_assoc, stackScans, List.filterMap_append, stackScans]
  have hevents : (eventTasks r idx flags).filterMap Task.next = [] := by
    rw [eventTasks]
    split <;> split <;> split <;> rfl
  rw [hevents]
  rfl

/-- The head of the loop. -/
theorem eventState_scan {c : Config} {i n : Nat}
    (h : EventInv c.st (stackTests rest) none (i :: stackScans rest) c.trace)
    (hdue : ∀ w ∈ (Task.scan i n).meets c.st, WordDue c.trace w.1 w.2) :
    EventState (c.after rest (updateScan c.st i n)) := by
  rw [updateScan]
  dsimp only
  split
  · next hloop =>
    split
    · have hnext : EventInv c.st (stackTests (.scan (i + 1) n :: rest)) none
          (stackScans (.scan (i + 1) n :: rest)) c.trace := h.next
      simpa [EventState, Config.after] using hnext.weaken (topTest (.scan (i + 1) n :: rest))
    · -- the entry that the loop reads
      have hlen := h.bounds.length_idxs
      have hidx : c.st.idxs[i]? = some (c.st.idxArray.getD i 0) := by
        have h1 := h.bounds.idxArray
        rw [idxs, List.getElem?_take_of_lt hloop.2, List.getD_eq_getElem?_getD,
          List.getElem?_eq_getElem (by omega)]
        rfl
      have hcell : c.st.fds[i]? = some (c.st.pollfds.getD i { fd := 0 }) := by
        have h2 := h.bounds.pollfds
        rw [fds, List.getElem?_take_of_lt hloop.2, List.getD_eq_getElem?_getD,
          List.getElem?_eq_getElem (by omega)]
        rfl
      have hmeets : (c.st.pollfds.getD i { fd := 0 }).revents.kinds ≠ [] →
          WordDue c.trace (c.st.idxArray.getD i 0) (c.st.pollfds.getD i { fd := 0 }).revents :=
        fun hkinds => hdue (_, _) (if_pos ⟨hloop.1, hloop.2, hkinds⟩)
      have hentry : EntryAt c.st i _ _ := ⟨hidx, hcell⟩
      generalize c.st.idxArray.getD i 0 = idx at hentry hmeets
      generalize c.st.pollfds.getD i { fd := 0 } = p at hentry hmeets
      have htests : stackTests (eventTasks p.revents idx (c.st.sbuf idx).flags ++
          [.scan (i + 1) (n - 1)] ++ rest) =
            (p.revents.kinds.map fun kind => (idx, kind)) ++ stackTests rest := by
        rw [List.append_assoc, stackTests, List.filterMap_append, ← stackTests,
          stackTests_eventTasks, ← stackTests, stackTests_append]
        intro t ht
        rw [List.mem_singleton.1 ht]
        rfl
      rw [EventState, Config.after]
      simp only [List.append_nil]
      rw [htests, topTest_eventTasks, stackScans_eventTasks]
      split
      -- only bits that the loop does not test for
      · next hkinds =>
        rw [hkinds]
        exact h.next
      · next hkinds => exact h.scan hentry (hmeets hkinds)
  · refine h.finish.push fun t ht => ?_
    rw [(updateFinish_cases c.st).2.1] at ht
    exact absurd ht List.not_mem_nil

/-- A task that makes no test. -/
theorem eventState_exec_other {c : Config} {t : Task} {k : Kernel} {o : Outcome}
    (h : EventInv c.st (stackTests rest) none (stackScans (t :: rest)) c.trace) (ht : t.test = none)
    (hstop : ∀ i, t ≠ .shutdown i) (hdue : ∀ w ∈ t.meets c.st, WordDue c.trace w.1 w.2)
    (ho : t.exec k c.st = some o) : EventState (c.after rest o) := by
  cases t with
  | external cb => cases ho
  | crash => cases ho
  | writable idx connecting => cases ht
  | readable idx server => cases ht
  | hangup idx => cases ht
  | shutdown i => exact absurd rfl (hstop i)
  | scan i n => cases ho; exact eventState_scan h hdue
  | deleteFinish idx =>
    cases ho
    have hk : KeepsWords c.st (fun _ => True) (sockbufDeleteFinish c.st idx) :=
      .drop h.nodup (dropsEntry_sockbufDeleteFinish h.bounds idx)
    have hpush : EventInv _ (stackTests ([] ++ rest)) _ _ _ :=
      EventInv.push (h.state hk) fun _ hm => absurd hm List.not_mem_nil
    simpa [EventState, Config.after] using hpush
  | delete idx i =>
    cases ho
    have hcall : ∀ (cb : Callback) (t : Task), t.Idle →
        EventState (c.after rest ((Outcome.invoke c.st cb).andThen [t])) := fun cb t ht =>
      show EventInv _ (stackTests ([.external cb, t] ++ rest)) _ _ _ from
        EventInv.push (h.stillEvent (e := .callback cb) trivial) fun u hu => by
          simp only [List.mem_cons, List.not_mem_nil, or_false] at hu
          rcases hu with rfl | rfl
          · exact ⟨rfl, rfl⟩
          · exact ht
    have hquiet : ∀ ts : List Task, (∀ t ∈ ts, t.Idle) →
        EventState (c.after rest { st := c.st, tasks := ts }) := fun ts hts => by
      simpa [EventState, Config.after] using EventInv.push h hts
    rw [sockbufDeleteCallbacks]
    split
    · split
      · exact hquiet [.crash, .delete idx (i + 1)] (by simp [Task.Idle, Task.test, Task.next])
      · split
        · exact hcall _ _ ⟨rfl, rfl⟩
        · exact hquiet [.delete idx (i + 1)] (by simp [Task.Idle, Task.test, Task.next])
    · rw [callHandler]
      split
      · exact hquiet [.crash, .deleteFinish idx] (by simp [Task.Idle, Task.test, Task.next])
      · split
        · exact hcall _ _ ⟨rfl, rfl⟩
        · exact hquiet [.deleteFinish idx] (by simp [Task.Idle, Task.test, Task.next])

/-- A test: it is dispatched first. -/
theorem eventState_exec_test {c : Config} {t : Task} {k : Kernel} {o : Outcome} {idx : Nat}
    {kind : EventKind} (ht : t.test = some (idx, kind))
    (h : EventInv c.st ((idx, kind) :: stackTests rest) (some idx) (stackScans rest) c.trace)
    (hdue : ∀ j ∈ t.renewed k c.st, ∀ x ∈ stackTests rest, x.1 ≠ j)
    (ho : t.exec k c.st = some o) : EventState (c.after rest o) := by
  -- the dispatch is logged first, and the function then runs with no test on top
  have hd : EventInv c.st (stackTests rest) none (stackScans rest) (c.trace ++ [.dispatched idx kind]) :=
    h.dispatch
  have hlog : ∀ o' : Outcome,
      EventState (Config.after { c with trace := c.trace ++ [.dispatched idx kind] } rest o') →
      EventState (c.after rest (o'.log [.dispatched idx kind])) := fun o' h' => by
    simpa [EventState, Config.after] using h'
  cases t with
  | writable j connecting =>
    cases ht
    cases ho
    refine hlog _ (eventState_mild hd ?_)
    split
    · exact mild_sockbufGotWritableClient c.st idx k
    · exact mild_sockbufGotWritable c.st idx trivial k
  | readable j server =>
    cases ht
    cases ho
    cases server with
    | true => exact hlog _ (eventState_accept hd hdue)
    | false => exact hlog _ (eventState_mild hd (mild_sockbufGotReadable c.st idx k))
  | hangup j =>
    cases ht
    cases ho
    exact hlog _ (eventState_mild hd (mild_sockbufGotEof c.st idx k 0))
  | _ => cases ht

/-- No test is on top while the main program or a callback has control. -/
theorem topTest_externalControl {stack : List Task} (h : externalControl stack = true) :
    topTest stack = none := by
  cases stack with
  | nil => rfl
  | cons t rest => cases t <;> first | rfl | exact absurd h (by simp [externalControl])

/-- **One step** keeps the invariant. -/
theorem eventState_step {c c' : Config} {a : Action} (h : EventState c) (hpoll : PollsSucceed c a)
    (hdue : EventsDue c a) (hs : step c a = some c') : EventState c' := by
  rw [EventState] at h
  rcases step_cases hs with ⟨f, k, o, rfl, hext, ho, rfl⟩ | ⟨cb, rest, rfl, hstack, rfl⟩ |
    ⟨k, t, rest, o, rfl, hstack, ho, rfl⟩
  · rw [topTest_externalControl hext] at h
    exact eventState_apply h hpoll hdue ho
  · rw [hstack] at h
    exact EventInv.weaken h _
  · simp only [PollsSucceed, EventsDue, hstack, List.head?_cons, List.tail_cons] at hpoll hdue
    obtain ⟨hrenew, hmeets⟩ := hdue t rfl
    rw [hstack] at h
    cases ht : t.test with
    | none =>
      have htop : topTest (t :: rest) = none := by simp [topTest, ht]
      have htests : stackTests (t :: rest) = stackTests rest := by simp [stackTests, ht]
      rw [htop, htests] at h
      refine eventState_exec_other h ht (fun i hc => ?_) hmeets ho
      rw [hc] at hpoll
      exact absurd hpoll (by simp [inShutdown])
    | some x =>
      have htop : topTest (t :: rest) = some x.1 := by simp [topTest, ht]
      have htests : stackTests (t :: rest) = x :: stackTests rest := by simp [stackTests, ht]
      have hscans : stackScans (t :: rest) = stackScans rest := by
        cases t <;> first | rfl | cases ht
      rw [htop, htests, hscans] at h
      exact eventState_exec_test ht h hrenew ho

end Step

/-! ## Runs -/

/-- The invariant holds before the first call. -/
theorem eventState_start : EventState start := by
  refine ⟨⟨Nat.le_refl _, Nat.le_refl _⟩, .nil, fun i idx p he => ?_, fun _ => 0, [], ⟨?_, ?_⟩, ?_⟩
  · exact absurd he.mem List.not_mem_nil
  · exact fun q idx kind hq => absurd hq (by simp [start])
  · exact fun q q' idx kind hq => absurd hq (by simp [start])
  · exact ⟨⟨rfl, .nil, fun _ ho => absurd ho List.not_mem_nil, fun _ ho => absurd ho List.not_mem_nil,
      fun _ ho => absurd ho List.not_mem_nil⟩, .nil⟩

/-- Data is reported for the sockbufs 0 and 1. The handler of 0 calls the loop itself, whose poll reports
data for 1 once more. -/
def nestedRun : List Action :=
  [.call .new {}, .call .new {}, .call (.setSock 0 5 {}) {}, .call (.setSock 1 6 {}) {},
    .call (.setHandler 0 { onRead := true } 0) {},
    .call .updateAll { poll := some [{ pollin := true }, { pollin := true }] }, .run {},
    .run { read := .ok [1] }, .call .updateAll { poll := some [{}, { pollin := true }] }, .run {},
    .run {}, .run { read := .ok [2] }, .run {}, .ret, .run {}, .run { read := .ok [3] }, .run {}]

/-- Data is reported for the sockbufs 0 and 1. The handler of 0 deletes 1, and gives a new sockbuf 2 a
socket. -/
def staleRun : List Action :=
  [.call .new {}, .call .new {}, .call (.setSock 0 5 {}) {}, .call (.setSock 1 6 {}) {},
    .call (.setHandler 0 { onRead := true } 0) {},
    .call .updateAll { poll := some [{ pollin := true }, { pollin := true }] }, .run {},
    .run { read := .ok [1] }, .call (.delete 1) {}, .run {}, .run {}, .call .new {},
    .call (.setSock 2 7 {}) {}, .ret, .run {}, .run {}]

/-- The trace of that run. -/
def staleTrace : List Event :=
  [.created 0, .created 1, .attached 0 5, .attached 1 6, .passBegin,
    .polled [(0, { pollin := true }), (1, { pollin := true })], .dispatched 0 .readable,
    .callback ⟨none, 0, 0, .read [1]⟩, .deleted 1, .created 2, .attached 2 7,
    .dispatched 2 .readable]

end ExamplePrograms.Onethread.Sockbuf
