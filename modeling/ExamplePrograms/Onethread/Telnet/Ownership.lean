import ExamplePrograms.Lib.Ownership
import ExamplePrograms.Onethread.Sockbuf.Attachments
import ExamplePrograms.Onethread.Telnet.Deletion

/-!
# The sessions of the telnet filter

`telnet_on` allocates a session and hands it to the filter chain, and `telnet_off` and the deletion of the
sockbuf take it out again and free it. The calls come in any order, from the main program and from the
`on_delete` callbacks of a deletion.

`held` lists the sessions that the module can still give to the filter. A session has one place there, and
none once it is freed (`Tidy`), as long as `telnet_off` finds its filter: `sockbuf_detach_filter` does not
write to its caller's pointer when it does not.
-/

set_option autoImplicit false

namespace ExamplePrograms.Onethread.Telnet

open ExamplePrograms.Lib.Runs ExamplePrograms.Lib.Ownership
open ExamplePrograms.Onethread.Sockbuf

/-! ## The calls -/

/-- The sockbuf module with the sessions: how many were allocated, and which were freed. A session is
known by its number. -/
structure Process where
  config : Config := {}
  sessions : Nat := 0
  freed : List Nat := []
  deriving DecidableEq, Repr

/-- A call of `telnet_on` or `telnet_off`, of the module, or the end of one. -/
inductive Op where
  | on (idx : Nat)
  /-- `inf` is what the local of `telnet_off` happens to hold at first, or NULL. -/
  | off (idx : Nat) (inf : Option Nat)
  | call (f : Api)
  /-- `sockbuf_update_all` while nothing is ready. -/
  | pass
  | ret
  | run
  deriving DecidableEq, Repr

/-- The calls of other code about sockbufs and their filters. It cannot name the telnet filter. -/
def otherCall : Api → Bool
  | .new => true
  | .delete _ => true
  | .setHandler _ _ _ => true
  | .attachFilter _ filter _ => filter != telnetFilter
  | .detachFilter _ filter => filter != telnetFilter
  | _ => false

/-- `telnet_filter_delete` is running. It calls nothing but `free`. -/
def runsDelete : List Task → Option Nat
  | .external cb :: _ =>
      if cb.owner = some telnetFilter ∧ cb.call = .delete then some cb.clientData else none
  | _ => none

/-- The local of `telnet_off` behind its call of `sockbuf_detach_filter`. -/
def Process.inf (p : Process) (idx : Nat) (inf : Option Nat) : Option Nat :=
  (sockbufDetachResult p.config.st idx telnetFilter).2.or inf

/-- A call of other code, which is not on while `telnet_filter_delete` runs. -/
def Process.call (p : Process) (f : Api) : Option Config :=
  if (runsDelete p.config.stack).isSome then none else Sockbuf.step p.config (.call f {})

/-- One operation, where it is possible. -/
def Process.step (p : Process) : Op → Option Process
  -- the session is lost when the sockbuf is not valid
  | .on idx =>
      (p.call (.attachFilter idx telnetFilter p.sessions)).map fun c =>
        { p with config := c, sessions := p.sessions + 1 }
  | .off idx inf =>
      (p.call (.detachFilter idx telnetFilter)).map fun c =>
        { p with config := c, freed := p.freed ++ (p.inf idx inf).toList }
  | .call f => if otherCall f then (p.call f).map fun c => { p with config := c } else none
  | .pass =>
      if p.config.stack = [] then
        ((p.call .updateAll).bind fun c => Sockbuf.step c (.run {})).map fun c => { p with config := c }
      else none
  | .ret =>
      (Sockbuf.step p.config .ret).map fun c =>
        { p with config := c, freed := p.freed ++ (runsDelete p.config.stack).toList }
  | .run => (Sockbuf.step p.config (.run {})).map fun c => { p with config := c }

/-! ## What holds a session -/

/-- The sessions of a part of a chain. -/
def sessionsOf (es : List (SockbufFilter × Nat)) : List Nat :=
  es.filterMap fun e => if e.1 = telnetFilter then some e.2 else none

/-- The sessions that a task will still pass to `telnet_filter_delete`, or has passed to it. -/
def taskSessions (s : State) (idx : Nat) : Task → List Nat
  | .delete j i => if j = idx then sessionsOf ((s.sbuf idx).chain.drop i) else []
  | .external cb =>
      if cb.idx = idx ∧ cb.owner = some telnetFilter ∧ cb.call = .delete then [cb.clientData] else []
  | _ => []

/-- The sessions of a sockbuf: those of its chain while it is valid, then those of its deletion. -/
def held (s : State) (stack : List Task) (idx : Nat) : List Nat :=
  (if sockbufIsvalid s idx then sessionsOf (s.sbuf idx).chain else []) ++
    stack.flatMap (taskSessions s idx)

/-- The calls of a run free a session once, and pass only live ones to the filter. `telnet_off` frees what
`sockbuf_detach_filter` returned, which is NULL when the filter was not found. -/
structure Tidy (p : Process) (x : Op) : Prop where
  once : ∀ p', p.step x = some p' → p'.freed.Nodup
  live : ∀ p', p.step x = some p' → ∀ idx, ∀ d ∈ held p'.config.st p'.config.stack idx,
    d < p'.sessions ∧ d ∉ p'.freed
  returned : ∀ idx inf d, x = .off idx inf → p.inf idx inf = some d →
    (sockbufDetachResult p.config.st idx telnetFilter).2 = some d
  cleared : ∀ idx inf, x = .off idx inf → (sockbufDetachResult p.config.st idx telnetFilter).2 = none →
    p.inf idx inf = none

/-- `telnet_off` finds the filter, or its local happens to be NULL. -/
def Finds (p : Process) : Op → Prop
  | .off idx inf => inf = none ∨
      sockbufIsvalid p.config.st idx = true ∧ ∃ d, (telnetFilter, d) ∈ (p.config.st.sbuf idx).chain
  | _ => True

/-- The sessions of two chains, one behind the other. -/
theorem sessionsOf_append (a b : List (SockbufFilter × Nat)) :
    sessionsOf (a ++ b) = sessionsOf a ++ sessionsOf b := List.filterMap_append

/-- A telnet filter in a chain has its session. -/
theorem sessionsOf_telnet (a b : List (SockbufFilter × Nat)) (d : Nat) :
    (sessionsOf (a ++ (telnetFilter, d) :: b)).Perm (d :: sessionsOf (a ++ b)) := by
  have hcons : sessionsOf ((telnetFilter, d) :: b) = d :: sessionsOf b := List.filterMap_cons_some (if_pos rfl)
  rw [sessionsOf_append, sessionsOf_append, hcons]
  exact List.perm_middle

/-- Another filter has none. -/
theorem sessionsOf_other {filter : SockbufFilter} (hne : filter ≠ telnetFilter)
    (a b : List (SockbufFilter × Nat)) (d : Nat) :
    sessionsOf (a ++ (filter, d) :: b) = sessionsOf (a ++ b) := by
  have hcons : sessionsOf ((filter, d) :: b) = sessionsOf b := List.filterMap_cons_none (if_neg hne)
  rw [sessionsOf_append, sessionsOf_append, hcons]

/-! ## The invariant -/

/-- The sockbuf that a task deletes. -/
def deleting : Task → Option Nat
  | .delete idx _ => some idx
  | .deleteFinish idx => some idx
  | _ => none

/-- A task of a deletion. -/
def ofDeletion : Task → Bool
  | .external _ => true
  | .delete _ _ => true
  | .deleteFinish _ => true
  | .crash => true
  | _ => false

/-- Every session is held by a chain or by a deletion in progress, or was freed once. -/
structure Inv (s : State) (stack : List Task) (n : Nat) (freed : List Nat) : Prop where
  arrays : ∀ idx, ∃ es, Represents (s.sbuf idx) es
  tasks : ∀ t ∈ stack, ofDeletion t = true
  dead : ∀ idx ∈ stack.filterMap deleting,
    idx < s.nsockbufs ∧ (s.sbuf idx).flags.deleted = true ∧ (s.sbuf idx).flags.avail = false
  distinct : (stack.filterMap deleting).Nodup
  owned : Owned (held s stack) n freed

section

variable {s s' : State} {stack : List Task} {n : Nat} {freed : List Nat} {idx : Nat}

/-- The validity of a sockbuf, from the number of records and its flags. -/
theorem isvalid_congr {j : Nat} (hn : s'.nsockbufs = s.nsockbufs)
    (hflags : (s'.sbuf j).flags = (s.sbuf j).flags) : sockbufIsvalid s' j = sockbufIsvalid s j := by
  rw [sockbufIsvalid, sockbufIsvalid, hn, hflags]

/-- The sessions of a task, from the chain of its sockbuf. -/
theorem taskSessions_congr {j : Nat} (hchain : (s'.sbuf j).chain = (s.sbuf j).chain) :
    taskSessions s' j = taskSessions s j := by
  funext t
  cases t with
  | delete k i => rw [taskSessions, taskSessions, hchain]
  | _ => rfl

/-- The sessions held for a sockbuf, from its validity and its chain. -/
theorem held_congr {j : Nat} (hv : sockbufIsvalid s' j = sockbufIsvalid s j)
    (hchain : (s'.sbuf j).chain = (s.sbuf j).chain) : held s' stack j = held s stack j := by
  rw [held, held, hv, hchain, taskSessions_congr hchain]

/-- The tasks look at the records of their deletions only. -/
theorem taskSessions_of_not_deleting {j : Nat} (h : j ∉ stack.filterMap deleting) (s s' : State) :
    stack.flatMap (taskSessions s' j) = stack.flatMap (taskSessions s j) := by
  apply List.flatMap_congr
  intro t ht
  cases t with
  | delete k i =>
    have hne : k ≠ j := by
      rintro rfl
      exact h (List.mem_filterMap.2 ⟨_, ht, rfl⟩)
    rw [taskSessions, taskSessions, if_neg hne, if_neg hne]
  | _ => rfl

/-- A sockbuf that is not valid has sessions only in the tasks. -/
theorem held_of_invalid (hv : sockbufIsvalid s idx = false) :
    held s stack idx = stack.flatMap (taskSessions s idx) := by
  rw [held, hv]
  rfl

/-- A valid sockbuf has those of its chain besides. -/
theorem held_of_valid (hv : sockbufIsvalid s idx = true) :
    held s stack idx = sessionsOf (s.sbuf idx).chain ++ stack.flatMap (taskSessions s idx) := by
  rw [held, if_pos hv]

/-- No deletion of a valid sockbuf is in progress. -/
theorem Inv.not_deleting (h : Inv s stack n freed) (hv : sockbufIsvalid s idx = true) :
    idx ∉ stack.filterMap deleting := by
  intro hmem
  have hdeleted := (h.dead idx hmem).2.1
  rw [(sockbufIsvalid_iff.1 hv).2.2] at hdeleted
  cases hdeleted

/-- A task without a session. -/
theorem held_cons {t : Task} {j : Nat} (ht : taskSessions s j t = []) :
    held s (t :: stack) j = held s stack j := by
  rw [held, held, List.flatMap_cons, ht, List.nil_append]

/-- A deleted sockbuf is not valid. -/
theorem invalid_of_deleted (h : (s.sbuf idx).flags.deleted = true) : sockbufIsvalid s idx = false := by
  rw [sockbufIsvalid, h, Bool.or_true, Bool.not_true, Bool.and_false]

/-! ## Records -/

section Update

variable {f : SockbufT → SockbufT}

/-- A change of another record. -/
theorem held_update_ne {j : Nat} (hj : j ≠ idx) : held (s.update idx f) stack j = held s stack j := by
  have hsbuf : (s.update idx f).sbuf j = s.sbuf j := s.sbuf_update_ne idx f hj.symm
  exact held_congr (isvalid_congr (s.update_nsockbufs idx f) (by rw [hsbuf])) (by rw [hsbuf])

/-- Only the chain of a valid record counts. -/
theorem Inv.held_update (h : Inv s stack n freed) (hv : sockbufIsvalid s idx = true)
    (hflags : (f (s.sbuf idx)).flags = (s.sbuf idx).flags) :
    held (s.update idx f) stack idx =
      sessionsOf (f (s.sbuf idx)).chain ++ stack.flatMap (taskSessions s idx) := by
  have hself := s.sbuf_update_self idx f (sockbufIsvalid_iff.1 hv).1
  have hvalid : sockbufIsvalid (s.update idx f) idx = true := by
    rw [isvalid_congr (s.update_nsockbufs idx f) (by rw [hself, hflags])]
    exact hv
  rw [held_of_valid hvalid, hself, taskSessions_of_not_deleting (h.not_deleting hv) s]

/-- A valid record is rewritten, but for its flags. -/
theorem Inv.update (h : Inv s stack n freed) {n' : Nat} {freed' : List Nat}
    (hflags : (f (s.sbuf idx)).flags = (s.sbuf idx).flags) (harrays : ∃ es, Represents (f (s.sbuf idx)) es)
    (howned : Owned (held (s.update idx f) stack) n' freed') : Inv (s.update idx f) stack n' freed' := by
  refine ⟨fun j => ?_, h.tasks, fun j hj => ?_, h.distinct, howned⟩
  · rw [s.sbuf_update]
    split
    · next hidx =>
      rw [← hidx.1]
      exact harrays
    · exact h.arrays j
  · rw [s.update_nsockbufs, s.sbuf_update_keeps idx f SockbufT.flags hflags j]
    exact h.dead j hj

/-- A valid record is rewritten, but for its flags and its sessions. -/
theorem Inv.update_same (h : Inv s stack n freed) (hv : sockbufIsvalid s idx = true)
    (hflags : (f (s.sbuf idx)).flags = (s.sbuf idx).flags) (harrays : ∃ es, Represents (f (s.sbuf idx)) es)
    (hsame : sessionsOf (f (s.sbuf idx)).chain = sessionsOf (s.sbuf idx).chain) :
    Inv (s.update idx f) stack n freed := by
  refine h.update hflags harrays (h.owned.congr fun j => ?_)
  by_cases hj : j = idx
  · subst hj
    rw [h.held_update hv hflags, hsame, held_of_valid hv]
  · exact held_update_ne hj

end Update

/-! ## Attaching and detaching -/

/-- `telnet_on` on a valid sockbuf. -/
theorem Inv.attach_telnet (h : Inv s stack n freed) (hv : sockbufIsvalid s idx = true) :
    Inv (s.update idx fun sb => sb.attachFilter telnetFilter n) stack (n + 1) freed := by
  obtain ⟨es, hes⟩ := h.arrays idx
  obtain ⟨harrays, a, b, hchain, hattached⟩ := hes.chain_attach telnetFilter n
  refine h.update rfl harrays (h.owned.alloc (fun j hj => held_update_ne hj) ?_)
  rw [h.held_update hv rfl, held_of_valid hv, hattached, hchain]
  exact (sessionsOf_telnet a b n).append_right _

/-- Another filter that is attached holds no session. -/
theorem Inv.attach_other (h : Inv s stack n freed) (hv : sockbufIsvalid s idx = true)
    {filter : SockbufFilter} (hne : filter ≠ telnetFilter) (clientData : Nat) :
    Inv (s.update idx fun sb => sb.attachFilter filter clientData) stack n freed := by
  obtain ⟨es, hes⟩ := h.arrays idx
  obtain ⟨harrays, a, b, hchain, hattached⟩ := hes.chain_attach filter clientData
  refine h.update_same hv rfl harrays ?_
  rw [hattached, hchain, sessionsOf_other hne]

/-- `telnet_off` frees the session that was detached. -/
theorem Inv.detach_telnet (h : Inv s stack n freed) (hv : sockbufIsvalid s idx = true) :
    Inv (s.update idx fun sb => sb.detachFilter telnetFilter) stack n
      (freed ++ ((s.sbuf idx).filterData telnetFilter).toList) := by
  obtain ⟨es, hes⟩ := h.arrays idx
  have hflags := (s.sbuf idx).detachFilter_flags telnetFilter
  obtain ⟨harrays, ⟨a, d, b, hchain, hdata, hdetached⟩ | ⟨-, hdata, hdetached⟩⟩ :=
    hes.chain_detach telnetFilter
  · rw [hdata]
    refine h.update hflags harrays (h.owned.free (fun j hj => held_update_ne hj) ?_)
    rw [h.held_update hv hflags, held_of_valid hv, hdetached, hchain]
    exact (sessionsOf_telnet a b d).append_right _
  · rw [hdata, Option.toList_none, List.append_nil]
    exact h.update_same hv hflags harrays (by rw [hdetached])

/-- Another filter that is detached held none. -/
theorem Inv.detach_other (h : Inv s stack n freed) (hv : sockbufIsvalid s idx = true)
    {filter : SockbufFilter} (hne : filter ≠ telnetFilter) :
    Inv (s.update idx fun sb => sb.detachFilter filter) stack n freed := by
  obtain ⟨es, hes⟩ := h.arrays idx
  have hflags := (s.sbuf idx).detachFilter_flags filter
  obtain ⟨harrays, ⟨a, d, b, hchain, -, hdetached⟩ | ⟨-, -, hdetached⟩⟩ := hes.chain_detach filter
  · refine h.update_same hv hflags harrays ?_
    rw [hdetached, hchain, sessionsOf_other hne]
  · exact h.update_same hv hflags harrays (by rw [hdetached])

/-! ## Sockbufs -/

/-- A record without filters. -/
theorem represents_nil {sb : SockbufT} (h : sb.nfilters = 0) : ∃ es, Represents sb es := by
  refine ⟨[], h, ?_, ?_⟩
  · rw [h]
    rfl
  · rw [h]
    rfl

/-- A slot behind `sockbuf_new`: it is an old one, or it is empty and was not valid. -/
theorem sockbufNew_slot (s : State) (j : Nat) :
    (j < s.nsockbufs ∧ (sockbufNew s).1.sbuf j = s.sbuf j) ∨
      (¬(j < s.nsockbufs ∧ (s.sbuf j).flags.avail = false) ∧ sockbufIsvalid s j = false ∧
        ((sockbufNew s).1.sbuf j).nfilters = 0) := by
  have hinvalid : ¬(j < s.nsockbufs ∧ (s.sbuf j).flags.avail = false) → sockbufIsvalid s j = false := by
    intro hnot
    rw [Bool.eq_false_iff, Ne, sockbufIsvalid_iff]
    exact fun hv => hnot ⟨hv.1, hv.2.1⟩
  by_cases hj : j = firstAvail s
  · subst hj
    have hnot : ¬(firstAvail s < s.nsockbufs ∧ (s.sbuf (firstAvail s)).flags.avail = false) := by
      rintro ⟨hlt, havail⟩
      rw [avail_firstAvail hlt] at havail
      cases havail
    refine Or.inr ⟨hnot, hinvalid hnot, ?_⟩
    rw [sbuf_sockbufNew_self]
    rfl
  by_cases hlt : j < s.nsockbufs
  · exact Or.inl ⟨hlt, sbuf_sockbufNew_old hj hlt⟩
  have hnot : ¬(j < s.nsockbufs ∧ (s.sbuf j).flags.avail = false) := fun hv => hlt hv.1
  refine Or.inr ⟨hnot, hinvalid hnot, ?_⟩
  by_cases hgrown : j < (sockbufNew s).1.nsockbufs
  · rw [sbuf_sockbufNew_grown hj (Nat.le_of_not_lt hlt) hgrown]
    rfl
  · rw [State.sbuf_of_le (Nat.le_of_not_lt hgrown)]

/-- A new sockbuf holds no session. -/
theorem Inv.new (h : Inv s stack n freed) : Inv (sockbufNew s).1 stack n freed := by
  refine ⟨fun j => ?_, h.tasks, fun j hj => ?_, h.distinct, h.owned.congr fun j => ?_⟩
  · rcases sockbufNew_slot s j with ⟨-, hsame⟩ | ⟨-, -, hnone⟩
    · rw [hsame]
      exact h.arrays j
    · exact represents_nil hnone
  · obtain ⟨hlt, hdeleted, havail⟩ := h.dead j hj
    rcases sockbufNew_slot s j with ⟨-, hsame⟩ | ⟨hnot, -⟩
    · rw [hsame]
      exact ⟨Nat.lt_of_lt_of_le hlt (nsockbufs_le_sockbufNew s), hdeleted, havail⟩
    · exact absurd ⟨hlt, havail⟩ hnot
  · rcases sockbufNew_slot s j with ⟨hlt, hsame⟩ | ⟨hnot, hinvalid, hnone⟩
    · have hvalid : sockbufIsvalid (sockbufNew s).1 j = sockbufIsvalid s j := by
        rw [sockbufIsvalid, sockbufIsvalid, hsame, decide_eq_true hlt,
          decide_eq_true (Nat.lt_of_lt_of_le hlt (nsockbufs_le_sockbufNew s))]
      exact held_congr hvalid (by rw [hsame])
    · have hdeleting : j ∉ stack.filterMap deleting :=
        fun hj => hnot ⟨(h.dead j hj).1, (h.dead j hj).2.2⟩
      have hchain : ((sockbufNew s).1.sbuf j).chain = [] := by
        rw [SockbufT.chain, hnone]
        rfl
      rw [held_of_invalid hinvalid, held, hchain, taskSessions_of_not_deleting hdeleting s]
      split <;> rfl

/-- A deletion begins: the sessions go from the chain to the task. -/
theorem Inv.delete (h : Inv s stack n freed) (hv : sockbufIsvalid s idx = true) :
    Inv (s.update idx fun sb => { sb with flags := { sb.flags with deleted := true } })
      (.delete idx 0 :: stack) n freed := by
  obtain ⟨hlt, havail, -⟩ := sockbufIsvalid_iff.1 hv
  have hself := s.sbuf_update_self idx
    (fun sb => { sb with flags := { sb.flags with deleted := true } }) hlt
  refine ⟨fun j => ?_, ?_, ?_, ?_, h.owned.congr fun j => ?_⟩
  · rw [s.sbuf_update]
    split
    · exact (h.arrays j).imp fun _ hes => ⟨hes.nfilters, hes.filters, hes.clientData⟩
    · exact h.arrays j
  · exact List.forall_mem_cons.2 ⟨rfl, h.tasks⟩
  · intro j hj
    rw [State.update_nsockbufs]
    rcases List.mem_cons.1 hj with rfl | hj
    · rw [hself]
      exact ⟨hlt, rfl, havail⟩
    · have hne : idx ≠ j := by
        rintro rfl
        exact h.not_deleting hv hj
      rw [s.sbuf_update_ne idx _ hne]
      exact h.dead j hj
  · exact List.nodup_cons.2 ⟨h.not_deleting hv, h.distinct⟩
  · by_cases hj : j = idx
    · subst hj
      have hinvalid : sockbufIsvalid
          (s.update j fun sb => { sb with flags := { sb.flags with deleted := true } }) j = false := by
        apply invalid_of_deleted
        rw [hself]
      rw [held_of_invalid hinvalid, held_of_valid hv, List.flatMap_cons, taskSessions, if_pos rfl,
        List.drop_zero, hself, taskSessions_of_not_deleting (h.not_deleting hv) s]
      rfl
    · have hne : ¬idx = j := fun heq => hj heq.symm
      exact (held_cons (t := .delete idx 0) (if_neg hne)).trans (held_update_ne hj)

/-- A task of a deletion is replaced by others that hold the same sessions. -/
theorem Inv.goOn {t : Task} (h : Inv s (t :: stack) n freed) (ts : List Task)
    (hts : ∀ t ∈ ts, ofDeletion t = true) (hdeleting : ts.filterMap deleting = [t].filterMap deleting)
    (hsame : ∀ j, ts.flatMap (taskSessions s j) = taskSessions s j t) : Inv s (ts ++ stack) n freed := by
  have hall : (ts ++ stack).filterMap deleting = (t :: stack).filterMap deleting := by
    rw [List.filterMap_append, hdeleting, ← List.filterMap_append]
    rfl
  refine ⟨h.arrays, ?_, ?_, ?_, h.owned.congr fun j => ?_⟩
  · exact List.forall_mem_append.2 ⟨hts, (List.forall_mem_cons.1 h.tasks).2⟩
  · rw [hall]
    exact h.dead
  · rw [hall]
    exact h.distinct
  · rw [held, held, List.flatMap_append, hsame, List.flatMap_cons]

/-- A deletion that is through with the chain holds nothing. -/
theorem taskSessions_delete_nil {i : Nat} (hdrop : (s.sbuf idx).chain.drop i = []) (j : Nat) :
    taskSessions s j (.delete idx i) = [] := by
  rw [taskSessions]
  split
  · next hj =>
    rw [← hj, hdrop]
    rfl
  · rfl

/-- The callback for the filter `e`, whose task passes the session on to it. -/
theorem Inv.filterCallback {i : Nat} {e : SockbufFilter × Nat}
    (h : Inv s (.delete idx i :: stack) n freed) (he : (s.sbuf idx).chain[i]? = some e) :
    Inv s (.external ⟨some e.1, e.2, idx, .delete⟩ :: .delete idx (i + 1) :: stack) n freed := by
  obtain ⟨hlt, hget⟩ := List.getElem?_eq_some_iff.1 he
  have hdrop : (s.sbuf idx).chain.drop i = e :: (s.sbuf idx).chain.drop (i + 1) := by
    rw [List.drop_eq_getElem_cons hlt, hget]
  refine h.goOn [.external ⟨some e.1, e.2, idx, .delete⟩, .delete idx (i + 1)]
    (by simp [ofDeletion]) rfl fun j => ?_
  by_cases hj : idx = j
  · subst hj
    by_cases hfilter : e.1 = telnetFilter
    · simp [taskSessions, hdrop, sessionsOf, hfilter]
    · simp [taskSessions, hdrop, sessionsOf, hfilter]
  · simp [taskSessions, hj]

/-- A filter without `on_delete` is not the telnet filter. -/
theorem Inv.filterPassed {i : Nat} {e : SockbufFilter × Nat}
    (h : Inv s (.delete idx i :: stack) n freed) (he : (s.sbuf idx).chain[i]? = some e)
    (hdelete : e.1.onDelete = false) : Inv s (.delete idx (i + 1) :: stack) n freed := by
  obtain ⟨hlt, hget⟩ := List.getElem?_eq_some_iff.1 he
  have hdrop : (s.sbuf idx).chain.drop i = e :: (s.sbuf idx).chain.drop (i + 1) := by
    rw [List.drop_eq_getElem_cons hlt, hget]
  have hfilter : e.1 ≠ telnetFilter := by
    intro hfilter
    rw [hfilter] at hdelete
    cases hdelete
  refine h.goOn [.delete idx (i + 1)] (by simp [ofDeletion]) rfl fun j => ?_
  by_cases hj : idx = j
  · subst hj
    simp [taskSessions, hdrop, sessionsOf, hfilter]
  · simp [taskSessions, hj]

/-- The callback of the handler comes behind those of the filters. -/
theorem Inv.handlerCallback {i : Nat} (h : Inv s (.delete idx i :: stack) n freed)
    (hdrop : (s.sbuf idx).chain.drop i = []) (defines : SockbufHandler → Bool) :
    Inv (callHandler s idx defines .delete).st
      (((callHandler s idx defines .delete).andThen [.deleteFinish idx]).tasks ++ stack) n freed := by
  rw [callHandler]
  split
  · refine h.goOn [.crash, .deleteFinish idx] (by simp [ofDeletion]) rfl fun j => ?_
    rw [taskSessions_delete_nil hdrop]
    rfl
  · split
    · refine h.goOn [.external ⟨none, (s.sbuf idx).clientData, idx, .delete⟩, .deleteFinish idx]
        (by simp [ofDeletion]) rfl fun j => ?_
      rw [taskSessions_delete_nil hdrop]
      simp [taskSessions]
    · refine h.goOn [.deleteFinish idx] (by simp [ofDeletion]) rfl fun j => ?_
      rw [taskSessions_delete_nil hdrop]
      rfl

/-- The next callback of a deletion. -/
theorem Inv.callbacks {i : Nat} (h : Inv s (.delete idx i :: stack) n freed) :
    Inv (sockbufDeleteCallbacks s idx i).st ((sockbufDeleteCallbacks s idx i).tasks ++ stack) n freed := by
  rw [sockbufDeleteCallbacks]
  split
  · cases he : (s.sbuf idx).chain[i]? with
    | none =>
      have hle := List.getElem?_eq_none_iff.1 he
      have hdrop := List.drop_eq_nil_of_le hle
      have hnext := List.drop_eq_nil_of_le (Nat.le_trans hle (Nat.le_succ i))
      refine h.goOn [.crash, .delete idx (i + 1)] (by simp [ofDeletion]) rfl fun j => ?_
      rw [taskSessions_delete_nil hdrop, List.flatMap_cons, List.flatMap_singleton,
        taskSessions_delete_nil hnext]
      rfl
    | some e =>
      cases hdelete : e.1.onDelete with
      | true =>
        simp only [hdelete, if_true]
        exact h.filterCallback he
      | false =>
        simp only [hdelete, Bool.false_eq_true, if_false]
        exact h.filterPassed he hdelete
  · next hi =>
    have hle : (s.sbuf idx).chain.length ≤ i := by
      rw [SockbufT.chain, List.length_zip]
      have := List.length_take_le (s.sbuf idx).nfilters (s.sbuf idx).filters
      omega
    exact h.handlerCallback (List.drop_eq_nil_of_le hle) SockbufHandler.onDelete

/-- A deletion ends when nothing of the sockbuf is left to free. -/
theorem Inv.deleteFinish (h : Inv s (.deleteFinish idx :: stack) n freed) :
    Inv (sockbufDeleteFinish s idx) stack n freed := by
  obtain ⟨hgone, hdistinct⟩ := List.nodup_cons.1 h.distinct
  obtain ⟨⟨hlt, hdeleted, -⟩, hdead⟩ := List.forall_mem_cons.1 h.dead
  have hself : (sockbufDeleteFinish s idx).sbuf idx = deletedSlot := by
    rw [sbuf_sockbufDeleteFinish, if_pos ⟨rfl, hlt⟩]
  have hother : ∀ j, j ≠ idx → (sockbufDeleteFinish s idx).sbuf j = s.sbuf j := by
    intro j hj
    rw [sbuf_sockbufDeleteFinish, if_neg fun heq => hj heq.1.symm]
  refine ⟨fun j => ?_, (List.forall_mem_cons.1 h.tasks).2, fun j hj => ?_, hdistinct,
    h.owned.congr fun j => ?_⟩
  · by_cases hj : j = idx
    · subst hj
      rw [hself]
      exact represents_nil rfl
    · rw [hother j hj]
      exact h.arrays j
  · have hne : j ≠ idx := by
      rintro rfl
      exact hgone hj
    rw [sockbufDeleteFinish_nsockbufs, hother j hne]
    exact hdead j hj
  · rw [held_cons rfl]
    by_cases hj : j = idx
    · subst hj
      rw [held_of_invalid (invalid_of_deleted hdeleted),
        held_of_invalid (invalid_of_deleted (by rw [hself]; rfl)), taskSessions_of_not_deleting hgone s]
    · exact held_congr (isvalid_congr (sockbufDeleteFinish_nsockbufs s idx) (by rw [hother j hj]))
        (by rw [hother j hj])

/-- A callback returns. `telnet_filter_delete` has freed its session. -/
theorem Inv.ret {cb : Callback} (h : Inv s (.external cb :: stack) n freed) :
    Inv s stack n (freed ++ (runsDelete (.external cb :: stack)).toList) := by
  refine ⟨h.arrays, (List.forall_mem_cons.1 h.tasks).2, h.dead, h.distinct, ?_⟩
  rw [runsDelete]
  split
  · next htelnet =>
    refine h.owned.free (i := cb.idx) (fun j hj => ?_) ?_
    · exact (held_cons (t := .external cb) (if_neg fun hand => hj hand.1.symm)).symm
    · have hone : taskSessions s cb.idx (.external cb) = [cb.clientData] := if_pos ⟨rfl, htelnet⟩
      rw [held, held, List.flatMap_cons, hone, List.singleton_append]
      exact List.perm_middle
  · next hother =>
    rw [Option.toList_none, List.append_nil]
    exact h.owned.congr fun j => (held_cons (t := .external cb) (if_neg fun hand => hother hand.2)).symm

/-- A session that no chain takes is never freed. -/
theorem Inv.leak (h : Inv s stack n freed) : Inv s stack (n + 1) freed :=
  ⟨h.arrays, h.tasks, h.dead, h.distinct, h.owned.leak⟩

/-- A `poll` that reports nothing. -/
theorem countP_quiet (s : State) : ((pollReports s []).countP fun r => !r.2.isZero) = 0 := by
  rw [List.countP_eq_zero]
  intro r hr
  obtain ⟨p, hp, hrevents⟩ := List.mem_map.1 (List.of_mem_zip hr).2
  have hfds := fds_writeRevents s [] s.depth
  rw [State.fds] at hfds
  rw [hfds] at hp
  obtain ⟨i, hi, rfl⟩ := List.mem_mapIdx.1 hp
  rw [← hrevents]
  show ¬(!({} : Revents).isZero) = true
  decide

/-- A pass turns deleted slots into available ones, at most. -/
theorem Inv.pass (h : Inv s [] n freed) : Inv (updateFinish (sockbufUpdateAll {} s).st).st [] n freed := by
  have hsbuf : ∀ j, (sockbufUpdateAll {} s).st.sbuf j = s.sbuf j := fun _ => rfl
  have hn : (updateFinish (sockbufUpdateAll {} s).st).st.nsockbufs = s.nsockbufs := nsockbufs_updateFinish _
  refine ⟨fun j => ?_, h.tasks, fun j hj => absurd hj List.not_mem_nil, h.distinct, h.owned.congr fun j => ?_⟩
  · rcases sbuf_updateFinish (sockbufUpdateAll {} s).st j with hsame | ⟨-, havail⟩
    · rw [hsame]
      exact h.arrays j
    · rw [havail]
      exact (h.arrays j).imp fun _ hes => ⟨hes.nfilters, hes.filters, hes.clientData⟩
  · rcases sbuf_updateFinish (sockbufUpdateAll {} s).st j with hsame | ⟨hdeleted, havail⟩
    · rw [hsbuf] at hsame
      exact held_congr (isvalid_congr hn (by rw [hsame])) (by rw [hsame])
    · have hinvalid : sockbufIsvalid (updateFinish (sockbufUpdateAll {} s).st).st j = false := by
        rw [sockbufIsvalid, havail, Bool.true_or, Bool.not_true, Bool.and_false]
      rw [hsbuf] at hdeleted
      rw [held_of_invalid hinvalid, held_of_invalid (invalid_of_deleted hdeleted)]
      rfl

end

/-! ## One call -/

/-- The invariant of a process. -/
def Process.Kept (p : Process) : Prop := Inv p.config.st p.config.stack p.sessions p.freed

/-- What a call of the module does. -/
theorem Process.call_eq {p : Process} {f : Api} {c : Config} (h : p.call f = some c) :
    ∃ o, f.apply {} p.config.st = some o ∧ c = p.config.after p.config.stack o := by
  rw [Process.call] at h
  split at h
  · cases h
  · rw [Sockbuf.step] at h
    split at h
    · obtain ⟨o, ho, hc⟩ := Option.map_eq_some_iff.1 h
      exact ⟨o, ho, hc.symm⟩
    · cases h

/-- What `sockbuf_detach_filter` finds. -/
theorem Process.Kept.detachResult {p : Process} (h : p.Kept) (idx : Nat) :
    (sockbufDetachResult p.config.st idx telnetFilter).2 ≠ none ↔
      sockbufIsvalid p.config.st idx = true ∧ ∃ d, (telnetFilter, d) ∈ (p.config.st.sbuf idx).chain := by
  obtain ⟨es, hes⟩ := h.arrays idx
  rw [sockbufDetachResult]
  split
  · next hv =>
    rw [and_iff_right hv]
    obtain ⟨-, ⟨a, d, b, hchain, hdata, -⟩ | ⟨hnone, hdata, -⟩⟩ := hes.chain_detach telnetFilter
    · refine iff_of_true ?_ ⟨d, ?_⟩
      · rw [hdata]
        exact Option.some_ne_none d
      · rw [hchain]
        exact List.mem_append_right a List.mem_cons_self
    · refine iff_of_false (fun hne => hne hdata) ?_
      rintro ⟨d, hd⟩
      exact hnone d hd
  · next hv => exact iff_of_false (fun hne => hne rfl) fun hand => hv hand.1

/-- `telnet_off` frees what it was given when it finds the filter. -/
theorem Process.Kept.inf_eq {p : Process} (h : p.Kept) {idx : Nat} {inf : Option Nat}
    (hfinds : Finds p (.off idx inf)) :
    p.inf idx inf = (sockbufDetachResult p.config.st idx telnetFilter).2 := by
  rw [Process.inf]
  rcases hfinds with rfl | hfound
  · exact Option.or_none
  · obtain ⟨d, hd⟩ := Option.ne_none_iff_exists.1 ((h.detachResult idx).2 hfound)
    rw [← hd]
    rfl

/-- A call of the module keeps the sessions. -/
theorem Process.Kept.call {p p' : Process} {f : Api} (h : p.Kept) (hs : p.step (.call f) = some p') :
    p'.Kept := by
  rw [Process.step] at hs
  split at hs
  · next hother =>
    obtain ⟨c, hc, rfl⟩ := Option.map_eq_some_iff.1 hs
    obtain ⟨o, ho, rfl⟩ := Process.call_eq hc
    cases f with
    | new =>
      cases ho
      exact Inv.new h
    | delete idx =>
      cases ho
      show Inv (sockbufDelete _ _).st ((sockbufDelete _ _).tasks ++ _) _ _
      rw [sockbufDelete]
      split
      · next hv => exact Inv.delete h hv
      · exact h
    | setHandler idx handler clientData =>
      cases ho
      show Inv (sockbufSetHandler _ _ _ _) _ _ _
      rw [sockbufSetHandler]
      split
      · next hv =>
        refine Inv.update_same h hv rfl ?_ rfl
        exact (h.arrays idx).imp fun _ hes => ⟨hes.nfilters, hes.filters, hes.clientData⟩
      · exact h
    | attachFilter idx filter clientData =>
      cases ho
      show Inv (sockbufAttachFilter _ _ _ _) _ _ _
      rw [sockbufAttachFilter]
      split
      · next hv => exact Inv.attach_other h hv (bne_iff_ne.1 hother) clientData
      · exact h
    | detachFilter idx filter =>
      cases ho
      show Inv (sockbufDetachFilter _ _ _) _ _ _
      rw [sockbufDetachFilter]
      split
      · next hv => exact Inv.detach_other h hv (bne_iff_ne.1 hother)
      · exact h
    | setSock => cases hother
    | close => cases hother
    | write => cases hother
    | read => cases hother
    | noread => cases hother
    | attachListener => cases hother
    | detachListener => cases hother
    | on => cases hother
    | updateAll => cases hother
    | shutdown => cases hother
  · cases hs

/-- The task on top of the stack. -/
theorem Process.Kept.run {p p' : Process} (h : p.Kept) (hs : p.step .run = some p') : p'.Kept := by
  obtain ⟨⟨st, stack, trace⟩, n, freed⟩ := p
  obtain ⟨c, hc, rfl⟩ := Option.map_eq_some_iff.1 hs
  cases stack with
  | nil => cases hc
  | cons t rest =>
    obtain ⟨o, ho, rfl⟩ := Option.map_eq_some_iff.1 hc
    have ht := h.tasks t List.mem_cons_self
    cases t with
    | external cb => cases ho
    | crash => cases ho
    | delete idx i =>
      cases ho
      exact Inv.callbacks h
    | deleteFinish idx =>
      cases ho
      exact Inv.deleteFinish h
    | writable => cases ht
    | readable => cases ht
    | hangup => cases ht
    | scan => cases ht
    | shutdown => cases ht

/-- **Every call** keeps the invariant when `telnet_off` finds its filter. -/
theorem Process.Kept.step {p p' : Process} {x : Op} (h : p.Kept) (hx : Finds p x)
    (hs : p.step x = some p') : p'.Kept := by
  cases x with
  | on idx =>
    obtain ⟨c, hc, rfl⟩ := Option.map_eq_some_iff.1 hs
    obtain ⟨o, ho, rfl⟩ := Process.call_eq hc
    cases ho
    show Inv (sockbufAttachFilter _ _ _ _) _ _ _
    rw [sockbufAttachFilter]
    split
    · next hv => exact Inv.attach_telnet h hv
    · exact Inv.leak h
  | off idx inf =>
    obtain ⟨c, hc, rfl⟩ := Option.map_eq_some_iff.1 hs
    obtain ⟨o, ho, rfl⟩ := Process.call_eq hc
    cases ho
    show Inv (sockbufDetachFilter _ _ _) _ _ (p.freed ++ (p.inf idx inf).toList)
    rw [h.inf_eq hx, sockbufDetachFilter, sockbufDetachResult]
    split
    · next hv => exact Inv.detach_telnet h hv
    · rw [Option.toList_none, List.append_nil]
      exact h
  | call f => exact h.call hs
  | pass =>
    obtain ⟨⟨st, stack, trace⟩, n, freed⟩ := p
    rw [Process.step] at hs
    split at hs
    · next hstack =>
      obtain rfl : stack = [] := hstack
      obtain ⟨c, hc, rfl⟩ := Option.map_eq_some_iff.1 hs
      obtain ⟨c₁, hc₁, hrun⟩ := Option.bind_eq_some_iff.1 hc
      obtain ⟨o, ho, rfl⟩ := Process.call_eq hc₁
      cases ho
      -- nothing is ready, so the loop is left at once
      have hscan : updateScan (sockbufUpdateAll {} st).st 0
          ((pollReports st []).countP fun r => !r.2.isZero) = updateFinish (sockbufUpdateAll {} st).st := by
        rw [countP_quiet, updateScan]
        exact if_neg fun hand => hand.1 rfl
      have hfinish : some (Config.after _ [] (updateScan (sockbufUpdateAll {} st).st 0
          ((pollReports st []).countP fun r => !r.2.isZero))) = some c := hrun
      rw [hscan] at hfinish
      cases hfinish
      show Inv (updateFinish _).st ((updateFinish _).tasks ++ []) n freed
      rw [(updateFinish_cases _).2.1]
      exact Inv.pass h
    · cases hs
  | ret =>
    obtain ⟨⟨st, stack, trace⟩, n, freed⟩ := p
    obtain ⟨c, hc, rfl⟩ := Option.map_eq_some_iff.1 hs
    cases stack with
    | nil => cases hc
    | cons t rest =>
      cases t with
      | external cb =>
        cases hc
        exact Inv.ret h
      | _ => cases hc
  | run => exact h.run hs

/-! ## Runs -/

/-- The process before its first operation. -/
theorem Process.Kept.init : Process.Kept {} := by
  refine ⟨fun j => represents_nil ?_, fun t ht => absurd ht List.not_mem_nil,
    fun j hj => absurd hj List.not_mem_nil, List.nodup_nil, Owned.init.congr fun j => ?_⟩
  · rw [State.sbuf_of_le (Nat.zero_le j)]
  · refine held_of_invalid ?_
    rw [Bool.eq_false_iff, Ne, sockbufIsvalid_iff]
    exact fun hv => Nat.not_lt_zero j hv.1

/-- A call is tidy when `telnet_off` finds its filter. -/
theorem Process.Kept.tidy_iff {p : Process} (h : p.Kept) (x : Op) : Tidy p x ↔ Finds p x := by
  constructor
  · intro htidy
    cases x with
    | off idx inf =>
      by_cases hresult : (sockbufDetachResult p.config.st idx telnetFilter).2 = none
      · left
        have hcleared := htidy.cleared idx inf rfl hresult
        rw [Process.inf, hresult, Option.none_or] at hcleared
        exact hcleared
      · exact Or.inr ((h.detachResult idx).1 hresult)
    | _ => trivial
  · intro hfinds
    refine ⟨fun p' hs => (h.step hfinds hs).owned.once, fun p' hs => (h.step hfinds hs).owned.live, ?_, ?_⟩
    · rintro idx inf d rfl hinf
      rwa [h.inf_eq hfinds] at hinf
    · rintro idx inf rfl hresult
      rwa [h.inf_eq hfinds]

/-- **The sessions** are freed once at most and never used after it in the runs whose calls of `telnet_off`
find their filter, and all calls of a run are tidy in these runs only. -/
theorem tidy_run_iff (xs : List Op) :
    Throughout Process.step Tidy {} xs ↔ Throughout Process.step Finds {} xs :=
  Throughout.iff_of_kept (fun _ _ _ h hx hs => Process.Kept.step h hx hs)
    (fun _ x h => Process.Kept.tidy_iff h x) Process.Kept.init

/-- The second `telnet_off` finds in its local what the first one freed. -/
theorem second_off_frees_again :
    ¬ Throughout Process.step Tidy {} [.call .new, .on 0, .off 0 none, .off 0 (some 0)] := by
  intro h
  obtain ⟨-, -, -, hlast, -⟩ := h
  have honce := hlast.once _ rfl
  exact absurd honce (by decide)

end ExamplePrograms.Onethread.Telnet
