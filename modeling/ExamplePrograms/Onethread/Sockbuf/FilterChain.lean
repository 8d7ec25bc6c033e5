import Mathlib.Data.List.Nodup
import ExamplePrograms.Lib.Ascent
import ExamplePrograms.Onethread.Sockbuf.Slots

/-!
# The filter chain

`sockbuf_attach_filter` keeps the filters of a sockbuf ordered by their levels, and a filter that
passes an event on calls the `sockbuf_on_*` function that called it with its own level. So the
dispatch is a traversal that searches the chain again after each filter, and finds its place in it by
the level only.

`relay` carries out the calls when every filter passes a data event on once. The filters it reaches
are the ascent of the chain (`relay_onRead`, `relay_onWrite`); each filter that defines the callback
is reached exactly when no two of them share a level.
-/

set_option autoImplicit false

namespace ExamplePrograms.Onethread.Sockbuf

open ExamplePrograms.Lib.Memory ExamplePrograms.Lib.Ascent

/-! ## The order of the chain -/

/-- The calls that change the filters of a sockbuf. -/
inductive FilterOp where
  | attach (idx : Nat) (filter : SockbufFilter) (clientData : Nat)
  | detach (idx : Nat) (filter : SockbufFilter)
  deriving DecidableEq, Repr

/-- One call of `sockbuf_attach_filter` or `sockbuf_detach_filter`. -/
def FilterOp.apply (s : State) : FilterOp → State
  | .attach idx filter clientData => sockbufAttachFilter s idx filter clientData
  | .detach idx filter => sockbufDetachFilter s idx filter

/-- The level of an attached filter lies strictly between the two internal ones. -/
def FilterOp.Inside : FilterOp → Prop
  | .attach _ filter _ =>
      sockbufLevelInternal < filter.level ∧ filter.level < sockbufLevelWriteInternal
  | .detach _ _ => True

instance : DecidablePred FilterOp.Inside
  | .attach _ filter _ =>
      inferInstanceAs (Decidable (sockbufLevelInternal < filter.level ∧
        filter.level < sockbufLevelWriteInternal))
  | .detach _ _ => inferInstanceAs (Decidable True)

/-- The filters of a record: their two arrays hold them all, and they are ordered by levels that lie
strictly between the internal ones. -/
structure SockbufT.Ordered (sb : SockbufT) : Prop where
  filters : sb.nfilters ≤ sb.filters.length
  clientData : sb.nfilters ≤ sb.filterClientData.length
  sorted : (sb.filters.take sb.nfilters).Pairwise fun f g => f.level ≤ g.level
  inside : ∀ f ∈ sb.filters.take sb.nfilters,
    sockbufLevelInternal < f.level ∧ f.level < sockbufLevelWriteInternal

/-- A new filter goes before the first one of a higher level. -/
theorem sorted_insert {l : List SockbufFilter} (filter : SockbufFilter)
    (h : l.Pairwise fun f g => f.level ≤ g.level) :
    (l.insertIdx (l.findIdx fun f => decide (filter.level < f.level)) filter).Pairwise
      fun f g => f.level ≤ g.level := by
  induction l with
  | nil => exact List.pairwise_singleton _ _
  | cons a l ih =>
    obtain ⟨ha, hl⟩ := List.pairwise_cons.1 h
    rw [List.findIdx_cons]
    by_cases hlt : filter.level < a.level
    · -- `a` is above the new filter, and so is all that stands behind it
      have hall : ∀ g ∈ a :: l, filter.level ≤ g.level := by
        intro g hg
        rcases List.mem_cons.1 hg with rfl | hg
        · exact Int.le_of_lt hlt
        · exact Int.le_trans (Int.le_of_lt hlt) (ha g hg)
      simpa [hlt] using List.Pairwise.cons hall h
    · simp only [hlt, decide_false, cond_false, List.insertIdx_succ_cons]
      refine List.Pairwise.cons (fun g hg => ?_) (ih hl)
      rcases List.eq_or_mem_of_mem_insertIdx hg with rfl | hg
      · exact Int.not_lt.1 hlt
      · exact ha g hg

/-- A filter is inserted among those that are there. -/
theorem SockbufT.filterSlot_le (sb : SockbufT) (filter : SockbufFilter) :
    sb.filterSlot filter ≤ sb.nfilters :=
  Nat.le_trans List.findIdx_le_length (List.length_take_le _ _)

/-- The filters behind an attachment. -/
theorem SockbufT.attachFilter_take {sb : SockbufT} (h : sb.nfilters ≤ sb.filters.length)
    (filter : SockbufFilter) (clientData : Nat) :
    (sb.attachFilter filter clientData).filters.take (sb.nfilters + 1) =
      (sb.filters.take sb.nfilters).insertIdx (sb.filterSlot filter) filter :=
  take_realloc_open filter filter h (sb.filterSlot_le filter)

/-- An attachment keeps the order. -/
theorem SockbufT.Ordered.attach {sb : SockbufT} (h : sb.Ordered) {filter : SockbufFilter}
    (hin : sockbufLevelInternal < filter.level ∧ filter.level < sockbufLevelWriteInternal)
    (clientData : Nat) : (sb.attachFilter filter clientData).Ordered := by
  have htake := SockbufT.attachFilter_take h.filters filter clientData
  have hslot := sb.filterSlot_le filter
  refine ⟨Nat.le_of_eq (length_realloc_open _ _ hslot).symm,
    Nat.le_of_eq (length_realloc_open _ _ hslot).symm, ?_, ?_⟩
  · show ((sb.attachFilter filter clientData).filters.take (sb.nfilters + 1)).Pairwise _
    rw [htake]
    exact sorted_insert filter h.sorted
  · intro f hf
    change f ∈ (sb.attachFilter filter clientData).filters.take (sb.nfilters + 1) at hf
    rw [htake] at hf
    rcases List.eq_or_mem_of_mem_insertIdx hf with rfl | hf
    · exact hin
    · exact h.inside f hf

/-- A detachment keeps the order. -/
theorem SockbufT.Ordered.detach {sb : SockbufT} (h : sb.Ordered) (filter : SockbufFilter) :
    (sb.detachFilter filter).Ordered := by
  have hlen : (sb.filters.take sb.nfilters).length = sb.nfilters := by
    rw [List.length_take, Nat.min_eq_left h.filters]
  rw [SockbufT.detachFilter]
  split
  · exact h
  · next hne =>
    -- the filter was found, and the two blocks close the gap
    have hi : (sb.filters.take sb.nfilters).findIdx (fun f => f == filter) < sb.nfilters :=
      Nat.lt_of_le_of_ne (Nat.le_trans List.findIdx_le_length (Nat.le_of_eq hlen)) hne
    have htake := take_memmove_close hi (Nat.le_refl _) h.filters
    have hsub := List.eraseIdx_sublist (sb.filters.take sb.nfilters)
      ((sb.filters.take sb.nfilters).findIdx fun f => f == filter)
    have hf := h.filters
    have hc := h.clientData
    refine ⟨?_, ?_, ?_, ?_⟩
    · show sb.nfilters - 1 ≤ (memmove _ _ _ _).length
      rw [length_memmove] <;> omega
    · show sb.nfilters - 1 ≤ (memmove _ _ _ _).length
      rw [length_memmove] <;> omega
    · show ((memmove _ _ _ _).take (sb.nfilters - 1)).Pairwise _
      rw [htake]
      exact h.sorted.sublist hsub
    · intro f hmem
      change f ∈ (memmove _ _ _ _).take (sb.nfilters - 1) at hmem
      rw [htake] at hmem
      exact h.inside f (hsub.subset hmem)

/-- A valid sockbuf whose filters are in order. -/
structure Chained (idx : Nat) (s : State) : Prop where
  valid : sockbufIsvalid s idx = true
  ordered : (s.sbuf idx).Ordered

/-- A valid sockbuf without filters, as `sockbuf_new` makes it. -/
structure Unfiltered (idx : Nat) (s : State) : Prop where
  valid : sockbufIsvalid s idx = true
  none : (s.sbuf idx).nfilters = 0

/-- A sockbuf without filters is in order. -/
theorem Unfiltered.chained {idx : Nat} {s : State} (h : Unfiltered idx s) : Chained idx s := by
  refine ⟨h.valid, ⟨?_, ?_, ?_, ?_⟩⟩
  · exact h.none ▸ Nat.zero_le _
  · exact h.none ▸ Nat.zero_le _
  · rw [h.none]
    exact List.Pairwise.nil
  · rw [h.none]
    exact fun f hf => absurd hf List.not_mem_nil

theorem isvalid_update {idx : Nat} {s : State} (hv : sockbufIsvalid s idx = true) (j : Nat)
    {f : SockbufT → SockbufT} (hflags : ∀ sb, (f sb).flags = sb.flags) :
    sockbufIsvalid (s.update j f) idx = true := by
  rwa [sockbufIsvalid, State.update_nsockbufs,
    State.sbuf_update_keeps s j f SockbufT.flags (hflags _) idx]

theorem SockbufT.detachFilter_flags (sb : SockbufT) (filter : SockbufFilter) :
    (sb.detachFilter filter).flags = sb.flags := by
  rw [SockbufT.detachFilter]
  split <;> rfl

/-- An update that keeps the flags of every record and the order of the chains. -/
theorem Chained.update {idx : Nat} {s : State} (h : Chained idx s) (j : Nat)
    {f : SockbufT → SockbufT} (hflags : ∀ sb, (f sb).flags = sb.flags)
    (hord : ∀ sb : SockbufT, sb.Ordered → (f sb).Ordered) : Chained idx (s.update j f) := by
  refine ⟨isvalid_update h.valid j hflags, ?_⟩
  rw [State.sbuf_update]
  split
  · exact hord _ h.ordered
  · exact h.ordered

/-- One operation keeps the chain in order. -/
theorem Chained.apply {idx : Nat} {s : State} (h : Chained idx s) {op : FilterOp}
    (hop : op.Inside) : Chained idx (op.apply s) := by
  cases op with
  | attach j filter clientData =>
    rw [FilterOp.apply, sockbufAttachFilter]
    split
    · exact h.update j (fun _ => rfl) fun sb hsb => hsb.attach hop clientData
    · exact h
  | detach j filter =>
    rw [FilterOp.apply, sockbufDetachFilter]
    split
    · exact h.update j (fun sb => sb.detachFilter_flags filter) fun sb hsb => hsb.detach filter
    · exact h

/-- Every sequence of calls keeps the chain in order. -/
theorem Chained.run {idx : Nat} {s : State} (h : Chained idx s) {ops : List FilterOp}
    (hops : ∀ op ∈ ops, op.Inside) : Chained idx (ops.foldl FilterOp.apply s) := by
  induction ops generalizing s with
  | nil => exact h
  | cons op ops ih =>
    have happly := h.apply (hops op List.mem_cons_self)
    exact ih happly fun op hm => hops op (List.mem_cons_of_mem _ hm)

/-! ## The traversal -/

/-- What a filter makes of the data that it passes on. -/
abbrev Alteration := SockbufFilter × Nat → List UInt8 → List UInt8

/-- Carry out `n` calls of filters on data events. Each passes the event on once: it calls the function
that called it with its own level. The events of the calls stand in their order. -/
def relay (k : Kernel) (alter : Alteration) : Nat → Outcome → Outcome
  | 0, o => o
  | n + 1, o =>
      -- a filter was called; a call of the user's handler ends the relay
      match o.tasks with
      | [.external ⟨some f, clientData, idx, .read data⟩] =>
          (relay k alter n (sockbufOnRead o.st idx f.level (alter (f, clientData) data))).log o.events
      | [.external ⟨some f, clientData, idx, .write data⟩] =>
          (relay k alter n
            (sockbufOnWrite k o.st idx f.level (alter (f, clientData) data))).log o.events
      | _ => o

/-- The calls of the filters `es`, in their order. -/
def calls (idx : Nat) (call : List UInt8 → Call) (alter : Alteration) :
    List (SockbufFilter × Nat) → List UInt8 → List Event
  | [], _ => []
  | e :: es, data =>
      .callback ⟨some e.1, e.2, idx, call data⟩ :: calls idx call alter es (alter e data)

/-- The data behind the filters `es`. -/
def carried (alter : Alteration) (es : List (SockbufFilter × Nat)) (data : List UInt8) :
    List UInt8 :=
  es.foldl (fun data e => alter e data) data

/-- The filters with their client data that define a callback, in chain order. -/
def SockbufT.defining (sb : SockbufT) (defines : SockbufFilter → Bool) :
    List (SockbufFilter × Nat) :=
  sb.chain.filter fun e => defines e.1

/-- The end of `sockbuf_on_read`, behind the filters: the data is counted and handed to the user's
handler. -/
def readHandler (s : State) (idx : Nat) (data : List UInt8) : Outcome :=
  match (s.sbuf idx).stats with
  | none => .crash s
  | some stats =>
      let stats := { stats with bytesIn := stats.bytesIn + UInt64.ofNat data.length }
      callHandler (s.update idx fun sb => { sb with stats := some stats }) idx
        SockbufHandler.onRead (.read data)

/-- The level of a filter in the chain. -/
def entryLevel (e : SockbufFilter × Nat) : Int := e.1.level

/-- The filters that a read event passes from a level on. -/
def SockbufT.readPath (sb : SockbufT) (level : Int) : List (SockbufFilter × Nat) :=
  ascent (· < ·) entryLevel level (sb.defining SockbufFilter.onRead)

/-- The filters that a write event passes from a level down. -/
def SockbufT.writePath (sb : SockbufT) (level : Int) : List (SockbufFilter × Nat) :=
  ascent (· > ·) entryLevel level (sb.defining SockbufFilter.onWrite).reverse

/-- Data that are read go to the first filter of the path. -/
theorem SockbufT.filterAbove_onRead (sb : SockbufT) (level : Int) :
    sb.filterAbove level SockbufFilter.onRead = (sb.readPath level).head? := by
  rw [SockbufT.readPath, ← find?_eq_head?_ascent, SockbufT.defining, List.find?_filter]
  refine congrArg (fun p => sb.chain.find? p) (funext fun e => ?_)
  show (e.1.onRead && decide (level < entryLevel e)) = _
  rw [Bool.eq_iff_iff]
  simp

/-- Data that are written go to the first filter of the path. -/
theorem SockbufT.filterBelow_onWrite (sb : SockbufT) (level : Int) :
    sb.filterBelow level SockbufFilter.onWrite = (sb.writePath level).head? := by
  rw [SockbufT.writePath, ← find?_eq_head?_ascent, SockbufT.defining, ← List.filter_reverse,
    List.find?_filter]
  refine congrArg (fun p => sb.chain.reverse.find? p) (funext fun e => ?_)
  show (e.1.onWrite && decide (entryLevel e < level)) = _
  rw [Bool.eq_iff_iff]
  simp

section Relay

variable (k : Kernel) (alter : Alteration)

theorem relay_log (n : Nat) (es : List Event) (o : Outcome) :
    relay k alter n (o.log es) = (relay k alter n o).log es := by
  cases n with
  | zero => rfl
  | succ n =>
    simp only [relay, Outcome.log_tasks, Outcome.log_st, Outcome.log_events]
    split <;> simp [Outcome.log]

/-- The user's handler does not pass an event on. -/
theorem relay_callHandler (n : Nat) (s : State) (idx : Nat) (defines : SockbufHandler → Bool)
    (call : Call) : relay k alter n (callHandler s idx defines call) =
      callHandler s idx defines call := by
  cases n with
  | zero => rfl
  | succ n =>
    rw [callHandler]
    split
    · rfl
    · split <;> rfl

theorem relay_readHandler (n : Nat) (s : State) (idx : Nat) (data : List UInt8) :
    relay k alter n (readHandler s idx data) = readHandler s idx data := by
  rw [readHandler]
  split
  · cases n <;> rfl
  · exact relay_callHandler k alter n _ idx _ _

/-- An eof is not a data event. -/
theorem relay_gotEof (n : Nat) (s : State) (idx err : Nat) :
    relay k alter n (sockbufGotEof k s idx err) = sockbufGotEof k s idx err := by
  rw [sockbufGotEof, sockbufOnEof]
  split
  · cases n <;> rfl
  · exact relay_callHandler k alter n _ idx _ _

theorem relay_realWrite (n : Nat) (s : State) (idx : Nat) (data : List UInt8) :
    relay k alter n (sockbufRealWrite k s idx data) = sockbufRealWrite k s idx data := by
  rw [sockbufRealWrite]
  split
  · cases n <;> rfl
  · split
    · split
      · cases n <;> rfl
      · rw [relay_log, relay_gotEof]
    · cases n <;> rfl

/-- A read event passes the filters of its path and then reaches the user's handler. -/
theorem relay_onRead (s : State) (idx : Nat) (es : List (SockbufFilter × Nat)) (level : Int)
    (data : List UInt8) (n : Nat) (hn : es.length ≤ n) (hes : (s.sbuf idx).readPath level = es) :
    relay k alter n (sockbufOnRead s idx level data) =
      (readHandler s idx (carried alter es data)).log (calls idx .read alter es data) := by
  induction es generalizing level data n with
  | nil =>
    have hcall : sockbufOnRead s idx level data = readHandler s idx data := by
      rw [sockbufOnRead, SockbufT.filterAbove_onRead, hes]
      rfl
    rw [hcall, relay_readHandler]
    rfl
  | cons e es ih =>
    obtain ⟨m, rfl⟩ : ∃ m, n = m + 1 := ⟨n - 1, (Nat.sub_add_cancel (by simp at hn; omega)).symm⟩
    have hcall : sockbufOnRead s idx level data = callFilter s idx e (.read data) := by
      rw [sockbufOnRead, SockbufT.filterAbove_onRead, hes]
      rfl
    -- the filter calls `sockbuf_on_read` with its own level, which goes on along the path
    have hrest := ih e.1.level (alter e data) m (Nat.le_of_succ_le_succ hn) (ascent_tail hes)
    rw [hcall]
    show (relay k alter m (sockbufOnRead s idx e.1.level (alter e data))).log _ = _
    rw [hrest]
    rfl

/-- A write event passes the filters of its path and is then written. -/
theorem relay_onWrite (s : State) (idx : Nat) (es : List (SockbufFilter × Nat)) (level : Int)
    (data : List UInt8) (n : Nat) (hn : es.length ≤ n) (hes : (s.sbuf idx).writePath level = es) :
    relay k alter n (sockbufOnWrite k s idx level data) =
      (sockbufRealWrite k s idx (carried alter es data)).log (calls idx .write alter es data) := by
  induction es generalizing level data n with
  | nil =>
    have hcall : sockbufOnWrite k s idx level data = sockbufRealWrite k s idx data := by
      rw [sockbufOnWrite, SockbufT.filterBelow_onWrite, hes]
      rfl
    rw [hcall, relay_realWrite]
    rfl
  | cons e es ih =>
    obtain ⟨m, rfl⟩ : ∃ m, n = m + 1 := ⟨n - 1, (Nat.sub_add_cancel (by simp at hn; omega)).symm⟩
    have hcall : sockbufOnWrite k s idx level data = callFilter s idx e (.write data) := by
      rw [sockbufOnWrite, SockbufT.filterBelow_onWrite, hes]
      rfl
    -- the same for `sockbuf_on_write`, which searches downwards
    have hrest := ih e.1.level (alter e data) m (Nat.le_of_succ_le_succ hn) (ascent_tail hes)
    rw [hcall]
    show (relay k alter m (sockbufOnWrite k s idx e.1.level (alter e data))).log _ = _
    rw [hrest]
    rfl

end Relay

/-! ## Every filter once -/

/-- The filter whose data callback an event is. -/
def Event.passed : Event → Option (SockbufFilter × Nat)
  | .callback ⟨some f, clientData, _, .read _⟩ => some (f, clientData)
  | .callback ⟨some f, clientData, _, .write _⟩ => some (f, clientData)
  | _ => none

/-- Data that are read pass the filters in their order. -/
theorem passed_calls_read (idx : Nat) (alter : Alteration) (es : List (SockbufFilter × Nat))
    (data : List UInt8) : (calls idx .read alter es data).filterMap Event.passed = es := by
  induction es generalizing data with
  | nil => rfl
  | cons e es ih => exact congrArg (List.cons e) (ih (alter e data))

/-- Data that are written pass the filters in their order. -/
theorem passed_calls_write (idx : Nat) (alter : Alteration) (es : List (SockbufFilter × Nat))
    (data : List UInt8) : (calls idx .write alter es data).filterMap Event.passed = es := by
  induction es generalizing data with
  | nil => rfl
  | cons e es ih => exact congrArg (List.cons e) (ih (alter e data))

theorem passed_callHandler (s : State) (idx : Nat) (defines : SockbufHandler → Bool) (call : Call) :
    (callHandler s idx defines call).events.filterMap Event.passed = [] := by
  rw [callHandler]
  split
  · rfl
  · split <;> rfl

theorem passed_readHandler (s : State) (idx : Nat) (data : List UInt8) :
    (readHandler s idx data).events.filterMap Event.passed = [] := by
  rw [readHandler]
  split
  · rfl
  · exact passed_callHandler ..

theorem passed_realWrite (k : Kernel) (s : State) (idx : Nat) (data : List UInt8) :
    (sockbufRealWrite k s idx data).events.filterMap Event.passed = [] := by
  have heof : ∀ err, (sockbufGotEof k s idx err).events.filterMap Event.passed = [] := by
    intro err
    rw [sockbufGotEof, sockbufOnEof]
    split
    · rfl
    · exact passed_callHandler ..
  rw [sockbufRealWrite]
  split
  · rfl
  · split
    · split
      · rfl
      · exact heof _
    · rfl

/-- The filters of the chain. -/
theorem SockbufT.Ordered.chain_filters {sb : SockbufT} (h : sb.Ordered) :
    sb.chain.map Prod.fst = sb.filters.take sb.nfilters := by
  refine List.map_fst_zip (Nat.le_of_eq ?_)
  rw [List.length_take, List.length_take, Nat.min_eq_left h.filters, Nat.min_eq_left h.clientData]

/-- The filters that define a callback are in the order of their levels. -/
theorem SockbufT.Ordered.defining_sorted {sb : SockbufT} (h : sb.Ordered)
    (defines : SockbufFilter → Bool) :
    (sb.defining defines).Pairwise fun e f => entryLevel e ≤ entryLevel f := by
  have hchain : sb.chain.Pairwise fun e f => entryLevel e ≤ entryLevel f := by
    have hsorted := h.sorted
    rw [← h.chain_filters, List.pairwise_map] at hsorted
    exact hsorted
  exact hchain.sublist List.filter_sublist

/-- The levels of the filters lie between those of the socket and the user. -/
theorem SockbufT.Ordered.defining_inside {sb : SockbufT} (h : sb.Ordered)
    {defines : SockbufFilter → Bool} {e : SockbufFilter × Nat} (he : e ∈ sb.defining defines) :
    sockbufLevelInternal < entryLevel e ∧ entryLevel e < sockbufLevelWriteInternal := by
  refine h.inside e.1 ?_
  rw [← h.chain_filters]
  exact List.mem_map_of_mem (List.mem_of_mem_filter he)

theorem SockbufT.Ordered.length_defining {sb : SockbufT} (h : sb.Ordered)
    (defines : SockbufFilter → Bool) : (sb.defining defines).length ≤ sb.nfilters := by
  have hchain : sb.chain.length = sb.nfilters := by
    have hmap := congrArg List.length h.chain_filters
    rwa [List.length_map, List.length_take, Nat.min_eq_left h.filters] at hmap
  exact Nat.le_trans (List.length_filter_le _ _) (Nat.le_of_eq hchain)

/-- The filters that define a callback have different levels. -/
def SockbufT.Untied (sb : SockbufT) (defines : SockbufFilter → Bool) : Prop :=
  ((sb.defining defines).map entryLevel).Nodup

instance (sb : SockbufT) (defines : SockbufFilter → Bool) : Decidable (sb.Untied defines) :=
  inferInstanceAs (Decidable (List.Nodup _))

/-- A read event passes every filter that defines `on_read` exactly when their levels differ. -/
theorem readPath_eq_iff {sb : SockbufT} (h : sb.Ordered) :
    sb.readPath sockbufLevelInternal = sb.defining SockbufFilter.onRead ↔
      sb.Untied SockbufFilter.onRead := by
  constructor
  · intro hpath
    -- a path is strictly ascending, so it has no ties
    have hlt : (sb.readPath sockbufLevelInternal).Pairwise fun e f => entryLevel e < entryLevel f :=
      ascent_pairwise sockbufLevelInternal _
    rw [hpath] at hlt
    exact (List.pairwise_map.2 hlt).imp fun hxy => Int.ne_of_lt hxy
  · intro hnodup
    refine ascent_eq_self (fun e he => (h.defining_inside he).1) ?_
    -- an order without ties is strict
    have hne := List.pairwise_map.1 hnodup
    exact (h.defining_sorted SockbufFilter.onRead).imp₂ (fun _ _ hle hne => by omega) hne

/-- A write event takes the chain from its other end. -/
theorem writePath_eq_iff {sb : SockbufT} (h : sb.Ordered) :
    sb.writePath sockbufLevelWriteInternal = (sb.defining SockbufFilter.onWrite).reverse ↔
      sb.Untied SockbufFilter.onWrite := by
  constructor
  · intro hpath
    have hgt : (sb.writePath sockbufLevelWriteInternal).Pairwise
        fun e f => entryLevel e > entryLevel f := ascent_pairwise sockbufLevelWriteInternal _
    rw [hpath, List.pairwise_reverse] at hgt
    exact (List.pairwise_map.2 hgt).imp fun hxy => Int.ne_of_lt hxy
  · intro hnodup
    refine ascent_eq_self (fun e he => (h.defining_inside (List.mem_reverse.1 he)).2) ?_
    have hne := List.pairwise_map.1 hnodup
    exact List.pairwise_reverse.2
      ((h.defining_sorted SockbufFilter.onWrite).imp₂ (fun _ _ hle hne => by omega) hne)

/-- Each filter that defines a data callback gets each data event once: `sockbuf_on_read` calls them
in chain order and then the user's handler, `sockbuf_write` calls them in the opposite order and then
`sockbuf_real_write`. -/
structure ReachesOnce (k : Kernel) (alter : Alteration) (idx : Nat) (s : State) : Prop where
  read : ∀ (data : List UInt8) (n : Nat), (s.sbuf idx).nfilters ≤ n →
    relay k alter n (sockbufOnRead s idx sockbufLevelInternal data) =
      (readHandler s idx (carried alter ((s.sbuf idx).defining SockbufFilter.onRead) data)).log
        (calls idx .read alter ((s.sbuf idx).defining SockbufFilter.onRead) data)
  write : ∀ (data : List UInt8) (len : Int) (n : Nat), (s.sbuf idx).nfilters ≤ n →
    relay k alter n (sockbufWrite k s idx data len) =
      ((sockbufRealWrite k (countSubmit s idx (writeArgument data len).length) idx
        (carried alter ((s.sbuf idx).defining SockbufFilter.onWrite).reverse
          (writeArgument data len))).log
        (calls idx .write alter ((s.sbuf idx).defining SockbufFilter.onWrite).reverse
          (writeArgument data len))).log [.submitted idx (writeArgument data len)]

/-- The statistics that `sockbuf_write` counts are no part of the chain. -/
theorem countSubmit_paths (s : State) (idx len : Nat) (level : Int) :
    ((countSubmit s idx len).sbuf idx).writePath level = (s.sbuf idx).writePath level :=
  State.sbuf_update_keeps s idx _ (fun sb => sb.writePath level) rfl idx

/-- What `sockbuf_write` does with the filters of its path. -/
theorem relay_write (k : Kernel) (alter : Alteration) {s : State} {idx : Nat}
    (hv : sockbufIsvalid s idx = true) (data : List UInt8) (len : Int) {n : Nat}
    (hn : ((s.sbuf idx).writePath sockbufLevelWriteInternal).length ≤ n) :
    relay k alter n (sockbufWrite k s idx data len) =
      ((sockbufRealWrite k (countSubmit s idx (writeArgument data len).length) idx
        (carried alter ((s.sbuf idx).writePath sockbufLevelWriteInternal)
          (writeArgument data len))).log
        (calls idx .write alter ((s.sbuf idx).writePath sockbufLevelWriteInternal)
          (writeArgument data len))).log [.submitted idx (writeArgument data len)] := by
  rw [sockbufWrite, if_pos hv, relay_log]
  rw [relay_onWrite k alter _ idx _ _ _ n hn (countSubmit_paths s idx _ _)]

/-- **Every filter is reached once** exactly when no two that define the callback have the same level. -/
theorem Chained.reachesOnce_iff {idx : Nat} {s : State} (h : Chained idx s) (k : Kernel)
    (alter : Alteration) : ReachesOnce k alter idx s ↔
      (s.sbuf idx).Untied SockbufFilter.onRead ∧ (s.sbuf idx).Untied SockbufFilter.onWrite := by
  have hread : ((s.sbuf idx).readPath sockbufLevelInternal).length ≤ (s.sbuf idx).nfilters :=
    Nat.le_trans (ascent_sublist _ _).length_le (h.ordered.length_defining _)
  have hwrite : ((s.sbuf idx).writePath sockbufLevelWriteInternal).length ≤
      (s.sbuf idx).nfilters := by
    refine Nat.le_trans (ascent_sublist _ _).length_le ?_
    rw [List.length_reverse]
    exact h.ordered.length_defining _
  constructor
  · intro honce
    constructor
    · -- the filters called for the event are those of its path
      have hcalled := (relay_onRead k alter s idx _ sockbufLevelInternal [] _ hread rfl).symm.trans
        (honce.read [] _ (Nat.le_refl _))
      have hpassed := congrArg (fun o => o.events.filterMap Event.passed) hcalled
      simp only [Outcome.log_events, List.filterMap_append, passed_calls_read, passed_readHandler,
        List.append_nil] at hpassed
      exact (readPath_eq_iff h.ordered).1 hpassed
    · have hcalled := (relay_write k alter h.valid [] 0 hwrite).symm.trans
        (honce.write [] 0 _ (Nat.le_refl _))
      have hpassed := congrArg (fun o => o.events.filterMap Event.passed) hcalled
      simp only [Outcome.log_events, List.filterMap_append, passed_calls_write, passed_realWrite,
        List.append_nil] at hpassed
      exact (writePath_eq_iff h.ordered).1 (List.append_cancel_left hpassed)
  · rintro ⟨hr, hw⟩
    refine ⟨fun data n hn => ?_, fun data len n hn => ?_⟩
    · have hpath := (readPath_eq_iff h.ordered).2 hr
      exact relay_onRead k alter s idx _ _ data n
        (Nat.le_trans (h.ordered.length_defining _) hn) hpath
    · have hpath := (writePath_eq_iff h.ordered).2 hw
      have hall := relay_write k alter h.valid data len (Nat.le_trans hwrite hn)
      rwa [hpath] at hall

/-- **Every filter once.** After any attaching and detaching, each filter gets each data event exactly
once when no two filters with the same data callback share a level, and only then. -/
theorem filters_reached_once_iff {idx : Nat} {s : State} (h : Unfiltered idx s)
    {ops : List FilterOp} (hops : ∀ op ∈ ops, op.Inside) (k : Kernel) (alter : Alteration) :
    ReachesOnce k alter idx (ops.foldl FilterOp.apply s) ↔
      ((ops.foldl FilterOp.apply s).sbuf idx).Untied SockbufFilter.onRead ∧
        ((ops.foldl FilterOp.apply s).sbuf idx).Untied SockbufFilter.onWrite :=
  (h.chained.run hops).reachesOnce_iff k alter

/-- Two text filters, the second attached behind the first. -/
def textFilters (secondLevel : Int) : List FilterOp :=
  [.attach 0 { id := 1, level := 5000, onRead := true, onWrite := true } 11,
    .attach 0 { id := 2, level := secondLevel, onRead := true, onWrite := true } 12]

theorem unfiltered_first : Unfiltered 0 (sockbufNew {}).1 := ⟨rfl, rfl⟩

/-- Filters with different levels. -/
theorem filters_reached_once_distinct :
    ReachesOnce {} (fun _ data => 0 :: data) 0
      ((textFilters 6000).foldl FilterOp.apply (sockbufNew {}).1) :=
  (filters_reached_once_iff unfiltered_first (by decide) {} fun _ data => 0 :: data).2 (by decide)

/-- Two filters of one level: the second never sees what is read. -/
theorem tied_filter_not_reached :
    Unfiltered 0 (sockbufNew {}).1 ∧ (∀ op ∈ textFilters 5000, op.Inside) ∧
      ¬ ReachesOnce {} (fun _ data => data) 0
        ((textFilters 5000).foldl FilterOp.apply (sockbufNew {}).1) := by
  refine ⟨unfiltered_first, by decide, fun h => ?_⟩
  have hevents := congrArg Outcome.events (h.read [65] 2 (by decide))
  exact absurd hevents (by decide)

end ExamplePrograms.Onethread.Sockbuf
