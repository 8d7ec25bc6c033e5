import Mathlib.Data.List.Induction
import Mathlib.Data.List.Sort
import ExamplePrograms.Onethread.Sockbuf.FilterChain

/-!
# Attaching and detaching filters

The two arrays of a filter chain stand for one list: the attachments that have not been detached, in
the order of their levels, and of their attaching where the levels are equal (`attachments`). Each
carries the client data it was attached with and the number of its call.

`sockbuf_attach_filter` and `sockbuf_detach_filter` move the cells of the arrays one by one, and the
arrays stand for the list behind every sequence of calls (`chain_run`).
-/

set_option autoImplicit false

namespace ExamplePrograms.Onethread.Sockbuf

open ExamplePrograms.Lib.Memory

/-! ## Insertion -/

section Insertion

variable {α : Type} {r : α → α → Prop} [DecidableRel r] {a : α} {l : List α}

/-- An ordered insertion keeps a strict order in which the new element has its place. -/
theorem pairwise_orderedInsert (htrans : ∀ {x y z : α}, r x y → r y z → r x z) (h : l.Pairwise r)
    (hplace : ∀ b ∈ l, r a b ∨ r b a) : (l.orderedInsert r a).Pairwise r := by
  induction l with
  | nil => exact List.pairwise_singleton r a
  | cons b l ih =>
    obtain ⟨hb, hl⟩ := List.pairwise_cons.1 h
    rw [List.orderedInsert_cons]
    split
    · next hab =>
      refine List.pairwise_cons.2 ⟨fun c hc => ?_, h⟩
      rcases List.mem_cons.1 hc with rfl | hc
      · exact hab
      · exact htrans hab (hb c hc)
    · next hab =>
      have hba : r b a := (hplace b List.mem_cons_self).resolve_left hab
      refine List.pairwise_cons.2 ⟨fun c hc => ?_, ?_⟩
      · rcases (List.mem_orderedInsert r).1 hc with rfl | hc
        · exact hba
        · exact hb c hc
      · exact ih hl fun c hc => hplace c (List.mem_cons_of_mem b hc)

/-- It is an insertion at the first element behind the new one. -/
theorem orderedInsert_eq_insertIdx {p : α → Bool} (h : ∀ b ∈ l, p b = true ↔ r a b) :
    l.orderedInsert r a = l.insertIdx (l.findIdx p) a := by
  induction l with
  | nil => rfl
  | cons b l ih =>
    have hb := h b List.mem_cons_self
    rw [List.orderedInsert_cons, List.findIdx_cons]
    by_cases hab : r a b
    · rw [if_pos hab, hb.2 hab]
      rfl
    · rw [if_neg hab, Bool.eq_false_iff.2 fun hp => hab (hb.1 hp),
        ih fun c hc => h c (List.mem_cons_of_mem b hc)]
      rfl

end Insertion

/-! ## The attachments -/

/-- An attachment: the filter, its client data and the number of the call that attached it. -/
structure Attached where
  filter : SockbufFilter
  clientData : Nat
  serial : Nat
  deriving DecidableEq, Repr

namespace Attached

/-- The order of a chain. -/
def Before (e f : Attached) : Prop :=
  e.filter.level < f.filter.level ∨ (e.filter.level = f.filter.level ∧ e.serial < f.serial)

instance : DecidableRel Before := fun e f =>
  inferInstanceAs (Decidable (e.filter.level < f.filter.level ∨
    (e.filter.level = f.filter.level ∧ e.serial < f.serial)))

theorem Before.trans {e f g : Attached} (hef : e.Before f) (hfg : f.Before g) : e.Before g := by
  rw [Before] at *
  omega

/-- The newest attachment stands before those of a higher level. -/
theorem before_iff_of_newest {e f : Attached} (h : f.serial < e.serial) :
    e.Before f ↔ e.filter.level < f.filter.level := by
  rw [Before]
  omega

/-- A filter attached later stands before or behind. -/
theorem before_or_of_newest {e f : Attached} (h : f.serial < e.serial) :
    e.Before f ∨ f.Before e := by
  unfold Before
  omega

end Attached

/-- The attachments of a sockbuf behind a call, which is the one with the number `serial`. -/
def attachStep (idx serial : Nat) (es : List Attached) : FilterOp → List Attached
  | .attach j filter clientData =>
      if j = idx then es.orderedInsert Attached.Before ⟨filter, clientData, serial⟩ else es
  | .detach j filter => if j = idx then es.eraseP fun e => e.filter == filter else es

/-- The attachments of a sockbuf behind the calls `ops`. -/
def attachments (idx : Nat) (ops : List FilterOp) : List Attached :=
  ops.zipIdx.foldl (fun es x => attachStep idx x.2 es x.1) []

/-- The attachments, one operation further. -/
theorem attachments_snoc (idx : Nat) (ops : List FilterOp) (op : FilterOp) :
    attachments idx (ops ++ [op]) = attachStep idx ops.length (attachments idx ops) op := by
  rw [attachments, List.zipIdx_append, List.foldl_append, Nat.zero_add]
  rfl

/-- The attachments of a sockbuf come from its calls, each from its own, and stand in order. -/
structure Kept (idx : Nat) (ops : List FilterOp) (es : List Attached) : Prop where
  sorted : es.Pairwise Attached.Before
  given : ∀ e ∈ es, ops[e.serial]? = some (.attach idx e.filter e.clientData)

section Kept

variable {idx : Nat} {ops : List FilterOp} {es : List Attached}

/-- Every attachment is older than the operations to come. -/
theorem Kept.newest (h : Kept idx ops es) : ∀ e ∈ es, e.serial < ops.length := by
  intro e he
  by_contra hge
  have hnone := List.getElem?_eq_none (Nat.not_lt.1 hge)
  rw [h.given e he] at hnone
  cases hnone

theorem Kept.sublist {fs : List Attached} (h : Kept idx ops es) (hsub : fs.Sublist es) :
    Kept idx ops fs :=
  ⟨h.sorted.sublist hsub, fun e he => h.given e (hsub.subset he)⟩

theorem Kept.later (h : Kept idx ops es) (op : FilterOp) : Kept idx (ops ++ [op]) es :=
  ⟨h.sorted, fun e he => by
    rw [List.getElem?_append_left (h.newest e he)]
    exact h.given e he⟩

/-- One operation keeps the order. -/
theorem Kept.step (h : Kept idx ops es) (op : FilterOp) :
    Kept idx (ops ++ [op]) (attachStep idx ops.length es op) := by
  cases op with
  | attach j filter clientData =>
    rw [attachStep]
    split
    · next hj =>
      subst hj
      refine ⟨pairwise_orderedInsert Attached.Before.trans h.sorted fun e he =>
        Attached.before_or_of_newest (h.newest e he), fun e he => ?_⟩
      rcases (List.mem_orderedInsert _).1 he with rfl | he
      · exact List.getElem?_concat_length
      · exact (h.later _).given e he
    · exact h.later _
  | detach j filter =>
    rw [attachStep]
    split
    · exact (h.later _).sublist List.eraseP_sublist
    · exact h.later _

/-- **The attachments are in order** behind any operations. -/
theorem kept_attachments (idx : Nat) (ops : List FilterOp) : Kept idx ops (attachments idx ops) := by
  induction ops using List.reverseRecOn with
  | nil => exact ⟨List.Pairwise.nil, fun e he => absurd he List.not_mem_nil⟩
  | append_singleton ops op ih =>
    rw [attachments_snoc]
    exact ih.step op

end Kept

/-! ## The arrays -/

/-- The two arrays hold the attachments. -/
structure Represents (sb : SockbufT) (es : List Attached) : Prop where
  nfilters : sb.nfilters = es.length
  filters : sb.filters.take sb.nfilters = es.map Attached.filter
  clientData : sb.filterClientData.take sb.nfilters = es.map Attached.clientData

section Represents

variable {sb : SockbufT} {es : List Attached}

theorem Represents.le_filters (h : Represents sb es) : sb.nfilters ≤ sb.filters.length := by
  have hlen := congrArg List.length h.filters
  rw [List.length_take, List.length_map, ← h.nfilters] at hlen
  omega

theorem Represents.le_clientData (h : Represents sb es) :
    sb.nfilters ≤ sb.filterClientData.length := by
  have hlen := congrArg List.length h.clientData
  rw [List.length_take, List.length_map, ← h.nfilters] at hlen
  omega

/-- Attaching a filter opens the two arrays at one slot, that of the newest attachment. -/
theorem Represents.attach (h : Represents sb es) {serial : Nat}
    (hnewest : ∀ e ∈ es, e.serial < serial) (filter : SockbufFilter) (clientData : Nat) :
    Represents (sb.attachFilter filter clientData)
      (es.orderedInsert Attached.Before ⟨filter, clientData, serial⟩) := by
  have hslot : sb.filterSlot filter =
      es.findIdx fun e => decide (filter.level < e.filter.level) := by
    rw [SockbufT.filterSlot, h.filters, List.findIdx_map]
    rfl
  have hinsert : es.orderedInsert Attached.Before ⟨filter, clientData, serial⟩ =
      es.insertIdx (sb.filterSlot filter) ⟨filter, clientData, serial⟩ := by
    rw [hslot]
    refine orderedInsert_eq_insertIdx fun e he => ?_
    rw [decide_eq_true_iff]
    exact (Attached.before_iff_of_newest (e := ⟨filter, clientData, serial⟩) (hnewest e he)).symm
  have hle := sb.filterSlot_le filter
  refine ⟨?_, ?_, ?_⟩
  · rw [List.orderedInsert_length, ← h.nfilters]
    rfl
  · refine (SockbufT.attachFilter_take h.le_filters filter clientData).trans ?_
    rw [h.filters, hinsert, List.map_insertIdx]
  · refine (take_realloc_open 0 clientData h.le_clientData hle).trans ?_
    rw [h.clientData, hinsert, List.map_insertIdx]

/-- The first occurrence of a filter, when it is attached. -/
theorem first_occurrence (es : List Attached) (filter : SockbufFilter) :
    (∃ a e b, es = a ++ e :: b ∧ e.filter = filter ∧ (∀ x ∈ a, x.filter ≠ filter) ∧
      es.eraseP (fun e => e.filter == filter) = a ++ b) ∨
    ((∀ x ∈ es, x.filter ≠ filter) ∧ es.eraseP (fun e => e.filter == filter) = es) := by
  by_cases hmem : ∃ e ∈ es, e.filter = filter
  · obtain ⟨e, he, hfilter⟩ := hmem
    obtain ⟨e, a, b, ha, he, hes, herase⟩ :=
      List.exists_of_eraseP he (p := fun e => e.filter == filter) (beq_iff_eq.2 hfilter)
    refine Or.inl ⟨a, e, b, hes, beq_iff_eq.1 he, fun x hx heq => ?_, herase⟩
    exact ha x hx (beq_iff_eq.2 heq)
  · have hnone : ∀ x ∈ es, x.filter ≠ filter := fun x hx heq => hmem ⟨x, hx, heq⟩
    refine Or.inr ⟨hnone, List.eraseP_of_forall_not fun x hx heq => ?_⟩
    exact hnone x hx (beq_iff_eq.1 heq)

/-- The index at which the loop over the filters ends. -/
theorem Represents.findIdx_of_first {a b : List Attached} {e : Attached} {filter : SockbufFilter}
    (h : Represents sb (a ++ e :: b)) (he : e.filter = filter) (ha : ∀ x ∈ a, x.filter ≠ filter) :
    (sb.filters.take sb.nfilters).findIdx (fun f => f == filter) = a.length := by
  have hnone : a.findIdx ((fun f => f == filter) ∘ Attached.filter) = a.length :=
    List.findIdx_eq_length.2 fun x hx => beq_false_of_ne (ha x hx)
  rw [h.filters, List.findIdx_map, List.findIdx_append, hnone, if_neg (Nat.lt_irrefl _),
    List.findIdx_cons]
  simp [he]

/-- A filter that is not attached is not found. -/
theorem Represents.findIdx_of_none {filter : SockbufFilter} (h : Represents sb es)
    (hnone : ∀ x ∈ es, x.filter ≠ filter) :
    (sb.filters.take sb.nfilters).findIdx (fun f => f == filter) = sb.nfilters := by
  rw [h.filters, List.findIdx_map, h.nfilters]
  exact List.findIdx_eq_length.2 fun x hx => beq_false_of_ne (hnone x hx)

/-- Detaching a filter closes the two arrays over its first occurrence. -/
theorem Represents.detach (h : Represents sb es) (filter : SockbufFilter) :
    Represents (sb.detachFilter filter) (es.eraseP fun e => e.filter == filter) := by
  rcases first_occurrence es filter with ⟨a, e, b, rfl, he, ha, herase⟩ | ⟨hnone, herase⟩
  · have hlen := h.nfilters
    have hidx := h.findIdx_of_first he ha
    rw [List.length_append, List.length_cons] at hlen
    have hclose : ∀ {β : Type} (f : Attached → β),
        ((a ++ e :: b).map f).eraseIdx a.length = (a ++ b).map f := by
      intro β f
      rw [List.map_append, List.map_cons,
        List.eraseIdx_append_of_length_le (by rw [List.length_map]), List.length_map,
        Nat.sub_self, List.map_append]
      rfl
    rw [herase, SockbufT.detachFilter]
    rw [hidx, if_neg (by omega)]
    refine ⟨?_, ?_, ?_⟩
    · show sb.nfilters - 1 = (a ++ b).length
      rw [List.length_append]
      omega
    · show (memmove _ _ _ _).take (sb.nfilters - 1) = _
      rw [take_memmove_close (by omega) (Nat.le_refl _) h.le_filters, h.filters, hclose]
    · show (memmove _ _ _ _).take (sb.nfilters - 1) = _
      rw [take_memmove_close (by omega) (Nat.le_refl _) h.le_clientData, h.clientData, hclose]
  · have hidx := h.findIdx_of_none hnone
    rw [herase, SockbufT.detachFilter]
    rw [if_pos hidx]
    exact h

/-- The data that is found for a filter is that of its first occurrence. -/
theorem Represents.filterData_of_first {a b : List Attached} {e : Attached}
    {filter : SockbufFilter} (h : Represents sb (a ++ e :: b)) (he : e.filter = filter)
    (ha : ∀ x ∈ a, x.filter ≠ filter) : sb.filterData filter = some e.clientData := by
  have hlen := h.nfilters
  have hidx := h.findIdx_of_first he ha
  rw [List.length_append, List.length_cons] at hlen
  have hlt : a.length < sb.nfilters := by omega
  rw [SockbufT.filterData]
  rw [hidx, if_neg (Nat.ne_of_lt hlt), ← List.getElem?_take_of_lt hlt, h.clientData]
  simp

/-- A filter that is not attached has no data. -/
theorem Represents.filterData_of_none {filter : SockbufFilter} (h : Represents sb es)
    (hnone : ∀ x ∈ es, x.filter ≠ filter) : sb.filterData filter = none := by
  rw [SockbufT.filterData]
  rw [h.findIdx_of_none hnone, if_pos rfl]

/-- The chain is that of the attachments. -/
theorem Represents.chain_eq (h : Represents sb es) :
    sb.chain = es.map fun e => (e.filter, e.clientData) := by
  rw [SockbufT.chain, h.filters, h.clientData]
  exact List.zip_map'

/-- The arrays do not depend on the numbers of the calls. -/
theorem Represents.renumber (h : Represents sb es) :
    Represents sb (es.map fun e => { e with serial := 0 }) := by
  refine ⟨?_, ?_, ?_⟩
  · rw [List.length_map]
    exact h.nfilters
  · rw [List.map_map]
    exact h.filters
  · rw [List.map_map]
    exact h.clientData

/-- Attaching a filter puts it into the chain. -/
theorem Represents.chain_attach (h : Represents sb es) (filter : SockbufFilter) (clientData : Nat) :
    (∃ fs, Represents (sb.attachFilter filter clientData) fs) ∧
      ∃ a b, sb.chain = a ++ b ∧
        (sb.attachFilter filter clientData).chain = a ++ (filter, clientData) :: b := by
  have hnewest : ∀ e ∈ es.map fun e => { e with serial := 0 }, e.serial < 1 := by
    intro e he
    obtain ⟨e', -, rfl⟩ := List.mem_map.1 he
    exact Nat.zero_lt_one
  have hnew := h.renumber.attach hnewest filter clientData
  refine ⟨⟨_, hnew⟩, ?_⟩
  rw [h.renumber.chain_eq, hnew.chain_eq, List.orderedInsert_eq_take_drop, List.map_append, List.map_cons]
  refine ⟨_, _, ?_, rfl⟩
  rw [← List.map_append, List.takeWhile_append_dropWhile]

/-- Detaching a filter takes its first occurrence out of the chain. -/
theorem Represents.chain_detach (h : Represents sb es) (filter : SockbufFilter) :
    (∃ fs, Represents (sb.detachFilter filter) fs) ∧
      ((∃ a d b, sb.chain = a ++ (filter, d) :: b ∧ sb.filterData filter = some d ∧
          (sb.detachFilter filter).chain = a ++ b) ∨
        (∀ d, (filter, d) ∉ sb.chain) ∧ sb.filterData filter = none ∧
          (sb.detachFilter filter).chain = sb.chain) := by
  have hnew := h.detach filter
  refine ⟨⟨_, hnew⟩, ?_⟩
  rcases first_occurrence es filter with ⟨a, e, b, rfl, rfl, ha, herase⟩ | ⟨hnone, herase⟩
  · left
    rw [h.chain_eq, hnew.chain_eq, herase, List.map_append, List.map_cons, List.map_append]
    exact ⟨_, _, _, rfl, h.filterData_of_first rfl ha, rfl⟩
  · right
    rw [hnew.chain_eq, herase, h.chain_eq]
    refine ⟨fun d hd => ?_, h.filterData_of_none hnone, rfl⟩
    obtain ⟨e, he, heq⟩ := List.mem_map.1 hd
    exact hnone e he (congrArg Prod.fst heq)

end Represents

/-! ## Sequences of calls -/

/-- A valid sockbuf whose arrays hold its attachments. -/
structure Tracked (idx : Nat) (ops : List FilterOp) (s : State) : Prop where
  valid : sockbufIsvalid s idx = true
  represents : Represents (s.sbuf idx) (attachments idx ops)

section Tracked

variable {idx : Nat} {ops : List FilterOp} {s : State}

/-- An unfiltered sockbuf has no attachments. -/
theorem Unfiltered.tracked (h : Unfiltered idx s) : Tracked idx [] s := by
  refine ⟨h.valid, h.none, ?_, ?_⟩
  · rw [h.none, List.take_zero]
    rfl
  · rw [h.none, List.take_zero]
    rfl

theorem Tracked.isvalid_apply (h : Tracked idx ops s) (op : FilterOp) :
    sockbufIsvalid (op.apply s) idx = true := by
  cases op with
  | attach j filter clientData =>
    rw [FilterOp.apply, sockbufAttachFilter]
    split
    · exact isvalid_update h.valid j fun _ => rfl
    · exact h.valid
  | detach j filter =>
    rw [FilterOp.apply, sockbufDetachFilter]
    split
    · exact isvalid_update h.valid j fun sb => sb.detachFilter_flags filter
    · exact h.valid

/-- A call for another sockbuf does not touch the record. -/
theorem sbuf_update_other {j : Nat} (hj : j ≠ idx) (f : SockbufT → SockbufT) :
    (s.update j f).sbuf idx = s.sbuf idx := by
  rw [State.sbuf_update, if_neg fun hc => hj hc.1]

theorem Tracked.sbuf_update_self (h : Tracked idx ops s) (f : SockbufT → SockbufT) :
    (s.update idx f).sbuf idx = f (s.sbuf idx) := by
  rw [State.sbuf_update, if_pos ⟨rfl, (sockbufIsvalid_iff.1 h.valid).1⟩]

/-- One operation on a sockbuf whose attachments are known. -/
theorem Tracked.apply (h : Tracked idx ops s) (op : FilterOp) :
    Tracked idx (ops ++ [op]) (op.apply s) := by
  refine ⟨h.isvalid_apply op, ?_⟩
  have hnewest := (kept_attachments idx ops).newest
  rw [attachments_snoc]
  cases op with
  | attach j filter clientData =>
    rw [attachStep, FilterOp.apply, sockbufAttachFilter]
    by_cases hj : j = idx
    · subst hj
      rw [if_pos rfl, if_pos h.valid, h.sbuf_update_self]
      exact h.represents.attach hnewest filter clientData
    · rw [if_neg hj]
      split
      · rw [sbuf_update_other hj]
        exact h.represents
      · exact h.represents
  | detach j filter =>
    rw [attachStep, FilterOp.apply, sockbufDetachFilter]
    by_cases hj : j = idx
    · subst hj
      rw [if_pos rfl, if_pos h.valid, h.sbuf_update_self]
      exact h.represents.detach filter
    · rw [if_neg hj]
      split
      · rw [sbuf_update_other hj]
        exact h.represents
      · exact h.represents

/-- Operations on a sockbuf whose attachments are known. -/
theorem Tracked.run {more : List FilterOp} (h : Tracked idx ops s) :
    Tracked idx (ops ++ more) (more.foldl FilterOp.apply s) := by
  induction more generalizing ops s with
  | nil => rwa [List.append_nil]
  | cons op more ih =>
    have hrest := ih (h.apply op)
    rwa [List.append_assoc] at hrest

end Tracked

/-- What the chain of the sockbuf `idx` is behind the calls `ops`, in the state `s`, and what the next
call makes of it. -/
structure ChainLaw (idx : Nat) (ops : List FilterOp) (s : State) : Prop where
  /-- The arrays hold the attachments, each with its own client data. -/
  represents : Represents (s.sbuf idx) (attachments idx ops)
  given : ∀ e ∈ attachments idx ops, ops[e.serial]? = some (.attach idx e.filter e.clientData)
  /-- By level, and in attach order where the levels are equal. -/
  sorted : (attachments idx ops).Pairwise Attached.Before
  attach : ∀ filter clientData, ∃ a b, attachments idx ops = a ++ b ∧
    attachments idx (ops ++ [.attach idx filter clientData]) =
      a ++ ⟨filter, clientData, ops.length⟩ :: b
  /-- The first occurrence is removed, and its data is returned. -/
  detach : ∀ filter,
    (∃ a e b, attachments idx ops = a ++ e :: b ∧ e.filter = filter ∧
      (∀ x ∈ a, x.filter ≠ filter) ∧
      sockbufGetFilterData s idx filter = (0, some e.clientData) ∧
      sockbufDetachResult s idx filter = (0, some e.clientData) ∧
      attachments idx (ops ++ [.detach idx filter]) = a ++ b) ∨
    ((∀ x ∈ attachments idx ops, x.filter ≠ filter) ∧
      sockbufGetFilterData s idx filter = (-1, none) ∧
      sockbufDetachResult s idx filter = (0, none) ∧
      attachments idx (ops ++ [.detach idx filter]) = attachments idx ops)
  other : ∀ j, j ≠ idx → ∀ filter clientData,
    attachments idx (ops ++ [.attach j filter clientData]) = attachments idx ops ∧
      attachments idx (ops ++ [.detach j filter]) = attachments idx ops

/-- **The law of the chain** for a sockbuf whose attachments are known. -/
theorem Tracked.chainLaw {idx : Nat} {ops : List FilterOp} {s : State} (h : Tracked idx ops s) :
    ChainLaw idx ops s := by
  have hkept := kept_attachments idx ops
  refine ⟨h.represents, hkept.given, hkept.sorted, ?_, ?_, ?_⟩
  · intro filter clientData
    rw [attachments_snoc, attachStep, if_pos rfl, List.orderedInsert_eq_take_drop]
    exact ⟨_, _, (List.takeWhile_append_dropWhile).symm, rfl⟩
  · intro filter
    rw [attachments_snoc, attachStep, if_pos rfl, sockbufGetFilterData, sockbufDetachResult,
      if_pos h.valid, if_pos h.valid]
    rcases first_occurrence (attachments idx ops) filter with
      ⟨a, e, b, hes, he, ha, herase⟩ | ⟨hnone, herase⟩
    · have hdata : (s.sbuf idx).filterData filter = some e.clientData :=
        (hes ▸ h.represents).filterData_of_first he ha
      rw [hdata]
      exact Or.inl ⟨a, e, b, hes, he, ha, rfl, rfl, herase⟩
    · rw [h.represents.filterData_of_none hnone]
      exact Or.inr ⟨hnone, rfl, rfl, herase⟩
  · intro j hj filter clientData
    rw [attachments_snoc, attachments_snoc, attachStep, attachStep, if_neg hj, if_neg hj]
    exact ⟨rfl, rfl⟩

/-- **The filter chain**: behind every sequence of calls for a sockbuf that had no filters, its arrays
hold the attachments that have not been detached, in order. -/
theorem chain_run {idx : Nat} {s : State} (h : Unfiltered idx s) (ops : List FilterOp) :
    ChainLaw idx ops (ops.foldl FilterOp.apply s) :=
  h.tracked.run.chainLaw

/-- One filter attached twice between two others, of one level and of a lower one, and detached once. -/
def repeatedFilter : List FilterOp :=
  [.attach 0 { id := 1, level := 7 } 11, .attach 0 { id := 2, level := 7 } 12,
    .attach 0 { id := 1, level := 7 } 13, .attach 0 { id := 3, level := -2 } 14,
    .detach 0 { id := 1, level := 7 }]

/-- One filter attached twice. -/
theorem chain_run_repeated :
    attachments 0 repeatedFilter =
        [⟨{ id := 3, level := -2 }, 14, 3⟩, ⟨{ id := 2, level := 7 }, 12, 1⟩,
          ⟨{ id := 1, level := 7 }, 13, 2⟩] ∧
      ChainLaw 0 repeatedFilter (repeatedFilter.foldl FilterOp.apply (sockbufNew {}).1) :=
  ⟨by decide, chain_run ⟨rfl, rfl⟩ repeatedFilter⟩

end ExamplePrograms.Onethread.Sockbuf
