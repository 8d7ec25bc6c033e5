import ExamplePrograms.Onethread.Sockbuf.Slots

/-!
# The poll table

`pollfds` and `idx_array` seen as lists: `idxs` and `fds` are the parallel entries in use, and
`listeners` the segment behind them. Under the bounds `TableBounds` the array code with its
hand-computed element counts acts on these lists as removal, append and update in place, and keeps
the listener segment.
-/

set_option autoImplicit false

namespace ExamplePrograms.Onethread.Sockbuf

open ExamplePrograms.Lib.Memory

namespace State

/-- `idx_array[0..npollfds)`. -/
def idxs (s : State) : List Nat := s.idxArray.take s.npollfds

/-- `pollfds[0..npollfds)`. -/
def fds (s : State) : List Pollfd := s.pollfds.take s.npollfds

/-- `pollfds[npollfds..npollfds+nlisteners)`. -/
def listeners (s : State) : List Pollfd := (s.pollfds.drop s.npollfds).take s.nlisteners

/-- The cells in use lie inside their blocks. -/
structure TableBounds (s : State) : Prop where
  idxArray : s.npollfds ≤ s.idxArray.length
  pollfds : s.npollfds + s.nlisteners ≤ s.pollfds.length

/-- What the memory holds in the cell that the next entry of `pollfds` takes. -/
def leftover (s : State) (k : Kernel) : Pollfd := s.pollfds.getD s.npollfds k.fresh

variable {s : State}

theorem TableBounds.length_idxs (h : TableBounds s) : s.idxs.length = s.npollfds := by
  rw [idxs, List.length_take, Nat.min_eq_left h.idxArray]

theorem TableBounds.length_fds (h : TableBounds s) : s.fds.length = s.npollfds := by
  have := h.pollfds
  rw [fds, List.length_take]
  omega

theorem TableBounds.length_listeners (h : TableBounds s) : s.listeners.length = s.nlisteners := by
  have := h.pollfds
  rw [listeners, List.length_take, List.length_drop]
  omega

theorem findEntry_eq (idx : Nat) : s.findEntry idx = s.idxs.idxOf idx := rfl

/-- A sockbuf is found exactly when it is in the table. -/
theorem TableBounds.findEntry_lt_iff (h : TableBounds s) (idx : Nat) :
    s.findEntry idx < s.npollfds ↔ idx ∈ s.idxs := by
  rw [findEntry_eq, ← h.length_idxs, List.idxOf_lt_length_iff]

/-- A sockbuf is not found exactly when it is not in the table. -/
theorem TableBounds.findEntry_eq_iff (h : TableBounds s) (idx : Nat) :
    s.findEntry idx = s.npollfds ↔ idx ∉ s.idxs := by
  rw [← h.findEntry_lt_iff]
  have hle : s.findEntry idx ≤ s.npollfds := by
    rw [findEntry_eq, ← h.length_idxs]
    exact List.idxOf_le_length
  omega

theorem TableBounds.findEntry_cases (hb : TableBounds s) (idx : Nat) :
    s.findEntry idx < s.npollfds ∨ s.findEntry idx = s.npollfds := by
  by_cases h : idx ∈ s.idxs
  · exact Or.inl ((hb.findEntry_lt_iff idx).2 h)
  · exact Or.inr ((hb.findEntry_eq_iff idx).2 h)

theorem getElem?_idxs_findEntry {idx : Nat} (h : idx ∈ s.idxs) :
    s.idxs[s.findEntry idx]? = some idx :=
  List.getElem?_idxOf h

/-! ## Removing an entry -/

section RemoveEntry

variable (hb : TableBounds s) {i : Nat} (hi : i < s.npollfds)

include hb hi

theorem bounds_removeEntry : TableBounds (s.removeEntry i) := by
  have h1 := hb.idxArray
  have h2 := hb.pollfds
  constructor
  · simp only [removeEntry]
    rw [length_memmove (by omega) (by omega)]
    omega
  · simp only [removeEntry]
    rw [length_memmove (by omega) (by omega)]
    omega

/-- Removing an entry removes its index. -/
theorem idxs_removeEntry : (s.removeEntry i).idxs = s.idxs.eraseIdx i :=
  take_memmove_close hi (Nat.le_refl _) hb.idxArray

/-- Removing an entry removes its cell. -/
theorem fds_removeEntry : (s.removeEntry i).fds = s.fds.eraseIdx i := by
  have h := take_memmove_close (l := s.pollfds) (m := s.nlisteners + s.npollfds) hi (by omega)
    (by have := hb.pollfds; omega)
  exact h

/-- Removing an entry keeps the listeners. -/
theorem listeners_removeEntry : (s.removeEntry i).listeners = s.listeners := by
  have h := drop_memmove_close (l := s.pollfds) (m := s.nlisteners + s.npollfds) hi (by omega)
    (by have := hb.pollfds; omega)
  rw [Nat.add_sub_cancel] at h
  exact h

end RemoveEntry

/-! ## Appending an entry -/

section AppendEntry

variable (hb : TableBounds s) (k : Kernel) (idx : Nat)

theorem bounds_appendEntry (s : State) (k : Kernel) (idx : Nat) :
    TableBounds (s.appendEntry k idx) := by
  constructor
  · simp only [appendEntry, List.length_set, length_realloc]
    omega
  · simp only [appendEntry]
    rw [length_memmove] <;> simp only [length_realloc] <;> omega

include hb

/-- Appending an entry appends its index. -/
theorem idxs_appendEntry : (s.appendEntry k idx).idxs = s.idxs ++ [idx] :=
  take_realloc_set 0 idx hb.idxArray

/-- The cell behind the entries is the old content of that cell, or fresh. -/
theorem getElem?_realloc_npollfds :
    (realloc s.pollfds (s.npollfds + s.nlisteners + 1) k.fresh)[s.npollfds]? =
      some (s.leftover k) := by
  have h2 := hb.pollfds
  rw [leftover, List.getD_eq_getElem?_getD]
  by_cases h : s.npollfds < s.pollfds.length
  · rw [getElem?_realloc k.fresh (by omega) h, List.getElem?_eq_getElem h]
    rfl
  · have he : s.npollfds = s.pollfds.length := by omega
    rw [he, getElem?_realloc_length k.fresh (by omega), List.getElem?_eq_none (Nat.le_refl _)]
    rfl

/-- Appending an entry takes over the cell behind the others. -/
theorem fds_appendEntry : (s.appendEntry k idx).fds = s.fds ++ [s.leftover k] := by
  have h2 := hb.pollfds
  apply List.ext_getElem?
  intro j
  simp only [fds, appendEntry]
  rw [List.getElem?_take,
    getElem?_memmove (by rw [length_realloc]; omega) (by rw [length_realloc]; omega)]
  -- an entry in front of the gap, the gap itself, or a listener behind it
  rcases Nat.lt_trichotomy j s.npollfds with h | h | h
  · rw [if_pos (by omega), if_neg (by omega), getElem?_realloc k.fresh (by omega) (by omega),
      List.getElem?_append_left (by rw [List.length_take]; omega), List.getElem?_take_of_lt h]
  · subst h
    rw [if_pos (by omega), if_neg (by omega), getElem?_realloc_npollfds hb k,
      List.getElem?_append_right (by rw [List.length_take]; omega)]
    simp [Nat.min_eq_left (show s.npollfds ≤ s.pollfds.length by omega)]
  · rw [if_neg (by omega), List.getElem?_eq_none]
    simp only [List.length_append, List.length_take, List.length_singleton]
    omega

/-- Appending an entry keeps the listeners. -/
theorem listeners_appendEntry : (s.appendEntry k idx).listeners = s.listeners := by
  have h2 := hb.pollfds
  apply List.ext_getElem?
  intro j
  simp only [listeners, appendEntry]
  rw [List.getElem?_take, List.getElem?_take, List.getElem?_drop, List.getElem?_drop,
    getElem?_memmove (by rw [length_realloc]; omega) (by rw [length_realloc]; omega)]
  by_cases h : j < s.nlisteners
  · rw [if_pos h, if_pos h, if_pos (by omega), getElem?_realloc k.fresh (by omega) (by omega)]
    congr 1
    omega
  · rw [if_neg h, if_neg h]

end AppendEntry

/-! ## Updating an entry in place -/

section ModifyEntry

variable (i : Nat) (f : Pollfd → Pollfd)

theorem bounds_modify (hb : TableBounds s) :
    TableBounds { s with pollfds := s.pollfds.modify i f } :=
  ⟨hb.idxArray, by simpa using hb.pollfds⟩

theorem fds_modify : ({ s with pollfds := s.pollfds.modify i f } : State).fds = s.fds.modify i f := by
  apply List.ext_getElem?
  intro j
  simp only [fds, List.getElem?_take, List.getElem?_modify]
  by_cases h : j < s.npollfds
  · rw [if_pos h, if_pos h]
  · rw [if_neg h, if_neg h]
    rfl

theorem listeners_modify {i : Nat} (hi : i < s.npollfds) :
    ({ s with pollfds := s.pollfds.modify i f } : State).listeners = s.listeners := by
  apply List.ext_getElem?
  intro j
  simp only [listeners, List.getElem?_take, List.getElem?_drop, List.getElem?_modify]
  simp [show i ≠ s.npollfds + j by omega]

end ModifyEntry

end State

open State

/-! ## The functions that change the table

`DropsEntry` and `KeepsTable` say what a function does to the table. -/

/-- `s'` has the table of `s` without the entry of `idx`, if there was one. -/
structure DropsEntry (s : State) (idx : Nat) (s' : State) : Prop where
  bounds : TableBounds s'
  idxs : s'.idxs = s.idxs.eraseIdx (s.findEntry idx)
  fds : s'.fds = s.fds.eraseIdx (s.findEntry idx)
  listeners : s'.listeners = s.listeners

variable {s : State}

/-- An entry that is found is removed. -/
theorem dropsEntry_removeEntry (hb : TableBounds s) {idx : Nat} (h : s.findEntry idx < s.npollfds) :
    DropsEntry s idx (s.removeEntry (s.findEntry idx)) :=
  ⟨bounds_removeEntry hb h, idxs_removeEntry hb h, fds_removeEntry hb h, listeners_removeEntry hb h⟩

/-- Nothing is removed for a sockbuf without an entry. -/
theorem dropsEntry_of_not_mem (hb : TableBounds s) {idx : Nat}
    (h : s.findEntry idx = s.npollfds) : DropsEntry s idx s := by
  refine ⟨hb, ?_, ?_, rfl⟩
  · rw [List.eraseIdx_of_length_le (Nat.le_of_eq (hb.length_idxs.trans h.symm))]
  · rw [List.eraseIdx_of_length_le (Nat.le_of_eq (hb.length_fds.trans h.symm))]

/-- The table of a state does not depend on the records. -/
theorem DropsEntry.of_update {idx : Nat} {s' : State} (f : SockbufT → SockbufT)
    (h : DropsEntry (s.update idx f) idx s') : DropsEntry s idx s' :=
  ⟨h.bounds, h.idxs, h.fds, h.listeners⟩

section SetSock

variable (k : Kernel) {idx : Nat} (flags : Flags) (hv : sockbufIsvalid s idx = true)

include hv

theorem sockbufSetSock_sockbufs (sock : Int) :
    (sockbufSetSock k s idx sock flags).sockbufs =
      (s.update idx fun sb => sb.setSock k sock flags).sockbufs := by
  rw [sockbufSetSock]
  rw [if_neg (by simp [hv])]
  dsimp only
  split
  · split <;> rfl
  · split <;> rfl

theorem sockbufSetSock_ndeletedSockbufs (sock : Int) :
    (sockbufSetSock k s idx sock flags).ndeletedSockbufs = s.ndeletedSockbufs := by
  rw [sockbufSetSock]
  rw [if_neg (by simp [hv])]
  dsimp only
  split
  · split <;> rfl
  · split <;> rfl

theorem sockbufSetSock_depth (sock : Int) :
    (sockbufSetSock k s idx sock flags).depth = s.depth := by
  rw [sockbufSetSock]
  rw [if_neg (by simp [hv])]
  dsimp only
  split
  · split <;> rfl
  · split <;> rfl

/-- The records behind `sockbuf_set_sock`. -/
theorem sbuf_sockbufSetSock (sock : Int) (j : Nat) :
    (sockbufSetSock k s idx sock flags).sbuf j =
      if idx = j ∧ idx < s.nsockbufs then (s.sbuf j).setSock k sock flags else s.sbuf j := by
  rw [← State.sbuf_update s idx (fun sb => sb.setSock k sock flags) j]
  simp only [sbuf, sockbufSetSock_sockbufs k flags hv sock]

theorem nsockbufs_sockbufSetSock (sock : Int) :
    (sockbufSetSock k s idx sock flags).nsockbufs = s.nsockbufs := by
  rw [nsockbufs, sockbufSetSock_sockbufs k flags hv sock]
  exact update_nsockbufs s idx _

/-- Setting the socket to -1 removes the entry. -/
theorem dropsEntry_sockbufSetSock (hb : TableBounds s) :
    DropsEntry s idx (sockbufSetSock k s idx (-1) flags) := by
  rw [sockbufSetSock]
  rw [if_neg (by simp [hv])]
  dsimp only
  rw [if_pos rfl]
  apply DropsEntry.of_update fun sb => sb.setSock k (-1) flags
  -- the search runs behind the write to the record, which leaves the table alone
  have hb' : TableBounds (s.update idx fun sb => sb.setSock k (-1) flags) :=
    ⟨hb.idxArray, hb.pollfds⟩
  rcases hb'.findEntry_cases idx with h | h
  · rw [if_neg (by omega)]
    exact dropsEntry_removeEntry hb' h
  · rw [if_pos h]
    exact dropsEntry_of_not_mem hb' h

variable {sock : Int} (hs : sock ≠ -1)

include hs

/-- A sockbuf that has an entry keeps it, with the new descriptor and the old `revents`. -/
theorem table_sockbufSetSock_mem (hb : TableBounds s) (hm : idx ∈ s.idxs) :
    TableBounds (sockbufSetSock k s idx sock flags) ∧
      (sockbufSetSock k s idx sock flags).idxs = s.idxs ∧
      (sockbufSetSock k s idx sock flags).fds =
        s.fds.modify (s.findEntry idx) (fun p => p.watch sock flags) ∧
      (sockbufSetSock k s idx sock flags).listeners = s.listeners := by
  have hlt := (hb.findEntry_lt_iff idx).2 hm
  rw [sockbufSetSock]
  rw [if_neg (by simp [hv])]
  dsimp only
  rw [if_neg hs, update_findEntry, update_npollfds, if_neg (by omega)]
  exact ⟨bounds_modify _ _ ⟨hb.idxArray, hb.pollfds⟩, rfl, fds_modify _ _,
    listeners_modify _ hlt⟩

/-- A sockbuf without an entry gets one behind the others, with the `revents` that the memory holds
there. -/
theorem table_sockbufSetSock_not_mem (hb : TableBounds s) (hm : idx ∉ s.idxs) :
    TableBounds (sockbufSetSock k s idx sock flags) ∧
      (sockbufSetSock k s idx sock flags).idxs = s.idxs ++ [idx] ∧
      (sockbufSetSock k s idx sock flags).fds = s.fds ++ [(s.leftover k).watch sock flags] ∧
      (sockbufSetSock k s idx sock flags).listeners = s.listeners := by
  have heq := (hb.findEntry_eq_iff idx).2 hm
  rw [sockbufSetSock]
  rw [if_neg (by simp [hv])]
  dsimp only
  rw [if_neg hs, update_findEntry, update_npollfds, if_pos heq, heq]
  have hb' : TableBounds (s.update idx fun sb => sb.setSock k sock flags) :=
    ⟨hb.idxArray, hb.pollfds⟩
  refine ⟨bounds_modify _ _ (bounds_appendEntry _ k idx), idxs_appendEntry hb' k idx, ?_, ?_⟩
  · rw [fds_modify, fds_appendEntry hb' k idx]
    have hl : (s.update idx fun sb => sb.setSock k sock flags).fds.length = s.npollfds :=
      hb'.length_fds
    rw [← hl, modify_concat]
    rfl
  · rw [listeners_modify _ (Nat.lt_succ_self _)]
    exact listeners_appendEntry hb' k idx

end SetSock

/-! ## `sockbuf_delete` -/

/-- `sockbuf_delete` removes an entry as `sockbuf_set_sock` does. -/
theorem deleteEntry_eq_removeEntry (s : State) (i : Nat) : s.deleteEntry i = s.removeEntry i := by
  simp only [deleteEntry, removeEntry, Nat.add_comm]

/-- The end of a deletion removes the entry. -/
theorem dropsEntry_sockbufDeleteFinish (hb : TableBounds s) (idx : Nat) :
    DropsEntry s idx (sockbufDeleteFinish s idx) := by
  have hb' : TableBounds (s.wipe idx) := ⟨hb.idxArray, hb.pollfds⟩
  have hd : DropsEntry (s.wipe idx) idx (sockbufDeleteFinish s idx) := by
    rw [sockbufDeleteFinish]
    rcases hb'.findEntry_cases idx with h | h
    · rw [if_neg (Nat.ne_of_lt h), deleteEntry_eq_removeEntry]
      exact dropsEntry_removeEntry hb' h
    · rw [if_pos h]
      exact dropsEntry_of_not_mem hb' h
  exact ⟨hd.bounds, hd.idxs, hd.fds, hd.listeners⟩

/-! ## `poll` -/

/-- The entries after a successful `poll`. -/
theorem fds_writeRevents (s : State) (words : List Revents) (d : Nat) :
    ({ s with depth := d, pollfds := writeRevents s words } : State).fds =
      s.fds.mapIdx fun i p => { p with revents := words.getD i {} } := by
  apply List.ext_getElem?
  intro j
  simp only [fds, writeRevents, List.getElem?_take, List.getElem?_mapIdx]
  by_cases h : j < s.npollfds
  · simp [h]
  · simp [h]

theorem bounds_writeRevents (hb : TableBounds s) (words : List Revents) (d : Nat) :
    TableBounds { s with depth := d, pollfds := writeRevents s words } :=
  ⟨hb.idxArray, by simpa [writeRevents] using hb.pollfds⟩

/-! ## Listeners -/

theorem bounds_sockbufAttachListener (hb : TableBounds s) (k : Kernel) (fd : Int) :
    TableBounds (sockbufAttachListener k s fd) := by
  refine ⟨hb.idxArray, ?_⟩
  simp only [sockbufAttachListener, List.length_set, length_realloc]
  omega

theorem fds_sockbufAttachListener (hb : TableBounds s) (k : Kernel) (fd : Int) :
    (sockbufAttachListener k s fd).fds = s.fds := by
  have h2 := hb.pollfds
  simp only [fds, sockbufAttachListener]
  rw [List.take_set_of_le (by omega), take_realloc k.fresh (by omega) (by omega)]

/-- A listener that is attached stands behind the others. -/
theorem listeners_sockbufAttachListener (hb : TableBounds s) (k : Kernel) (fd : Int) :
    (sockbufAttachListener k s fd).listeners =
      s.listeners ++ [{ fd := fd, events := { pollin := true } }] := by
  have h2 := hb.pollfds
  have htake := take_realloc_set (l := s.pollfds) (n := s.npollfds + s.nlisteners) k.fresh
    ({ fd := fd, events := { pollin := true } } : Pollfd) h2
  simp only [listeners, sockbufAttachListener]
  rw [List.take_drop, ← Nat.add_assoc, htake,
    List.drop_append_of_le_length (by rw [List.length_take]; omega), ← List.take_drop]

section RemoveListener

variable (hb : TableBounds s) {i : Nat} (hi : i < s.nlisteners)

include hb hi

theorem getElem?_removeListener (j : Nat) :
    (s.removeListener i).pollfds[j]? =
      if s.npollfds + i ≤ j ∧ j < s.npollfds + s.nlisteners - 1 then s.pollfds[j + 1]?
      else s.pollfds[j]? := by
  have h2 := hb.pollfds
  rw [removeListener, getElem?_memmove (by omega) (by omega)]
  by_cases h : s.npollfds + i ≤ j ∧ j < s.npollfds + s.nlisteners - 1
  · rw [if_pos (by omega), if_pos h]
    congr 1
    omega
  · rw [if_neg (by omega), if_neg h]

theorem bounds_removeListener : TableBounds (s.removeListener i) := by
  have h2 := hb.pollfds
  refine ⟨hb.idxArray, ?_⟩
  simp only [removeListener]
  rw [length_memmove (by omega) (by omega)]
  omega

theorem fds_removeListener : (s.removeListener i).fds = s.fds := by
  have hnp : (s.removeListener i).npollfds = s.npollfds := rfl
  apply List.ext_getElem?
  intro j
  rw [fds, hnp, List.getElem?_take, getElem?_removeListener hb hi, fds, List.getElem?_take]
  by_cases h : j < s.npollfds
  · rw [if_neg (show ¬ (s.npollfds + i ≤ j ∧ j < s.npollfds + s.nlisteners - 1) by omega)]
  · rw [if_neg h, if_neg h]

/-- A listener that is detached is taken out. -/
theorem listeners_removeListener : (s.removeListener i).listeners = s.listeners.eraseIdx i := by
  have hnp : (s.removeListener i).npollfds = s.npollfds := rfl
  have hnl : (s.removeListener i).nlisteners = s.nlisteners - 1 := rfl
  apply List.ext_getElem?
  intro j
  rw [listeners, hnp, hnl, List.getElem?_take, List.getElem?_drop, getElem?_removeListener hb hi,
    List.getElem?_eraseIdx, listeners, List.getElem?_take, List.getElem?_take, List.getElem?_drop,
    List.getElem?_drop]
  -- listeners in front of the removed one stay; those behind it move down by one
  by_cases h : j < i
  · rw [if_pos (by omega), if_neg (by omega), if_pos h, if_pos (by omega)]
  · rw [if_neg h]
    by_cases h' : j < s.nlisteners - 1
    · rw [if_pos h', if_pos (by omega), if_pos (by omega)]
      rfl
    · rw [if_neg h', if_neg (by omega)]

end RemoveListener

/-- A detach removes the first listener with the descriptor. -/
theorem table_sockbufDetachListener (hb : TableBounds s) (fd : Int) :
    TableBounds (sockbufDetachListener s fd) ∧ (sockbufDetachListener s fd).fds = s.fds ∧
      (sockbufDetachListener s fd).listeners =
        s.listeners.eraseIdx (s.listeners.findIdx fun p => p.fd == fd) := by
  -- the loop over the listeners is a search in `listeners`
  change TableBounds (if s.listeners.findIdx (fun p => p.fd == fd) < s.nlisteners then
      s.removeListener (s.listeners.findIdx fun p => p.fd == fd) else s) ∧ _
  rw [sockbufDetachListener]
  change _ ∧ State.fds (if s.listeners.findIdx (fun p => p.fd == fd) < s.nlisteners then _ else s) =
    _ ∧ State.listeners (if s.listeners.findIdx (fun p => p.fd == fd) < s.nlisteners then _ else s) = _
  split
  · next h =>
    exact ⟨bounds_removeListener hb h, fds_removeListener hb h, listeners_removeListener hb h⟩
  · next h =>
    refine ⟨hb, rfl, ?_⟩
    rw [List.eraseIdx_of_length_le (by rw [hb.length_listeners]; omega)]

/-! ## Entries by position -/

namespace State

/-- Entry `i` of the table is that of `idx`, and `p` is its cell in `pollfds`. -/
structure EntryAt (s : State) (i idx : Nat) (p : Pollfd) : Prop where
  idx : s.idxs[i]? = some idx
  cell : s.fds[i]? = some p

theorem EntryAt.congr {s' : State} {i idx : Nat} {p : Pollfd} (h : EntryAt s' i idx p)
    (hidxs : s'.idxs = s.idxs) (hfds : s'.fds = s.fds) : EntryAt s i idx p :=
  ⟨hidxs ▸ h.idx, hfds ▸ h.cell⟩

theorem EntryAt.mem {i idx : Nat} {p : Pollfd} (h : EntryAt s i idx p) : idx ∈ s.idxs :=
  List.mem_of_getElem? h.idx

/-- The position of an entry is the one that the search loop finds. -/
theorem EntryAt.findEntry (hnodup : s.idxs.Nodup) {i idx : Nat} {p : Pollfd}
    (h : EntryAt s i idx p) : s.findEntry idx = i := by
  obtain ⟨hlt, hidx⟩ := List.getElem?_eq_some_iff.1 h.idx
  rw [findEntry_eq, ← hidx, hnodup.idxOf_getElem i hlt]

/-- The entry at the position that the search loop finds is that of the sockbuf searched for. -/
theorem EntryAt.eq_of_findEntry {idx j : Nat} {p : Pollfd} (h : EntryAt s (s.findEntry idx) j p) :
    j = idx := by
  by_cases hm : idx ∈ s.idxs
  · have := (getElem?_idxs_findEntry hm).symm.trans h.idx
    exact (Option.some.inj this).symm
  · have hidx := h.idx
    rw [findEntry_eq, List.idxOf_eq_length hm, List.getElem?_eq_none (Nat.le_refl _)] at hidx
    exact absurd hidx (by simp)

/-- A sockbuf of the table has an entry. -/
theorem TableBounds.exists_entryAt (hb : TableBounds s) {idx : Nat} (h : idx ∈ s.idxs) :
    ∃ p, EntryAt s (s.findEntry idx) idx p := by
  have hlt : s.findEntry idx < s.fds.length := by
    rw [hb.length_fds]
    exact (hb.findEntry_lt_iff idx).2 h
  exact ⟨_, getElem?_idxs_findEntry h, List.getElem?_eq_getElem hlt⟩

/-- Every index of the table has an entry. -/
theorem TableBounds.entryAt_of_idx (hb : TableBounds s) {i idx : Nat} (h : s.idxs[i]? = some idx) :
    ∃ p, EntryAt s i idx p := by
  have hlt : i < s.fds.length := by
    rw [hb.length_fds, ← hb.length_idxs]
    exact (List.getElem?_eq_some_iff.1 h).1
  exact ⟨_, h, List.getElem?_eq_getElem hlt⟩

/-- The entries after the cell at one position changed. -/
theorem EntryAt.of_modify {s' : State} {e i j : Nat} {f : Pollfd → Pollfd} {p : Pollfd}
    (hidxs : s'.idxs = s.idxs) (hfds : s'.fds = s.fds.modify e f) (h : EntryAt s' i j p) :
    (i ≠ e ∧ EntryAt s i j p) ∨ (i = e ∧ ∃ q, EntryAt s i j q ∧ p = f q) := by
  have hcell := h.cell
  rw [hfds] at hcell
  by_cases he : i = e
  · subst he
    rw [List.getElem?_modify_eq] at hcell
    obtain ⟨q, hq, hp⟩ := Option.map_eq_some_iff.1 hcell
    exact Or.inr ⟨rfl, q, ⟨hidxs ▸ h.idx, hq⟩, hp.symm⟩
  · rw [List.getElem?_modify_ne _ _ (fun hc => he hc.symm)] at hcell
    exact Or.inl ⟨he, hidxs ▸ h.idx, hcell⟩

/-- The entries after one was appended. -/
theorem EntryAt.of_append {s' : State} (hb : TableBounds s) {idx i j : Nat} {p q : Pollfd}
    (hidxs : s'.idxs = s.idxs ++ [idx]) (hfds : s'.fds = s.fds ++ [q]) (h : EntryAt s' i j p) :
    EntryAt s i j p ∨ (i = s.npollfds ∧ j = idx ∧ p = q) := by
  have hidx := h.idx
  have hcell := h.cell
  rw [hidxs] at hidx
  rw [hfds] at hcell
  rcases Nat.lt_or_ge i s.npollfds with hi | hi
  · rw [List.getElem?_append_left (by rw [hb.length_idxs]; exact hi)] at hidx
    rw [List.getElem?_append_left (by rw [hb.length_fds]; exact hi)] at hcell
    exact Or.inl ⟨hidx, hcell⟩
  · rw [List.getElem?_append_right (by rw [hb.length_idxs]; exact hi), hb.length_idxs] at hidx
    rw [List.getElem?_append_right (by rw [hb.length_fds]; exact hi), hb.length_fds] at hcell
    obtain ⟨hlt, hj⟩ := List.getElem?_eq_some_iff.1 hidx
    simp only [List.length_singleton] at hlt
    have hi' : i = s.npollfds := by omega
    subst hi'
    simp only [Nat.sub_self, List.getElem?_cons_zero, Option.some.injEq] at hcell hj
    exact Or.inr ⟨rfl, by simpa using hj.symm, hcell.symm⟩

theorem fds_updateEntry (s : State) (idx : Nat) (f : Pollfd → Pollfd) :
    (s.updateEntry idx f).fds = s.fds.modify (s.findEntry idx) f := by
  rw [updateEntry]
  split
  · exact fds_modify _ f
  · next h =>
    rw [List.modify_eq_self]
    rw [fds, List.length_take]
    omega

end State

/-- The entries that are left are entries of before, at the same position or one further. -/
theorem DropsEntry.entryAt {idx : Nat} {s' : State} (h : DropsEntry s idx s') {i j : Nat}
    {p : Pollfd} (he : EntryAt s' i j p) :
    (i < s.findEntry idx ∧ EntryAt s i j p) ∨ (s.findEntry idx ≤ i ∧ EntryAt s (i + 1) j p) := by
  have hidx := he.idx
  have hcell := he.cell
  rw [h.idxs, List.getElem?_eraseIdx] at hidx
  rw [h.fds, List.getElem?_eraseIdx] at hcell
  by_cases hi : i < s.findEntry idx
  · rw [if_pos hi] at hidx hcell
    exact Or.inl ⟨hi, hidx, hcell⟩
  · rw [if_neg hi] at hidx hcell
    exact Or.inr ⟨Nat.le_of_not_lt hi, hidx, hcell⟩

/-- The sockbuf whose entry was dropped has none. -/
theorem DropsEntry.exists_entryAt {idx : Nat} {s' : State} (h : DropsEntry s idx s')
    (hnodup : s.idxs.Nodup) {i j : Nat} {p : Pollfd} (he : EntryAt s' i j p) :
    j ≠ idx ∧ ∃ i', EntryAt s i' j p := by
  rcases h.entryAt he with ⟨hi, he'⟩ | ⟨hi, he'⟩
  · refine ⟨?_, _, he'⟩
    rintro rfl
    exact absurd (he'.findEntry hnodup) (Nat.ne_of_gt hi)
  · refine ⟨?_, _, he'⟩
    rintro rfl
    have := he'.findEntry hnodup
    omega

end ExamplePrograms.Onethread.Sockbuf
