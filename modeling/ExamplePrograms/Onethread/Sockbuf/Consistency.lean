import ExamplePrograms.Onethread.Sockbuf.CleanRun

/-!
# Consistency of the poll table

`idx_array` and `pollfds` are parallel: entry `i` of both is about one sockbuf that is in use and has
a socket, every such sockbuf has exactly one entry, and behind the entries stand the listeners in
attach order. The invariant `TableInv` says so in every state of a clean run, with an exception for
the sockbuf whose deletion is in progress: it keeps its entry until its `on_delete` callbacks are done.

Most changes of the module leave the table as it is (`SameTable`). The others remove an entry
(`DropsEntry`), append one, or overwrite one in place.
-/

set_option autoImplicit false

namespace ExamplePrograms.Onethread.Sockbuf

open ExamplePrograms.Lib.Memory ExamplePrograms.Lib.Runs State

/-! ## Listeners of a trace -/

/-- The listeners after an event: an attach adds one behind the others, a detach removes the first
one with its descriptor. -/
def listenerStep (fds : List Int) : Event → List Int
  | .attachedListener fd => fds ++ [fd]
  | .detachedListener fd => fds.erase fd
  | _ => fds

/-- The descriptors of the listeners that are attached and not yet detached, in attach order. -/
def listenerFds (tr : List Event) : List Int := tr.foldl listenerStep []

/-- The listeners behind further events. -/
theorem listenerFds_append (tr es : List Event) :
    listenerFds (tr ++ es) = es.foldl listenerStep (listenerFds tr) := by
  simp only [listenerFds, List.foldl_append]

/-- Events that are not about listeners. -/
def Event.NoListener : Event → Prop
  | .attachedListener _ => False
  | .detachedListener _ => False
  | _ => True

/-- Events about other things keep the listeners. -/
theorem listenerFds_same {es : List Event} (h : ∀ e ∈ es, e.NoListener) (tr : List Event) :
    listenerFds (tr ++ es) = listenerFds tr := by
  rw [listenerFds_append]
  generalize listenerFds tr = fds
  induction es with
  | nil => rfl
  | cons e es ih =>
    have hcons : listenerStep fds e = fds := by
      have := h e List.mem_cons_self
      cases e <;> first | rfl | exact absurd this id
    rw [List.foldl_cons, hcons]
    exact ih fun e he => h e (List.mem_cons_of_mem _ he)

theorem Event.Quiet.noListener {T : Nat → Prop} {e : Event} (h : e.Quiet T) : e.NoListener := by
  cases e <;> trivial

/-- The detach loop removes the first listener with the descriptor. -/
theorem map_eraseIdx_findIdx (l : List Pollfd) (fd : Int) :
    (l.eraseIdx (l.findIdx fun p => p.fd == fd)).map Pollfd.fd = (l.map Pollfd.fd).erase fd := by
  induction l with
  | nil => rfl
  | cons p l ih =>
    by_cases h : p.fd = fd
    · simp [List.findIdx_cons, h]
    · have hne : (p.fd == fd) = false := by simpa using h
      rw [List.findIdx_cons, hne, List.map_cons, List.erase_cons, hne]
      simp only [cond_false, List.eraseIdx_cons_succ, List.map_cons, ih]
      rfl

/-! ## The invariant -/

/-- The entries of the table are those of the sockbufs with a socket, in both arrays. `d` is a sockbuf whose
deletion is in progress. -/
structure TableInv (d : Option Nat) (s : State) : Prop where
  bounds : TableBounds s
  nodup : s.idxs.Nodup
  paired : s.fds.map Pollfd.fd = s.idxs.map fun idx => (s.sbuf idx).sock
  inUse : ∀ idx ∈ s.idxs, idx < s.nsockbufs ∧ (s.sbuf idx).flags.avail = false ∧
    ((s.sbuf idx).flags.deleted = true → d = some idx) ∧ (s.sbuf idx).sock ≠ -1
  complete : ∀ idx, sockbufIsvalid s idx = true → (s.sbuf idx).sock ≠ -1 → idx ∈ s.idxs

/-- The table before the first call. -/
theorem TableInv.init : TableInv none {} :=
  ⟨⟨Nat.le_refl _, Nat.le_refl _⟩, .nil, rfl, fun _ h => absurd h List.not_mem_nil,
    fun _ h => absurd (sockbufIsvalid_iff.1 h).1 (Nat.not_lt_zero _)⟩

/-- Where no deletion is in progress, the sockbufs in the table are valid. -/
theorem TableInv.valid {s : State} (h : TableInv none s) {idx : Nat} (hm : idx ∈ s.idxs) :
    sockbufIsvalid s idx = true := by
  obtain ⟨hlt, havail, hdel, -⟩ := h.inUse idx hm
  refine sockbufIsvalid_iff.2 ⟨hlt, havail, ?_⟩
  by_contra hd
  exact absurd (hdel (by simpa using hd)) (by simp)

/-- `s'` has the table of `s`, and its sockbufs have the sockets and the states they have in `s`. -/
structure SameTable (s s' : State) : Prop where
  npollfds : s'.npollfds = s.npollfds
  nlisteners : s'.nlisteners = s.nlisteners
  idxArray : s'.idxArray = s.idxArray
  pollfds : s'.pollfds.map Pollfd.fd = s.pollfds.map Pollfd.fd
  nsockbufs : s'.nsockbufs = s.nsockbufs
  sock : ∀ j, (s'.sbuf j).sock = (s.sbuf j).sock
  avail : ∀ j, (s'.sbuf j).flags.avail = (s.sbuf j).flags.avail
  deleted : ∀ j, (s'.sbuf j).flags.deleted = (s.sbuf j).flags.deleted

namespace SameTable

variable {s s' : State}

theorem refl (s : State) : SameTable s s :=
  ⟨rfl, rfl, rfl, rfl, rfl, fun _ => rfl, fun _ => rfl, fun _ => rfl⟩

theorem trans {s'' : State} (h : SameTable s s') (h' : SameTable s' s'') : SameTable s s'' where
  npollfds := h'.npollfds.trans h.npollfds
  nlisteners := h'.nlisteners.trans h.nlisteners
  idxArray := h'.idxArray.trans h.idxArray
  pollfds := h'.pollfds.trans h.pollfds
  nsockbufs := h'.nsockbufs.trans h.nsockbufs
  sock j := (h'.sock j).trans (h.sock j)
  avail j := (h'.avail j).trans (h.avail j)
  deleted j := (h'.deleted j).trans (h.deleted j)

theorem update (s : State) (idx : Nat) {f : SockbufT → SockbufT}
    (hsock : (f (s.sbuf idx)).sock = (s.sbuf idx).sock)
    (havail : (f (s.sbuf idx)).flags.avail = (s.sbuf idx).flags.avail)
    (hdeleted : (f (s.sbuf idx)).flags.deleted = (s.sbuf idx).flags.deleted) :
    SameTable s (s.update idx f) where
  npollfds := rfl
  nlisteners := rfl
  idxArray := rfl
  pollfds := rfl
  nsockbufs := update_nsockbufs s idx f
  sock := sbuf_update_keeps s idx f SockbufT.sock hsock
  avail := sbuf_update_keeps s idx f (fun sb => sb.flags.avail) havail
  deleted := sbuf_update_keeps s idx f (fun sb => sb.flags.deleted) hdeleted

/-- A change of an entry that keeps its descriptor. -/
theorem updateEntry (s : State) (idx : Nat) {f : Pollfd → Pollfd} (hf : ∀ p, (f p).fd = p.fd) :
    SameTable s (s.updateEntry idx f) where
  npollfds := updateEntry_npollfds s idx f
  nlisteners := updateEntry_nlisteners s idx f
  idxArray := updateEntry_idxArray s idx f
  pollfds := by
    rw [State.updateEntry]
    split
    -- the modified cell has the descriptor it had
    · apply List.ext_getElem?
      intro j
      simp only [List.getElem?_map, List.getElem?_modify]
      by_cases h : s.findEntry idx = j
      · cases s.pollfds[j]? <;> simp [h, hf]
      · simp [h]
    · rfl
  nsockbufs := updateEntry_nsockbufs s idx f
  sock j := by rw [updateEntry_sbuf]
  avail j := by rw [updateEntry_sbuf]
  deleted j := by rw [updateEntry_sbuf]

theorem block (s : State) (idx : Nat) : SameTable s (sockbufBlock s idx) :=
  (update s idx rfl rfl rfl).trans (updateEntry _ idx fun _ => rfl)

theorem unblock (s : State) (idx : Nat) : SameTable s (sockbufUnblock s idx) :=
  (update s idx rfl rfl rfl).trans (updateEntry _ idx fun _ => rfl)

variable (h : SameTable s s')

include h

/-- The indices of the table are the same. -/
theorem idxs : s'.idxs = s.idxs := by
  rw [State.idxs, h.idxArray, h.npollfds, State.idxs]

theorem fds_fd : s'.fds.map Pollfd.fd = s.fds.map Pollfd.fd := by
  rw [fds, fds, List.map_take, List.map_take, h.pollfds, h.npollfds]

theorem listeners_fd : s'.listeners.map Pollfd.fd = s.listeners.map Pollfd.fd := by
  rw [listeners, listeners, List.map_take, List.map_take, List.map_drop, List.map_drop, h.pollfds,
    h.npollfds, h.nlisteners]

theorem bounds (hb : TableBounds s) : TableBounds s' := by
  have hlen : s'.pollfds.length = s.pollfds.length := by simpa using congrArg List.length h.pollfds
  have h1 := hb.idxArray
  have h2 := hb.pollfds
  exact ⟨by rw [h.npollfds, h.idxArray]; exact h1,
    by rw [h.npollfds, h.nlisteners, hlen]; exact h2⟩

/-- The same sockbufs are valid. -/
theorem isvalid (j : Nat) : sockbufIsvalid s' j = sockbufIsvalid s j := by
  rw [sockbufIsvalid, sockbufIsvalid, h.nsockbufs, h.avail, h.deleted]

/-- The invariant, for the same table. -/
theorem tableInv {d : Option Nat} (hinv : TableInv d s) : TableInv d s' where
  bounds := h.bounds hinv.bounds
  nodup := by rw [h.idxs]; exact hinv.nodup
  paired := by
    rw [h.fds_fd, h.idxs, hinv.paired]
    exact List.map_congr_left fun j _ => (h.sock j).symm
  inUse := by
    intro idx hm
    rw [h.idxs] at hm
    rw [h.nsockbufs, h.avail, h.deleted, h.sock]
    exact hinv.inUse idx hm
  complete := by
    intro idx hv hs
    rw [h.isvalid] at hv
    rw [h.sock] at hs
    rw [h.idxs]
    exact hinv.complete idx hv hs

end SameTable

/-- Every effect leaves the table as it is, or closes a sockbuf. -/
theorem Effect.sameTable_or_close {T : Nat → Prop} {s s' : State} {es : List Event}
    (h : Effect T s es s') : SameTable s s' ∨
      ∃ k idx, sockbufIsvalid s idx = true ∧ s' = sockbufSetSock k s idx (-1) {} := by
  cases h with
  | note _ => exact Or.inl (.refl s)
  | detail hf =>
    simp only [SockbufT.core, Prod.mk.injEq] at hf
    exact Or.inl (.update s _ hf.1 (by rw [hf.2.1]) (by rw [hf.2.1]))
  | connected idx => exact Or.inl (.update s idx rfl rfl rfl)
  | output _ hsock hflags _ =>
    exact Or.inl (.update s _ hsock (by rw [hflags]) (by rw [hflags]))
  | block _ => exact Or.inl (.block s _)
  | unblock _ => exact Or.inl (.unblock s _)
  | watch hf => exact Or.inl (.updateEntry s _ fun p => (hf p).1)
  | close k h => exact Or.inr ⟨k, _, h, rfl⟩

/-! ## Removing an entry -/

/-- An entry is removed by its index. -/
theorem eraseIdx_findEntry (s : State) (idx : Nat) :
    s.idxs.eraseIdx (s.findEntry idx) = s.idxs.erase idx :=
  (List.erase_eq_eraseIdx_of_idxOf (findEntry_eq idx).symm).symm

/-- Removing the entry of `idx` keeps the invariant when every other sockbuf stays as it is and `idx`
is then out of use or without a socket. -/
theorem TableInv.drop {d d' : Option Nat} {s s' : State} {idx : Nat} (hinv : TableInv d s)
    (hdrop : DropsEntry s idx s') (hns : s'.nsockbufs = s.nsockbufs)
    (hother : ∀ j, j ≠ idx → s'.sbuf j = s.sbuf j)
    (hidx : sockbufIsvalid s' idx = true → (s'.sbuf idx).sock = -1)
    (hd : ∀ j, j ≠ idx → d = some j → d' = some j) : TableInv d' s' := by
  have hidxs : s'.idxs = s.idxs.erase idx :=
    hdrop.idxs.trans (eraseIdx_findEntry s idx)
  have hmem : ∀ j, j ∈ s'.idxs ↔ j ≠ idx ∧ j ∈ s.idxs := fun j => by
    rw [hidxs, hinv.nodup.mem_erase_iff]
  refine ⟨hdrop.bounds, ?_, ?_, ?_, ?_⟩
  · rw [hidxs]
    exact hinv.nodup.erase idx
  -- the records of the entries that are left are those of `s`
  · have hmap : s'.idxs.map (fun j => (s'.sbuf j).sock) = s'.idxs.map fun j => (s.sbuf j).sock :=
      List.map_congr_left fun j hj => by rw [hother j ((hmem j).1 hj).1]
    rw [hmap, hdrop.fds, hdrop.idxs, ← List.eraseIdx_map, ← List.eraseIdx_map, hinv.paired]
  · intro j hj
    obtain ⟨hne, hj⟩ := (hmem j).1 hj
    obtain ⟨hlt, havail, hdel, hsock⟩ := hinv.inUse j hj
    rw [hns, hother j hne]
    exact ⟨hlt, havail, fun h => hd j hne (hdel h), hsock⟩
  · intro j hv hs
    -- `idx` itself has no socket any more, so it needs no entry
    by_cases hne : j = idx
    · subst hne
      exact absurd (hidx hv) hs
    · rw [sockbufIsvalid, hns, hother j hne] at hv
      rw [hother j hne] at hs
      exact (hmem j).2 ⟨hne, hinv.complete j hv hs⟩

/-! ## `sockbuf_set_sock` -/

theorem nodup_concat {l : List Nat} {a : Nat} (hl : l.Nodup) (ha : a ∉ l) : (l ++ [a]).Nodup := by
  refine List.nodup_append.2 ⟨hl, by simp, ?_⟩
  rintro x hx y hy rfl
  exact ha (List.mem_singleton.1 hy ▸ hx)

section SetSock

variable {s : State} {k : Kernel} {idx : Nat} {flags : Flags}

theorem setSock_sock (sb : SockbufT) (sock : Int) : (sb.setSock k sock flags).sock = sock := by
  rw [SockbufT.setSock]
  dsimp only
  split <;> rfl

theorem setSock_flags (sb : SockbufT) (sock : Int) :
    (sb.setSock k sock flags).flags = sb.flags.reconnect flags := by
  rw [SockbufT.setSock]
  dsimp only
  split <;> rfl

/-- The buffer, the filters and the statistics do not depend on the socket. -/
theorem setSock_output (sb : SockbufT) (sock : Int) :
    (sb.setSock k sock flags).data = sb.data ∧ (sb.setSock k sock flags).len = sb.len ∧
      (sb.setSock k sock flags).filters = sb.filters ∧
      (sb.setSock k sock flags).nfilters = sb.nfilters ∧
      (sb.setSock k sock flags).stats = sb.stats := by
  rw [SockbufT.setSock]
  dsimp only
  split <;> exact ⟨rfl, rfl, rfl, rfl, rfl⟩

/-- A change of the flags that keeps the marks. -/
theorem reconnect_marks {old new : Flags} (h : new.Connection) :
    (old.reconnect new).deleted = old.deleted ∧ (old.reconnect new).avail = old.avail := by
  simp [Flags.reconnect, h.1, h.2]

/-- A change of the socket keeps the valid sockbufs. -/
theorem isvalid_sockbufSetSock (hflags : flags.Connection) (hv : sockbufIsvalid s idx = true)
    (sock : Int) (j : Nat) :
    sockbufIsvalid (sockbufSetSock k s idx sock flags) j = sockbufIsvalid s j := by
  rw [sockbufIsvalid, sockbufIsvalid, nsockbufs_sockbufSetSock k flags hv,
    sbuf_sockbufSetSock k flags hv]
  split
  · rw [setSock_flags, (reconnect_marks hflags).1, (reconnect_marks hflags).2]
  · rfl

theorem sbuf_sockbufSetSock_self (hv : sockbufIsvalid s idx = true) (sock : Int) :
    (sockbufSetSock k s idx sock flags).sbuf idx = (s.sbuf idx).setSock k sock flags := by
  rw [sbuf_sockbufSetSock k flags hv, if_pos ⟨rfl, (sockbufIsvalid_iff.1 hv).1⟩]

theorem sbuf_sockbufSetSock_ne (hv : sockbufIsvalid s idx = true) (sock : Int) {j : Nat}
    (h : j ≠ idx) : (sockbufSetSock k s idx sock flags).sbuf j = s.sbuf j := by
  rw [sbuf_sockbufSetSock k flags hv, if_neg fun hc => h hc.1.symm]

/-- A socket that is taken away takes its entry with it. -/
theorem TableInv.removeSock (hinv : TableInv none s) (hv : sockbufIsvalid s idx = true) :
    TableInv none (sockbufSetSock k s idx (-1) flags) :=
  hinv.drop (dropsEntry_sockbufSetSock k flags hv hinv.bounds)
    (nsockbufs_sockbufSetSock k flags hv (-1)) (fun _ h => sbuf_sockbufSetSock_ne hv (-1) h)
    (fun _ => by rw [sbuf_sockbufSetSock_self hv, setSock_sock]) (fun _ _ h => h)

/-- The sockbufs in the table are in use. -/
theorem TableInv.inUse_setSock (hinv : TableInv none s) (hflags : flags.Connection)
    (hv : sockbufIsvalid s idx = true) {sock : Int} (hs : sock ≠ -1) {j : Nat}
    (hj : j ∈ s.idxs ∨ j = idx) :
    j < (sockbufSetSock k s idx sock flags).nsockbufs ∧
      ((sockbufSetSock k s idx sock flags).sbuf j).flags.avail = false ∧
      (((sockbufSetSock k s idx sock flags).sbuf j).flags.deleted = true → none = some j) ∧
      ((sockbufSetSock k s idx sock flags).sbuf j).sock ≠ -1 := by
  by_cases hne : j = idx
  · subst hne
    obtain ⟨hlt, havail, hdel⟩ := sockbufIsvalid_iff.1 hv
    rw [nsockbufs_sockbufSetSock k flags hv, sbuf_sockbufSetSock_self hv, setSock_flags,
      setSock_sock, (reconnect_marks hflags).1, (reconnect_marks hflags).2]
    exact ⟨hlt, havail, fun h => absurd (hdel.symm.trans h) (by simp), hs⟩
  · rw [nsockbufs_sockbufSetSock k flags hv, sbuf_sockbufSetSock_ne hv sock hne]
    exact hinv.inUse j (hj.resolve_right hne)

/-- A socket that is given to a sockbuf gives it an entry. -/
theorem TableInv.giveSock (hinv : TableInv none s) (hflags : flags.Connection)
    (hv : sockbufIsvalid s idx = true) {sock : Int} (hs : sock ≠ -1) :
    TableInv none (sockbufSetSock k s idx sock flags) := by
  have hcomplete : ∀ j, sockbufIsvalid (sockbufSetSock k s idx sock flags) j = true →
      ((sockbufSetSock k s idx sock flags).sbuf j).sock ≠ -1 → j ∈ s.idxs ∨ j = idx := by
    intro j hv' hs'
    by_cases hne : j = idx
    · exact Or.inr hne
    · rw [isvalid_sockbufSetSock hflags hv] at hv'
      rw [sbuf_sockbufSetSock_ne hv sock hne] at hs'
      exact Or.inl (hinv.complete j hv' hs')
  -- `idx` has an entry, which is overwritten, or gets one behind the others
  by_cases hm : idx ∈ s.idxs
  · obtain ⟨hb, hidxs, hfds, -⟩ := table_sockbufSetSock_mem k flags hv hs hinv.bounds hm
    refine ⟨hb, by rw [hidxs]; exact hinv.nodup, ?_, ?_, ?_⟩
    · apply List.ext_getElem?
      intro j
      have hpair := congrArg (fun l => l[j]?) hinv.paired
      simp only [List.getElem?_map] at hpair
      rw [hfds, hidxs, List.getElem?_map, List.getElem?_map]
      by_cases hj : s.findEntry idx = j
      · subst hj
        have hlen : s.findEntry idx < s.fds.length := by
          rw [hinv.bounds.length_fds]
          exact (hinv.bounds.findEntry_lt_iff idx).2 hm
        rw [List.getElem?_modify_eq, getElem?_idxs_findEntry hm, List.getElem?_eq_getElem hlen]
        simp [Pollfd.watch, sbuf_sockbufSetSock_self hv, setSock_sock]
      · rw [List.getElem?_modify_ne _ _ hj, hpair]
        cases hget : s.idxs[j]? with
        | none => rfl
        | some x =>
          -- without duplicates no other entry is about `idx`
          have hne : x ≠ idx := by
            rintro rfl
            obtain ⟨hlt, hx⟩ := List.getElem?_eq_some_iff.1 hget
            exact hj (by rw [findEntry_eq, ← hx, hinv.nodup.idxOf_getElem j hlt])
          simp [sbuf_sockbufSetSock_ne hv sock hne]
    · intro j hj
      rw [hidxs] at hj
      exact hinv.inUse_setSock hflags hv hs (Or.inl hj)
    · intro j hv' hs'
      rw [hidxs]
      rcases hcomplete j hv' hs' with h | h
      · exact h
      · exact h ▸ hm
  · obtain ⟨hb, hidxs, hfds, -⟩ := table_sockbufSetSock_not_mem k flags hv hs hinv.bounds hm
    refine ⟨hb, ?_, ?_, ?_, ?_⟩
    · rw [hidxs]
      exact nodup_concat hinv.nodup hm
    · have hmap : s.idxs.map (fun j => ((sockbufSetSock k s idx sock flags).sbuf j).sock) =
          s.idxs.map fun j => (s.sbuf j).sock :=
        List.map_congr_left fun j hj => by
          rw [sbuf_sockbufSetSock_ne hv sock (fun h => hm (h ▸ hj))]
      rw [hfds, hidxs, List.map_append, List.map_append, hmap, hinv.paired]
      simp [Pollfd.watch, sbuf_sockbufSetSock_self hv, setSock_sock]
    · intro j hj
      rw [hidxs, List.mem_append, List.mem_singleton] at hj
      exact hinv.inUse_setSock hflags hv hs hj
    · intro j hv' hs'
      rw [hidxs, List.mem_append, List.mem_singleton]
      exact hcomplete j hv' hs'

/-- **`sockbuf_set_sock`** keeps the invariant. -/
theorem TableInv.setSock (hinv : TableInv none s) (hflags : flags.Connection) (sock : Int) :
    TableInv none (sockbufSetSock k s idx sock flags) := by
  cases hv : sockbufIsvalid s idx with
  | false =>
    rw [sockbufSetSock, if_pos hv]
    exact hinv
  | true =>
    by_cases hs : sock = -1
    · subst hs
      exact hinv.removeSock hv
    · exact hinv.giveSock hflags hv hs

theorem listeners_sockbufSetSock (hb : TableBounds s) (sock : Int) :
    (sockbufSetSock k s idx sock flags).listeners = s.listeners := by
  cases hv : sockbufIsvalid s idx with
  | false => rw [sockbufSetSock, if_pos hv]
  | true =>
    by_cases hs : sock = -1
    · subst hs
      exact (dropsEntry_sockbufSetSock k flags hv hb).listeners
    · by_cases hm : idx ∈ s.idxs
      · exact (table_sockbufSetSock_mem k flags hv hs hb hm).2.2.2
      · exact (table_sockbufSetSock_not_mem k flags hv hs hb hm).2.2.2

end SetSock

/-- No function without a structural change makes a sockbuf valid or invalid. -/
theorem Mild.isvalid {T : Nat → Prop} {s : State} {o : Outcome} (h : Mild T s o) (j : Nat) :
    sockbufIsvalid o.st j = sockbufIsvalid s j := by
  refine h.evolve.keeps (P := fun s' => sockbufIsvalid s' j = sockbufIsvalid s j)
    (fun s₁ es s₂ hs he => ?_) rfl
  rcases he.sameTable_or_close with hsame | ⟨k, idx, hv, rfl⟩
  · exact (hsame.isvalid j).trans hs
  · exact (isvalid_sockbufSetSock ⟨rfl, rfl⟩ hv (-1) j).trans hs

/-! ## Creation and deletion -/

section Slots

variable {s : State}

/-- The slot that `sockbuf_new` takes is not in the table. -/
theorem TableInv.firstAvail_not_mem {d : Option Nat} (hinv : TableInv d s) :
    firstAvail s ∉ s.idxs := by
  intro hm
  obtain ⟨hlt, havail, -⟩ := hinv.inUse _ hm
  exact absurd (avail_firstAvail hlt) (by simp [havail])

/-- **`sockbuf_new`** keeps the invariant. -/
theorem TableInv.sockbufNew (hinv : TableInv none s) : TableInv none (sockbufNew s).1 := by
  have hsame : ∀ j ∈ s.idxs, (Sockbuf.sockbufNew s).1.sbuf j = s.sbuf j := fun j hj =>
    sbuf_sockbufNew_old (fun h => hinv.firstAvail_not_mem (h ▸ hj)) (hinv.inUse j hj).1
  refine ⟨⟨hinv.bounds.idxArray, hinv.bounds.pollfds⟩, hinv.nodup, ?_, ?_, ?_⟩
  · have hmap : s.idxs.map (fun j => ((Sockbuf.sockbufNew s).1.sbuf j).sock) =
        s.idxs.map fun j => (s.sbuf j).sock :=
      List.map_congr_left fun j hj => by rw [hsame j hj]
    exact hinv.paired.trans hmap.symm
  · intro j hj
    have hlt := (hinv.inUse j hj).1
    rw [hsame j hj]
    exact ⟨Nat.lt_of_lt_of_le hlt (nsockbufs_le_sockbufNew s), (hinv.inUse j hj).2⟩
  · intro j hv hs
    -- the new sockbuf has no socket
    by_cases hne : j = firstAvail s
    · rw [hne, sbuf_sockbufNew_self] at hs
      exact absurd rfl hs
    · obtain ⟨hold, hrecord⟩ := sockbufIsvalid_of_sockbufNew hv hne
      rw [hrecord] at hs
      exact hinv.complete j hold hs

/-- **`sockbuf_delete`** marks the sockbuf, whose entry stays. -/
theorem TableInv.mark {idx : Nat} (hinv : TableInv none s) :
    TableInv (some idx)
      (s.update idx fun sb => { sb with flags := { sb.flags with deleted := true } }) := by
  generalize hs' : (s.update idx fun sb =>
    { sb with flags := { sb.flags with deleted := true } }) = s'
  have hns : s'.nsockbufs = s.nsockbufs := by rw [← hs', update_nsockbufs]
  have hsock : ∀ j, (s'.sbuf j).sock = (s.sbuf j).sock := by
    subst hs'
    exact sbuf_update_keeps s idx _ SockbufT.sock rfl
  have havail : ∀ j, (s'.sbuf j).flags.avail = (s.sbuf j).flags.avail := by
    subst hs'
    exact sbuf_update_keeps s idx _ (fun sb => sb.flags.avail) rfl
  have hdel : ∀ j, (s'.sbuf j).flags.deleted = true →
      (s.sbuf j).flags.deleted = true ∨ idx = j := by
    intro j
    subst hs'
    rw [sbuf_update]
    split
    · next h => exact fun _ => Or.inr h.1
    · exact Or.inl
  have hidxs : s'.idxs = s.idxs := by subst hs'; rfl
  refine ⟨?_, hidxs ▸ hinv.nodup, ?_, ?_, ?_⟩
  · subst hs'
    exact ⟨hinv.bounds.idxArray, hinv.bounds.pollfds⟩
  · have hfds : s'.fds = s.fds := by subst hs'; rfl
    rw [hfds, hidxs, hinv.paired]
    exact List.map_congr_left fun j _ => (hsock j).symm
  · intro j hj
    rw [hidxs] at hj
    obtain ⟨hlt, hav, hd, hso⟩ := hinv.inUse j hj
    rw [hns, havail, hsock]
    refine ⟨hlt, hav, fun h => ?_, hso⟩
    rcases hdel j h with h | h
    -- no other sockbuf in the table was being deleted
    · exact absurd (hd h) (by simp)
    · rw [h]
  · intro j hv hso
    rw [hidxs]
    rw [hsock] at hso
    subst hs'
    exact hinv.complete j (sockbufIsvalid_of_mark hv).1 hso

/-- The end of the deletion removes the entry. -/
theorem TableInv.deleteFinish {idx : Nat} (hinv : TableInv (some idx) s) :
    TableInv none (sockbufDeleteFinish s idx) := by
  refine hinv.drop (dropsEntry_sockbufDeleteFinish hinv.bounds idx)
    (sockbufDeleteFinish_nsockbufs s idx) (fun j h => ?_) (fun hv => ?_) (fun j h hd => ?_)
  · rw [sbuf_sockbufDeleteFinish, if_neg fun hc => h hc.1.symm]
  · obtain ⟨hlt, -, hdel⟩ := sockbufIsvalid_iff.1 hv
    rw [sockbufDeleteFinish_nsockbufs] at hlt
    rw [sbuf_sockbufDeleteFinish, if_pos ⟨rfl, hlt⟩] at hdel
    exact absurd hdel (by simp [deletedSlot])
  · exact absurd (Option.some.inj hd).symm h

/-- The end of a pass keeps the invariant. -/
theorem TableInv.updateFinish (hinv : TableInv none s) : TableInv none (updateFinish s).st := by
  have htable : (Sockbuf.updateFinish s).st.idxs = s.idxs ∧
      (Sockbuf.updateFinish s).st.fds = s.fds ∧ TableBounds (Sockbuf.updateFinish s).st := by
    rcases (updateFinish_cases s).2.2 with h | h
    · rw [h]
      exact ⟨rfl, rfl, hinv.bounds.idxArray, hinv.bounds.pollfds⟩
    · rw [h]
      exact ⟨rfl, rfl, hinv.bounds.idxArray, hinv.bounds.pollfds⟩
  -- only deleted slots are reclaimed, and those in the table are not deleted
  have hsame : ∀ j ∈ s.idxs, (Sockbuf.updateFinish s).st.sbuf j = s.sbuf j := by
    intro j hj
    rcases sbuf_updateFinish s j with h | ⟨hdel, -⟩
    · exact h
    · exact absurd ((hinv.inUse j hj).2.2.1 hdel) (by simp)
  refine ⟨htable.2.2, htable.1 ▸ hinv.nodup, ?_, ?_, ?_⟩
  · rw [htable.1, htable.2.1, hinv.paired]
    exact List.map_congr_left fun j hj => by rw [hsame j hj]
  · intro j hj
    rw [htable.1] at hj
    rw [nsockbufs_updateFinish, hsame j hj]
    exact hinv.inUse j hj
  · intro j hv hs
    rw [htable.1]
    obtain ⟨hlt, havail, hdel⟩ := sockbufIsvalid_iff.1 hv
    rw [nsockbufs_updateFinish] at hlt
    rcases sbuf_updateFinish s j with h | ⟨-, h⟩
    · rw [h] at havail hdel hs
      exact hinv.complete j (sockbufIsvalid_iff.2 ⟨hlt, havail, hdel⟩) hs
    -- a reclaimed slot is available, so it is not valid
    · rw [h] at havail
      exact absurd havail (by simp)

end Slots

/-! ## The event loop and the listeners -/

section Tables

variable {s : State}

/-- A poll writes no descriptor. -/
theorem SameTable.poll (s : State) (words : List Revents) (d : Nat) :
    SameTable s { s with depth := d, pollfds := writeRevents s words } := by
  refine ⟨rfl, rfl, rfl, ?_, rfl, fun _ => rfl, fun _ => rfl, fun _ => rfl⟩
  apply List.ext_getElem?
  intro j
  simp only [writeRevents, List.getElem?_map, List.getElem?_mapIdx]
  cases s.pollfds[j]? with
  | none => rfl
  | some p =>
    simp only [Option.map_some]
    split <;> rfl

/-- The begin of a pass keeps the table. -/
theorem SameTable.sockbufUpdateAll (k : Kernel) (s : State) :
    SameTable s (sockbufUpdateAll k s).st := by
  rw [Sockbuf.sockbufUpdateAll]
  split
  · exact ⟨rfl, rfl, rfl, rfl, rfl, fun _ => rfl, fun _ => rfl, fun _ => rfl⟩
  · exact .poll s _ _

theorem noListener_sockbufUpdateAll (k : Kernel) (s : State) :
    ∀ e ∈ (sockbufUpdateAll k s).events, e.NoListener := by
  intro e he
  rcases mem_events_sockbufUpdateAll he with rfl | rfl | ⟨reports, rfl⟩ <;> trivial

theorem noListener_attachEvents (s : State) (idx : Nat) (sock : Int) :
    ∀ e ∈ attachEvents s idx sock, e.NoListener := by
  intro e he
  rw [attachEvents] at he
  split at he
  · rw [List.mem_singleton.1 he]
    trivial
  · exact absurd he List.not_mem_nil

/-- A state with another listener segment and the same entries. -/
theorem TableInv.of_listeners {d : Option Nat} {s' : State} (hinv : TableInv d s)
    (hb : TableBounds s') (hidxs : s'.idxs = s.idxs) (hfds : s'.fds = s.fds)
    (hns : s'.nsockbufs = s.nsockbufs) (hsbuf : ∀ j, s'.sbuf j = s.sbuf j) : TableInv d s' := by
  refine ⟨hb, hidxs ▸ hinv.nodup, ?_, ?_, ?_⟩
  · rw [hfds, hidxs, hinv.paired]
    exact List.map_congr_left fun j _ => by rw [hsbuf]
  · intro j hj
    rw [hidxs] at hj
    rw [hns, hsbuf]
    exact hinv.inUse j hj
  · intro j hv hs
    rw [sockbufIsvalid, hns, hsbuf] at hv
    rw [hsbuf] at hs
    rw [hidxs]
    exact hinv.complete j hv hs

/-- **`sockbuf_attach_listener`** keeps the invariant. -/
theorem TableInv.attachListener {d : Option Nat} (hinv : TableInv d s) (k : Kernel) (fd : Int) :
    TableInv d (sockbufAttachListener k s fd) :=
  hinv.of_listeners (bounds_sockbufAttachListener hinv.bounds k fd) rfl
    (fds_sockbufAttachListener hinv.bounds k fd) rfl fun _ => rfl

/-- **`sockbuf_detach_listener`** keeps the invariant. -/
theorem TableInv.detachListener {d : Option Nat} (hinv : TableInv d s) (fd : Int) :
    TableInv d (sockbufDetachListener s fd) := by
  obtain ⟨hb, hfds, -⟩ := table_sockbufDetachListener hinv.bounds fd
  have hrest : (sockbufDetachListener s fd).sockbufs = s.sockbufs ∧
      (sockbufDetachListener s fd).idxs = s.idxs := by
    rw [sockbufDetachListener]
    split <;> exact ⟨rfl, rfl⟩
  refine hinv.of_listeners hb hrest.2 hfds ?_ fun j => ?_
  · rw [nsockbufs, nsockbufs, hrest.1]
  · rw [sbuf, sbuf, hrest.1]

end Tables

/-! ## Clean runs -/

/-- No condition on the arguments of `sockbuf_set_sock`. -/
abbrev anySock : SockGuard := fun _ _ _ _ => True

/-- The table invariant with the listeners of the trace. -/
def ListenedTable (d : Option Nat) (s : State) (tr : List Event) : Prop :=
  TableInv d s ∧ s.listeners.map Pollfd.fd = listenerFds tr

/-- The parts of `ListenedTable` for a function that is not about listeners. -/
theorem ListenedTable.of_tableInv {d d' : Option Nat} {s s' : State} {tr es : List Event}
    (h : ListenedTable d s tr) (hinv : TableInv d' s') (hes : ∀ e ∈ es, e.NoListener)
    (hl : s'.listeners.map Pollfd.fd = s.listeners.map Pollfd.fd) : ListenedTable d' s' (tr ++ es) :=
  ⟨hinv, by rw [hl, h.2, listenerFds_same hes]⟩

/-- The invariant holds through clean runs. -/
theorem cleanInvariant_tableJ {G : SockGuard}
    (haccept : ∀ s sock, G (sockbufNew s).1 (sockbufNew s).2 sock { inbound := true }) :
    CleanInvariant G ListenedTable where
  effect {s s' es tr} h he := by
    have hes : ∀ e ∈ es, e.NoListener := fun e hmem => (he.quiet e hmem).noListener
    rcases he.sameTable_or_close with hsame | ⟨k, idx, hv, rfl⟩
    · exact h.of_tableInv (hsame.tableInv h.1) hes hsame.listeners_fd
    · exact h.of_tableInv (h.1.removeSock hv) hes (by rw [listeners_sockbufSetSock h.1.bounds])
  create h := h.of_tableInv h.1.sockbufNew (by simp [Event.NoListener]) rfl
  setSock k idx sock flags h hflags _ := by
    exact h.of_tableInv (h.1.setSock hflags sock) (noListener_attachEvents _ idx sock)
      (by rw [listeners_sockbufSetSock h.1.bounds])
  accept := haccept
  mark h _ := h.of_tableInv h.1.mark (by simp [Event.NoListener]) rfl
  deleteCallback cb h := h.of_tableInv h.1 (by simp [Event.NoListener]) rfl
  deleteFinish {s tr idx} h := by
    have hfinish : ListenedTable none (sockbufDeleteFinish s idx) (tr ++ []) :=
      h.of_tableInv h.1.deleteFinish (fun _ he => absurd he List.not_mem_nil)
        (by rw [(dropsEntry_sockbufDeleteFinish h.1.bounds idx).listeners])
    simpa using hfinish
  attachListener k fd h := by
    refine ⟨h.1.attachListener k fd, ?_⟩
    rw [listenerFds_append, listeners_sockbufAttachListener h.1.bounds, List.map_append, h.2]
    rfl
  detachListener fd h := by
    refine ⟨h.1.detachListener fd, ?_⟩
    rw [listenerFds_append, (table_sockbufDetachListener h.1.bounds fd).2.2, map_eraseIdx_findIdx,
      h.2]
    rfl
  poll {s tr} k h := h.of_tableInv ((SameTable.sockbufUpdateAll k s).tableInv h.1)
    (noListener_sockbufUpdateAll k s) (SameTable.sockbufUpdateAll k s).listeners_fd
  dispatch idx kind h := h.of_tableInv h.1 (by simp [Event.NoListener]) rfl
  finish {s tr} h := by
    refine h.of_tableInv h.1.updateFinish (by simp [(updateFinish_cases s).1, Event.NoListener]) ?_
    rcases (updateFinish_cases s).2.2 with hs | hs
    · rw [hs]; rfl
    · rw [hs]; rfl

theorem ListenedTable.init : ListenedTable none {} [] := ⟨.init, rfl⟩

/-- Two parallel arrays without duplicates, and the listeners behind them. -/
structure TableConsistent (s : State) (tr : List Event) : Prop where
  bounds : TableBounds s
  nodup : s.idxs.Nodup
  valid : ∀ idx ∈ s.idxs, sockbufIsvalid s idx = true
  paired : s.fds.map Pollfd.fd = s.idxs.map fun idx => (s.sbuf idx).sock
  sock : ∀ idx ∈ s.idxs, (s.sbuf idx).sock ≠ -1
  complete : ∀ idx, sockbufIsvalid s idx = true → (s.sbuf idx).sock ≠ -1 → idx ∈ s.idxs
  listeners : s.listeners.map Pollfd.fd = listenerFds tr

/-- **The poll table is consistent** in every state of a clean run, outside `sockbuf_delete`. -/
theorem poll_table_consistent {c : Config} (h : Run step (Clean anySock) start c)
    (hs : Settled c) : TableConsistent c.st c.trace := by
  obtain ⟨hinv, hl⟩ :=
    (cleanInvariant_tableJ (G := anySock) fun _ _ => trivial).settled .init h hs
  exact ⟨hinv.bounds, hinv.nodup, fun _ hm => hinv.valid hm, hinv.paired,
    fun _ hm => (hinv.inUse _ hm).2.2.2, hinv.complete, hl⟩

/-- Sockbufs 0 and 1 in front of listeners 3 and 4; sockbuf 0 is deleted and listener 3 detached. -/
def shiftRun : List Action :=
  [.call .new {}, .call (.attachListener 3) {}, .call (.setSock 0 5 {}) {},
    .call (.attachListener 4) {}, .call .new {}, .call (.setSock 1 6 {}) {},
    .call (.delete 0) {}, .run {}, .run {}, .call (.detachListener 3) {}]

/-- A sockbuf deleted before another one and a listener. -/
theorem poll_table_consistent_shift :
    ∃ c, execute step (Clean anySock) start shiftRun = some c ∧
      c.st.idxs = [1] ∧ listenerFds c.trace = [4] ∧ TableConsistent c.st c.trace :=
  ⟨_, rfl, rfl, rfl, poll_table_consistent (run_of_execute shiftRun rfl) (by decide)⟩

end ExamplePrograms.Onethread.Sockbuf
