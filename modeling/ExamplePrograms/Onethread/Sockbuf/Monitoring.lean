import ExamplePrograms.Onethread.Sockbuf.Changes

/-!
# What is monitored

`poll` is given the entries in front of the listeners and none of the listeners. So every valid sockbuf
that has a socket is monitored, in every run, but a listener only where a sockbuf happens to have an
entry for the same descriptor (`monitors_iff`).
-/

set_option autoImplicit false

namespace ExamplePrograms.Onethread.Sockbuf

open ExamplePrograms.Lib.Runs State

/-- The descriptors that `poll(pollfds, npollfds, timeout)` is given. -/
def pollArgument (s : State) : List Int := (s.pollfds.take s.npollfds).map Pollfd.fd

/-- The sockbuf has an entry for the descriptor. -/
def Watches (s : State) (idx : Nat) (fd : Int) : Prop := ∃ i p, EntryAt s i idx p ∧ p.fd = fd

/-- A call of `poll` in the state `s` monitors the sockets of all sockbufs and the listeners. -/
structure Monitors (s : State) (listeners : List Int) : Prop where
  sockets : ∀ idx, sockbufIsvalid s idx = true → (s.sbuf idx).sock ≠ -1 →
    (s.sbuf idx).sock ∈ pollArgument s
  listeners : ∀ fd ∈ listeners, fd ∈ pollArgument s

/-! ## Entries that stay -/

section Entries

variable {s s' : State} {i j idx : Nat} {p q : Pollfd}

theorem State.EntryAt.of_same (hidxs : s'.idxs = s.idxs) (hfds : s'.fds = s.fds) (h : EntryAt s i j p) :
    EntryAt s' i j p :=
  h.congr hidxs.symm hfds.symm

/-- An entry behind a change of an entry. -/
theorem State.EntryAt.modify {e : Nat} {f : Pollfd → Pollfd} (hidxs : s'.idxs = s.idxs)
    (hfds : s'.fds = s.fds.modify e f) (h : EntryAt s i j p) :
    EntryAt s' i j (if i = e then f p else p) := by
  refine ⟨hidxs ▸ h.idx, ?_⟩
  rw [hfds]
  by_cases he : i = e
  · subst he
    rw [List.getElem?_modify_eq, h.cell, if_pos rfl]
    rfl
  · rw [List.getElem?_modify_ne _ _ (Ne.symm he), h.cell, if_neg he]

/-- The entries stay when another one is appended. -/
theorem State.EntryAt.append (hidxs : s'.idxs = s.idxs ++ [idx]) (hfds : s'.fds = s.fds ++ [q])
    (h : EntryAt s i j p) : EntryAt s' i j p := by
  refine ⟨?_, ?_⟩
  · rw [hidxs, List.getElem?_append_left (List.getElem?_eq_some_iff.1 h.idx).1]
    exact h.idx
  · rw [hfds, List.getElem?_append_left (List.getElem?_eq_some_iff.1 h.cell).1]
    exact h.cell

theorem entryAt_last (hb : TableBounds s) (hidxs : s'.idxs = s.idxs ++ [idx])
    (hfds : s'.fds = s.fds ++ [q]) : EntryAt s' s.npollfds idx q := by
  refine ⟨?_, ?_⟩
  · rw [hidxs, List.getElem?_append_right (Nat.le_of_eq hb.length_idxs), hb.length_idxs, Nat.sub_self]
    rfl
  · rw [hfds, List.getElem?_append_right (Nat.le_of_eq hb.length_fds), hb.length_fds, Nat.sub_self]
    rfl

/-- The entries of the other sockbufs stay when one is dropped. -/
theorem DropsEntry.watches (h : DropsEntry s idx s') (hne : j ≠ idx) {fd : Int}
    (hw : Watches s j fd) : Watches s' j fd := by
  obtain ⟨i, p, he, hfd⟩ := hw
  have hi : i ≠ s.findEntry idx := by
    rintro rfl
    exact hne he.eq_of_findEntry
  by_cases hlt : i < s.findEntry idx
  · refine ⟨i, p, ⟨?_, ?_⟩, hfd⟩
    · rw [h.idxs, List.getElem?_eraseIdx, if_pos hlt]
      exact he.idx
    · rw [h.fds, List.getElem?_eraseIdx, if_pos hlt]
      exact he.cell
  · obtain ⟨k, rfl⟩ : ∃ k, i = k + 1 := ⟨i - 1, by omega⟩
    have hge : ¬ k < s.findEntry idx := by omega
    refine ⟨k, p, ⟨?_, ?_⟩, hfd⟩
    · rw [h.idxs, List.getElem?_eraseIdx, if_neg hge]
      exact he.idx
    · rw [h.fds, List.getElem?_eraseIdx, if_neg hge]
      exact he.cell

theorem SameTable.watches (h : SameTable s s') {fd : Int} (hw : Watches s j fd) : Watches s' j fd := by
  obtain ⟨i, p, he, hfd⟩ := hw
  have hcell : (s'.fds.map Pollfd.fd)[i]? = some p.fd := by
    rw [h.fds_fd, List.getElem?_map, he.cell]
    rfl
  rw [List.getElem?_map] at hcell
  obtain ⟨q, hq, hqfd⟩ := Option.map_eq_some_iff.1 hcell
  exact ⟨i, q, ⟨h.idxs ▸ he.idx, hq⟩, hqfd.trans hfd⟩

end Entries

/-! ## The invariant -/

/-- Every valid sockbuf with a socket has an entry for it. -/
structure Monitored (s : State) : Prop where
  bounds : TableBounds s
  nodup : s.idxs.Nodup
  sockets : ∀ idx, sockbufIsvalid s idx = true → (s.sbuf idx).sock ≠ -1 →
    Watches s idx (s.sbuf idx).sock

namespace Monitored

variable {s s' : State}

/-- A change that keeps the table. -/
theorem sameTable (h : Monitored s) (hsame : SameTable s s') : Monitored s' := by
  refine ⟨hsame.bounds h.bounds, by rw [hsame.idxs]; exact h.nodup, fun idx hv hs => ?_⟩
  rw [hsame.isvalid] at hv
  rw [hsame.sock] at hs ⊢
  exact hsame.watches (h.sockets idx hv hs)

/-- The entry of `idx` is dropped, and `idx` is then out of use or without a socket. -/
theorem drop (h : Monitored s) {idx : Nat} (hdrop : DropsEntry s idx s')
    (hns : s'.nsockbufs = s.nsockbufs) (hother : ∀ j, j ≠ idx → s'.sbuf j = s.sbuf j)
    (hidx : sockbufIsvalid s' idx = true → (s'.sbuf idx).sock = -1) : Monitored s' := by
  refine ⟨hdrop.bounds, ?_, fun j hv hs => ?_⟩
  · rw [hdrop.idxs]
    exact h.nodup.eraseIdx _
  · have hne : j ≠ idx := by
      rintro rfl
      exact hs (hidx hv)
    rw [sockbufIsvalid, hns, hother j hne] at hv
    rw [hother j hne] at hs ⊢
    exact hdrop.watches hne (h.sockets j hv hs)

/-- A socket that is given is watched. -/
theorem giveSock (h : Monitored s) (k : Kernel) {idx : Nat} (flags : Flags)
    (hv : sockbufIsvalid s idx = true) {sock : Int} (hs : sock ≠ -1) :
    Monitored (sockbufSetSock k s idx sock flags) := by
  -- the other sockbufs are as they were
  have hold : ∀ j, j ≠ idx → sockbufIsvalid (sockbufSetSock k s idx sock flags) j = true →
      ((sockbufSetSock k s idx sock flags).sbuf j).sock ≠ -1 →
      Watches s j ((sockbufSetSock k s idx sock flags).sbuf j).sock := by
    intro j hne hvj hsj
    rw [sockbufIsvalid, nsockbufs_sockbufSetSock k flags hv, sbuf_sockbufSetSock_ne hv sock hne] at hvj
    rw [sbuf_sockbufSetSock_ne hv sock hne] at hsj ⊢
    exact h.sockets j hvj hsj
  have hnew : ((sockbufSetSock k s idx sock flags).sbuf idx).sock = sock := by
    rw [sbuf_sockbufSetSock_self hv, setSock_sock]
  by_cases hm : idx ∈ s.idxs
  · obtain ⟨hb, hidxs, hfds, -⟩ := table_sockbufSetSock_mem k flags hv hs h.bounds hm
    refine ⟨hb, by rw [hidxs]; exact h.nodup, fun j hvj hsj => ?_⟩
    by_cases hne : j = idx
    -- the entry that is overwritten
    · subst hne
      obtain ⟨p, he⟩ := h.bounds.exists_entryAt hm
      have he' := he.modify hidxs hfds
      rw [if_pos rfl] at he'
      exact ⟨_, _, he', hnew.symm⟩
    · obtain ⟨i, p, he, hfd⟩ := hold j hne hvj hsj
      have he' := he.modify hidxs hfds
      rw [if_neg (by rintro rfl; exact hne he.eq_of_findEntry)] at he'
      exact ⟨i, p, he', hfd⟩
  · obtain ⟨hb, hidxs, hfds, -⟩ := table_sockbufSetSock_not_mem k flags hv hs h.bounds hm
    refine ⟨hb, by rw [hidxs]; exact nodup_concat h.nodup hm, fun j hvj hsj => ?_⟩
    by_cases hne : j = idx
    · subst hne
      exact ⟨_, _, entryAt_last h.bounds hidxs hfds, hnew.symm⟩
    · obtain ⟨i, p, he, hfd⟩ := hold j hne hvj hsj
      exact ⟨i, p, he.append hidxs hfds, hfd⟩

/-- **`sockbuf_set_sock`** keeps the sockets watched. -/
theorem setSock (h : Monitored s) (k : Kernel) (idx : Nat) (sock : Int) (flags : Flags) :
    Monitored (sockbufSetSock k s idx sock flags) := by
  cases hv : sockbufIsvalid s idx with
  | false =>
    rw [sockbufSetSock, if_pos hv]
    exact h
  | true =>
    by_cases hs : sock = -1
    · subst hs
      refine h.drop (dropsEntry_sockbufSetSock k flags hv h.bounds)
        (nsockbufs_sockbufSetSock k flags hv (-1)) (fun j hne => sbuf_sockbufSetSock_ne hv (-1) hne) ?_
      rw [sbuf_sockbufSetSock_self hv, setSock_sock]
      exact fun _ => rfl
    · exact h.giveSock k flags hv hs

/-- A new sockbuf has no socket to watch. -/
theorem create (h : Monitored s) : Monitored (sockbufNew s).1 := by
  refine ⟨⟨h.bounds.idxArray, h.bounds.pollfds⟩, h.nodup, fun j hv hs => ?_⟩
  -- the new sockbuf has no socket
  by_cases hne : j = firstAvail s
  · rw [hne, sbuf_sockbufNew_self] at hs
    exact absurd rfl hs
  · obtain ⟨hold, hrecord⟩ := sockbufIsvalid_of_sockbufNew hv hne
    rw [hrecord] at hs ⊢
    obtain ⟨i, p, he, hfd⟩ := h.sockets j hold hs
    exact ⟨i, p, ⟨he.idx, he.cell⟩, hfd⟩

theorem mark (h : Monitored s) (idx : Nat) :
    Monitored (s.update idx fun sb => { sb with flags := { sb.flags with deleted := true } }) := by
  refine ⟨⟨h.bounds.idxArray, h.bounds.pollfds⟩, h.nodup, fun j hv hs => ?_⟩
  have hsock := sbuf_update_keeps s idx
    (fun sb => { sb with flags := { sb.flags with deleted := true } }) SockbufT.sock rfl j
  rw [hsock] at hs ⊢
  obtain ⟨i, p, he, hfd⟩ := h.sockets j (sockbufIsvalid_of_mark hv).1 hs
  exact ⟨i, p, ⟨he.idx, he.cell⟩, hfd⟩

/-- The end of a deletion keeps the other sockets watched. -/
theorem deleteFinish (h : Monitored s) (idx : Nat) : Monitored (sockbufDeleteFinish s idx) := by
  refine h.drop (dropsEntry_sockbufDeleteFinish h.bounds idx) (sockbufDeleteFinish_nsockbufs s idx)
    (fun j hne => ?_) fun hv => ?_
  · rw [sbuf_sockbufDeleteFinish, if_neg fun hc => hne hc.1.symm]
  · have hlt := (sockbufIsvalid_iff.1 hv).1
    rw [sockbufDeleteFinish_nsockbufs] at hlt
    rw [sbuf_sockbufDeleteFinish, if_pos ⟨rfl, hlt⟩]
    rfl

theorem of_listeners (h : Monitored s) (hb : TableBounds s') (hidxs : s'.idxs = s.idxs)
    (hfds : s'.fds = s.fds) (hns : s'.nsockbufs = s.nsockbufs) (hsbuf : ∀ j, s'.sbuf j = s.sbuf j) :
    Monitored s' := by
  refine ⟨hb, hidxs ▸ h.nodup, fun j hv hs => ?_⟩
  rw [sockbufIsvalid, hns, hsbuf] at hv
  rw [hsbuf] at hs ⊢
  obtain ⟨i, p, he, hfd⟩ := h.sockets j hv hs
  exact ⟨i, p, he.of_same hidxs hfds, hfd⟩

theorem finish (h : Monitored s) : Monitored (updateFinish s).st := by
  have htable : (updateFinish s).st.idxs = s.idxs ∧ (updateFinish s).st.fds = s.fds ∧
      TableBounds (updateFinish s).st := by
    rcases (updateFinish_cases s).2.2 with heq | heq
    · rw [heq]
      exact ⟨rfl, rfl, h.bounds.idxArray, h.bounds.pollfds⟩
    · rw [heq]
      exact ⟨rfl, rfl, h.bounds.idxArray, h.bounds.pollfds⟩
  refine ⟨htable.2.2, htable.1 ▸ h.nodup, fun j hv hs => ?_⟩
  obtain ⟨hlt, havail, hdel⟩ := sockbufIsvalid_iff.1 hv
  rw [nsockbufs_updateFinish] at hlt
  rcases sbuf_updateFinish s j with heq | ⟨-, heq⟩
  · rw [heq] at havail hdel hs ⊢
    obtain ⟨i, p, he, hfd⟩ := h.sockets j (sockbufIsvalid_iff.2 ⟨hlt, havail, hdel⟩) hs
    exact ⟨i, p, he.of_same htable.1 htable.2.1, hfd⟩
  -- a reclaimed slot is available, so it is not valid
  · rw [heq] at havail
    exact absurd havail (by simp)

theorem attachListener (h : Monitored s) (k : Kernel) (fd : Int) :
    Monitored (sockbufAttachListener k s fd) :=
  h.of_listeners (bounds_sockbufAttachListener h.bounds k fd) rfl
    (fds_sockbufAttachListener h.bounds k fd) rfl fun _ => rfl

theorem detachListener (h : Monitored s) (fd : Int) : Monitored (sockbufDetachListener s fd) := by
  obtain ⟨hb, hfds, -⟩ := table_sockbufDetachListener h.bounds fd
  have hrest : (sockbufDetachListener s fd).sockbufs = s.sockbufs ∧
      (sockbufDetachListener s fd).idxs = s.idxs := by
    rw [sockbufDetachListener]
    split <;> exact ⟨rfl, rfl⟩
  refine h.of_listeners hb hrest.2 hfds ?_ fun j => ?_
  · rw [nsockbufs, nsockbufs, hrest.1]
  · rw [sbuf, sbuf, hrest.1]

/-- Nothing is to be watched before the first call. -/
theorem init : Monitored {} :=
  ⟨⟨Nat.le_refl _, Nat.le_refl _⟩, .nil, fun _ h => absurd (sockbufIsvalid_iff.1 h).1 (Nat.not_lt_zero _)⟩

/-- What is polled is the descriptors of the entries. -/
theorem mem_pollArgument (h : Monitored s) (fd : Int) :
    fd ∈ pollArgument s ↔ ∃ idx, Watches s idx fd := by
  constructor
  · intro hmem
    obtain ⟨p, hp, hfd⟩ := List.mem_map.1 hmem
    obtain ⟨i, hi⟩ := List.mem_iff_getElem?.1 hp
    -- the array of indices is as long as that of the entries
    have hlt : i < s.idxs.length := by
      rw [h.bounds.length_idxs, ← h.bounds.length_fds]
      exact (List.getElem?_eq_some_iff.1 hi).1
    exact ⟨s.idxs[i], i, p, ⟨List.getElem?_eq_getElem hlt, hi⟩, hfd⟩
  · rintro ⟨idx, i, p, he, hfd⟩
    exact List.mem_map.2 ⟨p, List.mem_iff_getElem?.2 ⟨i, he.cell⟩, hfd⟩

end Monitored

/-! ## Runs -/

/-- The invariant with the listeners of the trace. -/
def ListenedMonitored (s : State) (tr : List Event) : Prop :=
  Monitored s ∧ s.listeners.map Pollfd.fd = listenerFds tr

/-- A change that is not about listeners. -/
theorem ListenedMonitored.of_monitored {s s' : State} {tr es : List Event} (h : ListenedMonitored s tr)
    (hm : Monitored s') (hes : ∀ e ∈ es, e.NoListener)
    (hl : s'.listeners.map Pollfd.fd = s.listeners.map Pollfd.fd) : ListenedMonitored s' (tr ++ es) :=
  ⟨hm, by rw [hl, h.2, listenerFds_same hes]⟩

/-- Every change keeps the sockets watched. -/
theorem ListenedMonitored.change {K : Kernel → Prop} {s s' : State} {tr es : List Event}
    (h : ListenedMonitored s tr) (hc : Change K s es s') : ListenedMonitored s' (tr ++ es) := by
  have hb := h.1.bounds
  cases hc with
  | effect he =>
    have hes : ∀ e ∈ es, e.NoListener := fun e hmem => (he.quiet e hmem).noListener
    rcases he.sameTable_or_close with hsame | ⟨k, idx, hv, rfl⟩
    · exact h.of_monitored (h.1.sameTable hsame) hes hsame.listeners_fd
    · exact h.of_monitored (h.1.setSock k idx (-1) {}) hes (by rw [listeners_sockbufSetSock hb])
  | create => exact h.of_monitored h.1.create (by simp [Event.NoListener]) rfl
  | @setSock k _ idx sock flags =>
    refine h.of_monitored (h.1.setSock k idx sock flags) ?_ (by rw [listeners_sockbufSetSock hb])
    exact noListener_attachEvents _ idx sock
  | mark _ => exact h.of_monitored (h.1.mark _) (by simp [Event.NoListener]) rfl
  | deleteFinish idx =>
    exact h.of_monitored (h.1.deleteFinish idx) (fun _ he => absurd he List.not_mem_nil)
      (by rw [(dropsEntry_sockbufDeleteFinish hb idx).listeners])
  | @attachListener k _ fd =>
    refine ⟨h.1.attachListener k fd, ?_⟩
    rw [listenerFds_append, listeners_sockbufAttachListener hb, List.map_append, h.2]
    rfl
  | detachListener fd =>
    refine ⟨h.1.detachListener fd, ?_⟩
    rw [listenerFds_append, (table_sockbufDetachListener hb fd).2.2, map_eraseIdx_findIdx, h.2]
    rfl
  | @poll k _ =>
    exact h.of_monitored (h.1.sameTable (.sockbufUpdateAll k s)) (noListener_sockbufUpdateAll k s)
      (SameTable.sockbufUpdateAll k s).listeners_fd
  | dispatch idx kind => exact h.of_monitored h.1 (by simp [Event.NoListener]) rfl
  | finish =>
    refine h.of_monitored h.1.finish (by simp [(updateFinish_cases _).1, Event.NoListener]) ?_
    rcases (updateFinish_cases s).2.2 with heq | heq
    · rw [heq]
      rfl
    · rw [heq]
      rfl

/-- **The sockets are watched** in every run without a shutdown. -/
theorem monitored_run {c : Config} (h : Run step NoShutdown start c) : ListenedMonitored c.st c.trace :=
  changes_run ⟨.init, rfl⟩ (fun _ _ _ _ hI hc => hI.change hc) h

/-- **Only the sockbufs are monitored.** Whatever state a run has reached, a `poll` there monitors
every valid sockbuf that has a socket, and every attached listener exactly when each of them listens
on a descriptor that some sockbuf has an entry for. -/
theorem monitors_iff {c : Config} (h : Run step NoShutdown start c) :
    Monitors c.st (listenerFds c.trace) ↔
      ∀ fd ∈ listenerFds c.trace, ∃ idx, Watches c.st idx fd := by
  obtain ⟨hm, -⟩ := monitored_run h
  constructor
  · intro hmon fd hfd
    exact (hm.mem_pollArgument fd).1 (hmon.listeners fd hfd)
  · intro hwatch
    refine ⟨fun idx hv hs => ?_, fun fd hfd => ?_⟩
    · exact (hm.mem_pollArgument _).2 ⟨idx, hm.sockets idx hv hs⟩
    · exact (hm.mem_pollArgument fd).2 (hwatch fd hfd)

/-- A sockbuf and a listener on the same descriptor, and the listener that a sockbuf shifted. -/
def sharedRun : List Action :=
  [.call (.attachListener 5) {}, .call .new {}, .call (.setSock 0 5 {}) {}]

/-- The listener is monitored as long as the sockbuf is. -/
theorem monitors_shared :
    ∃ c, execute step NoShutdown start sharedRun = some c ∧ listenerFds c.trace = [5] ∧
      Monitors c.st (listenerFds c.trace) := by
  refine ⟨_, rfl, rfl, (monitors_iff (run_of_execute sharedRun rfl)).2 fun fd hfd => ?_⟩
  have hfive : fd = 5 := List.mem_singleton.1 hfd
  exact ⟨0, 0, { fd := 5, events := { pollin := true } }, ⟨rfl, rfl⟩, hfive.symm⟩

/-- One attached listener, and `poll` is given nothing. -/
theorem attached_listener_not_polled :
    ∃ c, Run step NoShutdown start c ∧ listenerFds c.trace = [3] ∧ pollArgument c.st = [] ∧
      ¬ Monitors c.st (listenerFds c.trace) := by
  refine ⟨_, run_of_execute [.call (.attachListener 3) {}] rfl, rfl, rfl, fun h => ?_⟩
  exact absurd (h.listeners 3 (by decide)) List.not_mem_nil

end ExamplePrograms.Onethread.Sockbuf
