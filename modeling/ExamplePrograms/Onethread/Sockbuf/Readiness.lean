import ExamplePrograms.Onethread.Sockbuf.Consistency

/-!
# Pending output is watched

Bytes that wait in the buffer of a sockbuf with a socket leave it only when `poll` reports `POLLOUT`,
and nothing may be written past them. So a sockbuf with a socket and a buffer that is not empty has to
carry `SOCKBUF_BLOCK`, and the entry of every blocked sockbuf has to ask for `POLLOUT` (`ReadyInv`).

Every function of the module keeps this, except that `sockbuf_set_sock` clears `SOCKBUF_BLOCK` when the
caller does not pass it: bytes that were buffered while the sockbuf had no socket are then neither
watched nor in the way of later writes. `blocksPending` is the condition on its arguments.
-/

set_option autoImplicit false

namespace ExamplePrograms.Onethread.Sockbuf

open ExamplePrograms.Lib.Runs State

/-- Data that wait block the sockbuf, and a blocked sockbuf is polled for writing. -/
structure ReadyInv (s : State) : Prop where
  blocked : ∀ idx, sockbufIsvalid s idx = true → 0 ≤ (s.sbuf idx).sock → 0 < (s.sbuf idx).len →
    (s.sbuf idx).flags.block = true
  watched : ∀ i idx p, EntryAt s i idx p → (s.sbuf idx).flags.block = true →
    p.events.pollout = true

/-- Nothing waits before the first call. -/
theorem ReadyInv.init : ReadyInv {} :=
  ⟨fun _ h => absurd (sockbufIsvalid_iff.1 h).1 (Nat.not_lt_zero _),
    fun _ _ _ h => absurd h.mem List.not_mem_nil⟩

section Keep

variable {s s' : State}

/-- A write to a record that keeps its socket and flags, and adds to the buffer of a blocked sockbuf
only. -/
theorem ReadyInv.update (h : ReadyInv s) {idx : Nat} {f : SockbufT → SockbufT}
    (hsock : (f (s.sbuf idx)).sock = (s.sbuf idx).sock)
    (hblock : (f (s.sbuf idx)).flags.block = (s.sbuf idx).flags.block)
    (hvalid : sockbufIsvalid (s.update idx f) idx = true → sockbufIsvalid s idx = true)
    (hlen : idx < s.nsockbufs → 0 < (f (s.sbuf idx)).len →
      0 < (s.sbuf idx).len ∨ (s.sbuf idx).flags.block = true) :
    ReadyInv (s.update idx f) := by
  refine ⟨fun j hv hs hl => ?_, fun i j p he hb => ?_⟩
  · by_cases hj : idx = j
    · subst hj
      have hlt : idx < s.nsockbufs := by simpa using (sockbufIsvalid_iff.1 hv).1
      rw [sbuf_update_self s idx f hlt] at hs hl ⊢
      rw [hsock] at hs
      rw [hblock]
      rcases hlen hlt hl with h' | h'
      · exact h.blocked idx (hvalid hv) hs h'
      · exact h'
    · rw [sockbufIsvalid, update_nsockbufs, sbuf_update_ne s idx f hj] at hv
      rw [sbuf_update_ne s idx f hj] at hs hl ⊢
      exact h.blocked j hv hs hl
  · rw [sbuf_update_keeps s idx f (fun sb => sb.flags.block) hblock] at hb
    exact h.watched i j p ⟨he.idx, he.cell⟩ hb

/-- A state with the same sockbufs and entries. -/
theorem ReadyInv.congr (h : ReadyInv s) (hns : s'.nsockbufs = s.nsockbufs)
    (hsbuf : ∀ j, s'.sbuf j = s.sbuf j)
    (hentry : ∀ i j p, EntryAt s' i j p →
      ∃ q, EntryAt s i j q ∧ p.events.pollout = q.events.pollout) : ReadyInv s' := by
  refine ⟨fun j hv hs hl => ?_, fun i j p he hb => ?_⟩
  · rw [sockbufIsvalid, hns, hsbuf] at hv
    rw [hsbuf] at hs hl ⊢
    exact h.blocked j hv hs hl
  · obtain ⟨q, hq, hpq⟩ := hentry i j p he
    rw [hsbuf] at hb
    rw [hpq]
    exact h.watched i j q hq hb

/-- `sockbuf_block` asks for the poll. -/
theorem ReadyInv.block (h : ReadyInv s) (hinv : TableInv none s) (idx : Nat) :
    ReadyInv (sockbufBlock s idx) := by
  have hns : (sockbufBlock s idx).nsockbufs = s.nsockbufs := by simp [sockbufBlock]
  have hfds : (sockbufBlock s idx).fds = s.fds.modify (s.findEntry idx) _ := fds_updateEntry _ idx _
  have hne : ∀ j, idx ≠ j → (sockbufBlock s idx).sbuf j = s.sbuf j := fun j hj => by
    rw [sockbufBlock, updateEntry_sbuf, sbuf_update_ne _ _ _ hj]
  refine ⟨fun j hv hs hl => ?_, fun i j p he hb => ?_⟩
  · by_cases hj : idx = j
    · subst hj
      exact sockbufBlock_block s idx (hns ▸ (sockbufIsvalid_iff.1 hv).1)
    · rw [sockbufIsvalid, hns, hne j hj] at hv
      rw [hne j hj] at hs hl ⊢
      exact h.blocked j hv hs hl
  · rcases EntryAt.of_modify ((SameTable.block s idx).idxs) hfds he with ⟨hi, he'⟩ | ⟨rfl, q, -, rfl⟩
    -- the entry of another sockbuf, or that of `idx`, which now asks for `POLLOUT`
    · have hj : idx ≠ j := by
        rintro rfl
        exact hi (he'.findEntry hinv.nodup).symm
      rw [hne j hj] at hb
      exact h.watched i j p he' hb
    · rfl

/-- `sockbuf_unblock` of an empty buffer. -/
theorem ReadyInv.unblock (h : ReadyInv s) {idx : Nat} (hlen : (s.sbuf idx).len = 0) :
    ReadyInv (sockbufUnblock s idx) := by
  have hns : (sockbufUnblock s idx).nsockbufs = s.nsockbufs := by simp [sockbufUnblock]
  have hfds : (sockbufUnblock s idx).fds = s.fds.modify (s.findEntry idx) _ :=
    fds_updateEntry _ idx _
  have hne : ∀ j, idx ≠ j → (sockbufUnblock s idx).sbuf j = s.sbuf j := fun j hj => by
    rw [sockbufUnblock, updateEntry_sbuf, sbuf_update_ne _ _ _ hj]
  refine ⟨fun j hv hs hl => ?_, fun i j p he hb => ?_⟩
  · by_cases hj : idx = j
    · subst hj
      -- its buffer is empty, so nothing is asked of `idx`
      have hlen' : ((sockbufUnblock s idx).sbuf idx).len = (s.sbuf idx).len := by
        rw [sockbufUnblock, updateEntry_sbuf]
        exact sbuf_update_keeps s idx _ SockbufT.len rfl idx
      omega
    · rw [sockbufIsvalid, hns, hne j hj] at hv
      rw [hne j hj] at hs hl ⊢
      exact h.blocked j hv hs hl
  -- `idx` itself is not blocked any more
  · have hj : idx ≠ j := by
      rintro rfl
      rw [sockbufUnblock, updateEntry_sbuf, sbuf_update] at hb
      split at hb
      · exact absurd hb (by simp)
      · next hc =>
        rw [sbuf_of_le (Nat.le_of_not_lt fun hlt => hc ⟨rfl, hlt⟩)] at hb
        exact absurd hb (by simp)
    rcases EntryAt.of_modify ((SameTable.unblock s idx).idxs) hfds he with
      ⟨-, he'⟩ | ⟨rfl, q, he', -⟩
    · rw [hne j hj] at hb
      exact h.watched i j p he' hb
    · exact absurd he'.eq_of_findEntry.symm hj

/-- Dropping the entry of a sockbuf that is then out of use or without a socket. -/
theorem ReadyInv.drop (h : ReadyInv s) {d : Option Nat} (hinv : TableInv d s) {idx : Nat}
    (hdrop : DropsEntry s idx s') (hns : s'.nsockbufs = s.nsockbufs)
    (hother : ∀ j, j ≠ idx → s'.sbuf j = s.sbuf j)
    (hidx : sockbufIsvalid s' idx = true → (s'.sbuf idx).sock = -1) : ReadyInv s' := by
  refine ⟨fun j hv hs hl => ?_, fun i j p he hb => ?_⟩
  · by_cases hj : j = idx
    · subst hj
      rw [hidx hv] at hs
      exact absurd hs (by omega)
    · rw [sockbufIsvalid, hns, hother j hj] at hv
      rw [hother j hj] at hs hl ⊢
      exact h.blocked j hv hs hl
  · obtain ⟨hj, i', he'⟩ := hdrop.exists_entryAt hinv.nodup he
    rw [hother j hj] at hb
    exact h.watched i' j p he' hb

/-- A socket that is taken away. -/
theorem ReadyInv.removeSock (h : ReadyInv s) (hinv : TableInv none s) {idx : Nat}
    (hv : sockbufIsvalid s idx = true) (k : Kernel) (flags : Flags) :
    ReadyInv (sockbufSetSock k s idx (-1) flags) :=
  h.drop hinv (dropsEntry_sockbufSetSock k flags hv hinv.bounds)
    (nsockbufs_sockbufSetSock k flags hv (-1)) (fun _ hj => sbuf_sockbufSetSock_ne hv (-1) hj)
    fun _ => by rw [sbuf_sockbufSetSock_self hv, setSock_sock]

/-- A mild step keeps the readiness. -/
theorem ReadyInv.effect {T : Nat → Prop} {es : List Event} (h : ReadyInv s)
    (hinv : TableInv none s) (he : Effect T s es s') : ReadyInv s' := by
  cases he with
  | note _ => exact h
  | @detail idx f hf =>
    simp only [SockbufT.core, Prod.mk.injEq] at hf
    obtain ⟨hsock, hflags, -, hlen, -⟩ := hf
    refine h.update hsock (by rw [hflags]) (fun hv => ?_) fun _ hl => Or.inl (hlen ▸ hl)
    rwa [(SameTable.update s idx hsock (by rw [hflags]) (by rw [hflags])).isvalid] at hv
  | connected idx =>
    refine h.update rfl rfl (fun hv => ?_) fun _ hl => Or.inl hl
    rwa [(SameTable.update s idx rfl rfl rfl).isvalid] at hv
  | @output idx f _ hsock hflags hlen =>
    refine h.update hsock (by rw [hflags]) (fun hv => ?_) fun hlt hl => ?_
    · rwa [(SameTable.update s idx hsock (by rw [hflags]) (by rw [hflags])).isvalid] at hv
    -- a buffer grows on a blocked sockbuf only
    · rcases Nat.lt_or_ge (s.sbuf idx).len (f (s.sbuf idx)).len with hgrow | hle
      · exact Or.inr (hlen hlt hgrow)
      · exact Or.inl (by omega)
  | block _ => exact h.block hinv _
  | unblock hlen => exact h.unblock hlen
  | @watch idx f hf =>
    refine h.congr (updateEntry_nsockbufs s idx f) (updateEntry_sbuf s idx f) fun i j p he => ?_
    rcases EntryAt.of_modify (SameTable.updateEntry s idx fun p => (hf p).1).idxs
        (fds_updateEntry s idx f) he with ⟨-, he'⟩ | ⟨rfl, q, he', rfl⟩
    · exact ⟨p, he', rfl⟩
    · exact ⟨q, he', (hf q).2.2⟩
  | close k hv => exact h.removeSock hinv hv k {}

end Keep

/-! ## The other functions -/

/-- `sockbuf_set_sock` gives a socket to a sockbuf with pending output only as a blocked one. -/
abbrev blocksPending : SockGuard := fun s idx sock flags =>
  sockbufIsvalid s idx = true → 0 ≤ sock → 0 < (s.sbuf idx).len → flags.block = true

section Functions

variable {s : State}

/-- **`sockbuf_set_sock`** keeps the readiness where it keeps the block flag of waiting data. -/
theorem ReadyInv.setSock (h : ReadyInv s) (hinv : TableInv none s) (k : Kernel) {idx : Nat}
    {sock : Int} {flags : Flags} (hflags : flags.Connection)
    (hguard : blocksPending s idx sock flags) : ReadyInv (sockbufSetSock k s idx sock flags) := by
  cases hv : sockbufIsvalid s idx with
  | false =>
    rw [sockbufSetSock, if_pos hv]
    exact h
  | true =>
    by_cases hs : sock = -1
    · subst hs
      exact h.removeSock hinv hv k flags
    have hself : (sockbufSetSock k s idx sock flags).sbuf idx = (s.sbuf idx).setSock k sock flags :=
      sbuf_sockbufSetSock_self hv sock
    have hne : ∀ j, j ≠ idx → (sockbufSetSock k s idx sock flags).sbuf j = s.sbuf j :=
      fun j hj => sbuf_sockbufSetSock_ne hv sock hj
    refine ⟨fun j hv' hs' hl => ?_, fun i j p he hb => ?_⟩
    · by_cases hj : j = idx
      · subst hj
        rw [hself] at hs' hl ⊢
        rw [setSock_sock] at hs'
        rw [(setSock_output _ sock).2.1] at hl
        rw [setSock_flags]
        -- this is where the flags of the caller matter
        exact hguard hv hs' hl
      · rw [isvalid_sockbufSetSock hflags hv] at hv'
        rw [hne j hj] at hs' hl ⊢
        exact h.blocked j hv' hs' hl
    · have hold : ∀ i', EntryAt s i' j p → j ≠ idx → p.events.pollout = true := by
        intro i' he' hj
        rw [hne j hj] at hb
        exact h.watched i' j p he' hb
      -- the entry that is written asks for `POLLOUT` when the new flags block
      have hnew : ∀ q : Pollfd, j = idx → (q.watch sock flags).events.pollout = true := by
        rintro q rfl
        rw [hself, setSock_flags] at hb
        have hblock : flags.block = true := hb
        simp [Pollfd.watch, hblock]
      by_cases hm : idx ∈ s.idxs
      · obtain ⟨-, hidxs, hfds, -⟩ := table_sockbufSetSock_mem k flags hv hs hinv.bounds hm
        rcases EntryAt.of_modify hidxs hfds he with ⟨hi, he'⟩ | ⟨rfl, q, he', rfl⟩
        · refine hold i he' ?_
          rintro rfl
          exact hi (he'.findEntry hinv.nodup).symm
        · exact hnew q he'.eq_of_findEntry
      · obtain ⟨-, hidxs, hfds, -⟩ := table_sockbufSetSock_not_mem k flags hv hs hinv.bounds hm
        rcases EntryAt.of_append hinv.bounds hidxs hfds he with he' | ⟨-, hj, rfl⟩
        · exact hold i he' fun hj => hm (hj ▸ he'.mem)
        · exact hnew _ hj

/-- A new sockbuf has nothing to wait for. -/
theorem ReadyInv.sockbufNew (h : ReadyInv s) (hinv : TableInv none s) :
    ReadyInv (sockbufNew s).1 := by
  refine ⟨fun j hv hs hl => ?_, fun i j p he hb => ?_⟩
  · by_cases hj : j = firstAvail s
    · rw [hj, sbuf_sockbufNew_self] at hl
      exact absurd hl (by simp [newSlot])
    · obtain ⟨hold, hrecord⟩ := sockbufIsvalid_of_sockbufNew hv hj
      rw [hrecord] at hs hl ⊢
      exact h.blocked j hold hs hl
  · have he' : EntryAt s i j p := ⟨he.idx, he.cell⟩
    rw [sbuf_sockbufNew_old (fun hc => hinv.firstAvail_not_mem (hc ▸ he'.mem))
      (hinv.inUse j he'.mem).1] at hb
    exact h.watched i j p he' hb

theorem ReadyInv.mark (h : ReadyInv s) (idx : Nat) :
    ReadyInv (s.update idx fun sb => { sb with flags := { sb.flags with deleted := true } }) := by
  refine h.update rfl rfl (fun hv => ?_) fun _ hl => Or.inl hl
  -- a marked sockbuf is not valid
  exact absurd rfl (sockbufIsvalid_of_mark hv).2

/-- The end of a deletion. -/
theorem ReadyInv.deleteFinish (h : ReadyInv s) {idx : Nat} (hinv : TableInv (some idx) s) :
    ReadyInv (sockbufDeleteFinish s idx) := by
  refine h.drop hinv (dropsEntry_sockbufDeleteFinish hinv.bounds idx)
    (sockbufDeleteFinish_nsockbufs s idx) (fun j hj => ?_) fun hv => ?_
  · rw [sbuf_sockbufDeleteFinish, if_neg fun hc => hj hc.1.symm]
  · obtain ⟨hlt, -, hdel⟩ := sockbufIsvalid_iff.1 hv
    rw [sockbufDeleteFinish_nsockbufs] at hlt
    rw [sbuf_sockbufDeleteFinish, if_pos ⟨rfl, hlt⟩] at hdel
    exact absurd hdel (by simp [deletedSlot])

/-- The begin of a pass changes no wish. -/
theorem ReadyInv.poll (h : ReadyInv s) (k : Kernel) : ReadyInv (sockbufUpdateAll k s).st := by
  rw [sockbufUpdateAll]
  split
  · exact h.congr rfl (fun _ => rfl) fun i j p he => ⟨p, ⟨he.idx, he.cell⟩, rfl⟩
  · refine h.congr rfl (fun _ => rfl) fun i j p he => ?_
    have hcell := he.cell
    rw [fds_writeRevents, List.getElem?_mapIdx] at hcell
    obtain ⟨q, hq, rfl⟩ := Option.map_eq_some_iff.1 hcell
    exact ⟨q, ⟨he.idx, hq⟩, rfl⟩

theorem ReadyInv.updateFinish (h : ReadyInv s) (hinv : TableInv none s) :
    ReadyInv (updateFinish s).st := by
  refine ⟨fun j hv hs hl => ?_, fun i j p he hb => ?_⟩
  · obtain ⟨hlt, havail, hdel⟩ := sockbufIsvalid_iff.1 hv
    rw [nsockbufs_updateFinish] at hlt
    rcases sbuf_updateFinish s j with hj | ⟨-, hj⟩
    · rw [hj] at havail hdel hs hl ⊢
      exact h.blocked j (sockbufIsvalid_iff.2 ⟨hlt, havail, hdel⟩) hs hl
    · rw [hj] at havail
      exact absurd havail (by simp)
  · have he' : EntryAt s i j p := by
      rcases (updateFinish_cases s).2.2 with hst | hst <;> rw [hst] at he <;>
        exact ⟨he.idx, he.cell⟩
    rcases sbuf_updateFinish s j with hj | ⟨hdel, -⟩
    · rw [hj] at hb
      exact h.watched i j p he' hb
    · exact absurd ((hinv.inUse j he'.mem).2.2.1 hdel) (by simp)

/-- A change of the listener segment. -/
theorem ReadyInv.of_listeners (h : ReadyInv s) {s' : State} (hs : s'.sockbufs = s.sockbufs)
    (hidxs : s'.idxs = s.idxs) (hfds : s'.fds = s.fds) : ReadyInv s' :=
  h.congr (by rw [nsockbufs, hs, nsockbufs]) (fun j => by rw [sbuf, hs, sbuf])
    fun _ _ p he => ⟨p, he.congr hidxs hfds, rfl⟩

end Functions

/-! ## Clean runs -/

/-- The readiness holds through clean runs. -/
theorem cleanInvariant_ready :
    CleanInvariant blocksPending fun d s tr => ListenedTable d s tr ∧ ReadyInv s := by
  have hnew : ∀ s sock, blocksPending (sockbufNew s).1 (sockbufNew s).2 sock { inbound := true } := by
    intro s sock _ _ hl
    have hself : (sockbufNew s).1.sbuf (sockbufNew s).2 = newSlot := sbuf_sockbufNew_self s
    rw [hself] at hl
    exact absurd hl (by simp [newSlot])
  have hT := cleanInvariant_tableJ hnew
  exact
    { effect := fun h he => ⟨hT.effect h.1 he, h.2.effect h.1.1 he⟩
      create := fun h => ⟨hT.create h.1, h.2.sockbufNew h.1.1⟩
      setSock := fun k idx sock flags h hflags hG =>
        ⟨hT.setSock k idx sock flags h.1 hflags hG, h.2.setSock h.1.1 k hflags hG⟩
      accept := hnew
      mark := fun h hv => ⟨hT.mark h.1 hv, h.2.mark _⟩
      deleteCallback := fun cb h => ⟨hT.deleteCallback cb h.1, h.2⟩
      deleteFinish := fun h => ⟨hT.deleteFinish h.1, h.2.deleteFinish h.1.1⟩
      attachListener := fun k fd h => ⟨hT.attachListener k fd h.1,
        h.2.of_listeners rfl rfl (fds_sockbufAttachListener h.1.1.bounds k fd)⟩
      detachListener := fun {s tr} fd h => by
        refine ⟨hT.detachListener fd h.1, h.2.of_listeners ?_ ?_
          (table_sockbufDetachListener h.1.1.bounds fd).2.1⟩
        · rw [sockbufDetachListener]
          split <;> rfl
        · rw [sockbufDetachListener]
          split <;> rfl
      poll := fun k h => ⟨hT.poll k h.1, h.2.poll k⟩
      dispatch := fun idx kind h => ⟨hT.dispatch idx kind h.1, h.2⟩
      finish := fun h => ⟨hT.finish h.1, h.2.updateFinish h.1.1⟩ }

/-- A sockbuf with a socket and pending output is blocked and watched for `POLLOUT`. -/
def PendingWatched (s : State) : Prop :=
  ∀ idx, sockbufIsvalid s idx = true → 0 ≤ (s.sbuf idx).sock → 0 < (s.sbuf idx).len →
    (s.sbuf idx).flags.block = true ∧
      ∃ (i : Nat) (p : Pollfd), s.idxs[i]? = some idx ∧ s.fds[i]? = some p ∧
        p.events.pollout = true

/-- **No stranded output** in a run in which `sockbuf_set_sock` gives a socket to a sockbuf with
pending output only together with `SOCKBUF_BLOCK`. -/
theorem pending_output_watched {c : Config} (h : Run step (Clean blocksPending) start c)
    (hs : Settled c) : PendingWatched c.st := by
  obtain ⟨⟨hinv, -⟩, hready⟩ := cleanInvariant_ready.settled ⟨.init, .init⟩ h hs
  intro idx hv hsock hlen
  have hblock := hready.blocked idx hv hsock hlen
  obtain ⟨p, he⟩ := hinv.bounds.exists_entryAt (hinv.complete idx hv (by omega))
  exact ⟨hblock, _, p, he.idx, he.cell, hready.watched _ _ _ he hblock⟩

/-- A byte is written before the sockbuf has a socket, and the socket is then given as a blocked one. -/
def blockedRun : List Action :=
  [.call .new {}, .call (.write 0 [65] 1) {}, .call (.setSock 0 5 { block := true }) {}]

/-- Data written before the connection, with the flag set again. -/
theorem pending_output_watched_early_write :
    ∃ c, execute step (Clean blocksPending) start blockedRun = some c ∧
      (c.st.sbuf 0).buffered = [65] ∧ PendingWatched c.st :=
  ⟨_, rfl, rfl, pending_output_watched (run_of_execute blockedRun rfl) (by decide)⟩

/-- The same byte, but the socket is given without `SOCKBUF_BLOCK`. -/
def strandedRun : List Action :=
  [.call .new {}, .call (.write 0 [65] 1) {}, .call (.setSock 0 5 {}) {}]

/-- Without the condition the byte is stranded. -/
theorem stranded_output :
    ∃ c, execute step (Clean anySock) start strandedRun = some c ∧ Settled c ∧
      ¬ PendingWatched c.st :=
  ⟨_, rfl, by decide, fun h => absurd (h 0 rfl (by decide) (by decide)).1 (by decide)⟩

end ExamplePrograms.Onethread.Sockbuf
