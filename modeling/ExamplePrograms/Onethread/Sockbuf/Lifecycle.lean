import Mathlib.Data.List.Induction
import ExamplePrograms.Onethread.Sockbuf.Consistency

/-!
# The life of a slot

A slot of the table is available, live or deleted. `sockbuf_delete` only counts a slot as deleted; the
end of the outermost pass of `sockbuf_update_all` makes the deleted slots available again, so that an
index cannot be handed out while events of its former owner are still being processed.

`retired` reads off a trace which sockbufs were deleted since the last outermost pass ended. The
invariant `RetiredInv` says that these are exactly the deleted slots, and that `ndeleted_sockbufs` counts
them, less the one whose deletion is in progress.
-/

set_option autoImplicit false

namespace ExamplePrograms.Onethread.Sockbuf

open ExamplePrograms.Lib.Runs State

/-! ## Passes and deletions of a trace -/

/-- What an event does to the depth of the passes. -/
def depthStep (depth : Nat) : Event → Nat
  | .passBegin => depth + 1
  | .passEnd => depth - 1
  | _ => depth

/-- The number of passes of `sockbuf_update_all` that are active. -/
def passDepth (tr : List Event) : Nat := tr.foldl depthStep 0

/-- The number of active passes, and the sockbufs deleted since the last outermost pass ended. -/
def retireStep (p : Nat × List Nat) (e : Event) : Nat × List Nat :=
  (depthStep p.1 e,
    match e with
    | .deleted idx => idx :: p.2
    | .passEnd => if p.1 - 1 = 0 then [] else p.2
    | _ => p.2)

/-- The depth and the retired sockbufs behind a trace. -/
def retireFold (tr : List Event) : Nat × List Nat := tr.foldl retireStep (0, [])

/-- The sockbufs deleted since the last outermost pass ended. -/
def retired (tr : List Event) : List Nat := (retireFold tr).2

/-- The depth, one event further. -/
theorem passDepth_snoc (tr : List Event) (e : Event) :
    passDepth (tr ++ [e]) = depthStep (passDepth tr) e := by
  simp [passDepth]

theorem retireFold_fst (tr : List Event) : (retireFold tr).1 = passDepth tr := by
  induction tr using List.reverseRecOn with
  | nil => rfl
  | append_singleton tr e ih =>
    rw [passDepth_snoc, ← ih]
    simp [retireFold, retireStep]

/-- The retired sockbufs, one event further. -/
theorem retired_snoc (tr : List Event) (e : Event) :
    retired (tr ++ [e]) =
      match e with
      | .deleted idx => idx :: retired tr
      | .passEnd => if passDepth tr - 1 = 0 then [] else retired tr
      | _ => retired tr := by
  rw [← retireFold_fst]
  simp only [retired, retireFold, List.foldl_append, List.foldl_cons, List.foldl_nil, retireStep]
  cases e <;> rfl

/-- Events that neither begin or end a pass, nor delete or create a sockbuf. -/
def Event.Idle : Event → Prop
  | .passBegin => False
  | .passEnd => False
  | .deleted _ => False
  | .created _ => False
  | _ => True

/-- Quiet events are idle. -/
theorem Event.Quiet.idle {T : Nat → Prop} {e : Event} (h : e.Quiet T) : e.Idle := by
  cases e <;> trivial

/-- Idle events leave the depth and the retired sockbufs. -/
theorem idle_append {es : List Event} (h : ∀ e ∈ es, e.Idle) (tr : List Event) :
    passDepth (tr ++ es) = passDepth tr ∧ retired (tr ++ es) = retired tr := by
  induction es using List.reverseRecOn with
  | nil => simp
  | append_singleton es e ih =>
    obtain ⟨hdepth, hretired⟩ := ih fun x hx => h x (List.mem_append_left _ hx)
    have he := h e (by simp)
    rw [← List.append_assoc, passDepth_snoc, retired_snoc, hdepth, hretired]
    cases e <;> first | exact ⟨rfl, rfl⟩ | exact absurd he id

/-- A sockbuf stays retired until an outermost pass ends. -/
theorem mem_retired_append {pre : List Event} {idx : Nat} (h : idx ∈ retired pre)
    (mid : List Event) : idx ∈ retired (pre ++ mid) ∨
      ∃ a b, mid = a ++ .passEnd :: b ∧ passDepth (pre ++ a ++ [.passEnd]) = 0 := by
  induction mid using List.reverseRecOn with
  | nil => exact Or.inl (by simpa using h)
  | append_singleton mid e ih =>
    rcases ih with hm | ⟨a, b, rfl, hdepth⟩
    -- only the end of an outermost pass takes the index away
    · rw [← List.append_assoc, retired_snoc]
      cases e with
      | deleted j => exact Or.inl (List.mem_cons_of_mem _ hm)
      | passEnd =>
        dsimp only
        split
        · next h0 => exact Or.inr ⟨mid, [], rfl, by rw [passDepth_snoc]; exact h0⟩
        · exact Or.inl hm
      | _ => exact Or.inl hm
    · exact Or.inr ⟨a, b ++ [e], by simp, hdepth⟩

/-! ## The invariant -/

/-- The retired sockbufs are exactly the deleted slots, and no created one is among them. `d` is the sockbuf
whose deletion is in progress and not counted yet. -/
structure RetiredInv (d : Option Nat) (s : State) (tr : List Event) : Prop where
  apart : ∀ j, (s.sbuf j).flags.avail = true → (s.sbuf j).flags.deleted = false
  depth : s.depth = passDepth tr
  nodup : (retired tr).Nodup
  mem : ∀ j, j ∈ retired tr ↔ j < s.nsockbufs ∧ (s.sbuf j).flags.deleted = true
  count : (retired tr).length = s.ndeletedSockbufs + d.toList.length
  pending : ∀ idx, d = some idx → idx ∈ retired tr
  created : Along (fun pre e => ∀ idx, e = .created idx → idx ∉ retired pre) tr

/-- The invariant holds before the first call. -/
theorem RetiredInv.init : RetiredInv none {} [] :=
  ⟨fun _ h => absurd h (by simp [sbuf]), rfl, .nil,
    fun _ => ⟨fun h => absurd h List.not_mem_nil, fun h => absurd h.1 (Nat.not_lt_zero _)⟩, rfl,
    fun _ h => absurd h (by simp), along_nil⟩

/-- What has to be kept for `RetiredInv`. -/
structure SameLife (s s' : State) : Prop where
  nsockbufs : s'.nsockbufs = s.nsockbufs
  ndeletedSockbufs : s'.ndeletedSockbufs = s.ndeletedSockbufs
  depth : s'.depth = s.depth
  avail : ∀ j, (s'.sbuf j).flags.avail = (s.sbuf j).flags.avail
  deleted : ∀ j, (s'.sbuf j).flags.deleted = (s.sbuf j).flags.deleted

theorem SameLife.refl (s : State) : SameLife s s := ⟨rfl, rfl, rfl, fun _ => rfl, fun _ => rfl⟩

theorem SameLife.update (s : State) (idx : Nat) {f : SockbufT → SockbufT}
    (havail : (f (s.sbuf idx)).flags.avail = (s.sbuf idx).flags.avail)
    (hdeleted : (f (s.sbuf idx)).flags.deleted = (s.sbuf idx).flags.deleted) :
    SameLife s (s.update idx f) where
  nsockbufs := update_nsockbufs s idx f
  ndeletedSockbufs := rfl
  depth := rfl
  avail := sbuf_update_keeps s idx f (fun sb => sb.flags.avail) havail
  deleted := sbuf_update_keeps s idx f (fun sb => sb.flags.deleted) hdeleted

theorem SameLife.updateEntry (s : State) (idx : Nat) (f : Pollfd → Pollfd) :
    SameLife s (s.updateEntry idx f) :=
  ⟨updateEntry_nsockbufs s idx f, updateEntry_ndeletedSockbufs s idx f, updateEntry_depth s idx f,
    fun j => by rw [updateEntry_sbuf], fun j => by rw [updateEntry_sbuf]⟩

theorem SameLife.trans {s s' s'' : State} (h : SameLife s s') (h' : SameLife s' s'') :
    SameLife s s'' :=
  ⟨h'.nsockbufs.trans h.nsockbufs, h'.ndeletedSockbufs.trans h.ndeletedSockbufs,
    h'.depth.trans h.depth, fun j => (h'.avail j).trans (h.avail j),
    fun j => (h'.deleted j).trans (h.deleted j)⟩

/-- A change of the socket keeps the life of the slots. -/
theorem SameLife.setSock (k : Kernel) (s : State) (idx : Nat) (sock : Int) {flags : Flags}
    (hflags : flags.Connection) : SameLife s (sockbufSetSock k s idx sock flags) := by
  cases hv : sockbufIsvalid s idx with
  | false =>
    rw [sockbufSetSock, if_pos hv]
    exact .refl s
  | true =>
    refine ⟨nsockbufs_sockbufSetSock k flags hv sock, sockbufSetSock_ndeletedSockbufs k flags hv sock,
      sockbufSetSock_depth k flags hv sock, fun j => ?_, fun j => ?_⟩
    · rw [sbuf_sockbufSetSock k flags hv]
      split
      · rw [setSock_flags, (reconnect_marks hflags).2]
      · rfl
    · rw [sbuf_sockbufSetSock k flags hv]
      split
      · rw [setSock_flags, (reconnect_marks hflags).1]
      · rfl

/-- A mild step keeps the life of the slots. -/
theorem Effect.sameLife {T : Nat → Prop} {s s' : State} {es : List Event} (h : Effect T s es s') :
    SameLife s s' := by
  cases h with
  | note _ => exact .refl s
  | detail hf =>
    simp only [SockbufT.core, Prod.mk.injEq] at hf
    exact .update s _ (by rw [hf.2.1]) (by rw [hf.2.1])
  | connected idx => exact .update s idx rfl rfl
  | output _ _ hflags _ => exact .update s _ (by rw [hflags]) (by rw [hflags])
  | block _ => exact (SameLife.update s _ rfl rfl).trans (.updateEntry _ _ _)
  | unblock _ => exact (SameLife.update s _ rfl rfl).trans (.updateEntry _ _ _)
  | watch _ => exact .updateEntry s _ _
  | close k _ => exact .setSock k s _ (-1) ⟨rfl, rfl⟩

section Keep

variable {d : Option Nat} {s s' : State} {tr : List Event}

/-- Idle events create nothing. -/
theorem RetiredInv.created_idle {es : List Event} (h : RetiredInv d s tr) (hes : ∀ e ∈ es, e.Idle) :
    Along (fun pre e => ∀ idx, e = .created idx → idx ∉ retired pre) (tr ++ es) :=
  h.created.append fun e he pre idx hc => by
    have := hes e he
    rw [hc] at this
    exact absurd this id

/-- Idle events that keep the life of the slots keep the invariant. -/
theorem RetiredInv.same {es : List Event} (h : RetiredInv d s tr) (hs : SameLife s s')
    (hes : ∀ e ∈ es, e.Idle) : RetiredInv d s' (tr ++ es) := by
  obtain ⟨hdepth, hretired⟩ := idle_append hes tr
  refine ⟨fun j hj => ?_, ?_, ?_, fun j => ?_, ?_, fun idx hd => ?_, h.created_idle hes⟩
  · rw [hs.avail] at hj
    rw [hs.deleted]
    exact h.apart j hj
  · rw [hs.depth, hdepth, h.depth]
  · rw [hretired]
    exact h.nodup
  · rw [hretired, hs.nsockbufs, hs.deleted]
    exact h.mem j
  · rw [hretired, hs.ndeletedSockbufs]
    exact h.count
  · rw [hretired]
    exact h.pending idx hd

/-- The slot that `sockbuf_new` takes was not deleted. -/
theorem RetiredInv.firstAvail_not_retired (h : RetiredInv d s tr) : firstAvail s ∉ retired tr := by
  intro hm
  obtain ⟨hlt, hdel⟩ := (h.mem _).1 hm
  exact absurd (h.apart _ (avail_firstAvail hlt)) (by simp [hdel])

/-- **`sockbuf_new`** hands out a slot that is not retired. -/
theorem RetiredInv.create (h : RetiredInv none s tr) :
    RetiredInv none (sockbufNew s).1 (tr ++ [.created (sockbufNew s).2]) := by
  have hsame : retired (tr ++ [.created (sockbufNew s).2]) = retired tr := retired_snoc _ _
  have hidx : (sockbufNew s).2 = firstAvail s := rfl
  have hdel : ∀ j, ((sockbufNew s).1.sbuf j).flags.deleted =
      if j = firstAvail s then false else (s.sbuf j).flags.deleted := by
    intro j
    by_cases hne : j = firstAvail s
    · rw [if_pos hne, hne, sbuf_sockbufNew_self]
      rfl
    -- a slot of the old table, one that it grew by, or none at all
    · rw [if_neg hne]
      rcases Nat.lt_or_ge j s.nsockbufs with hj | hj
      · rw [sbuf_sockbufNew_old hne hj]
      · rw [sbuf_of_le hj]
        rcases Nat.lt_or_ge j (sockbufNew s).1.nsockbufs with hj' | hj'
        · rw [sbuf_sockbufNew_grown hne hj hj']
          rfl
        · rw [sbuf_of_le hj']
  refine ⟨fun j hj => ?_, ?_, ?_, fun j => ?_, ?_, fun _ hd => absurd hd (by simp), ?_⟩
  · rw [hdel]
    split
    · rfl
    · next hne =>
      rcases Nat.lt_or_ge j s.nsockbufs with hj' | hj'
      · rw [sbuf_sockbufNew_old hne hj'] at hj
        exact h.apart j hj
      · rw [sbuf_of_le hj']
  · rw [passDepth_snoc]
    exact h.depth
  · rw [hsame]
    exact h.nodup
  · rw [hsame, hdel]
    by_cases hne : j = firstAvail s
    · rw [if_pos hne]
      exact ⟨fun hm => absurd (hne ▸ hm) h.firstAvail_not_retired, fun hc => absurd hc.2 (by simp)⟩
    · rw [if_neg hne, h.mem]
      constructor
      · exact fun hj => ⟨Nat.lt_of_lt_of_le hj.1 (nsockbufs_le_sockbufNew s), hj.2⟩
      · intro hj
        refine ⟨?_, hj.2⟩
        by_contra hge
        have hd := hj.2
        rw [sbuf_of_le (Nat.le_of_not_lt hge)] at hd
        exact absurd hd (by simp)
  · rw [hsame]
    exact h.count
  · refine h.created.snoc fun idx hc => ?_
    rw [hidx] at hc
    cases hc
    exact h.firstAvail_not_retired

/-- **`sockbuf_delete`** retires a sockbuf. -/
theorem RetiredInv.mark {idx : Nat} (h : RetiredInv none s tr) (hv : sockbufIsvalid s idx = true) :
    RetiredInv (some idx)
      (s.update idx fun sb => { sb with flags := { sb.flags with deleted := true } })
      (tr ++ [.deleted idx]) := by
  obtain ⟨hlt, havail, hdel⟩ := sockbufIsvalid_iff.1 hv
  have hretired : retired (tr ++ [.deleted idx]) = idx :: retired tr := retired_snoc _ _
  -- a live slot was not deleted since the last pass, so it is counted once
  have hnew : idx ∉ retired tr := fun hm => absurd ((h.mem idx).1 hm).2 (by simp [hdel])
  refine ⟨fun j hj => ?_, ?_, ?_, fun j => ?_, ?_, fun j hd => ?_, ?_⟩
  · rw [sbuf_update] at hj ⊢
    split at hj
    · next hc =>
      rw [← hc.1] at hj
      exact absurd hj (by simp [havail])
    · next hc =>
      rw [if_neg hc]
      exact h.apart j hj
  · rw [passDepth_snoc]
    exact h.depth
  · rw [hretired]
    exact List.nodup_cons.2 ⟨hnew, h.nodup⟩
  · rw [hretired, List.mem_cons, h.mem, update_nsockbufs, sbuf_update]
    by_cases hj : idx = j
    · subst hj
      simp [hlt]
    · simp [hj, show j ≠ idx from fun hc => hj hc.symm]
  · rw [hretired, List.length_cons, h.count]
    rfl
  · rw [hretired, ← Option.some.inj hd]
    exact List.mem_cons_self
  · exact h.created.snoc fun j hc => absurd hc (by simp)

/-- The end of the deletion counts it. -/
theorem RetiredInv.deleteFinish {idx : Nat} (h : RetiredInv (some idx) s tr) :
    RetiredInv none (sockbufDeleteFinish s idx) tr := by
  obtain ⟨hlt, hdel⟩ := (h.mem idx).1 (h.pending idx rfl)
  have hsame : ∀ j, ((sockbufDeleteFinish s idx).sbuf j).flags.deleted =
      (s.sbuf j).flags.deleted := by
    intro j
    rw [sbuf_sockbufDeleteFinish]
    split
    · next hc => rw [← hc.1, hdel]; rfl
    · rfl
  refine ⟨fun j hj => ?_, ?_, h.nodup, fun j => ?_, ?_, fun _ hd => absurd hd (by simp), h.created⟩
  · rw [sbuf_sockbufDeleteFinish] at hj
    rw [hsame]
    split at hj
    · exact absurd hj (by simp [deletedSlot])
    · exact h.apart j hj
  · rw [sockbufDeleteFinish_depth, h.depth]
  · rw [sockbufDeleteFinish_nsockbufs, hsame]
    exact h.mem j
  -- the deletion that was in progress is now counted
  · rw [sockbufDeleteFinish_ndeletedSockbufs, h.count]
    rfl

end Keep

/-! ## Counting -/

/-- The records of the table by index. -/
theorem map_sockbufs {β : Type} (s : State) (g : SockbufT → β) :
    s.sockbufs.map g = (List.range s.nsockbufs).map fun j => g (s.sbuf j) := by
  apply List.ext_getElem?
  intro j
  rw [List.getElem?_map, List.getElem?_map]
  by_cases h : j < s.nsockbufs
  · rw [List.getElem?_eq_getElem h, List.getElem?_range h]
    simp [sbuf, List.getD_eq_getElem?_getD, List.getElem?_eq_getElem h]
  · rw [List.getElem?_eq_none (Nat.le_of_not_lt h), List.getElem?_eq_none (by simpa using h)]
    rfl

/-- The number of deleted slots is the length of a list that names each of them once. -/
theorem countP_deleted {s : State} {l : List Nat} (hnodup : l.Nodup)
    (hmem : ∀ j, j ∈ l ↔ j < s.nsockbufs ∧ (s.sbuf j).flags.deleted = true) :
    s.sockbufs.countP (fun sb => sb.flags.deleted) = l.length := by
  have hmap : s.sockbufs.countP (fun sb => sb.flags.deleted) =
      ((List.range s.nsockbufs).filter fun j => (s.sbuf j).flags.deleted).length := by
    have h := congrArg (List.countP id) (map_sockbufs s fun sb => sb.flags.deleted)
    rw [List.countP_map, List.countP_map] at h
    rw [← List.countP_eq_length_filter]
    exact h
  rw [hmap]
  refine List.Perm.length_eq ((List.perm_ext_iff_of_nodup ?_ hnodup).2 fun j => ?_)
  · exact List.nodup_range.filter _
  · rw [List.mem_filter, List.mem_range, hmem]

/-- With a large enough count the reclaim loop leaves no deleted slot. -/
theorem reclaim_all {n : Nat} {sbs : List SockbufT}
    (h : sbs.countP (fun sb => sb.flags.deleted) ≤ n) :
    ∀ sb ∈ reclaim n sbs, sb.flags.deleted = false := by
  induction sbs generalizing n with
  | nil => cases n <;> simp [reclaim]
  | cons sb sbs ih =>
    cases n with
    | zero =>
      intro x hx
      -- the count is used up: no deleted slot is left behind here
      have h0 : List.countP (fun sb : SockbufT => sb.flags.deleted) (sb :: sbs) = 0 := by omega
      simpa using List.countP_eq_zero.1 h0 x hx
    | succ n =>
      rw [reclaim]
      split
      · next hdel =>
        rw [List.countP_cons_of_pos (by exact hdel)] at h
        intro x hx
        rcases List.mem_cons.1 hx with rfl | hx
        · rfl
        · exact ih (by omega) x hx
      · next hdel =>
        rw [List.countP_cons_of_neg (by exact hdel)] at h
        intro x hx
        rcases List.mem_cons.1 hx with rfl | hx
        · simpa using hdel
        · exact ih (by omega) x hx

/-- The deleted slots are counted. -/
theorem RetiredInv.countP {s : State} {tr : List Event} (h : RetiredInv none s tr) :
    s.sockbufs.countP (fun sb => sb.flags.deleted) = s.ndeletedSockbufs := by
  rw [countP_deleted h.nodup h.mem, h.count]
  rfl

theorem sbuf_deleted_mem {s : State} {sbs : List SockbufT} (hs : s.sockbufs = sbs)
    (h : ∀ sb ∈ sbs, sb.flags.deleted = false) (j : Nat) : (s.sbuf j).flags.deleted = false := by
  rw [sbuf, hs, List.getD_eq_getElem?_getD]
  cases hj : sbs[j]? with
  | none => rfl
  | some sb => exact h sb (List.mem_of_getElem? hj)

/-- The end of an outermost pass leaves no deleted slot. -/
theorem RetiredInv.reclaimed {s : State} {tr : List Event} (h : RetiredInv none s tr) (h0 : s.depth - 1 = 0)
    (j : Nat) : ((updateFinish s).st.sbuf j).flags.deleted = false := by
  by_cases hn : s.ndeletedSockbufs = 0
  · have hst : (updateFinish s).st.sockbufs = s.sockbufs := by simp [updateFinish, hn]
    refine sbuf_deleted_mem hst (fun sb hsb => ?_) j
    have := h.countP
    rw [hn] at this
    simpa using List.countP_eq_zero.1 this sb hsb
  · have hst : (updateFinish s).st.sockbufs = reclaim s.ndeletedSockbufs s.sockbufs := by
      simp [updateFinish, hn, h0]
    exact sbuf_deleted_mem hst (reclaim_all (Nat.le_of_eq h.countP)) j

/-- **The end of a pass** makes the retired slots available, if it is the outermost one. -/
theorem RetiredInv.finish {s : State} {tr : List Event} (h : RetiredInv none s tr) :
    RetiredInv none (updateFinish s).st (tr ++ (updateFinish s).events) := by
  rw [(updateFinish_cases s).1]
  have hdepth : (updateFinish s).st.depth = s.depth - 1 := by
    rcases (updateFinish_cases s).2.2 with hs | hs <;> rw [hs]
  have hcreated := h.created.snoc (e := .passEnd) fun idx hc => absurd hc (by simp)
  have hpass : (updateFinish s).st.depth = passDepth (tr ++ [.passEnd]) := by
    rw [hdepth, passDepth_snoc, h.depth]
    rfl
  have hretired : retired (tr ++ [.passEnd]) = if s.depth - 1 = 0 then [] else retired tr := by
    rw [h.depth]
    exact retired_snoc _ _
  -- only the end of an outermost pass reclaims
  by_cases h0 : s.depth - 1 = 0
  · rw [if_pos h0] at hretired
    have hnone := h.reclaimed h0
    refine ⟨fun j _ => hnone j, hpass, ?_, fun j => ?_, ?_, fun _ hd => absurd hd (by simp), hcreated⟩
    · rw [hretired]
      exact .nil
    · rw [hretired, hnone j]
      simp
    · rw [hretired]
      -- without deleted slots the loop is not entered, which leaves the count at zero
      by_cases hn : s.ndeletedSockbufs = 0
      · simp [updateFinish, hn]
      · simp [updateFinish, hn, h0]
  · rw [if_neg h0] at hretired
    have hst : (updateFinish s).st = { s with depth := s.depth - 1 } := by simp [updateFinish, h0]
    rw [hst] at hpass ⊢
    refine ⟨h.apart, hpass, ?_, fun j => ?_, ?_, fun _ hd => absurd hd (by simp), hcreated⟩
    · rw [hretired]
      exact h.nodup
    · rw [hretired]
      exact h.mem j
    · rw [hretired]
      exact h.count

/-- The begin of a pass keeps the invariant. -/
theorem RetiredInv.poll {s : State} {tr : List Event} (k : Kernel) (h : RetiredInv none s tr) :
    RetiredInv none (sockbufUpdateAll k s).st (tr ++ (sockbufUpdateAll k s).events) := by
  have hbegin : RetiredInv none { s with depth := s.depth + 1 } (tr ++ [.passBegin]) := by
    have hretired : retired (tr ++ [.passBegin]) = retired tr := retired_snoc _ _
    refine ⟨h.apart, ?_, ?_, fun j => ?_, ?_, fun _ hd => absurd hd (by simp), ?_⟩
    · rw [passDepth_snoc, ← h.depth]
      rfl
    · rw [hretired]
      exact h.nodup
    · rw [hretired]
      exact h.mem j
    · rw [hretired]
      exact h.count
    · exact h.created.snoc fun idx hc => absurd hc (by simp)
  rw [sockbufUpdateAll]
  split
  · have hpoll : RetiredInv none { s with depth := s.depth + 1 } (tr ++ [.passBegin] ++ [.pollFailed]) :=
      hbegin.same (.refl _) (by simp [Event.Idle])
    simpa using hpoll
  · next words _ =>
    have hpoll : RetiredInv none { s with depth := s.depth + 1, pollfds := writeRevents s words }
        (tr ++ [.passBegin] ++ [.polled (pollReports s words)]) :=
      hbegin.same ⟨rfl, rfl, rfl, fun _ => rfl, fun _ => rfl⟩ (by simp [Event.Idle])
    simpa using hpoll

theorem sockbufDetachListener_rest (s : State) (fd : Int) :
    (sockbufDetachListener s fd).sockbufs = s.sockbufs ∧
      (sockbufDetachListener s fd).ndeletedSockbufs = s.ndeletedSockbufs ∧
      (sockbufDetachListener s fd).depth = s.depth := by
  rw [sockbufDetachListener]
  split <;> exact ⟨rfl, rfl, rfl⟩

/-- The invariant holds through clean runs. -/
theorem cleanInvariant_lifeJ {G : SockGuard}
    (haccept : ∀ s sock, G (sockbufNew s).1 (sockbufNew s).2 sock { inbound := true }) :
    CleanInvariant G RetiredInv where
  effect h he := h.same he.sameLife fun e hmem => (he.quiet e hmem).idle
  create h := h.create
  setSock {s tr} k idx sock flags h hflags _ := by
    refine h.same (.setSock k s idx sock hflags) fun e he => ?_
    rw [attachEvents] at he
    split at he
    · rw [List.mem_singleton.1 he]
      trivial
    · exact absurd he List.not_mem_nil
  accept := haccept
  mark h hv := h.mark hv
  deleteCallback {s tr idx} cb h := h.same (.refl s) (by simp [Event.Idle])
  deleteFinish h := h.deleteFinish
  attachListener k fd h :=
    h.same ⟨rfl, rfl, rfl, fun _ => rfl, fun _ => rfl⟩ (by simp [Event.Idle])
  detachListener {s tr} fd h := by
    obtain ⟨hs, hn, hd⟩ := sockbufDetachListener_rest s fd
    refine h.same ⟨?_, hn, hd, fun j => ?_, fun j => ?_⟩ (by simp [Event.Idle])
    · rw [nsockbufs, hs, nsockbufs]
    · rw [sbuf, hs, sbuf]
    · rw [sbuf, hs, sbuf]
  poll k h := h.poll k
  dispatch {s tr} idx kind h := h.same (.refl s) (by simp [Event.Idle])
  finish h := h.finish

/-! ## The life cycle -/

/-- What `sockbuf_new` does in the state `s`: it hands out a slot that was available or did not exist,
and leaves every other slot as it is. -/
structure NewSlotSpec (s : State) : Prop where
  avail : (sockbufNew s).2 < s.nsockbufs → (s.sbuf (sockbufNew s).2).flags.avail = true
  live : sockbufIsvalid (sockbufNew s).1 (sockbufNew s).2 = true
  others : ∀ j, j ≠ (sockbufNew s).2 → j < s.nsockbufs → (sockbufNew s).1.sbuf j = s.sbuf j
  grown : ∀ j, j ≠ (sockbufNew s).2 → s.nsockbufs ≤ j → j < (sockbufNew s).1.nsockbufs →
    (sockbufNew s).1.sbuf j = availSlot

/-- `sockbuf_new` takes the first available slot. -/
theorem newSlotSpec (s : State) : NewSlotSpec s :=
  ⟨avail_firstAvail, sockbufIsvalid_sockbufNew s, fun _ hne hj => sbuf_sockbufNew_old hne hj,
    fun _ hne hj hlt => sbuf_sockbufNew_grown hne hj hlt⟩

/-- The life of the slots in a state `s` reached with the trace `tr`. -/
structure SlotLifecycle (s : State) (tr : List Event) : Prop where
  states : ∀ idx < s.nsockbufs,
    (sockbufIsvalid s idx = true ∧ (s.sbuf idx).flags.deleted = false ∧
        (s.sbuf idx).flags.avail = false) ∨
      (sockbufIsvalid s idx = false ∧ (s.sbuf idx).flags.deleted = true ∧
        (s.sbuf idx).flags.avail = false) ∨
      (sockbufIsvalid s idx = false ∧ (s.sbuf idx).flags.deleted = false ∧
        (s.sbuf idx).flags.avail = true)
  count : s.sockbufs.countP (fun sb => sb.flags.deleted) = s.ndeletedSockbufs
  new : NewSlotSpec s
  /-- Between a deletion in a pass and the next creation of the index an outermost pass ends. -/
  quarantine : ∀ pre mid post idx,
    tr = pre ++ .deleted idx :: mid ++ .created idx :: post → 0 < passDepth pre →
      ∃ a b, mid = a ++ .passEnd :: b ∧ passDepth (pre ++ .deleted idx :: a ++ [.passEnd]) = 0
  reclaimed : tr.getLast? = some .passEnd → passDepth tr = 0 →
    ∀ idx < s.nsockbufs, (s.sbuf idx).flags.deleted = false

/-- A slot is live, deleted or available. -/
theorem RetiredInv.states {s : State} {tr : List Event} (h : RetiredInv none s tr) {idx : Nat}
    (hlt : idx < s.nsockbufs) :
    (sockbufIsvalid s idx = true ∧ (s.sbuf idx).flags.deleted = false ∧
        (s.sbuf idx).flags.avail = false) ∨
      (sockbufIsvalid s idx = false ∧ (s.sbuf idx).flags.deleted = true ∧
        (s.sbuf idx).flags.avail = false) ∨
      (sockbufIsvalid s idx = false ∧ (s.sbuf idx).flags.deleted = false ∧
        (s.sbuf idx).flags.avail = true) := by
  have happart := h.apart idx
  cases havail : (s.sbuf idx).flags.avail <;> cases hdel : (s.sbuf idx).flags.deleted <;>
    simp_all [sockbufIsvalid]

/-- A slot is created again only behind the end of an outermost pass. -/
theorem RetiredInv.quarantine {s : State} {tr : List Event} (h : RetiredInv none s tr)
    {pre mid post : List Event} {idx : Nat}
    (htr : tr = pre ++ .deleted idx :: mid ++ .created idx :: post) :
    ∃ a b, mid = a ++ .passEnd :: b ∧ passDepth (pre ++ .deleted idx :: a ++ [.passEnd]) = 0 := by
  -- when the index is created again it is not retired, though its deletion retired it
  have hnot := h.created (pre ++ .deleted idx :: mid) (.created idx) post (by simpa using htr) idx rfl
  have hmem : idx ∈ retired (pre ++ [.deleted idx]) := by
    rw [retired_snoc]
    exact List.mem_cons_self
  have hsplit : pre ++ .deleted idx :: mid = pre ++ [.deleted idx] ++ mid := by simp
  rcases mem_retired_append hmem mid with hin | ⟨a, b, rfl, hdepth⟩
  · rw [hsplit] at hnot
    exact absurd hin hnot
  · exact ⟨a, b, rfl, by simpa using hdepth⟩

/-- No slot is deleted when an outermost pass has just ended. -/
theorem RetiredInv.none_deleted {s : State} {tr : List Event} (h : RetiredInv none s tr)
    (hlast : tr.getLast? = some .passEnd) (hdepth : passDepth tr = 0) {idx : Nat}
    (hlt : idx < s.nsockbufs) : (s.sbuf idx).flags.deleted = false := by
  obtain ⟨tr, rfl⟩ := List.getLast?_eq_some_iff.1 hlast
  have hretired : retired (tr ++ [.passEnd]) = [] := by
    rw [passDepth_snoc] at hdepth
    exact (retired_snoc _ _).trans (if_pos hdepth)
  by_contra hdel
  have hmem := (h.mem idx).2 ⟨hlt, by simpa using hdel⟩
  rw [hretired] at hmem
  exact absurd hmem List.not_mem_nil

/-- **The life cycle of slots** in a clean run. -/
theorem slot_lifecycle {c : Config} (h : Run step (Clean anySock) start c) (hs : Settled c) :
    SlotLifecycle c.st c.trace := by
  have hJ := (cleanInvariant_lifeJ (G := anySock) fun _ _ => trivial).settled .init h hs
  exact ⟨fun _ hlt => hJ.states hlt, hJ.countP, newSlotSpec c.st,
    fun _ _ _ _ htr _ => hJ.quarantine htr, fun hlast hdepth _ => hJ.none_deleted hlast hdepth⟩

/-- A handler deletes sockbuf 0 in a pass and creates one: it gets the index 1. Behind the pass the
index 0 is handed out again. -/
def recreateRun : List Action :=
  [.call .new {}, .call (.setSock 0 5 {}) {}, .call (.setHandler 0 { onRead := true } 0) {},
    .call .updateAll { poll := some [{ pollin := true }] }, .run {}, .run { read := .ok [1] },
    .call (.delete 0) {}, .run {}, .run {}, .call .new {}, .ret, .run {}, .call .new {}]

/-- A sockbuf deleted and created again. -/
theorem slot_lifecycle_recreate :
    ∃ c, execute step (Clean anySock) start recreateRun = some c ∧
      c.trace.getLast? = some (.created 0) ∧ SlotLifecycle c.st c.trace :=
  ⟨_, rfl, rfl, slot_lifecycle (run_of_execute recreateRun rfl) (by decide)⟩

end ExamplePrograms.Onethread.Sockbuf
