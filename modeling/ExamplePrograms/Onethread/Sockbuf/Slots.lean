import ExamplePrograms.Onethread.Sockbuf.Effects

/-!
# The slots of the table

What `sockbuf_new`, the end of `sockbuf_delete` and the reclaim loop of `sockbuf_update_all` do to the
records of the table: each writes the slots it is about and leaves every other one as it is.
-/

set_option autoImplicit false

namespace ExamplePrograms.Onethread.Sockbuf

open State

/-- A valid sockbuf has a slot that is neither available nor deleted. -/
theorem sockbufIsvalid_iff {s : State} {idx : Nat} : sockbufIsvalid s idx = true ↔
    idx < s.nsockbufs ∧ (s.sbuf idx).flags.avail = false ∧ (s.sbuf idx).flags.deleted = false := by
  simp [sockbufIsvalid]

/-! ## `sockbuf_new` -/

theorem firstAvail_le (s : State) : firstAvail s ≤ s.nsockbufs := List.findIdx_le_length

/-- The slots of the table before the new record is written. -/
theorem getElem?_sockbufNew (s : State) (j : Nat) (h : j ≠ firstAvail s) (hj : j < s.nsockbufs) :
    (sockbufNew s).1.sockbufs[j]? = s.sockbufs[j]? := by
  simp only [sockbufNew]
  rw [List.getElem?_set, if_neg (fun hc => h hc.symm)]
  split
  · exact List.getElem?_append_left hj
  · rfl

/-- A full table grows by five slots. -/
theorem nsockbufs_sockbufNew (s : State) :
    (sockbufNew s).1.nsockbufs =
      if firstAvail s = s.nsockbufs then s.nsockbufs + 5 else s.nsockbufs := by
  by_cases h : firstAvail s = s.nsockbufs
  · rw [if_pos h, nsockbufs]
    simp only [sockbufNew, if_pos h, List.length_set, List.length_append, List.length_replicate]
    rfl
  · rw [if_neg h, nsockbufs]
    simp only [sockbufNew, if_neg h, List.length_set]
    rfl

theorem nsockbufs_le_sockbufNew (s : State) : s.nsockbufs ≤ (sockbufNew s).1.nsockbufs := by
  rw [nsockbufs_sockbufNew]
  split <;> omega

theorem firstAvail_lt_sockbufNew (s : State) : firstAvail s < (sockbufNew s).1.nsockbufs := by
  have := firstAvail_le s
  rw [nsockbufs_sockbufNew]
  split <;> omega

/-- The slot that was handed out. -/
theorem sbuf_sockbufNew_self (s : State) : (sockbufNew s).1.sbuf (firstAvail s) = newSlot := by
  have hlt := firstAvail_lt_sockbufNew s
  simp only [sbuf, List.getD_eq_getElem?_getD]
  simp only [sockbufNew, nsockbufs, List.length_set] at hlt ⊢
  rw [List.getElem?_set_self hlt]
  rfl

/-- The other slots. -/
theorem sbuf_sockbufNew_old {s : State} {j : Nat} (h : j ≠ firstAvail s) (hj : j < s.nsockbufs) :
    (sockbufNew s).1.sbuf j = s.sbuf j := by
  simp only [sbuf, List.getD_eq_getElem?_getD, getElem?_sockbufNew s j h hj]

/-- The slots that `sockbuf_new` adds are available. -/
theorem sbuf_sockbufNew_grown {s : State} {j : Nat} (h : j ≠ firstAvail s) (hj : s.nsockbufs ≤ j)
    (hlt : j < (sockbufNew s).1.nsockbufs) : (sockbufNew s).1.sbuf j = availSlot := by
  rw [nsockbufs_sockbufNew] at hlt
  split at hlt
  · next heq =>
    simp only [sbuf, List.getD_eq_getElem?_getD, sockbufNew, if_pos heq]
    rw [List.getElem?_set_ne (fun hc => h (hc.symm)), List.getElem?_append_right hj,
      List.getElem?_replicate, if_pos (by rw [nsockbufs] at *; omega)]
    rfl
  · omega

/-- The sockbuf that was handed out is valid. -/
theorem sockbufIsvalid_sockbufNew (s : State) :
    sockbufIsvalid (sockbufNew s).1 (sockbufNew s).2 = true := by
  have hself := sbuf_sockbufNew_self s
  have hlt := firstAvail_lt_sockbufNew s
  have hidx : (sockbufNew s).2 = firstAvail s := rfl
  rw [sockbufIsvalid, hidx, hself]
  simp [hlt, newSlot]

/-- The slot that `sockbuf_new` takes was available, or is behind the table. -/
theorem avail_firstAvail {s : State} (h : firstAvail s < s.nsockbufs) :
    (s.sbuf (firstAvail s)).flags.avail = true := by
  have hslot := List.findIdx_getElem (p := fun sb : SockbufT => sb.flags.avail) (w := h)
  rw [sbuf, List.getD_eq_getElem?_getD]
  rw [firstAvail] at h ⊢
  rw [List.getElem?_eq_getElem h]
  exact hslot

/-- A sockbuf that is valid behind `sockbuf_new` is the new one or was there before: the slots that the
table grew by are available. -/
theorem sockbufIsvalid_of_sockbufNew {s : State} {j : Nat}
    (hv : sockbufIsvalid (sockbufNew s).1 j = true) (hne : j ≠ firstAvail s) :
    sockbufIsvalid s j = true ∧ (sockbufNew s).1.sbuf j = s.sbuf j := by
  obtain ⟨hlt, havail, hdel⟩ := sockbufIsvalid_iff.1 hv
  rcases Nat.lt_or_ge j s.nsockbufs with hj | hj
  · have hold := sbuf_sockbufNew_old hne hj
    rw [hold] at havail hdel
    exact ⟨sockbufIsvalid_iff.2 ⟨hj, havail, hdel⟩, hold⟩
  · rw [sbuf_sockbufNew_grown hne hj hlt] at havail
    exact absurd havail (by simp [availSlot])

/-! ## `sockbuf_delete` -/

/-- A sockbuf that is valid behind the mark was valid before, and is not the marked one. -/
theorem sockbufIsvalid_of_mark {s : State} {idx j : Nat}
    (hv : sockbufIsvalid
      (s.update idx fun sb => { sb with flags := { sb.flags with deleted := true } }) j = true) :
    sockbufIsvalid s j = true ∧ idx ≠ j := by
  obtain ⟨hlt, havail, hdel⟩ := sockbufIsvalid_iff.1 hv
  rw [update_nsockbufs] at hlt
  have hne : idx ≠ j := by
    rintro rfl
    rw [sbuf_update_self _ _ _ hlt] at hdel
    exact absurd hdel (by simp)
  rw [sbuf_update_ne _ _ _ hne] at havail hdel
  exact ⟨sockbufIsvalid_iff.2 ⟨hlt, havail, hdel⟩, hne⟩

theorem sockbufDeleteFinish_sockbufs (s : State) (idx : Nat) :
    (sockbufDeleteFinish s idx).sockbufs = (s.update idx fun _ => deletedSlot).sockbufs := by
  rw [sockbufDeleteFinish]
  split <;> rfl

/-- The slot of a deleted sockbuf. -/
theorem sbuf_sockbufDeleteFinish (s : State) (idx j : Nat) :
    (sockbufDeleteFinish s idx).sbuf j =
      if idx = j ∧ idx < s.nsockbufs then deletedSlot else s.sbuf j := by
  rw [← State.sbuf_update s idx (fun _ => deletedSlot) j]
  simp only [sbuf, sockbufDeleteFinish_sockbufs]

theorem sockbufDeleteFinish_nsockbufs (s : State) (idx : Nat) :
    (sockbufDeleteFinish s idx).nsockbufs = s.nsockbufs := by
  rw [nsockbufs, sockbufDeleteFinish_sockbufs]
  exact update_nsockbufs s idx _

theorem sockbufDeleteFinish_ndeletedSockbufs (s : State) (idx : Nat) :
    (sockbufDeleteFinish s idx).ndeletedSockbufs = s.ndeletedSockbufs + 1 := by
  rw [sockbufDeleteFinish]
  split <;> rfl

theorem sockbufDeleteFinish_depth (s : State) (idx : Nat) :
    (sockbufDeleteFinish s idx).depth = s.depth := by
  rw [sockbufDeleteFinish]
  split <;> rfl

/-! ## The reclaim loop -/

theorem length_reclaim (n : Nat) (sbs : List SockbufT) : (reclaim n sbs).length = sbs.length := by
  induction sbs generalizing n with
  | nil => cases n <;> rfl
  | cons sb sbs ih =>
    cases n with
    | zero => rfl
    | succ n =>
      rw [reclaim]
      split
      · rw [List.length_cons, List.length_cons, ih]
      · rw [List.length_cons, List.length_cons, ih]

/-- A slot is left as it is, or it was deleted and is available now. -/
theorem getElem?_reclaim (n : Nat) (sbs : List SockbufT) (j : Nat) :
    (reclaim n sbs)[j]? = sbs[j]? ∨
      ∃ sb, sbs[j]? = some sb ∧ sb.flags.deleted = true ∧
        (reclaim n sbs)[j]? = some { sb with flags := { avail := true } } := by
  induction sbs generalizing n j with
  | nil => cases n <;> exact Or.inl rfl
  | cons sb sbs ih =>
    cases n with
    | zero => exact Or.inl rfl
    | succ n =>
      rw [reclaim]
      split
      · next hdel =>
        cases j with
        | zero => exact Or.inr ⟨sb, rfl, hdel, rfl⟩
        | succ j => simpa using ih n j
      · cases j with
        | zero => exact Or.inl rfl
        | succ j => simpa using ih (n + 1) j

/-- **The end of a pass**, with or without the slots that become available. -/
theorem updateFinish_cases (s : State) :
    (updateFinish s).events = [.passEnd] ∧ (updateFinish s).tasks = [] ∧
      ((updateFinish s).st = { s with depth := s.depth - 1 } ∨
        (updateFinish s).st =
          { s with
            depth := s.depth - 1
            sockbufs := reclaim s.ndeletedSockbufs s.sockbufs
            ndeletedSockbufs := 0 }) := by
  rw [updateFinish]
  dsimp only
  split
  · exact ⟨rfl, rfl, Or.inr rfl⟩
  · exact ⟨rfl, rfl, Or.inl rfl⟩

/-- The end of a pass keeps every slot that is not deleted. A deleted one may become available. -/
theorem sbuf_updateFinish (s : State) (j : Nat) :
    (updateFinish s).st.sbuf j = s.sbuf j ∨
      ((s.sbuf j).flags.deleted = true ∧
        (updateFinish s).st.sbuf j = { s.sbuf j with flags := { avail := true } }) := by
  rcases (updateFinish_cases s).2.2 with h | h
  · rw [h]
    exact Or.inl rfl
  · rw [h]
    simp only [sbuf, List.getD_eq_getElem?_getD]
    rcases getElem?_reclaim s.ndeletedSockbufs s.sockbufs j with hj | ⟨sb, hsb, hdel, hj⟩
    · rw [hj]
      exact Or.inl rfl
    · rw [hj, hsb]
      exact Or.inr ⟨hdel, rfl⟩

theorem nsockbufs_updateFinish (s : State) : (updateFinish s).st.nsockbufs = s.nsockbufs := by
  rcases (updateFinish_cases s).2.2 with h | h
  · rw [h]
    rfl
  · rw [h]
    exact length_reclaim _ _

end ExamplePrograms.Onethread.Sockbuf
