import ExamplePrograms.Other.PollServer

/-!
# Edges and early returns

A callback of `pm.c` has to go on until `read` or `accept` has nothing more to give, since what it leaves is
not reported again. `Stranded` is a descriptor on which something waits and that no report, past or to come,
will lead back to; `Leaves` is the step that strands it.
-/

set_option autoImplicit false

namespace ExamplePrograms.Other.PollServer

open ExamplePrograms.Lib.Runs

/-- The descriptor on which something arrives. -/
def Act.On (fd : Nat) : Act → Prop
  | .arrive fd' _ => fd' = fd
  | .hangup fd' => fd' = fd
  | _ => False

/-- A registered descriptor with something to read, of which the server does not know and will not be
told. -/
def Stranded (s : State) (fd : Nat) : Prop :=
  ∃ k ptr, s.socks[fd]? = some k ∧ k.interest = some ptr ∧ k.signals = true ∧ k.ready = false ∧
    ptr ∉ s.pc.active

/-! ## Who strands a descriptor -/

/-- A callback returns early, and leaves something that has not arrived since it was called: a call fails
for another reason than that nothing is there, or a `sockadd` or `sockdel` fails. -/
def Leaves (s : State) (x : Act) : Prop :=
  ∃ cl ev c k, Calling s cl ev c k ∧ k.ready = false ∧
    match c.cb, x with
    | .clientCb, .read (.error err) _ => err ≠ eagain ∧ k.signals = true
    | .clientCb, .read (.ok 0) del => del = false ∧ k.waiting = 0 ∧ k.ended = true
    | .serverCb, .accept (.error err) _ => err ≠ eagain ∧ k.signals = true
    | .serverCb, .accept (.ok _) a => a.ok = false ∧ 1 < k.waiting
    | _, _ => False

section Strands

variable {s s' : State} {x : Act} {fd : Nat}

/-- A descriptor that is left alone stays stranded. -/
theorem Stranded.congr (h : Stranded s fd) (hsock : s'.socks[fd]? = s.socks[fd]?)
    (hactive : ∀ ptr ∈ s'.pc.active, ptr ∈ s.pc.active) : Stranded s' fd := by
  obtain ⟨k, ptr, hk, hptr, hsignals, hready, hnot⟩ := h
  exact ⟨k, ptr, hsock.trans hk, hptr, hsignals, hready, fun hin => hnot (hactive ptr hin)⟩

/-- When a callback returns, the descriptors that are not its own are as before. -/
theorem Inv.stranded_return (h : Inv s) {cl : Nat} {ev : List Nat} {c : Client} {k : Sock}
    (hc : Calling s cl ev c k) (hfd : fd ≠ c.fd) (hst : Stranded { s with pc := .poll ev } fd) :
    Stranded s fd := by
  obtain ⟨k', ptr, hk', hptr, hsignals, hready, hnot⟩ := hst
  refine ⟨k', ptr, hk', hptr, hsignals, hready, ?_⟩
  rw [hc.pc]
  refine List.not_mem_cons_of_ne_of_not_mem (fun heq => hfd ?_) hnot
  rw [heq] at hptr
  exact h.owner hk' hc.sock hptr (h.calling hc)

/-- The descriptor of the callback that runs is not stranded. -/
theorem Inv.not_stranded_calling (h : Inv s) {cl : Nat} {ev : List Nat} {c : Client} {k : Sock}
    (hc : Calling s cl ev c k) : ¬ Stranded s c.fd := by
  rintro ⟨k', ptr, hk', hptr, -, -, hnot⟩
  cases hc.sock.symm.trans hk'
  cases (h.calling hc).symm.trans hptr
  rw [hc.pc] at hnot
  exact hnot List.mem_cons_self

/-- `sockadd` for an accepted connection, and the other descriptors behind it. -/
theorem Inv.sockadd_accepting (h : Inv s) {cl : Nat} {ev : List Nat} {c : Client} {k : Sock}
    (hc : Calling s cl ev c k) (n : Nat) (ended : Bool) (a : Add) :
    Adds a (accepting s c.fd n ended) (sockadd a (accepting s c.fd n ended) s.socks.length .clientCb)
        s.socks.length .clientCb { waiting := n, ended := ended } ∧
      c.fd < s.socks.length ∧
      (accepting s c.fd n ended).socks[c.fd]? = some { k with waiting := k.waiting - 1 } ∧
      ∀ fd', fd' < s.socks.length → fd' ≠ c.fd →
        (accepting s c.fd n ended).socks[fd']? = s.socks[fd']? := by
  have hlength : (s.socks.modify c.fd fun k => { k with waiting := k.waiting - 1 }).length =
      s.socks.length := List.length_modify _ _ _
  have hlt : c.fd < s.socks.length := (List.getElem?_eq_some_iff.1 hc.sock).1
  have hnew := getElem?_accepting s c.fd n ended
  refine ⟨sockadd_spec a .clientCb hnew h.threaded, hlt, ?_, fun fd' hlt' hne => ?_⟩
  · rw [accepting, List.getElem?_append_left (hlength ▸ hlt), modify_self hc.sock]
  · rw [accepting, List.getElem?_append_left (hlength ▸ hlt'), modify_ne (Ne.symm hne)]

/-- A failed call of the callback that runs. -/
theorem Inv.strands_failed (h : Inv s) {cl : Nat} {ev : List Nat} {c : Client} {k : Sock} {err : Nat}
    (hc : Calling s cl ev c k) (herr : err = eagain → k.signals = false)
    (hst : Stranded { s with pc := .poll ev } fd) :
    Stranded s fd ∨ (err ≠ eagain ∧ k.ready = false ∧ k.signals = true) := by
  by_cases hfd : fd = c.fd
  · subst hfd
    obtain ⟨k', ptr, hk', -, hsignals, hready, -⟩ := hst
    cases hc.sock.symm.trans hk'
    exact Or.inr ⟨fun he => by simp [herr he] at hsignals, hready,
      hsignals⟩
  · exact Or.inl (h.stranded_return hc hfd hst)

/-- An accepted connection is reported, or not registered. -/
theorem Inv.strands_accept (h : Inv s) {cl : Nat} {ev : List Nat} {c : Client} {k k' : Sock} {n : Nat}
    {ended : Bool} {a : Add} (hc : Calling s cl ev c k)
    (hk' : (sockadd a (accepting s c.fd n ended) s.socks.length .clientCb).socks[fd]? = some k')
    (hinterest : k'.interest.isSome = true) (hsignals : k'.signals = true) (hready : k'.ready = false) :
    (fd = c.fd ∧ k' = { k with waiting := k.waiting - 1 }) ∨ (fd ≠ c.fd ∧ s.socks[fd]? = some k') := by
  obtain ⟨hadds, hlt, hself, hothers⟩ := h.sockadd_accepting hc n ended a
  have hlength : (accepting s c.fd n ended).socks.length = s.socks.length + 1 := by
    rw [accepting, List.length_append, List.length_modify]
    rfl
  have hfdlt : fd < s.socks.length + 1 := by
    rw [← hlength, ← hadds.length]
    exact (List.getElem?_eq_some_iff.1 hk').1
  by_cases hnew : fd = s.socks.length
  · subst hnew
    rcases hadds.self with ⟨-, hsock, -⟩ | ⟨-, hsocks⟩
    · cases hsock.symm.trans hk'
      exact absurd (hsignals.symm.trans hready) (by decide)
    · have hplain : (accepting s c.fd n ended).socks[s.socks.length]? =
          some { waiting := n, ended := ended } := by
        rw [accepting, List.getElem?_append_right (Nat.le_of_eq (List.length_modify _ _ _)),
          List.length_modify, Nat.sub_self]
        rfl
      rw [hsocks] at hk'
      cases hplain.symm.trans hk'
      cases hinterest
  · rw [hadds.others fd hnew] at hk'
    by_cases hfd : fd = c.fd
    · subst hfd
      exact Or.inl ⟨rfl, Option.some.inj (hk'.symm.trans hself)⟩
    · exact Or.inr ⟨hfd, (hothers fd (by omega) hfd).symm.trans hk'⟩

/-- Only a callback that leaves something strands a descriptor. -/
theorem Inv.strands (h : Inv s) (hs : PollServer.step s x = some s') (hst : Stranded s' fd) :
    Stranded s fd ∨ Leaves s x := by
  have harrive : ∀ {fd0 n : Nat} {ended : Bool},
      Stranded { s with socks := s.socks.modify fd0 fun k => k.arrive n ended } fd → Stranded s fd := by
    rintro fd0 n ended ⟨k', ptr, hk', hptr, hsignals, hready, hnot⟩
    rcases modify_cases hk' with ⟨rfl, k, hk, rfl⟩ | ⟨-, hk⟩
    · have hinterest : k.interest.isSome = true := by
        rw [show k.interest = some ptr from hptr]
        rfl
      have htrue : (k.arrive n ended).ready = true := by
        rw [Sock.arrive, hinterest, Bool.or_true]
      exact absurd (htrue.symm.trans hready) (by decide)
    · exact ⟨k', ptr, hk, hptr, hsignals, hready, hnot⟩
  cases Effect.of_step hs with
  | arrive hk hended => exact Or.inl (harrive hst)
  | hangup hk hlistening => exact Or.inl (harrive hst)
  | @wait taken hpc hnodup hready =>
    obtain ⟨k', ptr, hk', hptr, hsignals, hready', hnot⟩ := hst
    obtain ⟨k, hk, rfl⟩ := polled_sock hk'
    by_cases hfd : fd ∈ taken
    · rw [if_pos hfd] at hptr hsignals
      -- it is reported
      refine absurd ?_ hnot
      exact List.mem_filterMap.2 ⟨fd, mem_reported.2 ⟨hfd, k, hk, hsignals⟩, by rw [hk]; exact hptr⟩
    · rw [if_neg hfd] at hptr hsignals hready'
      exact Or.inl ⟨k, ptr, hk, hptr, hsignals, hready', by rw [hpc]; exact List.not_mem_nil⟩
  | waitFailed hpc => exact Or.inl (hst.congr rfl fun ptr hptr => by rw [hpc] at hptr; exact hptr)
  | call hpc =>
    refine Or.inl (hst.congr rfl fun ptr hptr => ?_)
    rw [hpc] at hptr
    exact (List.mem_append.1 hptr).elim (fun hin => List.mem_cons_of_mem _ hin) fun hin => by
      rw [List.mem_singleton.1 hin]
      exact List.mem_cons_self
  | @readFailed cl ev c k err del hc hcb herr =>
    refine (h.strands_failed hc herr hst).imp id fun hleft => ⟨cl, ev, c, k, hc, hleft.2.1, ?_⟩
    rw [hcb]
    exact ⟨hleft.1, hleft.2.2⟩
  | @readEnd cl ev c k del hc hcb hwaiting hended =>
    cases del with
    | true =>
      obtain ⟨k', ptr, hk', hptr, hsignals, hready, hnot⟩ := hst
      rcases modify_cases hk' with ⟨rfl, k0, hk0, rfl⟩ | ⟨hfd, hk0⟩
      · cases hptr
      · exact Or.inl (h.stranded_return hc hfd ⟨k', ptr, hk0, hptr, hsignals, hready, hnot⟩)
    | false =>
      by_cases hfd : fd = c.fd
      · subst hfd
        obtain ⟨k', ptr, hk', -, -, hready, -⟩ := hst
        cases hc.sock.symm.trans hk'
        refine Or.inr ⟨cl, ev, c, k, hc, hready, ?_⟩
        rw [hcb]
        exact ⟨rfl, hwaiting, hended⟩
      · exact Or.inl (h.stranded_return hc hfd hst)
  | readData hc hcb hn =>
    obtain ⟨k', ptr, hk', hptr, hsignals, hready, hnot⟩ := hst
    rcases modify_cases hk' with ⟨rfl, k0, hk0, rfl⟩ | ⟨hfd, hk0⟩
    · have hcl := h.calling hc
      cases hc.sock.symm.trans hk0
      cases hcl.symm.trans hptr
      refine absurd ?_ hnot
      show _ ∈ s.pc.active
      rw [hc.pc]
      exact List.mem_cons_self
    · exact Or.inl ⟨k', ptr, hk0, hptr, hsignals, hready, hnot⟩
  | @acceptFailed cl ev c k err a hc hcb herr =>
    refine (h.strands_failed hc herr hst).imp id fun hleft => ⟨cl, ev, c, k, hc, hleft.2.1, ?_⟩
    rw [hcb]
    exact ⟨hleft.1, hleft.2.2⟩
  | @accepted cl ev c k n ended a hc hcb hwaiting hok =>
    obtain ⟨k', ptr, hk', hptr, hsignals, hready, hnot⟩ := hst
    rw [(h.sockadd_accepting hc n ended a).1.pc] at hnot
    rcases h.strands_accept hc hk' (by rw [hptr]; rfl) hsignals hready with ⟨rfl, rfl⟩ | ⟨-, hk⟩
    · cases (h.calling hc).symm.trans hptr
      refine absurd ?_ hnot
      show _ ∈ s.pc.active
      rw [hc.pc]
      exact List.mem_cons_self
    · exact Or.inl ⟨k', ptr, hk, hptr, hsignals, hready, hnot⟩
  | @acceptLost cl ev c k n ended a hc hcb hwaiting hok =>
    obtain ⟨k', ptr, hk', hptr, hsignals, hready, hnot⟩ := hst
    rcases h.strands_accept hc hk' (by rw [hptr]; rfl) hsignals hready with ⟨rfl, rfl⟩ | ⟨hfd, hk⟩
    · refine Or.inr ⟨cl, ev, c, k, hc, hready, ?_⟩
      rw [hcb]
      -- a listening descriptor does not end
      have hlistening : k.listening = true := by
        obtain ⟨c', hc', -, hcb'⟩ := (h.fits c.fd k hc.sock).pointer cl (h.calling hc)
        cases hc.client.symm.trans hc'
        exact hcb'.1 hcb
      have hended := (h.fits c.fd k hc.sock).listener hlistening
      simp only [Sock.signals, hended, Bool.or_false, decide_eq_true_eq] at hsignals
      exact ⟨hok, by omega⟩
    · exact Or.inl (h.stranded_return hc hfd ⟨k', ptr, hk, hptr, hsignals, hready, hnot⟩)

/-- The callback of a client makes its call. -/
theorem Calling.step_read {cl : Nat} {ev : List Nat} {c : Client} {k : Sock} (hc : Calling s cl ev c k)
    (hcb : c.cb = .clientCb) (r : Except Nat Nat) (del : Bool) :
    step s (.read r del) = clientCb s c.fd k ev r del := by
  simp only [step, hc.pc, hc.client, Option.bind_some, if_pos hcb, hc.sock]

/-- The callback of the listener makes its call. -/
theorem Calling.step_accept {cl : Nat} {ev : List Nat} {c : Client} {k : Sock}
    (hc : Calling s cl ev c k) (hcb : c.cb = .serverCb) (r : Except Nat (Nat × Bool)) (a : Add) :
    step s (.accept r a) = serverCb s c.fd k ev r a := by
  simp only [step, hc.pc, hc.client, Option.bind_some, if_pos hcb, hc.sock]

/-- A callback that leaves something strands its descriptor. -/
theorem Inv.stranded_of_leaves (h : Inv s) (hx : Leaves s x) :
    ∃ s' fd, PollServer.step s x = some s' ∧ Stranded s' fd := by
  obtain ⟨cl, ev, c, k, hc, hready, hleft⟩ := hx
  have hinterest := h.calling hc
  have hev : cl ∉ ev := by
    have hnodup := h.nodup
    rw [hc.pc] at hnodup
    exact (List.nodup_cons.1 hnodup).1
  have hstranded : k.signals = true → Stranded { s with pc := .poll ev } c.fd := fun hsignals =>
    ⟨k, cl, hc.sock, hinterest, hsignals, hready, hev⟩
  split at hleft
  · next err del hcb =>
    refine ⟨{ s with pc := .poll ev }, c.fd, ?_, hstranded hleft.2⟩
    rw [hc.step_read hcb, clientCb, if_neg fun hagain => hleft.1 hagain.1]
  · next del hcb =>
    obtain ⟨rfl, hwaiting, hended⟩ := hleft
    refine ⟨{ s with pc := .poll ev }, c.fd, ?_, hstranded (by rw [Sock.signals, hended, Bool.or_true])⟩
    rw [hc.step_read hcb, clientCb, if_pos ⟨hwaiting, hended⟩]
    rfl
  · next err a hcb =>
    refine ⟨{ s with pc := .poll ev }, c.fd, ?_, hstranded hleft.2⟩
    rw [hc.step_accept hcb, serverCb, if_neg fun hagain => hleft.1 hagain.1]
  · next r a hcb =>
    obtain ⟨n, ended⟩ := r
    obtain ⟨hok, hwaiting⟩ := hleft
    obtain ⟨hadds, hlt, hself, -⟩ := h.sockadd_accepting hc n ended a
    refine ⟨{ sockadd a (accepting s c.fd n ended) s.socks.length .clientCb with pc := .poll ev }, c.fd,
      ?_, { k with waiting := k.waiting - 1 }, cl, ?_, hinterest, ?_, hready, hev⟩
    · rw [hc.step_accept hcb, serverCb]
      dsimp only
      rw [if_pos (by omega), hok]
      rfl
    · exact (hadds.others c.fd (Nat.ne_of_lt hlt)).trans hself
    · simp only [Sock.signals, Bool.or_eq_true, decide_eq_true_eq]
      exact Or.inl (by omega)
  · exact absurd hleft id

/-- Nothing but an arrival on it brings a stranded descriptor back. -/
theorem Inv.stranded_step (h : Inv s) (hst : Stranded s fd) (hx : ¬ x.On fd)
    (hs : PollServer.step s x = some s') : Stranded s' fd ∧ s'.socks[fd]? = s.socks[fd]? := by
  -- it is not the descriptor of the callback that runs
  have hother : ∀ {cl ev c k}, Calling s cl ev c k → c.fd ≠ fd := by
    rintro cl ev c k hc rfl
    exact h.not_stranded_calling hc hst
  have hlt : fd < s.socks.length := by
    obtain ⟨k, -, hk, -⟩ := hst
    exact (List.getElem?_eq_some_iff.1 hk).1
  have hreturn : ∀ {cl ev c k}, Calling s cl ev c k → ∀ ptr ∈ ev, ptr ∈ s.pc.active := by
    intro cl ev c k hc ptr hptr
    rw [hc.pc]
    exact List.mem_cons_of_mem _ hptr
  have haccept : ∀ {cl ev c k n ended} {a : Add}, Calling s cl ev c k →
      (sockadd a (accepting s c.fd n ended) s.socks.length .clientCb).socks[fd]? = s.socks[fd]? ∧
        (sockadd a (accepting s c.fd n ended) s.socks.length .clientCb).pc = s.pc := by
    intro cl ev c k n ended a hc
    obtain ⟨hadds, -, -, hothers⟩ := h.sockadd_accepting hc n ended a
    exact ⟨(hadds.others fd (Nat.ne_of_lt hlt)).trans (hothers fd hlt (Ne.symm (hother hc))), hadds.pc⟩
  cases Effect.of_step hs with
  | @arrive fd0 n k hk hended =>
    have hsock : (s.socks.modify fd0 fun k => k.arrive n false)[fd]? = s.socks[fd]? := modify_ne hx
    exact ⟨hst.congr hsock fun _ hptr => hptr, hsock⟩
  | @hangup fd0 k hk hlistening =>
    have hsock : (s.socks.modify fd0 fun k => k.arrive 0 true)[fd]? = s.socks[fd]? := modify_ne hx
    exact ⟨hst.congr hsock fun _ hptr => hptr, hsock⟩
  | @wait taken hpc hnodup hready =>
    obtain ⟨k, ptr, hk, hptr, hsignals, hready', hnot⟩ := hst
    have hfd : fd ∉ taken := by
      intro hin
      obtain ⟨k', hk', hready''⟩ := hready fd hin
      cases hk.symm.trans hk'
      exact absurd (hready''.symm.trans hready') (by decide)
    have hsock : (PollServer.polled s taken).socks[fd]? = some k := by
      rw [PollServer.polled, getElem?_taken hk, if_neg hfd]
    refine ⟨⟨k, ptr, hsock, hptr, hsignals, hready', ?_⟩, hsock.trans hk.symm⟩
    intro hin
    obtain ⟨fd', hfd', hptr'⟩ := List.mem_filterMap.1 hin
    obtain ⟨k', hk', hinterest⟩ := Option.bind_eq_some_iff.1 hptr'
    rw [h.owner hk hk' hptr hinterest] at hfd
    exact hfd (mem_reported.1 hfd').1
  | waitFailed hpc => exact ⟨hst.congr rfl fun ptr hptr => absurd hptr List.not_mem_nil, rfl⟩
  | call hpc =>
    refine ⟨hst.congr rfl fun ptr hptr => ?_, rfl⟩
    rw [hpc]
    rcases List.mem_cons.1 hptr with rfl | hptr
    · exact List.mem_append_right _ List.mem_cons_self
    · exact List.mem_append_left _ hptr
  | readFailed hc hcb herr => exact ⟨hst.congr rfl (hreturn hc), rfl⟩
  | @readEnd cl ev c k del hc hcb hwaiting hended =>
    have hsock : (sockdel del s c.fd).socks[fd]? = s.socks[fd]? := by
      cases del with
      | false => rfl
      | true => exact modify_ne (hother hc)
    exact ⟨hst.congr hsock (hreturn hc), hsock⟩
  | @readData cl ev c k n del hc hcb hn =>
    have hsock : (s.socks.modify c.fd fun k => { k with waiting := k.waiting - (n + 1) })[fd]? =
        s.socks[fd]? := modify_ne (hother hc)
    exact ⟨hst.congr hsock fun _ hptr => hptr, hsock⟩
  | acceptFailed hc hcb herr => exact ⟨hst.congr rfl (hreturn hc), rfl⟩
  | accepted hc hcb hwaiting hok =>
    exact ⟨hst.congr (haccept hc).1 fun ptr hptr => (haccept hc).2 ▸ hptr, (haccept hc).1⟩
  | acceptLost hc hcb hwaiting hok => exact ⟨hst.congr (haccept hc).1 (hreturn hc), (haccept hc).1⟩

end Strands

/-! ## The results -/

/-- Behind `main` the listening descriptor is reported when somebody waits already. -/
theorem not_stranded_main (u : Setup) (fd : Nat) : ¬ Stranded (main u) fd := by
  have hinterest : ∀ k ∈ ((main u).socks : List Sock), k.ready = k.signals ∨ k.interest = none := by
    intro k hk
    rw [main, ip4add] at hk
    split at hk
    · split at hk
      · next n _ _ =>
        rw [sockadd] at hk
        split at hk
        · dsimp only at hk
          split at hk
          · obtain rfl := List.mem_singleton.1 hk
            exact Or.inl rfl
          · obtain rfl := List.mem_singleton.1 hk
            exact Or.inr rfl
        · obtain rfl := List.mem_singleton.1 hk
          exact Or.inr rfl
      · obtain rfl := List.mem_singleton.1 hk
        exact Or.inr rfl
    · cases hk
  rintro ⟨k, ptr, hk, hptr, hsignals, hready, -⟩
  rcases hinterest k (List.mem_of_getElem? hk) with heq | heq
  · exact absurd (heq.symm.trans hready) (by rw [hsignals]; decide)
  · rw [heq] at hptr
    cases hptr

/-- A call that succeeds, or fails because nothing is there. -/
def Act.Prompt : Act → Prop
  | .read (.error err) _ => err = eagain
  | .read (.ok 0) del => del = true
  | .accept (.error err) _ => err = eagain
  | .accept (.ok _) a => a.ok = true
  | _ => True

instance : DecidablePred Act.Prompt
  | .read (.error err) _ => inferInstanceAs (Decidable (err = eagain))
  | .read (.ok 0) del => inferInstanceAs (Decidable (del = true))
  | .accept (.error err) _ => inferInstanceAs (Decidable (err = eagain))
  | .accept (.ok _) a => inferInstanceAs (Decidable (a.ok = true))
  | .read (.ok (_ + 1)) _ => instDecidableTrue
  | .arrive _ _ => instDecidableTrue
  | .hangup _ => instDecidableTrue
  | .wait _ => instDecidableTrue
  | .waitFailed => instDecidableTrue
  | .call => instDecidableTrue

/-- A prompt callback leaves nothing. -/
theorem Act.Prompt.not_leaves {x : Act} (hx : x.Prompt) (s : State) : ¬ Leaves s x := by
  rintro ⟨cl, ev, c, k, -, -, hleft⟩
  split at hleft
  · exact hleft.1 hx
  · exact absurd (hleft.1.symm.trans hx) (by decide)
  · exact hleft.1 hx
  · exact absurd (hleft.1.symm.trans hx) (by decide)
  · exact hleft

/-- **What strands a descriptor.** No descriptor is stranded after any step of a run exactly when no
callback of it leaves something: then every descriptor with input is reported again. -/
theorem pm_strands_iff (u : Setup) (xs : List Act) :
    Throughout step (fun s x => ∀ s', step s x = some s' → ∀ fd, ¬ Stranded s' fd) (main u) xs ↔
      Throughout step (fun s x => ¬ Leaves s x) (main u) xs := by
  refine Throughout.iff_of_kept (I := fun s => Inv s ∧ ∀ fd, ¬ Stranded s fd) ?_ ?_
    ⟨inv_main u, not_stranded_main u⟩
  · intro s x s' hI hx hs
    exact ⟨hI.1.step hs, fun fd hst => (hI.1.strands hs hst).elim (hI.2 fd) hx⟩
  · intro s x hI
    constructor
    · intro hnone hx
      obtain ⟨s', fd, hs, hst⟩ := hI.1.stranded_of_leaves hx
      exact hnone s' hs fd hst
    · intro hx s' hs fd hst
      exact (hI.1.strands hs hst).elim (hI.2 fd) hx

/-- **Nothing waits while the server sleeps.** In a run in which no callback leaves something, when the
server waits for events and none is to be reported, there is nothing to read on any registered descriptor
and nobody to accept. -/
theorem pm_sleeps_served {u : Setup} {s : State}
    (hrun : Run step (fun s x => ¬ Leaves s x) (main u) s) (hpc : s.pc = .poll [])
    (hready : ∀ k ∈ s.socks, k.ready = false) :
    ∀ k ∈ s.socks, k.interest.isSome = true → k.waiting = 0 ∧ k.ended = false := by
  have hI := hrun.invariant (I := fun s => Inv s ∧ ∀ fd, ¬ Stranded s fd)
    (fun s x s' hI hx hs =>
      ⟨hI.1.step hs, fun fd hst => (hI.1.strands hs hst).elim (hI.2 fd) hx⟩)
    ⟨inv_main u, not_stranded_main u⟩
  intro k hk hinterest
  obtain ⟨fd, hfd⟩ := List.mem_iff_getElem?.1 hk
  obtain ⟨ptr, hptr⟩ := Option.isSome_iff_exists.1 hinterest
  have hsignals : k.signals = false := Bool.eq_false_iff.2 fun hsignals =>
    hI.2 fd ⟨k, ptr, hfd, hptr, hsignals, hready k hk, by rw [hpc]; exact List.not_mem_nil⟩
  simp only [Sock.signals, Bool.or_eq_false_iff, decide_eq_false_iff_not] at hsignals
  exact ⟨by omega, hsignals.2⟩

/-- A client connects and sends three bytes. -/
def promptSession : List Act :=
  [.arrive 0 1, .wait [0], .call, .accept (.ok (0, false)) {}, .accept (.error eagain) {}, .arrive 1 3,
    .wait [1], .call, .read (.ok 3) true, .read (.error eagain) true]

/-- Behind the session of `main` the server sleeps, and both descriptors are served. -/
theorem pm_sleeps_served_session :
    ∃ s : State, execute step (fun _ x => x.Prompt) (main {}) promptSession = some s ∧
      s.pc = .poll [] ∧ s.heap.length = 2 ∧
      ∀ k ∈ (s.socks : List Sock), k.interest.isSome = true → k.waiting = 0 ∧ k.ended = false :=
  ⟨_, rfl, rfl, rfl, pm_sleeps_served
    ((run_of_execute promptSession rfl :
        Run step (fun _ x => x.Prompt) (main {}) _).imp (I := fun _ => True)
      (fun _ _ _ _ _ _ => trivial) (fun t _ _ _ hx _ => hx.not_leaves t) trivial)
    rfl (by decide)⟩

/-- **A stranded descriptor is forgotten.** From any state that is reached, whatever else happens, what
waits on a stranded descriptor goes on waiting until something new arrives on it. -/
theorem pm_forgets {s s' : State} {fd : Nat} (h : Reached s) (hst : Stranded s fd)
    (hrun : Run step (fun _ x => ¬ x.On fd) s s') :
    Stranded s' fd ∧ s'.socks[fd]? = s.socks[fd]? := by
  have hI := hrun.invariant
    (I := fun t => Inv t ∧ Stranded t fd ∧ t.socks[fd]? = s.socks[fd]?)
    (fun t x t' hI hx hs => ⟨hI.1.step hs, (hI.1.stranded_step hI.2.1 hx hs).1,
      (hI.1.stranded_step hI.2.1 hx hs).2.trans hI.2.2⟩)
    ⟨h.inv, hst, rfl⟩
  exact hI.2

/-- Two clients connect, and the first `accept` is interrupted. -/
def interrupted : List Act := [.arrive 0 2, .wait [0], .call, .accept (.error 4) {}]

/-- The state behind it. -/
def interruptedState : State where
  socks := [{ listening := true, waiting := 2, interest := some 0 }]
  heap := [⟨0, .serverCb, .head, none⟩]
  head := some 0

/-- The second client is never accepted unless something else arrives. -/
theorem pm_forgets_interrupted : Reached interruptedState ∧ Stranded interruptedState 0 ∧
    ∃ s', Run step (fun _ x => ¬ x.On 0) interruptedState s' ∧ Stranded s' 0 ∧
      s'.socks[0]? = interruptedState.socks[0]? := by
  have hreached : Reached interruptedState :=
    ⟨{}, run_of_execute interrupted (show execute step (fun _ _ => True) _ _ = _ from rfl)⟩
  have hstranded : Stranded interruptedState 0 := ⟨_, 0, rfl, rfl, rfl, rfl, List.not_mem_nil⟩
  have hrun : Run step (fun _ x => ¬ x.On 0) interruptedState interruptedState :=
    .snoc (.refl _) (x := .wait []) (fun hx => hx) rfl
  exact ⟨hreached, hstranded, _, hrun, pm_forgets hreached hstranded hrun⟩

end ExamplePrograms.Other.PollServer
