import ExamplePrograms.Onethread.Sockbuf.Consistency

/-!
# The output stream of a sockbuf

What the kernel accepts from a sockbuf is what was submitted to it with `sockbuf_write`, in order and
without gaps: bytes are written directly only while the buffer is empty, and otherwise go behind the
bytes that wait there. `Flow` is the invariant of the record, with the accepted and the submitted bytes
beside it. A write error other than `EAGAIN` closes the socket, after which nothing is accepted.

The run may do anything to the other sockbufs. To the sockbuf itself it does what the event loop, the
calls of `sockbuf_write` and the functions do that neither give it a socket nor delete it.
-/

set_option autoImplicit false

namespace ExamplePrograms.Onethread.Sockbuf

open ExamplePrograms.Lib.Memory ExamplePrograms.Lib.Runs State

/-! ## Bytes of a trace -/

/-- The bytes of the sockbuf that the kernel accepted. -/
def Event.acceptedBytes (idx : Nat) : Event → List UInt8
  | .wrote j data => if j = idx then data else []
  | _ => []

/-- The bytes that were submitted to the sockbuf. -/
def Event.submittedBytes (idx : Nat) : Event → List UInt8
  | .submitted j data => if j = idx then data else []
  | _ => []

/-- The bytes that the kernel accepted from the sockbuf. -/
def accepted (idx : Nat) (es : List Event) : List UInt8 := es.flatMap (Event.acceptedBytes idx)

/-- The data passed to `sockbuf_write`, in call order. -/
def submitted (idx : Nat) (es : List Event) : List UInt8 := es.flatMap (Event.submittedBytes idx)

/-- A write of the sockbuf failed with an error other than `EAGAIN`. -/
def HardError (idx : Nat) (es : List Event) : Prop :=
  ∃ err, err ≠ eagain ∧ Event.writeFailed idx err ∈ es

/-- Events that are not about the output of the sockbuf. -/
def Event.Elsewhere (idx : Nat) : Event → Prop
  | .submitted j _ => j ≠ idx
  | .wrote j _ => j ≠ idx
  | .writeFailed j _ => j ≠ idx
  | _ => True

theorem Event.Quiet.elsewhere {idx : Nat} {e : Event} (h : e.Quiet (· ≠ idx)) : e.Elsewhere idx := by
  cases e <;> first | exact h | trivial

/-- The accepted bytes of two lists of events. -/
theorem accepted_append (idx : Nat) (es fs : List Event) :
    accepted idx (es ++ fs) = accepted idx es ++ accepted idx fs := List.flatMap_append

/-- The submitted bytes of two lists of events. -/
theorem submitted_append (idx : Nat) (es fs : List Event) :
    submitted idx (es ++ fs) = submitted idx es ++ submitted idx fs := List.flatMap_append

/-- A hard error in two lists of events. -/
theorem hardError_append (idx : Nat) (es fs : List Event) :
    HardError idx (es ++ fs) ↔ HardError idx es ∨ HardError idx fs := by
  constructor
  · rintro ⟨err, herr, hmem⟩
    rcases List.mem_append.1 hmem with h | h
    · exact Or.inl ⟨err, herr, h⟩
    · exact Or.inr ⟨err, herr, h⟩
  · rintro (⟨err, herr, hmem⟩ | ⟨err, herr, hmem⟩)
    · exact ⟨err, herr, List.mem_append_left _ hmem⟩
    · exact ⟨err, herr, List.mem_append_right _ hmem⟩

/-- Events elsewhere accept and submit nothing. -/
theorem elsewhere_bytes {idx : Nat} {es : List Event} (h : ∀ e ∈ es, e.Elsewhere idx) :
    accepted idx es = [] ∧ submitted idx es = [] ∧ ¬ HardError idx es := by
  refine ⟨List.flatMap_eq_nil_iff.2 fun e he => ?_, List.flatMap_eq_nil_iff.2 fun e he => ?_, ?_⟩
  · have := h e he
    cases e <;> first | rfl | exact if_neg this
  · have := h e he
    cases e <;> first | rfl | exact if_neg this
  · rintro ⟨err, -, hmem⟩
    exact h _ hmem rfl

/-! ## The record -/

/-- `raw_bytes_out` and `bytes_out`. -/
def SockbufT.outCounts (sb : SockbufT) : Option (UInt64 × UInt64) :=
  sb.stats.map fun st => (st.rawBytesOut, st.bytesOut)

/-- The record `sb` after the bytes `acc` of the submitted bytes `sub` were accepted. `n` bytes are
counted as submitted, on top of the counts `init`. -/
structure Flow (init : Option (UInt64 × UInt64)) (n : Nat) (sb : SockbufT) (acc sub : List UInt8)
    (hard : Prop) : Prop where
  filters : ∀ f ∈ sb.filters.take sb.nfilters, f.onWrite = false
  counts : sb.outCounts =
    init.map fun p => (p.1 + UInt64.ofNat acc.length, p.2 + UInt64.ofNat n)
  fits : sb.len ≤ sb.data.length
  begins : acc <+: sub
  whole : ¬ hard → acc ++ sb.buffered = sub
  closed : hard → sb.sock < 0
  ready : 0 ≤ sb.sock → 0 < sb.len → sb.flags.block = true

namespace Flow

variable {init : Option (UInt64 × UInt64)} {n : Nat} {sb sb' : SockbufT} {acc sub : List UInt8}
  {hard : Prop} (h : Flow init n sb acc sub hard)

include h

theorem of_core (hcore : sb'.core = sb.core) : Flow init n sb' acc sub hard := by
  simp only [SockbufT.core, Prod.mk.injEq] at hcore
  obtain ⟨hsock, hflags, hdata, hlen, hfilters, hstats⟩ := hcore
  have hcounts : sb'.outCounts = sb.outCounts := by
    simpa [SockbufT.outCounts, Function.comp_def] using
      congrArg (Option.map fun p : UInt64 × UInt64 × UInt64 => (p.1, p.2.1)) hstats
  refine ⟨?_, hcounts.trans h.counts, ?_, h.begins, ?_, ?_, ?_⟩
  · rw [hfilters]
    exact h.filters
  · rw [hlen, hdata]
    exact h.fits
  · rw [SockbufT.buffered, hdata, hlen]
    exact h.whole
  · rw [hsock]
    exact h.closed
  · rw [hsock, hlen, hflags]
    exact h.ready

/-- A change of the flags. -/
theorem of_flags (flags : Flags) (hready : 0 ≤ sb.sock → 0 < sb.len → flags.block = true) :
    Flow init n { sb with flags := flags } acc sub hard :=
  ⟨h.filters, h.counts, h.fits, h.begins, h.whole, h.closed, hready⟩

/-- A record without a socket accepts nothing, whatever is submitted to it. -/
theorem fail {sub' : List UInt8} {hard' : Prop} (hsock : sb.sock < 0) (hsub : sub <+: sub')
    (hwhole : ¬ hard' → acc ++ sb.buffered = sub') : Flow init n sb acc sub' hard' :=
  ⟨h.filters, h.counts, h.fits, h.begins.trans hsub, hwhole, fun _ => hsock,
    fun hs _ => absurd hs (by omega)⟩

/-- A closed socket. -/
theorem close (k : Kernel) (flags : Flags) : Flow init n (sb.setSock k (-1) flags) acc sub hard := by
  have hkeep : (sb.setSock k (-1) flags).data = sb.data ∧ _ := setSock_output sb (-1)
  obtain ⟨hdata, hlen, hfilters, hnfilters, hstats⟩ := hkeep
  refine ⟨?_, ?_, ?_, h.begins, ?_, fun _ => ?_, fun hs _ => ?_⟩
  · rw [hfilters, hnfilters]
    exact h.filters
  · rw [SockbufT.outCounts, hstats]
    exact h.counts
  · rw [hlen, hdata]
    exact h.fits
  · rw [SockbufT.buffered, hdata, hlen]
    exact h.whole
  · rw [setSock_sock]
    decide
  · rw [setSock_sock] at hs
    exact absurd hs (by decide)

/-- Data goes behind the bytes that wait in the buffer of a blocked record. -/
theorem append (hblock : sb.flags.block = true) (data : List UInt8) :
    Flow init n (sb.append data) acc (sub ++ data) hard := by
  have hbuf : (sb.append data).buffered = sb.buffered ++ data :=
    take_memcpy_realloc 0 data h.fits
  refine ⟨h.filters, h.counts, ?_, h.begins.trans (List.prefix_append _ _), fun hh => ?_, h.closed,
    fun _ _ => hblock⟩
  · simp only [SockbufT.append]
    refine Nat.le_of_eq ?_
    rw [length_memcpy (Nat.le_of_eq (length_realloc _ _ _).symm), length_realloc]
  · rw [hbuf, ← List.append_assoc, h.whole hh]

/-- The statistics after `nbytes` more bytes were accepted. -/
theorem counts_accepted {f : SockbufStats → SockbufStats} {nbytes : Nat}
    (hf : ∀ st, (f st).rawBytesOut = st.rawBytesOut + UInt64.ofNat nbytes ∧
      (f st).bytesOut = st.bytesOut) :
    (sb.stats.map f).map (fun st => (st.rawBytesOut, st.bytesOut)) =
      init.map fun p => (p.1 + UInt64.ofNat (acc.length + nbytes), p.2 + UInt64.ofNat n) := by
  have hstep := congrArg (Option.map fun p : UInt64 × UInt64 =>
    (p.1 + UInt64.ofNat nbytes, p.2)) h.counts
  rw [SockbufT.outCounts, Option.map_map, Option.map_map] at hstep
  rw [Option.map_map, UInt64.ofNat_add]
  simpa [Function.comp_def, hf, UInt64.add_assoc] using hstep

/-- Data was written directly past an empty buffer. -/
theorem wrote (hhard : ¬ hard) (hlen : sb.len = 0) (data : List UInt8) :
    Flow init n { sb with stats := sb.stats.map (statsOut · data.length) } (acc ++ data)
      (sub ++ data) hard := by
  have hbuf : sb.buffered = [] := by rw [SockbufT.buffered, hlen, List.take_zero]
  -- an empty buffer: all that was submitted is accepted
  have hacc : acc = sub := by
    have := h.whole hhard
    rwa [hbuf, List.append_nil] at this
  refine ⟨h.filters, ?_, h.fits, ?_, fun _ => ?_, h.closed, h.ready⟩
  · rw [List.length_append]
    exact h.counts_accepted fun st => ⟨rfl, rfl⟩
  · exact hacc ▸ List.prefix_rfl
  · exact (congrArg (acc ++ data ++ ·) hbuf).trans (by rw [List.append_nil, hacc])

/-- The first `nbytes` bytes of the buffer were accepted, and the rest moved to its front. -/
theorem drained {nbytes : Nat} (hhard : ¬ hard) (hn : nbytes ≤ sb.len) {data : List UInt8}
    (hdata : data.take (sb.len - nbytes) = sb.buffered.drop nbytes)
    (hfits : sb.len - nbytes ≤ data.length) :
    Flow init n { sb.drain nbytes with data := data } (acc ++ sb.buffered.take nbytes) sub hard := by
  have hlen : (sb.buffered.take nbytes).length = nbytes := by
    have := h.fits
    rw [List.length_take, SockbufT.buffered, List.length_take]
    omega
  have hwhole : acc ++ sb.buffered.take nbytes ++ sb.buffered.drop nbytes = sub := by
    rw [List.append_assoc, List.take_append_drop, h.whole hhard]
  refine ⟨h.filters, ?_, hfits, ?_, fun _ => ?_, h.closed, fun hs hl => ?_⟩
  · rw [List.length_append, hlen]
    exact h.counts_accepted fun st => ⟨rfl, rfl⟩
  · exact hwhole ▸ List.prefix_append _ _
  · exact (congrArg _ hdata).trans hwhole
  · exact h.ready hs (Nat.lt_of_lt_of_le hl (Nat.sub_le _ _))

end Flow

/-! ## The state -/

section State

variable {init : Option (UInt64 × UInt64)} {idx n : Nat} {s s' : State} {acc sub : List UInt8}
  {hard : Prop}

/-- A valid sockbuf with a sound record. -/
structure Sound (init : Option (UInt64 × UInt64)) (idx n : Nat) (s : State) (acc sub : List UInt8)
    (hard : Prop) : Prop where
  valid : sockbufIsvalid s idx = true
  flow : Flow init n (s.sbuf idx) acc sub hard

theorem isvalid_of_flags (hns : s.nsockbufs ≤ s'.nsockbufs)
    (havail : (s'.sbuf idx).flags.avail = (s.sbuf idx).flags.avail)
    (hdel : (s'.sbuf idx).flags.deleted = (s.sbuf idx).flags.deleted)
    (hv : sockbufIsvalid s idx = true) : sockbufIsvalid s' idx = true := by
  obtain ⟨hlt, ha, hd⟩ := sockbufIsvalid_iff.1 hv
  exact sockbufIsvalid_iff.2 ⟨Nat.lt_of_lt_of_le hlt hns, havail.trans ha, hdel.trans hd⟩

namespace Sound

/-- A change elsewhere keeps the flow sound. -/
theorem frame (h : Sound init idx n s acc sub hard) (hns : s.nsockbufs ≤ s'.nsockbufs)
    (hsbuf : s'.sbuf idx = s.sbuf idx) : Sound init idx n s' acc sub hard :=
  ⟨isvalid_of_flags hns (by rw [hsbuf]) (by rw [hsbuf]) h.valid, by rw [hsbuf]; exact h.flow⟩

/-- A write to the record that keeps the marks of dead slots. -/
theorem update {f : SockbufT → SockbufT} (hv : sockbufIsvalid s idx = true)
    (havail : (f (s.sbuf idx)).flags.avail = (s.sbuf idx).flags.avail)
    (hdel : (f (s.sbuf idx)).flags.deleted = (s.sbuf idx).flags.deleted)
    (hflow : Flow init n (f (s.sbuf idx)) acc sub hard) :
    Sound init idx n (s.update idx f) acc sub hard := by
  have hself := sbuf_update_self s idx f (sockbufIsvalid_iff.1 hv).1
  refine ⟨isvalid_of_flags (Nat.le_of_eq (update_nsockbufs _ _ _).symm) ?_ ?_ hv, by rw [hself]; exact hflow⟩
  · rw [hself, havail]
  · rw [hself, hdel]

theorem updateEntry (h : Sound init idx n s acc sub hard) (j : Nat) (f : Pollfd → Pollfd) :
    Sound init idx n (s.updateEntry j f) acc sub hard :=
  h.frame (Nat.le_of_eq (updateEntry_nsockbufs _ _ _).symm) (updateEntry_sbuf s j f idx)

theorem block (h : Sound init idx n s acc sub hard) :
    Sound init idx n (sockbufBlock s idx) acc sub hard :=
  (Sound.update h.valid rfl rfl (h.flow.of_flags _ fun _ _ => rfl)).updateEntry idx _

theorem unblock (h : Sound init idx n s acc sub hard) (hlen : (s.sbuf idx).len = 0) :
    Sound init idx n (sockbufUnblock s idx) acc sub hard :=
  (Sound.update h.valid rfl rfl
    (h.flow.of_flags _ fun _ hl => absurd hl (by simp [hlen]))).updateEntry idx _

theorem removeSock (h : Sound init idx n s acc sub hard) (k : Kernel) :
    Sound init idx n (sockbufSetSock k s idx (-1) {}) acc sub hard := by
  refine ⟨?_, ?_⟩
  · rw [isvalid_sockbufSetSock ⟨rfl, rfl⟩ h.valid]
    exact h.valid
  · rw [sbuf_sockbufSetSock_self h.valid]
    exact h.flow.close k {}

/-- Whatever is done to the other sockbufs. -/
theorem effect {es : List Event} (h : Sound init idx n s acc sub hard)
    (he : Effect (· ≠ idx) s es s') : Sound init idx n s' acc sub hard := by
  cases he with
  | note _ => exact h
  | @detail j f hf =>
    have hcore : ((s.update j f).sbuf idx).core = (s.sbuf idx).core :=
      sbuf_update_keeps s j f SockbufT.core hf idx
    have hflags : ((s.update j f).sbuf idx).flags = (s.sbuf idx).flags := by
      simp only [SockbufT.core, Prod.mk.injEq] at hcore
      exact hcore.2.1
    exact ⟨isvalid_of_flags (Nat.le_of_eq (update_nsockbufs _ _ _).symm) (by rw [hflags]) (by rw [hflags])
      h.valid, h.flow.of_core hcore⟩
  | connected j =>
    by_cases hj : j = idx
    · subst hj
      exact Sound.update h.valid rfl rfl (h.flow.of_flags _ h.flow.ready)
    · exact h.frame (Nat.le_of_eq (update_nsockbufs _ _ _).symm) (sbuf_update_ne s j _ hj)
  | @output j f hj _ _ _ => exact h.frame (Nat.le_of_eq (update_nsockbufs _ _ _).symm) (sbuf_update_ne s j f hj)
  | @block j hj =>
    exact (h.frame (Nat.le_of_eq (update_nsockbufs _ _ _).symm) (sbuf_update_ne s j _ hj)).updateEntry j _
  | @unblock j hlen =>
    by_cases hj : j = idx
    · subst hj
      exact h.unblock hlen
    · exact (h.frame (Nat.le_of_eq (update_nsockbufs _ _ _).symm) (sbuf_update_ne s j _ hj)).updateEntry j _
  | watch _ => exact h.updateEntry _ _
  | @close j k hv =>
    by_cases hj : j = idx
    · subst hj
      exact h.removeSock k
    · exact h.frame (Nat.le_of_eq (nsockbufs_sockbufSetSock k {} hv (-1)).symm)
        (sbuf_sockbufSetSock_ne hv (-1) fun hc => hj hc.symm)

/-- A mild call elsewhere keeps the flow sound. -/
theorem mild {o : Outcome} (h : Sound init idx n s acc sub hard) (ho : Mild (· ≠ idx) s o) :
    Sound init idx n o.st acc sub hard :=
  ho.evolve.keeps (fun _ _ _ h he => Sound.effect h he) h

/-- Eof closes the socket; a hard error of the write before it is recorded. -/
theorem gotEof (h : Sound init idx n s acc sub hard) (k : Kernel) (err : Nat) {sub' : List UInt8}
    {hard' : Prop} (hsub : sub <+: sub')
    (hwhole : ¬ hard' → acc ++ (s.sbuf idx).buffered = sub') :
    Sound init idx n (sockbufGotEof k s idx err).st acc sub' hard' := by
  have hclose : Sound init idx n (sockbufClose k s idx) acc sub' hard' := by
    rw [sockbufClose]
    split
    -- the buffer survives the close, the socket does not
    · have hr := h.removeSock k
      have hself : (sockbufSetSock k s idx (-1) {}).sbuf idx = (s.sbuf idx).setSock k (-1) {} :=
        sbuf_sockbufSetSock_self h.valid (-1)
      refine ⟨hr.valid, hr.flow.fail ?_ hsub fun hn => ?_⟩
      · rw [hself, setSock_sock]
        decide
      · have hkeep : ((s.sbuf idx).setSock k (-1) {}).data = _ ∧ _ := setSock_output (s.sbuf idx) (-1)
        obtain ⟨hdata, hlen, -⟩ := hkeep
        rw [hself, SockbufT.buffered, hdata, hlen]
        exact hwhole hn
    -- there was no socket to close
    · next hc =>
      have hneg : (s.sbuf idx).sock < 0 := by
        by_contra hs
        exact hc ⟨h.valid, by omega⟩
      exact ⟨h.valid, h.flow.fail hneg hsub hwhole⟩
  exact hclose.mild (mild_sockbufOnEof _ idx _ _)

end Sound

theorem sysWrite_ok {k : Kernel} {fd : Int} {data : List UInt8} {nbytes : Nat}
    (h : k.sysWrite fd data = .ok nbytes) : 0 ≤ fd ∧ nbytes ≤ data.length := by
  rw [Kernel.sysWrite] at h
  split at h
  · exact absurd h (by simp)
  · cases hk : k.write with
    | error err => rw [hk] at h; exact absurd h (by simp [Except.map])
    | ok m =>
      rw [hk] at h
      simp only [Except.map, Except.ok.injEq] at h
      omega

/-- The end of a direct write: the bytes that the kernel did not take are buffered. -/
theorem Sound.writeRest {data : List UInt8} {nbytes : Nat}
    (h : Sound init idx n s acc (sub ++ data.take nbytes) hard) :
    Sound init idx n (writeRest s idx data nbytes) acc (sub ++ data) hard := by
  rw [Sockbuf.writeRest]
  split
  · next heq =>
    rw [heq, List.take_length] at h
    exact h
  -- the record is blocked before the rest is buffered, as `append` needs it
  · have hb := h.block
    have hblock : ((sockbufBlock s idx).sbuf idx).flags.block = true :=
      sockbufBlock_block s idx (sockbufIsvalid_iff.1 h.valid).1
    have happ := hb.flow.append hblock (data.drop nbytes)
    rw [List.append_assoc, List.take_append_drop] at happ
    exact Sound.update hb.valid rfl rfl happ

/-- Bytes that are written at once. -/
theorem Sound.countWrite {nbytes : Nat} {data : List UInt8} (h : Sound init idx n s acc sub hard)
    (hn : nbytes = data.length) (hhard : ¬ hard) (hlen : (s.sbuf idx).len = 0) :
    Sound init idx n (countWrite s idx nbytes) (acc ++ data) (sub ++ data) hard := by
  subst hn
  rw [Sockbuf.countWrite]
  split
  · exact Sound.update h.valid rfl rfl (h.flow.wrote hhard hlen data)
  · next h0 =>
    have hnil : data = [] := List.eq_nil_of_length_eq_zero (by omega)
    rw [hnil, List.append_nil, List.append_nil]
    exact h

/-- What a function of the output path does to the record: it accepts what its events say, and takes
`data` on. -/
def Passes (init : Option (UInt64 × UInt64)) (idx n : Nat) (acc sub : List UInt8) (hard : Prop)
    (data : List UInt8) (o : Outcome) : Prop :=
  Sound init idx n o.st (acc ++ accepted idx o.events) (sub ++ data)
      (hard ∨ HardError idx o.events) ∧
    submitted idx o.events = []

theorem Passes.of_sound {data : List UInt8} {o : Outcome} (h : Sound init idx n o.st
    (acc ++ accepted idx o.events) (sub ++ data) hard) (hhard : ¬ HardError idx o.events)
    (hsub : submitted idx o.events = []) : Passes init idx n acc sub hard data o := by
  refine ⟨?_, hsub⟩
  rw [or_iff_left_of_imp fun hc => absurd hc hhard]
  exact h

theorem quiet_elsewhere {o : Outcome} (ho : Mild (· ≠ idx) s o) :
    accepted idx o.events = [] ∧ submitted idx o.events = [] ∧ ¬ HardError idx o.events :=
  elsewhere_bytes fun e he => (ho.evolve.quiet e he).elsewhere

/-- A failed write passes nothing to the kernel. -/
theorem accepted_failed (s : State) (idx : Nat) (k : Kernel) (err : Nat) :
    accepted idx ((sockbufGotEof k s idx err).log [.writeFailed idx err]).events = [] := by
  obtain ⟨hacc, -, -⟩ := quiet_elsewhere (mild_sockbufGotEof (T := (· ≠ idx)) s idx k err)
  rw [Outcome.log_events, accepted_append, hacc]
  rfl

/-- The failed write of a sockbuf: eof, and a hard error unless it is `EAGAIN`. -/
theorem Sound.fail (h : Sound init idx n s acc sub hard) (k : Kernel) (err : Nat)
    (data : List UInt8) (hdata : err = eagain → data = []) :
    Passes init idx n acc sub hard data ((sockbufGotEof k s idx err).log [.writeFailed idx err]) := by
  obtain ⟨-, hsub, -⟩ := quiet_elsewhere (mild_sockbufGotEof (T := (· ≠ idx)) s idx k err)
  refine ⟨?_, ?_⟩
  · rw [accepted_failed, Outcome.log_events, Outcome.log_st, List.append_nil]
    refine h.gotEof k err (List.prefix_append _ _) fun hn => ?_
    -- behind a hard error nothing is claimed of the bytes that are left
    by_cases herr : err = eagain
    · rw [hdata herr, List.append_nil]
      exact h.flow.whole fun hh => hn (Or.inl hh)
    · exact absurd (Or.inr ⟨err, herr, by simp⟩) hn
  · rw [Outcome.log_events, submitted_append, hsub]
    rfl

/-- **A write to the socket** keeps the flow sound. -/
theorem Sound.realWrite (h : Sound init idx n s acc sub hard) (k : Kernel) (data : List UInt8) :
    Passes init idx n acc sub hard data (sockbufRealWrite k s idx data) := by
  have hnone : ¬ HardError idx [] := by
    rintro ⟨_, _, hm⟩
    exact absurd hm List.not_mem_nil
  rw [sockbufRealWrite]
  split
  · next hblock =>
    refine .of_sound ?_ hnone rfl
    rw [show accepted idx [] = [] from rfl, List.append_nil]
    exact Sound.update h.valid rfl rfl (h.flow.append hblock data)
  · next hblock =>
    split
    · next err herr =>
      split
      · next heq =>
        subst heq
        refine .of_sound ?_ ?_ rfl
        · have h0 : Sound init idx n s acc (sub ++ data.take 0) hard := by
            rw [List.take_zero, List.append_nil]
            exact h
          rw [show accepted idx [Event.writeFailed idx eagain] = [] from rfl, List.append_nil]
          exact h0.writeRest
        · rintro ⟨err, hne, hm⟩
          simp only [List.mem_singleton, Event.writeFailed.injEq] at hm
          exact hne hm.2
      · next hne => exact h.fail k err data fun heq => absurd heq hne
    · next nbytes hok =>
      obtain ⟨hs, hn⟩ := sysWrite_ok hok
      -- a record that is not blocked has an empty buffer: the write keeps the order
      have hlen : (s.sbuf idx).len = 0 := by
        by_contra h0
        exact hblock (h.flow.ready hs (Nat.pos_of_ne_zero h0))
      -- the kernel accepts bytes on an open socket only, so no write failed hard before
      have hhard : ¬ hard := fun hh => absurd (h.flow.closed hh) (by omega)
      have hcount : Sound init idx n (Sockbuf.countWrite s idx nbytes) (acc ++ data.take nbytes)
          (sub ++ data.take nbytes) hard :=
        h.countWrite (by rw [List.length_take]; omega) hhard hlen
      refine .of_sound ?_ ?_ rfl
      · have hacc : accepted idx [Event.wrote idx (data.take nbytes)] = data.take nbytes := by
          simp [accepted, Event.acceptedBytes]
        rw [hacc]
        exact hcount.writeRest
      · rintro ⟨err, _, hm⟩
        simp at hm

/-- **The test for writing** keeps the flow sound. -/
theorem Sound.gotWritable (h : Sound init idx n s acc sub hard) (k : Kernel) :
    Passes init idx n acc sub hard [] (sockbufGotWritable k s idx) := by
  rw [sockbufGotWritable]
  split
  · next err _ => exact h.fail k err [] fun _ => rfl
  · next nbytes hok =>
    obtain ⟨hs, hn⟩ := sysWrite_ok hok
    have hhard : ¬ hard := fun hh => absurd (h.flow.closed hh) (by omega)
    have hlen : nbytes ≤ (s.sbuf idx).len :=
      Nat.le_trans hn (by rw [SockbufT.buffered, List.length_take]; omega)
    have hfits := h.flow.fits
    split
    · have hdrain : Sound init idx n (drainOutput s idx nbytes)
          (acc ++ (s.sbuf idx).buffered.take nbytes) sub hard := by
        unfold drainOutput
        have hself := sbuf_update_self s idx (fun sb => sb.drain nbytes)
          (sockbufIsvalid_iff.1 h.valid).1
        dsimp only
        split
        · next h0 =>
          -- all of the buffer was written
          have hlen0 : (s.sbuf idx).len - nbytes = 0 := by
            rw [hself] at h0
            exact h0
          have hrest : (s.sbuf idx).data.take ((s.sbuf idx).len - nbytes) =
              (s.sbuf idx).buffered.drop nbytes := by
            rw [hlen0, List.take_zero, SockbufT.buffered, List.drop_take, hlen0, List.take_zero]
          have hd := h.flow.drained hhard hlen hrest (by omega)
          exact (Sound.update h.valid rfl rfl hd).unblock h0
        -- the rest of it moves to the front
        · have hrest : (memmove (s.sbuf idx).data 0 nbytes ((s.sbuf idx).len - nbytes)).take
              ((s.sbuf idx).len - nbytes) = (s.sbuf idx).buffered.drop nbytes := by
            rw [take_memmove_front (by omega), SockbufT.buffered, List.drop_take]
          have hd := h.flow.drained hhard hlen hrest (by
            rw [length_memmove (by omega) (by omega)]
            omega)
          refine ⟨isvalid_of_flags (Nat.le_of_eq (by simp)) ?_ ?_ h.valid, ?_⟩
          · rw [sbuf_update_self _ _ _ (by simpa using (sockbufIsvalid_iff.1 h.valid).1), hself]
            rfl
          · rw [sbuf_update_self _ _ _ (by simpa using (sockbufIsvalid_iff.1 h.valid).1), hself]
            rfl
          · rw [sbuf_update_self _ _ _ (by simpa using (sockbufIsvalid_iff.1 h.valid).1), hself]
            exact hd
      have hw := mild_sockbufOnWritten (T := (· ≠ idx)) (drainOutput s idx nbytes) idx
        sockbufLevelInternal nbytes ((drainOutput s idx nbytes).sbuf idx).len
      obtain ⟨hacc, hsub, hnone⟩ := quiet_elsewhere hw
      refine .of_sound ?_ ?_ ?_
      · rw [Outcome.log_events, accepted_append, hacc, List.append_nil, List.append_nil]
        have hone : accepted idx [Event.wrote idx ((s.sbuf idx).buffered.take nbytes)] =
            (s.sbuf idx).buffered.take nbytes := by
          simp [accepted, Event.acceptedBytes]
        have hafter := hdrain.mild hw
        rw [hone, Outcome.log_st]
        exact hafter
      · rw [Outcome.log_events, hardError_append]
        rintro (⟨err, _, hm⟩ | hc)
        · simp at hm
        · exact hnone hc
      · rw [Outcome.log_events, submitted_append, hsub]
        rfl
    · refine .of_sound ?_ ?_ rfl
      · rw [show accepted idx [] = [] from rfl, List.append_nil, List.append_nil]
        exact h
      · rintro ⟨_, _, hm⟩
        exact absurd hm List.not_mem_nil

/-! ## Steps -/

/-- The state after the events `es`, for the counts `init` at their start; `sub` is the data of the calls of
`sockbuf_write`. -/
structure OutputInv (init : Option (UInt64 × UInt64)) (idx : Nat) (s : State) (es : List Event)
    (sub : List UInt8) : Prop where
  sound : Sound init idx sub.length s (accepted idx es) sub (HardError idx es)
  logged : submitted idx es = sub

theorem OutputInv.elsewhere {es fs : List Event} (hfs : ∀ e ∈ fs, e.Elsewhere idx)
    (hlogged : submitted idx es = sub)
    (hs : Sound init idx sub.length s' (accepted idx es) sub (HardError idx es)) :
    OutputInv init idx s' (es ++ fs) sub := by
  obtain ⟨hacc, hsub, hnone⟩ := elsewhere_bytes hfs
  refine ⟨?_, by rw [submitted_append, hsub, List.append_nil, hlogged]⟩
  rw [accepted_append, hacc, List.append_nil, hardError_append,
    or_iff_left_of_imp fun hc => absurd hc hnone]
  exact hs

/-- Events elsewhere keep the invariant. -/
theorem OutputInv.frame {es fs : List Event} (h : OutputInv init idx s es sub)
    (hfs : ∀ e ∈ fs, e.Elsewhere idx) (hns : s.nsockbufs ≤ s'.nsockbufs)
    (hsbuf : s'.sbuf idx = s.sbuf idx) : OutputInv init idx s' (es ++ fs) sub :=
  .elsewhere hfs h.logged (h.sound.frame hns hsbuf)

theorem OutputInv.mild {es : List Event} {o : Outcome} (h : OutputInv init idx s es sub)
    (ho : Mild (· ≠ idx) s o) : OutputInv init idx o.st (es ++ o.events) sub :=
  .elsewhere (fun e he => (ho.evolve.quiet e he).elsewhere) h.logged (h.sound.mild ho)

/-- The loop found the sockbuf writable. -/
theorem OutputInv.gotWritable {es : List Event} (h : OutputInv init idx s es sub) (k : Kernel) :
    OutputInv init idx (sockbufGotWritable k s idx).st (es ++ (sockbufGotWritable k s idx).events)
      sub := by
  obtain ⟨hs, hsub⟩ := h.sound.gotWritable k
  rw [List.append_nil] at hs
  refine ⟨?_, by rw [submitted_append, hsub, List.append_nil, h.logged]⟩
  rw [accepted_append, hardError_append]
  exact hs

/-- A sockbuf without a filter for writes. -/
theorem filterBelow_none {sb : SockbufT} (h : ∀ f ∈ sb.filters.take sb.nfilters, f.onWrite = false)
    (level : Int) : sb.filterBelow level SockbufFilter.onWrite = none := by
  rw [SockbufT.filterBelow, List.find?_eq_none]
  intro e he
  have hmem := (List.of_mem_zip (List.mem_reverse.1 he)).1
  simp [h e.1 hmem]

/-- A call of `sockbuf_write`. -/
theorem OutputInv.write {es : List Event} (h : OutputInv init idx s es sub) (k : Kernel)
    (data : List UInt8) (len : Int) :
    OutputInv init idx (sockbufWrite k s idx data len).st
      (es ++ (sockbufWrite k s idx data len).events) (sub ++ writeArgument data len) := by
  rw [sockbufWrite]
  rw [if_pos h.sound.valid]
  dsimp only
  generalize writeArgument data len = d
  have hflow := h.sound.flow
  have hcount : Sound init idx (sub ++ d).length (countSubmit s idx d.length) (accepted idx es) sub
      (HardError idx es) := by
    refine Sound.update h.sound.valid rfl rfl ⟨hflow.filters, ?_, hflow.fits, hflow.begins,
      hflow.whole, hflow.closed, hflow.ready⟩
    have hstep := congrArg (Option.map fun p : UInt64 × UInt64 =>
      (p.1, p.2 + UInt64.ofNat d.length)) hflow.counts
    rw [SockbufT.outCounts, Option.map_map, Option.map_map] at hstep
    rw [SockbufT.outCounts, List.length_append, UInt64.ofNat_add, Option.map_map]
    simpa [Function.comp_def, UInt64.add_assoc] using hstep
  -- no filter takes the data, so it goes to the socket
  have hnone := filterBelow_none hcount.flow.filters sockbufLevelWriteInternal
  obtain ⟨hs, hsub⟩ := hcount.realWrite k d
  have hone : submitted idx [Event.submitted idx d] = d := by
    simp [submitted, Event.submittedBytes]
  have hnot : ¬ HardError idx [Event.submitted idx d] := by
    rintro ⟨err, _, hm⟩
    simp at hm
  rw [sockbufOnWrite, hnone]
  refine ⟨?_, ?_⟩
  · rw [Outcome.log_st, Outcome.log_events, accepted_append, accepted_append, hardError_append,
      hardError_append, show accepted idx [Event.submitted idx d] = [] from rfl, List.nil_append,
      or_iff_right_of_imp (a := HardError idx [Event.submitted idx d]) fun hc => absurd hc hnot]
    exact hs
  · rw [Outcome.log_events, submitted_append, submitted_append, hone, hsub, List.append_nil, h.logged]

end State

/-- The calls that the run may not make of the sockbuf: those that give it a socket, delete it, change
its filters or write past `sockbuf_write`. -/
def Api.Disturbs (idx : Nat) : Api → Prop
  | .setSock j _ _ => j = idx
  | .delete j => j = idx
  | .attachFilter j _ _ => j = idx
  | .detachFilter j _ => j = idx
  | .on j _ (.write _) => j = idx
  | .shutdown => True
  | _ => False

/-- The rest of a deletion of the sockbuf, or of the shutdown. -/
def Task.Disturbs (idx : Nat) : Task → Prop
  | .delete j _ => j = idx
  | .deleteFinish j => j = idx
  | .shutdown _ => True
  | _ => False

/-- The step does not touch the output of the sockbuf but by writing to it. -/
def Undisturbed (idx : Nat) (c : Config) : Action → Prop
  | .call f _ => ¬ f.Disturbs idx
  | .ret => True
  | .run _ => ∀ t ∈ c.stack.head?, ¬ t.Disturbs idx

instance (idx : Nat) : (f : Api) → Decidable (f.Disturbs idx)
  | .setSock j _ _ => inferInstanceAs (Decidable (j = idx))
  | .delete j => inferInstanceAs (Decidable (j = idx))
  | .attachFilter j _ _ => inferInstanceAs (Decidable (j = idx))
  | .detachFilter j _ => inferInstanceAs (Decidable (j = idx))
  | .on j _ (.write _) => inferInstanceAs (Decidable (j = idx))
  | .shutdown => .isTrue trivial
  | .new | .close _ | .write _ _ _ | .read _ | .noread _ | .attachListener _ | .detachListener _
  | .setHandler _ _ _ | .updateAll | .on _ _ (.connect _ _) | .on _ _ (.eof _)
  | .on _ _ (.newclient _ _ _) | .on _ _ (.read _) | .on _ _ (.written _ _)
  | .on _ _ .delete => .isFalse id

instance (idx : Nat) : (t : Task) → Decidable (t.Disturbs idx)
  | .delete j _ => inferInstanceAs (Decidable (j = idx))
  | .deleteFinish j => inferInstanceAs (Decidable (j = idx))
  | .shutdown _ => .isTrue trivial
  | .external _ | .writable _ _ | .readable _ _ | .hangup _ | .scan _ _ | .crash => .isFalse id

instance (idx : Nat) (c : Config) : (a : Action) → Decidable (Undisturbed idx c a)
  | .call f _ => inferInstanceAs (Decidable (¬ f.Disturbs idx))
  | .ret => .isTrue trivial
  | .run _ => inferInstanceAs (Decidable (∀ t ∈ c.stack.head?, ¬ t.Disturbs idx))

/-- What a call submits to the sockbuf: the data of `sockbuf_write`. -/
def Api.writeData (idx : Nat) : Api → List UInt8
  | .write j data len => if j = idx then writeArgument data len else []
  | _ => []

/-- The data that an action writes to the sockbuf. -/
def Action.writeData (idx : Nat) : Action → List UInt8
  | .call f _ => f.writeData idx
  | .ret => []
  | .run _ => []

/-- The data of the calls of `sockbuf_write` on the sockbuf, one behind the other. -/
def writeData (idx : Nat) (xs : List Action) : List UInt8 := xs.flatMap (Action.writeData idx)

/-- A call that is no write submits nothing. -/
theorem writeData_eq_nil {idx : Nat} {f : Api} (h : ¬ ∃ data len, f = .write idx data len) :
    f.writeData idx = [] := by
  cases f with
  | write j data len =>
    rw [Api.writeData, if_neg]
    rintro rfl
    exact h ⟨data, len, rfl⟩
  | _ => rfl

section Step

variable {init : Option (UInt64 × UInt64)} {idx : Nat} {s : State} {es : List Event} {sub : List UInt8}

/-- A slot that `sockbuf_new` does not take: it is valid. -/
theorem ne_firstAvail (hv : sockbufIsvalid s idx = true) : idx ≠ firstAvail s := by
  obtain ⟨hlt, havail, -⟩ := sockbufIsvalid_iff.1 hv
  intro h
  exact absurd (avail_firstAvail (h ▸ hlt)) (by simp [← h, havail])

theorem elsewhere_attachEvents (idx j : Nat) (s : State) (sock : Int) :
    ∀ e ∈ attachEvents s j sock, e.Elsewhere idx := by
  intro e he
  rw [attachEvents] at he
  split at he
  · rw [List.mem_singleton.1 he]
    trivial
  · exact absurd he List.not_mem_nil

theorem OutputInv.new (h : OutputInv init idx s es sub) :
    OutputInv init idx (sockbufNew s).1 (es ++ [.created (sockbufNew s).2]) sub :=
  h.frame (by simp [Event.Elsewhere]) (nsockbufs_le_sockbufNew s)
    (sbuf_sockbufNew_old (ne_firstAvail h.sound.valid) (sockbufIsvalid_iff.1 h.sound.valid).1)

theorem OutputInv.setSock (h : OutputInv init idx s es sub) (k : Kernel) {j : Nat} (hj : idx ≠ j)
    (sock : Int) (flags : Flags) : OutputInv init idx (sockbufSetSock k s j sock flags)
      (es ++ attachEvents s j sock) sub := by
  have hes := elsewhere_attachEvents idx j s sock
  cases hv : sockbufIsvalid s j with
  | false =>
    rw [sockbufSetSock, if_pos hv]
    exact h.frame hes (Nat.le_refl _) rfl
  | true =>
    exact h.frame hes (Nat.le_of_eq (nsockbufs_sockbufSetSock k flags hv sock).symm)
      (sbuf_sockbufSetSock_ne hv sock hj)

theorem OutputInv.delete (h : OutputInv init idx s es sub) {j : Nat} (hj : j ≠ idx) :
    OutputInv init idx (sockbufDelete s j).st (es ++ (sockbufDelete s j).events) sub := by
  rw [sockbufDelete]
  split
  · exact h.frame (by simp [Event.Elsewhere]) (Nat.le_of_eq (update_nsockbufs _ _ _).symm)
      (sbuf_update_ne s j _ hj)
  · simpa using h

theorem OutputInv.updateAll (h : OutputInv init idx s es sub) (k : Kernel) :
    OutputInv init idx (sockbufUpdateAll k s).st (es ++ (sockbufUpdateAll k s).events) sub := by
  rw [sockbufUpdateAll]
  split <;> exact h.frame (by simp [Event.Elsewhere]) (Nat.le_refl _) rfl

/-- A call of external code. -/
theorem OutputInv.apply (h : OutputInv init idx s es sub) {f : Api} {k : Kernel} {o : Outcome}
    (hok : ¬ f.Disturbs idx) (ho : f.apply k s = some o) :
    OutputInv init idx o.st (es ++ o.events) (sub ++ f.writeData idx) := by
  -- the only call that submits data to the sockbuf
  by_cases hw : ∃ data len, f = .write idx data len
  · obtain ⟨data, len, rfl⟩ := hw
    cases ho
    rw [Api.writeData, if_pos rfl]
    exact h.write k data len
  rw [writeData_eq_nil hw, List.append_nil]
  -- what is not structural is mild, and uses no output path but that of other sockbufs
  cases hf : f.Structural with
  | false =>
    refine h.mild (mild_apply s hf (fun j hj => ?_) ho)
    rintro rfl
    cases f with
    | write j data len => exact hw ⟨data, len, congrArg (Api.write · data len) hj⟩
    | on j level call =>
      cases call with
      | write data => exact hok hj
      | _ => exact hj
    | attachFilter j filter clientData => exact hok hj
    | detachFilter j filter => exact hok hj
    | _ => exact hj
  | true =>
    cases f with
    | new => cases ho; exact h.new
    | setSock j sock flags => cases ho; exact h.setSock k (fun hc => hok hc.symm) sock flags
    | delete j => cases ho; exact h.delete fun hc => hok hc
    | attachListener fd =>
      cases ho
      exact h.frame (by simp [Event.Elsewhere]) (Nat.le_refl _) rfl
    | detachListener fd =>
      cases ho
      have hs : (sockbufDetachListener s fd).sockbufs = s.sockbufs := by
        rw [sockbufDetachListener]
        split <;> rfl
      exact h.frame (by simp [Event.Elsewhere]) (Nat.le_of_eq (by rw [nsockbufs, nsockbufs, hs]))
        (by rw [sbuf, sbuf, hs])
    | updateAll => cases ho; exact h.updateAll k
    | shutdown => exact absurd trivial hok
    | _ => simp [Api.Structural] at hf

theorem OutputInv.accept (h : OutputInv init idx s es sub) (k : Kernel) (j : Nat) :
    OutputInv init idx (sockbufGotReadableServer k s j).st
      (es ++ (sockbufGotReadableServer k s j).events) sub := by
  rw [sockbufGotReadableServer]
  dsimp only
  split
  · simpa using h
  · next hsock =>
    generalize k.sysAccept (s.sbuf j).sock = sock at hsock
    have hset := h.new.setSock k (ne_firstAvail h.sound.valid) sock { inbound := true }
      (j := (sockbufNew s).2)
    rw [attachEvents, if_pos ⟨sockbufIsvalid_sockbufNew s, by omega⟩] at hset
    have hlast := hset.mild (mild_sockbufOnNewclient _ j k sockbufLevelInternal (sockbufNew s).2
      k.acceptPeer.1 k.acceptPeer.2)
    simpa using hlast

theorem OutputInv.finish (h : OutputInv init idx s es sub) :
    OutputInv init idx (updateFinish s).st (es ++ (updateFinish s).events) sub := by
  refine h.frame ?_ (Nat.le_of_eq (nsockbufs_updateFinish s).symm) ?_
  · rw [(updateFinish_cases s).1]
    simp [Event.Elsewhere]
  · rcases sbuf_updateFinish s idx with hs | ⟨hdel, -⟩
    · exact hs
    · exact absurd hdel (by simp [(sockbufIsvalid_iff.1 h.sound.valid).2.2])

theorem OutputInv.deleteCallbacks (h : OutputInv init idx s es sub) (j i : Nat) :
    OutputInv init idx (sockbufDeleteCallbacks s j i).st
      (es ++ (sockbufDeleteCallbacks s j i).events) sub := by
  have hcall : ∀ cb, OutputInv init idx s (es ++ [.callback cb]) sub := fun cb =>
    h.frame (by simp [Event.Elsewhere]) (Nat.le_refl _) rfl
  rw [sockbufDeleteCallbacks]
  split
  · split
    · simpa [Outcome.crash] using h
    · split
      · exact hcall _
      · simpa using h
  · rw [callHandler]
    split
    · simpa [Outcome.crash] using h
    · split
      · exact hcall _
      · simpa using h

/-- The module goes on with a task. -/
theorem OutputInv.exec (h : OutputInv init idx s es sub) {t : Task} {k : Kernel} {o : Outcome}
    (hok : ¬ t.Disturbs idx) (ho : t.exec k s = some o) :
    OutputInv init idx o.st (es ++ o.events) sub := by
  have hdisp : ∀ j kind, OutputInv init idx s (es ++ [.dispatched j kind]) sub := fun j kind =>
    h.frame (by simp [Event.Elsewhere]) (Nat.le_refl _) rfl
  cases t with
  | external cb => cases ho
  | crash => cases ho
  | shutdown i => exact absurd trivial hok
  | hangup j =>
    cases ho
    simpa using (hdisp j .hangup).mild (mild_sockbufGotEof s j k 0)
  | writable j connecting =>
    cases ho
    cases connecting with
    | true => simpa using (hdisp j .writable).mild (mild_sockbufGotWritableClient s j k)
    | false =>
      by_cases hj : j = idx
      · subst hj
        simpa using (hdisp j .writable).gotWritable k
      · simpa using (hdisp j .writable).mild (mild_sockbufGotWritable s j hj k)
  | readable j server =>
    cases ho
    cases server with
    | true => simpa using (hdisp j .readable).accept k j
    | false => simpa using (hdisp j .readable).mild (mild_sockbufGotReadable s j k)
  | scan i n =>
    cases ho
    rw [updateScan]
    dsimp only
    split
    · split <;> simpa using h
    · exact h.finish
  | delete j i => cases ho; exact h.deleteCallbacks j i
  | deleteFinish j =>
    cases ho
    have hj : ¬ (j = idx ∧ j < s.nsockbufs) := fun hc => hok hc.1
    exact h.frame (fun _ he => absurd he List.not_mem_nil)
      (Nat.le_of_eq (sockbufDeleteFinish_nsockbufs s j).symm)
      (by rw [sbuf_sockbufDeleteFinish, if_neg hj])

end Step

/-- A valid sockbuf with a socket, an empty output buffer and no `on_write` filter. -/
structure Connected (idx : Nat) (s : State) : Prop where
  valid : sockbufIsvalid s idx = true
  sock : 0 ≤ (s.sbuf idx).sock
  empty : (s.sbuf idx).len = 0
  filters : ∀ f ∈ (s.sbuf idx).filters.take (s.sbuf idx).nfilters, f.onWrite = false

/-- A connected sockbuf with an empty buffer. -/
theorem Connected.outputInv {idx : Nat} {s : State} (h : Connected idx s) :
    OutputInv (s.sbuf idx).outCounts idx s [] [] := by
  have hnone : ¬ HardError idx [] := by
    rintro ⟨_, _, hm⟩
    exact absurd hm List.not_mem_nil
  refine ⟨⟨h.valid, h.filters, ?_, by rw [h.empty]; exact Nat.zero_le _, List.nil_prefix,
    fun _ => ?_, fun hh => absurd hh hnone, fun _ hl => absurd hl (by simp [h.empty])⟩, rfl⟩
  · simp [accepted]
  · rw [SockbufT.buffered, h.empty]
    rfl

/-- **The invariant** in every run from there. -/
theorem outputInv_run {idx : Nat} {c c' : Config} {xs : List Action} (hstart : Connected idx c.st)
    (h : execute step (Undisturbed idx) c xs = some c') :
    ∃ es, c'.trace = c.trace ++ es ∧
      OutputInv (c.st.sbuf idx).outCounts idx c'.st es (writeData idx xs) := by
  refine execute_invariant (I := fun xs c' => ∃ es, c'.trace = c.trace ++ es ∧
    OutputInv (c.st.sbuf idx).outCounts idx c'.st es (writeData idx xs)) ?_ xs [] h
    ⟨[], by simp, hstart.outputInv⟩
  rintro xs b a b' ⟨es, htr, hinv⟩ hok hs
  have hdata : writeData idx (xs ++ [a]) = writeData idx xs ++ a.writeData idx := by
    rw [writeData, writeData, List.flatMap_append, List.flatMap_singleton]
  rw [hdata]
  rcases step_cases hs with ⟨f, k, o, rfl, -, ho, rfl⟩ | ⟨cb, rest, rfl, -, rfl⟩ |
    ⟨k, t, rest, o, rfl, hstack, ho, rfl⟩
  · exact ⟨es ++ o.events, by simp [Config.after, htr], hinv.apply hok ho⟩
  · rw [Action.writeData, List.append_nil]
    exact ⟨es, htr, hinv⟩
  · rw [Action.writeData, List.append_nil]
    refine ⟨es ++ o.events, by simp [Config.after, htr], hinv.exec (fun hd => ?_) ho⟩
    exact hok t (by simp [hstack]) hd

/-- **Integrity of the output stream.** The bytes submitted since the start of the run are the data of its
calls of `sockbuf_write`, and the bytes accepted since then are a prefix of them; while no write failed
hard, the buffer holds the rest of them, and the statistics count both. -/
theorem output_stream_integrity {idx : Nat} {c c' : Config} {xs : List Action}
    (hstart : Connected idx c.st) (h : execute step (Undisturbed idx) c xs = some c') :
    ∃ es, c'.trace = c.trace ++ es ∧ submitted idx es = writeData idx xs ∧
      accepted idx es <+: submitted idx es ∧
      (¬ HardError idx es →
        accepted idx es ++ (c'.st.sbuf idx).buffered = submitted idx es) ∧
      (c'.st.sbuf idx).outCounts = (c.st.sbuf idx).outCounts.map fun p =>
        (p.1 + UInt64.ofNat (accepted idx es).length,
          p.2 + UInt64.ofNat (submitted idx es).length) := by
  obtain ⟨es, htr, hinv⟩ := outputInv_run hstart h
  have hflow := hinv.sound.flow
  rw [← hinv.logged] at hflow
  exact ⟨es, htr, hinv.logged, hflow.begins, hflow.whole, hflow.counts⟩

/-- A partial direct write, a write behind it, and a drain that the kernel takes a part of. -/
def partialRun : List Action :=
  [.call (.write 0 [1, 2, 3] 3) { write := .ok 2 }, .call (.write 0 [4, 5] 2) {},
    .call .updateAll { poll := some [{ pollout := true }] }, .run {}, .run { write := .ok 2 }]

/-- Bytes that the socket takes in part. -/
theorem output_stream_integrity_partial :
    ∃ c c', execute step (Clean anySock) start [.call .new {}, .call (.setSock 0 7 {}) {}] = some c ∧
      execute step (Undisturbed 0) c partialRun = some c' ∧ (c'.st.sbuf 0).buffered = [5] ∧
      ∃ es, c'.trace = c.trace ++ es ∧ submitted 0 es = writeData 0 partialRun ∧
        accepted 0 es <+: submitted 0 es ∧
        (¬ HardError 0 es → accepted 0 es ++ (c'.st.sbuf 0).buffered = submitted 0 es) ∧
        (c'.st.sbuf 0).outCounts = (c.st.sbuf 0).outCounts.map fun p =>
          (p.1 + UInt64.ofNat (accepted 0 es).length,
            p.2 + UInt64.ofNat (submitted 0 es).length) :=
  ⟨_, _, rfl, rfl, rfl, output_stream_integrity ⟨rfl, by decide, rfl, by decide⟩ rfl⟩

end ExamplePrograms.Onethread.Sockbuf
