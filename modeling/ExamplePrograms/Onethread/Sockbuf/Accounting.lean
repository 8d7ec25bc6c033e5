import Mathlib.Algebra.Group.Nat.Defs
import ExamplePrograms.Onethread.Sockbuf.Output

/-!
# Byte accounts

A submitted byte is either accepted by the kernel at once or goes into the output buffer. The counts of
submitted and of accepted bytes follow both, but `raw_bytes_left` is only written when
`sockbuf_got_writable` gets rid of bytes, not when `sockbuf_real_write` adds some. A `Ledger` reads off
a trace the bytes that were added since then; `balanced_iff` says that the statistics of a sockbuf are
right exactly when there are none, in every state of every run.
-/

set_option autoImplicit false

namespace ExamplePrograms.Onethread.Sockbuf

open ExamplePrograms.Lib.Memory ExamplePrograms.Lib.Runs State

/-! ## Ledgers -/

/-- What a trace tells of a sockbuf since its creation: the bytes submitted to it, and those of them
that were buffered since the event loop last wrote out some of the buffer. `draining`: the last event is
that the event loop found the sockbuf writable. -/
structure Ledger where
  submitted : Nat := 0
  unrecorded : Nat := 0
  draining : Bool := false
  deriving DecidableEq, Repr

/-- What an event does to the ledger of a sockbuf. -/
def Ledger.step (idx : Nat) (l : Ledger) : Event → Ledger
  | .created j => if j = idx then {} else { l with draining := false }
  | .submitted j data =>
      if j = idx then ⟨l.submitted + data.length, l.unrecorded + data.length, false⟩
      else { l with draining := false }
  | .wrote j data =>
      if j = idx then
        ⟨l.submitted, if l.draining then 0 else l.unrecorded - data.length, false⟩
      else { l with draining := false }
  | .dispatched j kind => { l with draining := decide (j = idx ∧ kind = .writable) }
  | _ => { l with draining := false }

/-- The ledger behind a trace. -/
def ledger (idx : Nat) (tr : List Event) : Ledger := tr.foldl (Ledger.step idx) {}

theorem ledger_append (idx : Nat) (tr es : List Event) :
    ledger idx (tr ++ es) = es.foldl (Ledger.step idx) (ledger idx tr) := by
  rw [ledger, List.foldl_append, ledger]

/-- Events that leave the amounts of the ledger. -/
def Event.Silent (idx : Nat) : Event → Prop
  | .created j => j ≠ idx
  | e => e.Elsewhere idx

/-- The ledger `l'` has the amounts of `l`. -/
def Ledger.Same (l l' : Ledger) : Prop :=
  l'.submitted = l.submitted ∧ l'.unrecorded = l.unrecorded

theorem Ledger.step_silent {idx : Nat} {e : Event} (h : e.Silent idx) (l : Ledger) :
    l.Same (l.step idx e) := by
  cases e with
  | created j => rw [Ledger.step, if_neg h]; exact ⟨rfl, rfl⟩
  | submitted j data => rw [Ledger.step, if_neg h]; exact ⟨rfl, rfl⟩
  | wrote j data => rw [Ledger.step, if_neg h]; exact ⟨rfl, rfl⟩
  | _ => exact ⟨rfl, rfl⟩

/-- Events about other sockbufs leave the ledger, but for a drain that is noticed. -/
theorem ledger_silent {idx : Nat} {es : List Event} (h : ∀ e ∈ es, e.Silent idx) (tr : List Event) :
    (ledger idx tr).Same (ledger idx (tr ++ es)) := by
  rw [ledger_append]
  generalize ledger idx tr = l
  induction es generalizing l with
  | nil => exact ⟨rfl, rfl⟩
  | cons e es ih =>
    have hstep := Ledger.step_silent (h e List.mem_cons_self) l
    have hrest := ih (fun x hx => h x (List.mem_cons_of_mem _ hx)) (l.step idx e)
    exact ⟨hrest.1.trans hstep.1, hrest.2.trans hstep.2⟩

theorem Event.Quiet.silent {idx : Nat} {e : Event} (h : e.Quiet (· ≠ idx)) : e.Silent idx := by
  cases e with
  | created j => exact absurd h id
  | _ => exact h.elsewhere

/-! ## Records -/

/-- The counts of the statistics, the buffer and the ledger of a sockbuf. `p` bytes are submitted and
neither accepted nor buffered yet. -/
structure Accounts (sb : SockbufT) (l : Ledger) (p : Nat) : Prop where
  fits : sb.len ≤ sb.data.length
  out : ∀ st ∈ sb.stats, st.bytesOut = UInt64.ofNat l.submitted
  sum : ∀ st ∈ sb.stats, st.rawBytesOut + UInt64.ofNat (sb.len + p) = UInt64.ofNat l.submitted
  left : ∀ st ∈ sb.stats,
    st.rawBytesLeft + UInt64.ofNat l.unrecorded = UInt64.ofNat (sb.len + p)

/-- What the accounts depend on in a record. -/
def SockbufT.account (sb : SockbufT) : List UInt8 × Nat × Option (UInt64 × UInt64 × UInt64) :=
  (sb.data, sb.len, sb.stats.map fun st => (st.rawBytesOut, st.bytesOut, st.rawBytesLeft))

theorem account_of_core {sb sb' : SockbufT} (h : sb'.core = sb.core) : sb'.account = sb.account := by
  simp only [SockbufT.core, Prod.mk.injEq] at h
  obtain ⟨-, -, hdata, hlen, -, hstats⟩ := h
  rw [SockbufT.account, hdata, hlen, hstats, SockbufT.account]

/-- A change of the socket keeps the account. -/
theorem account_setSock (k : Kernel) (sb : SockbufT) (sock : Int) (flags : Flags) :
    (sb.setSock k sock flags).account = sb.account := by
  have hkeep : (sb.setSock k sock flags).data = sb.data ∧ _ := setSock_output sb sock
  obtain ⟨hdata, hlen, -, -, hstats⟩ := hkeep
  rw [SockbufT.account, hdata, hlen, hstats, SockbufT.account]

namespace Accounts

variable {sb sb' : SockbufT} {l l' : Ledger} {p : Nat}

/-- An account that stays the same still agrees. -/
theorem of_account (h : Accounts sb l p) (hsame : l.Same l') (hacc : sb'.account = sb.account) :
    Accounts sb' l' p := by
  simp only [SockbufT.account, Prod.mk.injEq] at hacc
  obtain ⟨hdata, hlen, hstats⟩ := hacc
  -- the statistics of `sb` with the counts of those of `sb'`
  have hold : ∀ st' ∈ sb'.stats, ∃ st ∈ sb.stats, st.rawBytesOut = st'.rawBytesOut ∧
      st.bytesOut = st'.bytesOut ∧ st.rawBytesLeft = st'.rawBytesLeft := by
    intro st' hst'
    rw [Option.mem_def.1 hst'] at hstats
    obtain ⟨st, hst, heq⟩ := Option.map_eq_some_iff.1 hstats.symm
    simp only [Prod.mk.injEq] at heq
    exact ⟨st, hst, heq⟩
  refine ⟨by rw [hdata, hlen]; exact h.fits, fun st' hst' => ?_, fun st' hst' => ?_,
    fun st' hst' => ?_⟩
  · obtain ⟨st, hst, -, hb, -⟩ := hold st' hst'
    rw [← hb, hsame.1]
    exact h.out st hst
  · obtain ⟨st, hst, ha, -, -⟩ := hold st' hst'
    rw [← ha, hlen, hsame.1]
    exact h.sum st hst
  · obtain ⟨st, hst, -, -, hc⟩ := hold st' hst'
    rw [← hc, hlen, hsame.2]
    exact h.left st hst

/-- A slot without statistics. -/
theorem of_none (hfits : sb.len ≤ sb.data.length) (hstats : sb.stats = none) : Accounts sb l p := by
  have hno : ∀ st, st ∉ sb.stats := fun st hst => by
    rw [hstats] at hst
    cases hst
  exact ⟨hfits, fun st hst => absurd hst (hno st), fun st hst => absurd hst (hno st),
    fun st hst => absurd hst (hno st)⟩

/-- `n` bytes are submitted. -/
theorem submit (h : Accounts sb l 0) (n : Nat) (b : Bool) :
    Accounts
      { sb with stats := sb.stats.map fun st => { st with bytesOut := st.bytesOut + UInt64.ofNat n } }
      ⟨l.submitted + n, l.unrecorded + n, b⟩ n := by
  refine ⟨h.fits, fun st' hst' => ?_, fun st' hst' => ?_, fun st' hst' => ?_⟩
  · obtain ⟨st, hst, rfl⟩ := Option.map_eq_some_iff.1 hst'
    show st.bytesOut + UInt64.ofNat n = _
    rw [h.out st hst, UInt64.ofNat_add]
  · obtain ⟨st, hst, rfl⟩ := Option.map_eq_some_iff.1 hst'
    have hsum : st.rawBytesOut + UInt64.ofNat sb.len = UInt64.ofNat l.submitted := h.sum st hst
    show st.rawBytesOut + UInt64.ofNat (sb.len + n) = _
    rw [UInt64.ofNat_add, ← UInt64.add_assoc, hsum, UInt64.ofNat_add]
  · obtain ⟨st, hst, rfl⟩ := Option.map_eq_some_iff.1 hst'
    have hleft : st.rawBytesLeft + UInt64.ofNat l.unrecorded = UInt64.ofNat sb.len := h.left st hst
    show st.rawBytesLeft + UInt64.ofNat (l.unrecorded + n) = _
    rw [UInt64.ofNat_add, ← UInt64.add_assoc, hleft, UInt64.ofNat_add]

/-- `n` of the submitted bytes are accepted. -/
theorem accept {u q n : Nat} (h : Accounts sb l (q + n)) (hu : l.unrecorded = u + n) (b : Bool) :
    Accounts { sb with stats := sb.stats.map (statsOut · n) } ⟨l.submitted, u, b⟩ q := by
  refine ⟨h.fits, fun st' hst' => ?_, fun st' hst' => ?_, fun st' hst' => ?_⟩
  · obtain ⟨st, hst, rfl⟩ := Option.map_eq_some_iff.1 hst'
    exact h.out st hst
  · obtain ⟨st, hst, rfl⟩ := Option.map_eq_some_iff.1 hst'
    have hsum := h.sum st hst
    show st.rawBytesOut + UInt64.ofNat n + UInt64.ofNat (sb.len + q) = _
    rw [← hsum, UInt64.add_assoc, ← UInt64.ofNat_add]
    congr 2
    omega
  · obtain ⟨st, hst, rfl⟩ := Option.map_eq_some_iff.1 hst'
    have hleft := h.left st hst
    show st.rawBytesLeft + UInt64.ofNat u = _
    rw [hu, UInt64.ofNat_add, ← UInt64.add_assoc, ← Nat.add_assoc, UInt64.ofNat_add (sb.len + q)] at hleft
    exact (UInt64.add_left_inj _).1 hleft

/-- The other submitted bytes are buffered. -/
theorem append {data : List UInt8} (h : Accounts sb l data.length) :
    Accounts (sb.append data) l 0 := by
  refine ⟨?_, h.out, h.sum, h.left⟩
  simp only [SockbufT.append]
  refine Nat.le_of_eq ?_
  rw [length_memcpy (Nat.le_of_eq (length_realloc _ _ _).symm), length_realloc]

/-- The event loop gets rid of `n` bytes of the buffer. -/
theorem drain {n : Nat} {data : List UInt8} (h : Accounts sb l 0) (hn : n ≤ sb.len)
    (hfits : sb.len - n ≤ data.length) (b : Bool) :
    Accounts { sb.drain n with data := data } ⟨l.submitted, 0, b⟩ 0 := by
  refine ⟨hfits, fun st' hst' => ?_, fun st' hst' => ?_, fun st' hst' => ?_⟩
  · obtain ⟨st, hst, rfl⟩ := Option.map_eq_some_iff.1 hst'
    exact h.out st hst
  · obtain ⟨st, hst, rfl⟩ := Option.map_eq_some_iff.1 hst'
    have hsum := h.sum st hst
    show st.rawBytesOut + UInt64.ofNat n + UInt64.ofNat (sb.len - n) = _
    rw [← hsum, UInt64.add_assoc, ← UInt64.ofNat_add]
    congr 2
    omega
  -- here `raw_bytes_left` is written
  · obtain ⟨st, hst, rfl⟩ := Option.map_eq_some_iff.1 hst'
    show UInt64.ofNat (sb.len - n) + UInt64.ofNat 0 = _
    exact UInt64.add_zero _

end Accounts

/-! ## States -/

/-- The accounts of the sockbuf are right as long as no write failed hard. -/
def Tallies (idx : Nat) (s : State) (tr : List Event) : Prop :=
  ¬ HardError idx tr → Accounts (s.sbuf idx) (ledger idx tr) 0

section State

variable {idx : Nat} {s s' : State} {tr es : List Event}

theorem not_hardError_left (h : ¬ HardError idx (tr ++ es)) : ¬ HardError idx tr :=
  fun hc => h ((hardError_append idx tr es).2 (Or.inl hc))

theorem account_update (j : Nat) {f : SockbufT → SockbufT}
    (hf : (f (s.sbuf j)).account = (s.sbuf j).account) :
    ((s.update j f).sbuf idx).account = (s.sbuf idx).account :=
  sbuf_update_keeps s j f SockbufT.account hf idx

theorem account_block (j : Nat) :
    ((sockbufBlock s j).sbuf idx).account = (s.sbuf idx).account := by
  rw [sockbufBlock, updateEntry_sbuf]
  exact account_update j rfl

theorem account_unblock (j : Nat) :
    ((sockbufUnblock s j).sbuf idx).account = (s.sbuf idx).account := by
  rw [sockbufUnblock, updateEntry_sbuf]
  exact account_update j rfl

theorem account_sockbufSetSock (k : Kernel) (j : Nat) (sock : Int) (flags : Flags) :
    ((sockbufSetSock k s j sock flags).sbuf idx).account = (s.sbuf idx).account := by
  cases hv : sockbufIsvalid s j with
  | false => rw [sockbufSetSock, if_pos hv]
  | true =>
    by_cases hj : idx = j
    · rw [hj, sbuf_sockbufSetSock_self hv, account_setSock]
    · rw [sbuf_sockbufSetSock_ne hv sock hj]

/-- A step that uses only other sockbufs keeps the account. -/
theorem Effect.account (h : Effect (· ≠ idx) s es s') :
    (s'.sbuf idx).account = (s.sbuf idx).account := by
  cases h with
  | note _ => rfl
  | detail hf => exact account_update _ (account_of_core hf)
  | connected j => exact account_update j rfl
  | output hj _ _ _ => rw [sbuf_update_ne s _ _ hj]
  | block _ => exact account_block _
  | unblock _ => exact account_unblock _
  | watch _ => rw [updateEntry_sbuf]
  | close k _ => exact account_sockbufSetSock k _ (-1) {}

namespace Tallies

/-- Events about other sockbufs keep the tallies. -/
theorem frame (h : Tallies idx s tr) (hes : ∀ e ∈ es, e.Silent idx)
    (hacc : (s'.sbuf idx).account = (s.sbuf idx).account) : Tallies idx s' (tr ++ es) :=
  fun hno => (h (not_hardError_left hno)).of_account (ledger_silent hes tr) hacc

theorem log (h : Tallies idx s tr) {e : Event} (he : e.Silent idx) : Tallies idx s (tr ++ [e]) :=
  h.frame (List.forall_mem_singleton.2 he) rfl

/-- A call that uses only other sockbufs keeps the tallies. -/
theorem mild {o : Outcome} (h : Tallies idx s tr) (ho : Mild (· ≠ idx) s o) :
    Tallies idx o.st (tr ++ o.events) :=
  h.frame (fun e he => (ho.evolve.quiet e he).silent)
    (ho.evolve.keeps (P := fun s' => (s'.sbuf idx).account = (s.sbuf idx).account)
      (fun _ _ _ hs he => he.account.trans hs) rfl)

/-- A slot that is not in use. -/
theorem of_wiped {sb : SockbufT} (hsb : s.sbuf idx = sb) (hlen : sb.len = 0)
    (hstats : sb.stats = none) : Tallies idx s tr := by
  intro _
  rw [hsb]
  exact .of_none (by rw [hlen]; exact Nat.zero_le _) hstats

/-- A new sockbuf starts with an empty account. -/
theorem new (h : Tallies idx s tr) :
    Tallies idx (sockbufNew s).1 (tr ++ [.created (sockbufNew s).2]) := by
  by_cases hidx : idx = firstAvail s
  -- a new sockbuf with a new ledger
  · intro _
    have hledger : ledger idx (tr ++ [.created (sockbufNew s).2]) = {} := by
      rw [ledger_append]
      exact if_pos hidx.symm
    rw [hledger, hidx, sbuf_sockbufNew_self]
    refine ⟨Nat.le_refl _, fun st hst => ?_, fun st hst => ?_, fun st hst => ?_⟩
    · cases hst
      rfl
    · cases hst
      rfl
    · cases hst
      rfl
  · have hsilent : ∀ e ∈ [Event.created (sockbufNew s).2], e.Silent idx :=
      List.forall_mem_singleton.2 fun heq => hidx heq.symm
    rcases Nat.lt_or_ge idx s.nsockbufs with hlt | hge
    · exact h.frame hsilent (by rw [sbuf_sockbufNew_old hidx hlt])
    · rcases Nat.lt_or_ge idx (sockbufNew s).1.nsockbufs with hlt' | hge'
      · exact of_wiped (sbuf_sockbufNew_grown hidx hge hlt') rfl rfl
      · exact of_wiped (sbuf_of_le hge') rfl rfl

theorem setSock (h : Tallies idx s tr) (k : Kernel) (j : Nat) (sock : Int) (flags : Flags) :
    Tallies idx (sockbufSetSock k s j sock flags) (tr ++ attachEvents s j sock) := by
  refine h.frame (fun e he => ?_) (account_sockbufSetSock k j sock flags)
  rw [attachEvents] at he
  split at he
  · rw [List.mem_singleton.1 he]
    trivial
  · exact absurd he List.not_mem_nil

/-- A deletion that begins changes no account. -/
theorem delete (h : Tallies idx s tr) (j : Nat) :
    Tallies idx (sockbufDelete s j).st (tr ++ (sockbufDelete s j).events) := by
  rw [sockbufDelete]
  split
  · exact h.frame (List.forall_mem_singleton.2 trivial) (account_update j rfl)
  · exact h.frame (fun _ he => absurd he List.not_mem_nil) rfl

/-- A deletion that ends takes the account away. -/
theorem deleteFinish (h : Tallies idx s tr) (j : Nat) :
    Tallies idx (sockbufDeleteFinish s j) (tr ++ []) := by
  by_cases hj : j = idx ∧ j < s.nsockbufs
  · exact of_wiped (by rw [sbuf_sockbufDeleteFinish, if_pos hj]) rfl rfl
  · refine h.frame (fun _ he => absurd he List.not_mem_nil) ?_
    rw [sbuf_sockbufDeleteFinish, if_neg hj]

theorem deleteCallbacks (h : Tallies idx s tr) (j i : Nat) :
    Tallies idx (sockbufDeleteCallbacks s j i).st (tr ++ (sockbufDeleteCallbacks s j i).events) := by
  have hcall : ∀ cb, Tallies idx s (tr ++ [.callback cb]) := fun _ => h.log trivial
  have hnone : Tallies idx s (tr ++ []) := by simpa using h
  rw [sockbufDeleteCallbacks]
  split
  · split
    · exact hnone
    · split
      · exact hcall _
      · exact hnone
  · rw [callHandler]
    split
    · exact hnone
    · split
      · exact hcall _
      · exact hnone

theorem updateAll (h : Tallies idx s tr) (k : Kernel) :
    Tallies idx (sockbufUpdateAll k s).st (tr ++ (sockbufUpdateAll k s).events) := by
  have hsilent : ∀ e ∈ (sockbufUpdateAll k s).events, e.Silent idx := by
    intro e he
    rcases mem_events_sockbufUpdateAll he with rfl | rfl | ⟨reports, rfl⟩ <;> trivial
  refine h.frame hsilent ?_
  rw [sockbufUpdateAll]
  split <;> rfl

theorem finish (h : Tallies idx s tr) :
    Tallies idx (updateFinish s).st (tr ++ (updateFinish s).events) := by
  refine h.frame (fun e he => ?_) ?_
  · rw [(updateFinish_cases s).1] at he
    rw [List.mem_singleton.1 he]
    trivial
  · rcases sbuf_updateFinish s idx with hs | ⟨-, hs⟩
    · rw [hs]
    · rw [hs]
      rfl

theorem shutdownLoop (h : Tallies idx s tr) (i : Nat) :
    Tallies idx (sockbufShutdownLoop s i).st (tr ++ (sockbufShutdownLoop s i).events) := by
  cases i with
  | zero => exact of_wiped (sbuf_of_le (Nat.zero_le _)) rfl rfl
  | succ i => exact h.delete _

end Tallies

/-! ### Writing -/

/-- Bytes that were written are counted. -/
theorem accounts_countWrite {l : Ledger} {u q n : Nat} (hlt : idx < s.nsockbufs)
    (h : Accounts (s.sbuf idx) l (q + n)) (hu : l.unrecorded = u + n) (b : Bool) :
    Accounts ((countWrite s idx n).sbuf idx) ⟨l.submitted, u, b⟩ q := by
  rw [countWrite]
  split
  · rw [sbuf_update_self s idx _ hlt]
    exact h.accept hu b
  · next h0 =>
    obtain rfl : n = 0 := by omega
    exact h.of_account ⟨rfl, hu.symm⟩ rfl

/-- Bytes that were not written are buffered. -/
theorem accounts_writeRest {l : Ledger} {data : List UInt8} {n : Nat} (hlt : idx < s.nsockbufs)
    (h : Accounts (s.sbuf idx) l (data.length - n)) :
    Accounts ((writeRest s idx data n).sbuf idx) l 0 := by
  rw [writeRest]
  split
  · next heq => rwa [heq, Nat.sub_self] at h
  · have hblock := h.of_account ⟨rfl, rfl⟩ (account_block idx)
    rw [← List.length_drop] at hblock
    rw [sbuf_update_self _ idx _ (by simpa [sockbufBlock] using hlt)]
    exact hblock.append

/-- What `sockbuf_real_write` makes of data that is submitted, unless it fails hard. -/
theorem accounts_realWrite {l : Ledger} {data : List UInt8} (hlt : idx < s.nsockbufs)
    (h : Accounts (s.sbuf idx) l data.length) (hpending : data.length ≤ l.unrecorded)
    (hdraining : l.draining = false) (k : Kernel)
    (hno : ¬ HardError idx (sockbufRealWrite k s idx data).events) :
    Accounts ((sockbufRealWrite k s idx data).st.sbuf idx)
      ((sockbufRealWrite k s idx data).events.foldl (Ledger.step idx) l) 0 := by
  revert hno
  rw [sockbufRealWrite]
  split
  -- a blocked sockbuf: all of the data is buffered
  · intro _
    show Accounts ((s.update idx fun sb => sb.append data).sbuf idx) l 0
    rw [sbuf_update_self s idx _ hlt]
    exact h.append
  · split
    · next err herr =>
      split
      · intro _
        refine accounts_writeRest hlt (h.of_account ?_ rfl)
        exact ⟨rfl, rfl⟩
      · next hne => exact fun hno => absurd ⟨err, hne, by simp [Outcome.log]⟩ hno
    · next nbytes hok =>
      intro _
      have hn := (sysWrite_ok hok).2
      have hlen : (data.take nbytes).length = nbytes := by
        rw [List.length_take]
        omega
      have haccept := accounts_countWrite (q := data.length - nbytes) (u := l.unrecorded - nbytes) hlt
        (n := nbytes) (by rwa [Nat.sub_add_cancel hn]) (by omega) false
      refine accounts_writeRest (by rw [countWrite]; split <;> simpa using hlt) (haccept.of_account ?_ rfl)
      simp [Ledger.step, Ledger.Same, hlen, hdraining]

/-- A call of `sockbuf_write` for the sockbuf. -/
theorem Tallies.write (h : Tallies idx s tr)
    (hfilters : ∀ f ∈ (s.sbuf idx).filters.take (s.sbuf idx).nfilters, f.onWrite = false)
    (k : Kernel) (data : List UInt8) (len : Int) :
    Tallies idx (sockbufWrite k s idx data len).st (tr ++ (sockbufWrite k s idx data len).events) := by
  rw [sockbufWrite]
  split
  case isFalse => exact h.frame (fun _ he => absurd he List.not_mem_nil) rfl
  case isTrue hv =>
  dsimp only
  generalize writeArgument data len = d
  have hlt := (sockbufIsvalid_iff.1 hv).1
  have hcounted : (countSubmit s idx d.length).sbuf idx = _ := sbuf_update_self s idx (fun sb => { sb with
    stats := sb.stats.map fun st => { st with bytesOut := st.bytesOut + UInt64.ofNat d.length } }) hlt
  have hlt' : idx < (countSubmit s idx d.length).nsockbufs := by
    rw [countSubmit, update_nsockbufs]
    exact hlt
  have hnone : ((countSubmit s idx d.length).sbuf idx).filterBelow sockbufLevelWriteInternal
      SockbufFilter.onWrite = none := by
    rw [hcounted]
    exact filterBelow_none hfilters _
  rw [sockbufOnWrite, hnone]
  dsimp only
  rw [Outcome.log_st, Outcome.log_events, ← List.append_assoc]
  intro hno
  have hsubmit := (h (not_hardError_left (not_hardError_left hno))).submit d.length false
  rw [← hcounted] at hsubmit
  have hledger : ledger idx (tr ++ [.submitted idx d]) = ⟨(ledger idx tr).submitted + d.length,
      (ledger idx tr).unrecorded + d.length, false⟩ := by
    rw [ledger_append]
    exact if_pos rfl
  rw [ledger_append, hledger]
  exact accounts_realWrite hlt' hsubmit (Nat.le_add_left _ _) rfl k
    fun hc => hno ((hardError_append idx _ _).2 (Or.inr hc))

/-- Bytes that leave the buffer. -/
theorem accounts_drainOutput {l : Ledger} {n : Nat} (hlt : idx < s.nsockbufs)
    (h : Accounts (s.sbuf idx) l 0) (hn : n ≤ (s.sbuf idx).len) (b : Bool) :
    Accounts ((drainOutput s idx n).sbuf idx) ⟨l.submitted, 0, b⟩ 0 := by
  have hself := sbuf_update_self s idx (fun sb => sb.drain n) hlt
  have hfits := h.fits
  rw [drainOutput]
  split
  -- the data stays where it is
  · have hdrain : Accounts ((s.update idx fun sb => sb.drain n).sbuf idx) ⟨l.submitted, 0, b⟩ 0 := by
      rw [hself]
      exact h.drain hn (by omega) b
    exact hdrain.of_account ⟨rfl, rfl⟩ (account_unblock idx)
  · rw [sbuf_update_self _ idx _ (by simpa using hlt), hself]
    refine h.drain hn ?_ b
    show _ ≤ (memmove (s.sbuf idx).data 0 n ((s.sbuf idx).len - n)).length
    rw [length_memmove (by omega) (by omega)]
    omega

theorem Tallies.failed (h : Tallies idx s tr) (err : Nat) :
    Tallies idx s (tr ++ [.writeFailed idx err]) := by
  intro hno
  refine (h (not_hardError_left hno)).of_account ?_ rfl
  rw [ledger_append]
  exact ⟨rfl, rfl⟩

/-- A drain of the buffer, which the statistics notice. -/
theorem Tallies.drained (h : Tallies idx s tr) (hlt : idx < s.nsockbufs) {n : Nat}
    (hn : n ≤ (s.sbuf idx).len) (data : List UInt8) :
    Tallies idx (drainOutput s idx n) (tr ++ [.dispatched idx .writable] ++ [.wrote idx data]) := by
  intro hno
  have hold := h (not_hardError_left (not_hardError_left hno))
  refine (accounts_drainOutput hlt hold hn false).of_account ?_ rfl
  rw [ledger_append, ledger_append]
  simp [Ledger.step, Ledger.Same]

/-- The event loop found the sockbuf writable. -/
theorem Tallies.gotWritable (h : Tallies idx s tr) (k : Kernel) :
    Tallies idx (sockbufGotWritable k s idx).st
      (tr ++ ([.dispatched idx .writable] ++ (sockbufGotWritable k s idx).events)) := by
  have hdisp : Tallies idx s (tr ++ [.dispatched idx .writable]) := h.log trivial
  rw [← List.append_assoc, sockbufGotWritable]
  split
  -- the buffer is kept, and its accounts with it
  · next err _ =>
    have hfail := (hdisp.failed err).mild (mild_sockbufGotEof s idx k err)
    simpa using hfail
  · next nbytes hok =>
    obtain ⟨hs, hn⟩ := sysWrite_ok hok
    have hlt : idx < s.nsockbufs := by
      by_contra hge
      rw [sbuf_of_le (Nat.le_of_not_lt hge)] at hs
      exact absurd hs (by decide)
    have hlen : nbytes ≤ (s.sbuf idx).len :=
      Nat.le_trans hn (by rw [SockbufT.buffered, List.length_take]; omega)
    split
    · have hdrain := (h.drained hlt hlen ((s.sbuf idx).buffered.take nbytes)).mild
        (mild_sockbufOnWritten (drainOutput s idx nbytes) idx sockbufLevelInternal nbytes
          ((drainOutput s idx nbytes).sbuf idx).len)
      simpa using hdrain
    · simpa using hdisp

theorem Tallies.accept (h : Tallies idx s tr) (k : Kernel) (j : Nat) :
    Tallies idx (sockbufGotReadableServer k s j).st
      (tr ++ (sockbufGotReadableServer k s j).events) := by
  rw [sockbufGotReadableServer]
  dsimp only
  split
  · simpa using h
  · next hsock =>
    generalize k.sysAccept (s.sbuf j).sock = sock at hsock
    have hset := h.new.setSock k (sockbufNew s).2 sock { inbound := true }
    rw [attachEvents, if_pos ⟨sockbufIsvalid_sockbufNew s, by omega⟩] at hset
    have hlast := hset.mild (mild_sockbufOnNewclient _ j k sockbufLevelInternal (sockbufNew s).2
      k.acceptPeer.1 k.acceptPeer.2)
    simpa using hlast

end State

/-! ## Runs -/

/-- The sockbuf has no `on_write` filter, and external code does not pass on a write for it either: what
is written to it is what `sockbuf_write` was given. -/
def WritesDirectly (idx : Nat) (c : Config) (a : Action) : Prop :=
  (∀ f ∈ (c.st.sbuf idx).filters.take (c.st.sbuf idx).nfilters, f.onWrite = false) ∧
    match a with
    | .call (.on j _ (.write _)) _ => j ≠ idx
    | _ => True

instance (idx : Nat) (c : Config) : (a : Action) → Decidable (WritesDirectly idx c a)
  | .call (.on j _ (.write _)) _ => inferInstanceAs (Decidable (_ ∧ j ≠ idx))
  | .call (.on _ _ (.connect _ _)) _ | .call (.on _ _ (.eof _)) _
  | .call (.on _ _ (.newclient _ _ _)) _ | .call (.on _ _ (.read _)) _
  | .call (.on _ _ (.written _ _)) _ | .call (.on _ _ .delete) _ | .call .new _
  | .call (.setSock _ _ _) _ | .call (.close _) _ | .call (.delete _) _ | .call (.write _ _ _) _
  | .call (.read _) _ | .call (.noread _) _ | .call (.attachListener _) _
  | .call (.detachListener _) _ | .call (.setHandler _ _ _) _ | .call (.attachFilter _ _ _) _
  | .call (.detachFilter _ _) _ | .call .updateAll _ | .call .shutdown _ | .ret | .run _ =>
      inferInstanceAs (Decidable (_ ∧ True))

section Step

variable {idx : Nat} {c : Config} {k : Kernel} {o : Outcome}

theorem account_attachFilter (sb : SockbufT) (filter : SockbufFilter) (clientData : Nat) :
    (sb.attachFilter filter clientData).account = sb.account := rfl

theorem account_detachFilter (sb : SockbufT) (filter : SockbufFilter) :
    (sb.detachFilter filter).account = sb.account := by
  rw [SockbufT.detachFilter]
  split <;> rfl

/-- **A call of the module** keeps the tallies. -/
theorem Tallies.apply (h : Tallies idx c.st c.trace) {f : Api}
    (hok : WritesDirectly idx c (.call f k)) (ho : f.apply k c.st = some o) :
    Tallies idx o.st (c.trace ++ o.events) := by
  have hone : ∀ {s' : State} {e : Event}, e.Silent idx →
      (s'.sbuf idx).account = (c.st.sbuf idx).account →
      Tallies idx s' (c.trace ++ [e]) := fun he hacc =>
    h.frame (fun x hx => by rw [List.mem_singleton.1 hx]; exact he) hacc
  by_cases hw : ∃ data len, f = .write idx data len
  · obtain ⟨data, len, rfl⟩ := hw
    cases ho
    exact h.write hok.1 k data len
  cases hf : f.Structural with
  | false =>
    cases f with
    | attachFilter j filter clientData =>
      cases ho
      refine h.frame (fun _ he => absurd he List.not_mem_nil) ?_
      rw [sockbufAttachFilter]
      split
      · exact account_update j (account_attachFilter _ filter clientData)
      · rfl
    | detachFilter j filter =>
      cases ho
      refine h.frame (fun _ he => absurd he List.not_mem_nil) ?_
      rw [sockbufDetachFilter]
      split
      · exact account_update j (account_detachFilter _ filter)
      · rfl
    -- the other calls write to no output path but that of other sockbufs
    | write j data len =>
      refine h.mild (mild_apply c.st hf (fun i hi => ?_) ho)
      rintro rfl
      exact hw ⟨data, len, congrArg (Api.write · data len) hi⟩
    | on j level call =>
      refine h.mild (mild_apply c.st hf (fun i hi => ?_) ho)
      rintro rfl
      cases call with
      | write data => exact hok.2 hi
      | _ => exact hi
    | _ => exact h.mild (mild_apply c.st hf (fun i hi => absurd hi id) ho)
  | true =>
    cases f with
    | new => cases ho; exact h.new
    | setSock j sock flags => cases ho; exact h.setSock k j sock flags
    | delete j => cases ho; exact h.delete j
    | attachListener fd => cases ho; exact hone trivial rfl
    | detachListener fd =>
      cases ho
      refine hone trivial ?_
      rw [sockbufDetachListener]
      dsimp only
      split <;> rfl
    | updateAll => cases ho; exact h.updateAll k
    | shutdown => cases ho; exact h.shutdownLoop _
    | _ => cases hf

/-- **A task** keeps the tallies. -/
theorem Tallies.exec (h : Tallies idx c.st c.trace) {t : Task} (ho : t.exec k c.st = some o) :
    Tallies idx o.st (c.trace ++ o.events) := by
  have hdisp : ∀ j kind, Tallies idx c.st (c.trace ++ [.dispatched j kind]) := fun _ _ => h.log trivial
  cases t with
  | external cb => cases ho
  | crash => cases ho
  | hangup j =>
    cases ho
    simpa using (hdisp j .hangup).mild (mild_sockbufGotEof c.st j k 0)
  | writable j connecting =>
    cases ho
    cases connecting with
    | true => simpa using (hdisp j .writable).mild (mild_sockbufGotWritableClient c.st j k)
    | false =>
      by_cases hj : j = idx
      · subst hj
        exact h.gotWritable k
      · simpa using (hdisp j .writable).mild (mild_sockbufGotWritable c.st j hj k)
  | readable j server =>
    cases ho
    cases server with
    | true => simpa using (hdisp j .readable).accept k j
    | false => simpa using (hdisp j .readable).mild (mild_sockbufGotReadable c.st j k)
  | scan i n =>
    cases ho
    have hnone : Tallies idx c.st (c.trace ++ []) := by simpa using h
    rw [updateScan]
    dsimp only
    split
    · split
      · exact hnone
      · exact hnone
    · exact h.finish
  | delete j i => cases ho; exact h.deleteCallbacks j i
  | deleteFinish j => cases ho; exact h.deleteFinish j
  | shutdown i => cases ho; exact h.shutdownLoop i

end Step

/-- **The tallies are right** in every run. -/
theorem tallies_run {idx : Nat} {c : Config} (h : Run step (WritesDirectly idx) start c) :
    Tallies idx c.st c.trace := by
  refine h.invariant (I := fun c => Tallies idx c.st c.trace) ?_
    (Tallies.of_wiped (sbuf_of_le (Nat.zero_le _)) rfl rfl)
  intro c a c' hc hok hs
  rcases step_cases hs with ⟨f, k, o, rfl, -, ho, rfl⟩ | ⟨cb, rest, rfl, -, rfl⟩ |
    ⟨k, t, rest, o, rfl, -, ho, rfl⟩
  · exact hc.apply hok ho
  · exact hc
  · exact hc.exec ho

/-- The statistics `st` of a sockbuf agree with its buffer and with the bytes submitted to it. -/
structure Balanced (sb : SockbufT) (st : SockbufStats) (total : Nat) : Prop where
  left : st.rawBytesLeft = UInt64.ofNat sb.buffered.length
  sum : st.rawBytesOut + st.rawBytesLeft = UInt64.ofNat total
  out : st.bytesOut = UInt64.ofNat total

/-- **Bytes that go into the buffer are not recorded.** In every state of a run without hard write errors
the statistics of a sockbuf are balanced exactly when, up to multiples of `2^64`, no byte was buffered
since the event loop last wrote out some of the buffer. -/
theorem balanced_iff {idx : Nat} {c : Config} (h : Run step (WritesDirectly idx) start c)
    (hno : ¬ HardError idx c.trace) {st : SockbufStats} (hst : (c.st.sbuf idx).stats = some st) :
    Balanced (c.st.sbuf idx) st (ledger idx c.trace).submitted ↔
      2 ^ 64 ∣ (ledger idx c.trace).unrecorded := by
  have hacc := tallies_run h hno
  have hlen : (c.st.sbuf idx).buffered.length = (c.st.sbuf idx).len := by
    rw [SockbufT.buffered, List.length_take, Nat.min_eq_left hacc.fits]
  have hout := hacc.out st hst
  have hsum : st.rawBytesOut + UInt64.ofNat (c.st.sbuf idx).len = _ := hacc.sum st hst
  have hleft : st.rawBytesLeft + UInt64.ofNat (ledger idx c.trace).unrecorded =
    UInt64.ofNat (c.st.sbuf idx).len := hacc.left st hst
  generalize (ledger idx c.trace).unrecorded = u at hleft ⊢
  have hzero : UInt64.ofNat u = 0 ↔ 2 ^ 64 ∣ u := by
    rw [UInt64.ofNat_eq_iff_mod_eq_toNat, Nat.dvd_iff_mod_eq_zero]
    rfl
  rw [← hzero]
  constructor
  · intro hb
    have hl := hb.left
    rw [hlen, ← hleft] at hl
    exact ((UInt64.add_right_inj _).1 ((UInt64.add_zero _).trans hl)).symm
  · intro hu
    rw [hu, UInt64.add_zero] at hleft
    exact ⟨by rw [hlen, hleft], by rw [hleft, hsum], hout⟩

/-- `HardError` as a test of the events. -/
def Event.isHardError (idx : Nat) : Event → Bool
  | .writeFailed j err => j == idx && err != eagain
  | _ => false

/-- A hard error can be read off the events. -/
theorem hardError_iff_any (idx : Nat) (es : List Event) :
    HardError idx es ↔ es.any (Event.isHardError idx) = true := by
  rw [List.any_eq_true]
  constructor
  · rintro ⟨err, hne, hmem⟩
    exact ⟨_, hmem, by simp [Event.isHardError, hne]⟩
  · rintro ⟨e, hmem, he⟩
    cases e with
    | writeFailed j err =>
      simp only [Event.isHardError, Bool.and_eq_true, beq_iff_eq, bne_iff_ne] at he
      exact ⟨err, he.2, he.1 ▸ hmem⟩
    | _ => cases he

instance (idx : Nat) (es : List Event) : Decidable (HardError idx es) :=
  decidable_of_iff _ (hardError_iff_any idx es).symm

/-- A write that the kernel takes whole. -/
def wholeRun : List Action :=
  [.call .new {}, .call (.setSock 0 5 {}) {}, .call (.write 0 [104, 105] 2) { write := .ok 2 }]

/-- Two bytes that are written at once. -/
theorem balanced_whole_write :
    ∃ c st, execute step (WritesDirectly 0) start wholeRun = some c ∧
      (c.st.sbuf 0).stats = some st ∧ Balanced (c.st.sbuf 0) st 2 := by
  exact ⟨_, _, rfl, rfl,
    (balanced_iff (run_of_execute wholeRun rfl) (by decide) rfl).2 (by decide)⟩

/-- A sockbuf that has no socket yet: a byte waits in the buffer, and no byte is recorded as left. -/
theorem buffered_byte_not_recorded :
    ∃ c st, execute step (WritesDirectly 0) start
        [.call .new {}, .call (.write 0 [120] 1) {}] = some c ∧
      ¬ HardError 0 c.trace ∧ (c.st.sbuf 0).stats = some st ∧ (c.st.sbuf 0).buffered = [120] ∧
      st.rawBytesLeft = 0 ∧ ¬ Balanced (c.st.sbuf 0) st 1 := by
  exact ⟨_, _, rfl, by decide, rfl, rfl, rfl, fun h => absurd h.left (by decide)⟩

end ExamplePrograms.Onethread.Sockbuf
