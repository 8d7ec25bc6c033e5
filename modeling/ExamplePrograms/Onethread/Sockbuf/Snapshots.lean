import Mathlib.Algebra.Ring.Int.Defs
import ExamplePrograms.Lib.Rotation
import ExamplePrograms.Onethread.Sockbuf.Output

/-!
# The snapshots of the statistics

`stats_in` and `stats_out` add to the slot that `snapshot_counter` points at, and only
`sockbuf_get_stats` moves the counter. So a slot holds what was transferred between two queries, not
what was transferred in its second. `recorded` is the former, `transferred` the latter, both read off
the history of transfers and queries, and `snapshots_iff` says that the slots are right exactly where
the two agree.
-/

set_option autoImplicit false

namespace ExamplePrograms.Onethread.Sockbuf

open ExamplePrograms.Lib.Runs ExamplePrograms.Lib.Rotation State

/-! ## The functions -/

/-- The body of the loop of `skip_stats`. -/
def SockbufStats.skipSecond (stats : SockbufStats) : SockbufStats :=
  let i := advance stats.snapshotCounter 5
  { stats with
    snapshotCounter := i
    snapshotOutBytes := stats.snapshotOutBytes.set i 0
    snapshotInBytes := stats.snapshotInBytes.set i 0 }

/-- `skip_stats`. -/
def skipStats (stats : SockbufStats) (curtime : Int) : SockbufStats :=
  let diff := curtime - stats.lastSnapshot
  let diff := if 5 < diff then 5 else diff
  SockbufStats.skipSecond^[diff.toNat] { stats with lastSnapshot := curtime }

/-- A conversion of an `uint64_t` to `int`. -/
def toInt (x : UInt64) : Int := (BitVec.ofNat 32 x.toNat).toInt

/-- The sum of the slots but the current one. -/
def snapTotal (slots : List Int) (counter : Nat) : Int :=
  (((List.range 5).filter (· ≠ counter)).map fun i => slots.getD i 0).sum

/-- `update_stats` at the time `curtime`. `nsecs` is what its uninitialised variable holds; a division
by zero ends the program. -/
def updateStats (stats : SockbufStats) (curtime nsecs : Int) : Option SockbufStats :=
  if nsecs = 0 then none
  else
    let stats :=
      { stats with
        totalInCps := toInt (stats.rawBytesIn / UInt64.ofInt nsecs)
        totalOutCps := toInt (stats.rawBytesOut / UInt64.ofInt nsecs) }
    let stats := skipStats stats curtime
    let snapIn := snapTotal stats.snapshotInBytes stats.snapshotCounter
    let snapOut := snapTotal stats.snapshotOutBytes stats.snapshotCounter
    let nsecs := if 4 < nsecs then 4 else if 1 < nsecs then nsecs - 1 else 1
    some
      { stats with
        snapshotInCps := snapIn.tdiv nsecs
        snapshotOutCps := snapOut.tdiv nsecs }

/-- `sockbuf_get_stats` with a pointer that is not NULL: its result, and the state with the statistics
that it stores a pointer to. -/
def sockbufGetStats (s : State) (idx : Nat) (curtime nsecs : Int) : Option (Int × State) :=
  if sockbufIsvalid s idx then
    match (s.sbuf idx).stats with
    | none => none
    | some stats =>
      (updateStats stats curtime nsecs).map fun stats =>
        (0, s.update idx fun sb => { sb with stats := some stats })
  else some (-1, s)

/-! ## Histories -/

/-- The two directions of the statistics. -/
inductive Direction where
  | input
  | output
  deriving DecidableEq, Repr

/-- The slots of a direction. -/
def Direction.slots (st : SockbufStats) : Direction → List Int
  | .input => st.snapshotInBytes
  | .output => st.snapshotOutBytes

/-- The bytes of a transfer in a direction. -/
def Direction.amount (received sent : Nat) : Direction → Nat
  | .input => received
  | .output => sent

/-- What happened to a sockbuf: the bytes of one read or write, or a call of `sockbuf_get_stats`, with
the second in which it was. -/
inductive Entry where
  | transfer (second : Int) (received sent : Nat)
  | query (second : Int)
  deriving DecidableEq, Repr

/-- The bytes transferred in the second `u`. A history starts with its newest entry. -/
def transferred (d : Direction) (u : Int) : List Entry → Nat
  | [] => 0
  | .transfer second received sent :: h =>
      (if second = u then d.amount received sent else 0) + transferred d u h
  | .query _ :: h => transferred d u h

/-- The second of the newest query, zero before the first one. -/
def lastQuery : List Entry → Int
  | [] => 0
  | .transfer _ _ _ :: h => lastQuery h
  | .query second :: _ => second

/-- The bytes transferred behind a query in the second `u` and before the first query after it. -/
def recorded (d : Direction) (u : Int) : List Entry → Nat
  | [] => 0
  | .transfer _ received sent :: h =>
      (if lastQuery h = u then d.amount received sent else 0) + recorded d u h
  | .query _ :: h => recorded d u h

/-! ## Runs -/

/-- A state of the module with the clock, as the `int` that `update_stats` reads, and the history of one
sockbuf. -/
structure Timed where
  st : State
  now : Int
  history : List Entry := []
  deriving DecidableEq, Repr

/-- The event loop reads from the sockbuf or writes out its buffer, external code writes to it or asks
for its statistics, the clock advances. -/
inductive Use where
  | readable (k : Kernel)
  | write (k : Kernel) (data : List UInt8) (len : Int)
  | writable (k : Kernel)
  | getStats (nsecs : Int)
  | tick (n : Nat)

/-- The number of bytes that `sockbuf_got_readable` reads. -/
def receivedBytes (k : Kernel) (s : State) (idx : Nat) : Nat :=
  match k.sysRead (s.sbuf idx).sock 4096 with
  | .ok data => data.length
  | .error _ => 0

/-- A transfer of bytes, which is entered into the history. -/
def Timed.transfer (c : Timed) (s : State) (received sent : Nat) : Timed :=
  ⟨s, c.now, .transfer c.now received sent :: c.history⟩

/-- One use of the sockbuf. -/
def Timed.step (idx : Nat) (c : Timed) : Use → Option Timed
  | .readable k =>
      some (c.transfer (sockbufGotReadable k c.st idx).st (receivedBytes k c.st idx) 0)
  | .write k data len =>
      let o := sockbufWrite k c.st idx data len
      some (c.transfer o.st 0 (accepted idx o.events).length)
  | .writable k =>
      let o := sockbufGotWritable k c.st idx
      some (c.transfer o.st 0 (accepted idx o.events).length)
  | .getStats nsecs =>
      (sockbufGetStats c.st idx c.now nsecs).map fun r =>
        ⟨r.2, c.now, .query c.now :: c.history⟩
  | .tick n => some { c with now := c.now + n }

/-! ## Windows -/

/-- The slot of the second `k` seconds back. -/
def SockbufStats.slot (st : SockbufStats) (d : Direction) (k : Nat) : Option Int :=
  behind (d.slots st) st.snapshotCounter k

/-- The slots hold what was recorded in the last five seconds. -/
structure Window (st : SockbufStats) (h : List Entry) : Prop where
  length : ∀ d : Direction, (d.slots st).length = 5
  counter : st.snapshotCounter < 5
  last : st.lastSnapshot = lastQuery h
  slots : ∀ (d : Direction) (j : Nat), j < 5 →
    st.slot d j = some (recorded d (lastQuery h - j) h : Int)
  future : ∀ (d : Direction) (u : Int), lastQuery h < u → recorded d u h = 0

/-- The window of an empty history. -/
theorem window_init : Window {} [] := by
  refine ⟨fun d => by cases d <;> rfl, by decide, rfl, fun d j hj => ?_, fun _ _ _ => rfl⟩
  have hzero : ∀ j < 5, behind [(0 : Int), 0, 0, 0, 0] 0 j = some 0 := by decide
  cases d
  · exact hzero j hj
  · exact hzero j hj

/-- What the window depends on in the statistics. -/
def SockbufStats.ring (st : SockbufStats) : List Int × List Int × Nat × Int :=
  (st.snapshotInBytes, st.snapshotOutBytes, st.snapshotCounter, st.lastSnapshot)

namespace Window

variable {st st' : SockbufStats} {h : List Entry}

/-- The window depends on the ring alone. -/
theorem of_ring (hw : Window st h) (hring : st'.ring = st.ring) : Window st' h := by
  simp only [SockbufStats.ring, Prod.mk.injEq] at hring
  obtain ⟨hin, hout, hcounter, hlast⟩ := hring
  have hslots : ∀ d : Direction, d.slots st' = d.slots st := fun d => by
    cases d
    · exact hin
    · exact hout
  refine ⟨fun d => by rw [hslots]; exact hw.length d, by rw [hcounter]; exact hw.counter,
    by rw [hlast]; exact hw.last, fun d j hj => ?_, hw.future⟩
  rw [SockbufStats.slot, hslots, hcounter]
  exact hw.slots d j hj

/-- The statistics after a transfer. -/
theorem transfer (hw : Window st h) (now : Int) (received sent : Nat) :
    Window (statsOut (statsIn st received) sent) (.transfer now received sent :: h) := by
  have hslots : ∀ d : Direction, d.slots (statsOut (statsIn st received) sent) =
      (d.slots st).modify st.snapshotCounter (· + (d.amount received sent : Int)) := fun d => by
    cases d <;> rfl
  refine ⟨fun d => by rw [hslots, List.length_modify]; exact hw.length d, hw.counter, hw.last,
    fun d j hj => ?_, fun d u hu => ?_⟩
  · have hc : st.snapshotCounter < (d.slots st).length := by
      rw [hw.length]
      exact hw.counter
    have hold := hw.slots d j hj
    rw [SockbufStats.slot] at hold ⊢
    rw [hslots]
    show behind _ st.snapshotCounter j = _
    rw [recorded]
    cases j with
    -- the current slot is that of the second of the last query
    | zero =>
      rw [behind_modify_zero hc, hold, if_pos (by simp [lastQuery])]
      simp [lastQuery, Int.add_comm]
    | succ j =>
      rw [behind_modify_succ hc (Nat.succ_pos j) (by rw [hw.length]; exact hj), hold,
        if_neg (by simp only [lastQuery]; omega)]
      simp [lastQuery]
  · rw [lastQuery] at hu
    rw [recorded, if_neg (by omega), hw.future d u hu]

end Window

/-- A skipped second rotates the ring. -/
theorem slots_skipSecond {st : SockbufStats} (hlen : ∀ d : Direction, (d.slots st).length = 5)
    (d : Direction) :
    (d.slots st.skipSecond, st.skipSecond.snapshotCounter) =
      rotate 0 (d.slots st, st.snapshotCounter) := by
  rw [rotate, hlen]
  cases d <;> rfl

/-- Skipped seconds rotate the ring. -/
theorem slots_skip (n : Nat) {st : SockbufStats} (hlen : ∀ d : Direction, (d.slots st).length = 5)
    (d : Direction) :
    (d.slots (SockbufStats.skipSecond^[n] st), (SockbufStats.skipSecond^[n] st).snapshotCounter) =
      (rotate 0)^[n] (d.slots st, st.snapshotCounter) := by
  induction n generalizing st with
  | zero => rfl
  | succ n ih =>
    rw [Function.iterate_succ_apply, Function.iterate_succ_apply, ← slots_skipSecond hlen]
    refine ih fun d => ?_
    have hrotate := congrArg Prod.fst (slots_skipSecond hlen d)
    rw [show d.slots st.skipSecond = _ from hrotate, length_rotate, hlen]

theorem lastSnapshot_skip (n : Nat) (st : SockbufStats) :
    (SockbufStats.skipSecond^[n] st).lastSnapshot = st.lastSnapshot := by
  induction n generalizing st with
  | zero => rfl
  | succ n ih =>
    rw [Function.iterate_succ_apply, ih]
    rfl

/-- The arrays have five slots, and the counter points at one of them. -/
structure SockbufStats.Shaped (st : SockbufStats) : Prop where
  length : ∀ d : Direction, (d.slots st).length = 5
  counter : st.snapshotCounter < 5

namespace SockbufStats.Shaped

variable {st : SockbufStats}

theorem counter_lt (h : st.Shaped) (d : Direction) : st.snapshotCounter < (d.slots st).length := by
  rw [h.length]
  exact h.counter

/-- Skipping rotates the slots of either direction, five times at most. -/
theorem rotate_skipStats (h : st.Shaped) (n : Nat) (d : Direction) :
    (d.slots (skipStats st (st.lastSnapshot + n)),
        (skipStats st (st.lastSnapshot + n)).snapshotCounter) =
      (rotate 0)^[min n 5] (d.slots st, st.snapshotCounter) := by
  have hdiff : (if 5 < st.lastSnapshot + n - st.lastSnapshot then 5
      else st.lastSnapshot + n - st.lastSnapshot : Int).toNat = min n 5 := by
    split <;> omega
  rw [skipStats, hdiff]
  have hlen : ∀ d : Direction,
      (d.slots { st with lastSnapshot := st.lastSnapshot + n }).length = 5 := h.length
  exact slots_skip (min n 5) hlen d

/-- `skip_stats` rotates the ring by the seconds that have passed, at most five times. -/
theorem slots_skipStats (h : st.Shaped) (n : Nat) (d : Direction) :
    d.slots (skipStats st (st.lastSnapshot + n)) =
      ((rotate 0)^[min n 5] (d.slots st, st.snapshotCounter)).1 :=
  congrArg Prod.fst (h.rotate_skipStats n d)

theorem counter_skipStats (h : st.Shaped) (n : Nat) (d : Direction) :
    (skipStats st (st.lastSnapshot + n)).snapshotCounter =
      ((rotate 0)^[min n 5] (d.slots st, st.snapshotCounter)).2 :=
  congrArg Prod.snd (h.rotate_skipStats n d)

/-- `skip_stats` keeps the shape. -/
theorem skipStats (h : st.Shaped) (n : Nat) : (skipStats st (st.lastSnapshot + n)).Shaped := by
  have hlength : ∀ d : Direction,
      (d.slots (Sockbuf.skipStats st (st.lastSnapshot + n))).length = 5 := fun d => by
    rw [h.slots_skipStats, length_iterate_rotate]
    exact h.length d
  refine ⟨hlength, ?_⟩
  have hlt := iterate_rotate_lt (x := 0) (w := (Direction.input.slots st, st.snapshotCounter))
    (h.counter_lt .input) (min n 5)
  rw [← h.slots_skipStats n .input, ← h.counter_skipStats n .input] at hlt
  exact Nat.lt_of_lt_of_eq hlt (hlength .input)

/-- `n` seconds later the newest `n` slots are empty and the others are `n` places older. -/
theorem slot_skipStats (h : st.Shaped) (n : Nat) (d : Direction) {k : Nat} (hk : k < 5) :
    (Sockbuf.skipStats st (st.lastSnapshot + n)).slot d k =
      if k < n then some 0 else st.slot d (k - n) := by
  have hk' : k < (d.slots st).length := by
    rw [h.length]
    exact hk
  have hmin := behind_iterate_rotate_min (x := 0) (w := (d.slots st, st.snapshotCounter))
    (h.counter_lt d) n hk'
  rw [show (d.slots st, st.snapshotCounter).1.length = 5 from h.length d] at hmin
  rw [SockbufStats.slot, h.slots_skipStats, h.counter_skipStats n d, hmin,
    behind_iterate_rotate (w := (d.slots st, st.snapshotCounter)) (h.counter_lt d) n hk']
  rfl

end SockbufStats.Shaped

theorem lastSnapshot_skipStats (st : SockbufStats) (t : Int) : (skipStats st t).lastSnapshot = t :=
  lastSnapshot_skip _ _

/-- **The ring advances compositionally.** The counter stays in the ring, the slots of the seconds that
went by are empty and the others are older by as many places; and two advances are seen as one. -/
theorem skipStats_compositional {st : SockbufStats} (h : st.Shaped) :
    (∀ n : Nat, (skipStats st (st.lastSnapshot + n)).snapshotCounter < 5 ∧
      ∀ (d : Direction) (k : Nat), k < 5 →
        (skipStats st (st.lastSnapshot + n)).slot d k =
          if k < n then some 0 else st.slot d (k - n)) ∧
    ∀ t₁ t₂ : Int, st.lastSnapshot ≤ t₁ → t₁ ≤ t₂ →
      (skipStats (skipStats st t₁) t₂).lastSnapshot = (skipStats st t₂).lastSnapshot ∧
      ∀ (d : Direction) (k : Nat), k < 5 →
        (skipStats (skipStats st t₁) t₂).slot d k = (skipStats st t₂).slot d k := by
  refine ⟨fun n => ⟨(h.skipStats n).counter, fun d k hk => h.slot_skipStats n d hk⟩, ?_⟩
  intro t₁ t₂ h₁ h₂
  rw [lastSnapshot_skipStats, lastSnapshot_skipStats]
  refine ⟨rfl, fun d k hk => ?_⟩
  obtain ⟨n, rfl⟩ : ∃ n : Nat, t₁ = st.lastSnapshot + n := ⟨(t₁ - st.lastSnapshot).toNat, by omega⟩
  obtain ⟨m, rfl⟩ : ∃ m : Nat, t₂ = st.lastSnapshot + n + m :=
    ⟨(t₂ - (st.lastSnapshot + n)).toNat, by omega⟩
  have hsecond := (h.skipStats n).slot_skipStats m d hk
  rw [lastSnapshot_skipStats] at hsecond
  rw [hsecond, h.slot_skipStats n d (by omega), Int.add_assoc, ← Int.natCast_add,
    h.slot_skipStats (n + m) d hk]
  -- empty since the second advance, since the first one, or not empty
  by_cases hm : k < m
  · rw [if_pos hm, if_pos (by omega)]
  · by_cases hn : k - m < n
    · rw [if_neg hm, if_pos hn, if_pos (by omega)]
    · rw [if_neg hm, if_neg hn, if_neg (by omega)]
      congr 1
      omega

/-- A ring with bytes in every slot, four seconds and then three seconds later. -/
theorem skipStats_compositional_wrapped :
    let st : SockbufStats := { snapshotInBytes := [1, 2, 3, 4, 5], snapshotCounter := 3, lastSnapshot := 100 }
    (∀ n : Nat, (skipStats st (st.lastSnapshot + n)).snapshotCounter < 5 ∧
      ∀ (d : Direction) (k : Nat), k < 5 →
        (skipStats st (st.lastSnapshot + n)).slot d k =
          if k < n then some 0 else st.slot d (k - n)) ∧
    ∀ t₁ t₂ : Int, st.lastSnapshot ≤ t₁ → t₁ ≤ t₂ →
      (skipStats (skipStats st t₁) t₂).lastSnapshot = (skipStats st t₂).lastSnapshot ∧
      ∀ (d : Direction) (k : Nat), k < 5 →
        (skipStats (skipStats st t₁) t₂).slot d k = (skipStats st t₂).slot d k :=
  skipStats_compositional ⟨fun d => by cases d <;> rfl, by decide⟩

/-- The statistics after a query: the slots of the seconds since the last one are empty. -/
theorem Window.skip {st : SockbufStats} {h : List Entry} (hw : Window st h) {now : Int}
    (hnow : lastQuery h ≤ now) : Window (skipStats st now) (.query now :: h) := by
  have hshape : st.Shaped := ⟨hw.length, hw.counter⟩
  obtain ⟨n, rfl⟩ : ∃ n : Nat, now = lastQuery h + n := ⟨(now - lastQuery h).toNat, by omega⟩
  have hskip := hshape.skipStats n
  have hslot := fun d j hj => hshape.slot_skipStats n d (k := j) hj
  rw [hw.last] at hskip hslot
  refine ⟨hskip.length, hskip.counter, lastSnapshot_skipStats st _, fun d j hj => ?_, fun d u hu => ?_⟩
  · rw [hslot d j hj]
    show _ = some (recorded d (lastQuery h + n - j) h : Int)
    split
    -- a second behind the last query
    · rw [hw.future d _ (by omega)]
      rfl
    · next hjn =>
      -- fewer than five seconds went by
      rw [hw.slots d (j - n) (by omega)]
      congr 3
      omega
  · show recorded d u h = 0
    rw [lastQuery] at hu
    exact hw.future d u (by omega)

/-- **A query** moves the window to its second. -/
theorem Window.update {st st' : SockbufStats} {h : List Entry} (hw : Window st h) {now nsecs : Int}
    (hnow : lastQuery h ≤ now) (hst : updateStats st now nsecs = some st') :
    Window st' (.query now :: h) := by
  rw [updateStats] at hst
  split at hst
  · cases hst
  · have htotal : Window { st with
        totalInCps := toInt (st.rawBytesIn / UInt64.ofInt nsecs)
        totalOutCps := toInt (st.rawBytesOut / UInt64.ofInt nsecs) } h := hw.of_ring rfl
    have hskip := htotal.skip hnow
    cases hst
    exact hskip.of_ring rfl

/-! ## What reads and writes do to the window -/

/-- The ring of a sockbuf that has statistics. -/
def SockbufT.ring (sb : SockbufT) : Option (List Int × List Int × Nat × Int) :=
  sb.stats.map SockbufStats.ring

section Rings

variable (s : State) (idx : Nat)

theorem ring_transfer_zero (st : SockbufStats) :
    (statsIn st 0).ring = st.ring ∧ (statsOut st 0).ring = st.ring := by
  have hzero : ∀ l : List Int, l.modify st.snapshotCounter (· + (0 : Int)) = l := fun l => by
    simp only [Int.add_zero]
    exact List.modify_id _ l
  constructor
  · show (st.snapshotInBytes.modify _ _, _) = _
    rw [show ((0 : Nat) : Int) = 0 from rfl, hzero]
    rfl
  · show (_, st.snapshotOutBytes.modify _ _, _) = _
    rw [show ((0 : Nat) : Int) = 0 from rfl, hzero]
    rfl

theorem ring_statsOut_statsIn_zero (st : SockbufStats) (n : Nat) :
    (statsOut st n).ring = (statsOut (statsIn st 0) n).ring := by
  have hzero := (ring_transfer_zero st).1
  simp only [SockbufStats.ring, Prod.mk.injEq] at hzero
  exact congrArg (·, _) hzero.1.symm

/-- Nothing was transferred. -/
theorem ring_none (sb : SockbufT) :
    (sb.stats.map fun st => (statsIn st 0).ring) = sb.ring ∧
      (sb.stats.map fun st => (statsOut st 0).ring) = sb.ring := by
  constructor
  · exact congrArg (Option.map · sb.stats) (funext fun st => (ring_transfer_zero st).1)
  · exact congrArg (Option.map · sb.stats) (funext fun st => (ring_transfer_zero st).2)

theorem ring_update_stats (f : SockbufStats → SockbufStats) :
    ((s.update idx fun sb => { sb with stats := sb.stats.map f }).sbuf idx).ring =
      (s.sbuf idx).stats.map fun st => (f st).ring := by
  rw [sbuf_update]
  split
  · rw [SockbufT.ring, Option.map_map]
    rfl
  -- there are no statistics outside the table
  · next h =>
    rw [sbuf_of_le (Nat.le_of_not_lt fun hlt => h ⟨rfl, hlt⟩)]
    rfl

theorem ring_sockbufClose (k : Kernel) :
    ((sockbufClose k s idx).sbuf idx).ring = (s.sbuf idx).ring := by
  rw [sockbufClose]
  split
  · next h =>
    have hkeep : ((s.sbuf idx).setSock k (-1) {}).data = (s.sbuf idx).data ∧ _ :=
      setSock_output (s.sbuf idx) (-1)
    obtain ⟨-, -, -, -, hstats⟩ := hkeep
    rw [sbuf_sockbufSetSock_self h.1, SockbufT.ring, hstats, SockbufT.ring]
  · rfl

theorem ring_sockbufGotEof (k : Kernel) (err : Nat) :
    ((sockbufGotEof k s idx err).st.sbuf idx).ring = (s.sbuf idx).ring := by
  rw [sockbufGotEof, sockbufOnEof_st]
  exact ring_sockbufClose s idx k

theorem ring_sockbufOnRead (level : Int) (data : List UInt8) :
    ((sockbufOnRead s idx level data).st.sbuf idx).ring = (s.sbuf idx).ring := by
  rw [sockbufOnRead]
  split
  · rfl
  · split
    · rfl
    · next st hst =>
      rw [callHandler_st]
      refine sbuf_update_keeps s idx _ SockbufT.ring ?_ idx
      rw [SockbufT.ring, SockbufT.ring, hst]
      rfl

/-- What a read does to the ring. -/
theorem ring_sockbufGotReadable (k : Kernel) :
    ((sockbufGotReadable k s idx).st.sbuf idx).ring =
      (s.sbuf idx).stats.map fun st => (statsIn st (receivedBytes k s idx)).ring := by
  rw [receivedBytes, sockbufGotReadable]
  cases hr : k.sysRead (s.sbuf idx).sock 4096 with
  | error err => exact (ring_sockbufGotEof s idx k err).trans (ring_none _).1.symm
  | ok data =>
    cases data with
    | nil => exact (ring_sockbufGotEof s idx k 0).trans (ring_none _).1.symm
    | cons b data =>
      exact (ring_sockbufOnRead _ idx _ _).trans (ring_update_stats s idx _)

/-! ### Writing -/

theorem ring_block : ((sockbufBlock s idx).sbuf idx).ring = (s.sbuf idx).ring := by
  rw [sockbufBlock, updateEntry_sbuf]
  exact sbuf_update_keeps s idx _ SockbufT.ring rfl idx

theorem ring_unblock : ((sockbufUnblock s idx).sbuf idx).ring = (s.sbuf idx).ring := by
  rw [sockbufUnblock, updateEntry_sbuf]
  exact sbuf_update_keeps s idx _ SockbufT.ring rfl idx

theorem ring_writeRest (data : List UInt8) (nbytes : Nat) :
    ((writeRest s idx data nbytes).sbuf idx).ring = (s.sbuf idx).ring := by
  rw [writeRest]
  split
  · rfl
  · exact (sbuf_update_keeps _ idx _ SockbufT.ring rfl idx).trans (ring_block s idx)

theorem ring_countWrite (nbytes : Nat) :
    ((countWrite s idx nbytes).sbuf idx).ring =
      (s.sbuf idx).stats.map fun st => (statsOut st nbytes).ring := by
  rw [countWrite]
  split
  · exact ring_update_stats s idx _
  · obtain rfl : nbytes = 0 := by omega
    exact (ring_none _).2.symm

/-- The bytes of a write are added to the ring when the kernel accepts them. -/
theorem ring_sockbufRealWrite (k : Kernel) (data : List UInt8) :
    ((sockbufRealWrite k s idx data).st.sbuf idx).ring =
      (s.sbuf idx).stats.map fun st =>
        (statsOut st (accepted idx (sockbufRealWrite k s idx data).events).length).ring := by
  rw [sockbufRealWrite]
  split
  · exact (sbuf_update_keeps s idx _ SockbufT.ring rfl idx).trans (ring_none _).2.symm
  · split
    · split
      · exact (ring_writeRest s idx data 0).trans (ring_none _).2.symm
      · rw [accepted_failed, Outcome.log_st]
        exact (ring_sockbufGotEof s idx k _).trans (ring_none _).2.symm
    · next nbytes hok =>
      have hlen : (accepted idx [Event.wrote idx (data.take nbytes)]).length = nbytes := by
        have := (sysWrite_ok hok).2
        simp [accepted, Event.acceptedBytes]
        omega
      rw [hlen]
      exact (ring_writeRest _ idx data nbytes).trans (ring_countWrite s idx nbytes)

/-- What a write does to the ring. -/
theorem ring_sockbufWrite (k : Kernel) (data : List UInt8) (len : Int) :
    ((sockbufWrite k s idx data len).st.sbuf idx).ring =
      (s.sbuf idx).stats.map fun st =>
        (statsOut st (accepted idx (sockbufWrite k s idx data len).events).length).ring := by
  rw [sockbufWrite]
  split
  · dsimp only
    generalize writeArgument data len = d
    -- counting the submitted bytes is not about the ring
    have hcount : ∀ n, (((countSubmit s idx d.length).sbuf idx).stats.map fun st =>
        (statsOut st n).ring) = (s.sbuf idx).stats.map fun st => (statsOut st n).ring := fun n =>
      sbuf_update_keeps s idx _ (fun sb => sb.stats.map fun st => (statsOut st n).ring)
        (by rw [Option.map_map]; rfl) idx
    rw [Outcome.log_st, Outcome.log_events, accepted_append]
    show _ = (s.sbuf idx).stats.map fun st => (statsOut st (accepted idx _).length).ring
    rw [← hcount, sockbufOnWrite]
    split
    · exact (ring_none _).2.symm
    · exact ring_sockbufRealWrite _ idx k d
  · exact (ring_none _).2.symm

theorem ring_drainOutput (nbytes : Nat) :
    ((drainOutput s idx nbytes).sbuf idx).ring =
      (s.sbuf idx).stats.map fun st => (statsOut st nbytes).ring := by
  have hdrain : ((s.update idx fun sb => sb.drain nbytes).sbuf idx).ring =
      (s.sbuf idx).stats.map fun st => (statsOut st nbytes).ring := by
    rw [sbuf_update]
    split
    · rw [SockbufT.ring, SockbufT.drain, Option.map_map]
      rfl
    · next h =>
      rw [sbuf_of_le (Nat.le_of_not_lt fun hlt => h ⟨rfl, hlt⟩)]
      rfl
  rw [drainOutput]
  split
  · exact (ring_unblock _ idx).trans hdrain
  · exact (sbuf_update_keeps _ idx _ SockbufT.ring rfl idx).trans hdrain

/-- What the test for writing does to the ring. -/
theorem ring_sockbufGotWritable (k : Kernel) :
    ((sockbufGotWritable k s idx).st.sbuf idx).ring =
      (s.sbuf idx).stats.map fun st =>
        (statsOut st (accepted idx (sockbufGotWritable k s idx).events).length).ring := by
  rw [sockbufGotWritable]
  split
  · rw [accepted_failed, Outcome.log_st]
    exact (ring_sockbufGotEof s idx k _).trans (ring_none _).2.symm
  · next nbytes hok =>
    split
    · have hquiet := (quiet_elsewhere (mild_sockbufOnWritten (T := (· ≠ idx))
        (drainOutput s idx nbytes) idx sockbufLevelInternal nbytes
        ((drainOutput s idx nbytes).sbuf idx).len)).1
      have hlen : ((s.sbuf idx).buffered.take nbytes).length = nbytes := by
        have := (sysWrite_ok hok).2
        rw [List.length_take]
        omega
      rw [Outcome.log_events, accepted_append, hquiet, List.append_nil, Outcome.log_st,
        sockbufOnWritten_st, ring_drainOutput]
      simp [accepted, Event.acceptedBytes, hlen]
    · exact (ring_none _).2.symm

end Rings

/-! ## The invariant -/

/-- A valid sockbuf whose statistics hold the window of its history. -/
structure Tracks (idx : Nat) (c : Timed) : Prop where
  valid : sockbufIsvalid c.st idx = true
  window : ∃ st, (c.st.sbuf idx).stats = some st ∧ Window st c.history
  clock : lastQuery c.history ≤ c.now

namespace Tracks

variable {idx : Nat} {c c' : Timed}

/-- A function that adds the bytes of a transfer to the ring. -/
theorem transfer (h : Tracks idx c) {o : Outcome} (ho : Mild (fun _ => True) c.st o)
    {received sent : Nat}
    (hring : (o.st.sbuf idx).ring = (c.st.sbuf idx).stats.map fun st =>
      (statsOut (statsIn st received) sent).ring) :
    Tracks idx (c.transfer o.st received sent) := by
  obtain ⟨st, hst, hw⟩ := h.window
  refine ⟨(ho.isvalid idx).trans h.valid, ?_, h.clock⟩
  rw [hst] at hring
  obtain ⟨st', hst', heq⟩ := Option.map_eq_some_iff.1 hring
  exact ⟨st', hst', (hw.transfer c.now received sent).of_ring heq⟩

/-- A query keeps track of the history. -/
theorem getStats (h : Tracks idx c) {nsecs : Int} (hs : c.step idx (.getStats nsecs) = some c') :
    Tracks idx c' ∧ c'.now = c.now ∧ lastQuery c'.history = c.now := by
  obtain ⟨st, hst, hw⟩ := h.window
  obtain ⟨r, hr, rfl⟩ := Option.map_eq_some_iff.1 hs
  rw [sockbufGetStats, if_pos h.valid, hst] at hr
  obtain ⟨st', hst', rfl⟩ := Option.map_eq_some_iff.1 hr
  have hself := sbuf_update_self c.st idx (fun sb => { sb with stats := some st' })
    (sockbufIsvalid_iff.1 h.valid).1
  have hsame : SameTable c.st (c.st.update idx fun sb => { sb with stats := some st' }) :=
    .update c.st idx rfl rfl rfl
  refine ⟨⟨(hsame.isvalid idx).trans h.valid, ⟨st', ?_, hw.update h.clock hst'⟩, Int.le_refl _⟩,
    rfl, rfl⟩
  show ((c.st.update idx fun sb => { sb with stats := some st' }).sbuf idx).stats = _
  rw [hself]

/-- **One use** keeps track of the history. -/
theorem step (h : Tracks idx c) {u : Use} (hs : c.step idx u = some c') : Tracks idx c' := by
  cases u with
  | readable k =>
    cases hs
    refine h.transfer (mild_sockbufGotReadable c.st idx k) ((ring_sockbufGotReadable c.st idx k).trans ?_)
    exact congrArg (Option.map · _) (funext fun st => (ring_transfer_zero (statsIn st _)).2.symm)
  | write k data len =>
    cases hs
    refine h.transfer (mild_sockbufWrite c.st idx trivial k data len)
      ((ring_sockbufWrite c.st idx k data len).trans ?_)
    exact congrArg (Option.map · _) (funext fun st => ring_statsOut_statsIn_zero st _)
  | writable k =>
    cases hs
    refine h.transfer (mild_sockbufGotWritable c.st idx trivial k)
      ((ring_sockbufGotWritable c.st idx k).trans ?_)
    exact congrArg (Option.map · _) (funext fun st => ring_statsOut_statsIn_zero st _)
  | getStats nsecs => exact (h.getStats hs).1
  | tick n =>
    cases hs
    exact ⟨h.valid, h.window, Int.le_trans h.clock (by show c.now ≤ c.now + n; omega)⟩

end Tracks

/-! ## Snapshots -/

/-- `INT_MAX`. -/
def intMax : Int := 2147483647

/-- Each slot behind the current one holds what was transferred in its second. -/
def SnapshotsRight (idx : Nat) (c : Timed) : Prop :=
  ∃ st, (c.st.sbuf idx).stats = some st ∧ ∀ (d : Direction) (k : Nat), 1 ≤ k → k ≤ 4 →
    st.slot d k = some (transferred d (c.now - k) c.history : Int)

/-- A slot overflows an `int` only when more was transferred in a single second. -/
def SlotsFit (idx : Nat) (c : Timed) : Prop :=
  ∀ st, (c.st.sbuf idx).stats = some st → ∀ (d : Direction), ∀ x ∈ d.slots st, intMax < x →
    ∃ u, intMax < transferred d u c.history

/-- The slots hold what was recorded in the last five seconds. -/
theorem Window.mem_slots {st : SockbufStats} {h : List Entry} (hw : Window st h) (d : Direction)
    (x : Int) : x ∈ d.slots st ↔ ∃ j < 5, x = (recorded d (lastQuery h - (j : Nat)) h : Int) := by
  rw [mem_iff_behind (by rw [hw.length]; exact hw.counter), hw.length]
  constructor
  · rintro ⟨j, hj, hx⟩
    exact ⟨j, hj, (Option.some.inj ((hw.slots d j hj).symm.trans hx)).symm⟩
  · rintro ⟨j, hj, rfl⟩
    exact ⟨j, hj, hw.slots d j hj⟩

/-- **A slot holds what was recorded behind the queries of its second.** In every state of a run that
starts with fresh statistics a slot overflows only with a second of too many bytes exactly when this is
so of what is recorded for the last five seconds. Right after a query the slots are right exactly when,
for each of the four seconds before it, what was recorded behind the queries of that second is what was
transferred in it. -/
theorem snapshots_iff {idx : Nat} {s : State} (hv : sockbufIsvalid s idx = true)
    (hst : (s.sbuf idx).stats = some {}) {start : Int} (hstart : 0 ≤ start) {c : Timed}
    (h : Run (Timed.step idx) (fun _ _ => True) ⟨s, start, []⟩ c) :
    (SlotsFit idx c ↔ ∀ (d : Direction) (j : Nat), j ≤ 4 →
      intMax < recorded d (lastQuery c.history - j) c.history →
        ∃ u, intMax < transferred d u c.history) ∧
    ∀ nsecs c', c.step idx (.getStats nsecs) = some c' →
      (SnapshotsRight idx c' ↔ ∀ (d : Direction) (k : Nat), 1 ≤ k → k ≤ 4 →
        recorded d (c'.now - k) c'.history = transferred d (c'.now - k) c'.history) := by
  have htracks : Tracks idx c := by
    refine h.invariant (I := Tracks idx) (fun _ _ _ hc _ hs => hc.step hs) ⟨hv, ⟨{}, hst, window_init⟩, ?_⟩
    exact hstart
  constructor
  · obtain ⟨st, hst, hw⟩ := htracks.window
    constructor
    · intro hfit d j hj hmax
      exact hfit st hst d _ ((hw.mem_slots d _).2 ⟨j, by omega, rfl⟩) hmax
    · intro hrec st' hst' d x hx hmax
      obtain rfl : st = st' := Option.some.inj (hst.symm.trans hst')
      obtain ⟨j, hj, rfl⟩ := (hw.mem_slots d x).1 hx
      exact hrec d j (by omega) hmax
  · intro nsecs c' hc'
    obtain ⟨htracks', hnow, hlast⟩ := htracks.getStats hc'
    obtain ⟨st, hst, hw⟩ := htracks'.window
    have hslot : ∀ (d : Direction) (k : Nat), k ≤ 4 →
        st.slot d k = some (recorded d (c'.now - k) c'.history : Int) := fun d k hk => by
      rw [hw.slots d k (by omega), hlast, hnow]
    constructor
    · rintro ⟨st', hst', hright⟩ d k hk hk'
      obtain rfl : st = st' := Option.some.inj (hst.symm.trans hst')
      have heq := (hslot d k hk').symm.trans (hright d k hk hk')
      exact Int.ofNat_inj.1 (Option.some.inj heq)
    · intro hrec
      exact ⟨st, hst, fun d k hk hk' => by rw [hslot d k hk', hrec d k hk hk']⟩

/-- A sockbuf with a socket. -/
def openSockbuf : State := sockbufSetSock {} (sockbufNew {}).1 0 5 {}

/-- A query at the start of the second in which something is written. -/
def queriedUses : List Use :=
  [.getStats 1, .write { write := .ok 3 } [104, 105, 10] 3, .tick 1]

/-- Bytes written in the second of a query. -/
theorem snapshots_queried :
    ∃ c c', execute (Timed.step 0) (fun _ _ => True) ⟨openSockbuf, 100, []⟩ queriedUses = some c ∧
      c.step 0 (.getStats 1) = some c' ∧ transferred .output 100 c'.history = 3 ∧
      SnapshotsRight 0 c' := by
  refine ⟨_, _, rfl, rfl, rfl, ?_⟩
  refine ((snapshots_iff (s := openSockbuf) rfl rfl (by decide)
    (run_of_execute queriedUses rfl)).2 1 _ rfl).2 fun d k hk hk' => ?_
  have hagree : ∀ k : Nat, k < 5 → ∀ d ∈ [Direction.input, .output],
      recorded d (101 - (k : Int)) [.query 101, .transfer 100 0 3, .query 100] =
        transferred d (101 - (k : Int)) [.query 101, .transfer 100 0 3, .query 100] := by
    decide
  exact hagree k (by omega) d (by cases d <;> simp)

/-- Bytes that are read in the second 100 and before the first query: at 101 their slot is empty. -/
theorem early_bytes_lost :
    ∃ c c', execute (Timed.step 0) (fun _ _ => True) ⟨openSockbuf, 100, []⟩
        [.readable { read := .ok [104, 105, 10] }, .tick 1] = some c ∧
      c.step 0 (.getStats 1) = some c' ∧ transferred .input 100 c'.history = 3 ∧
      ¬ SnapshotsRight 0 c' := by
  refine ⟨_, _, rfl, rfl, rfl, ?_⟩
  rintro ⟨st, hst, hright⟩
  cases hst
  exact absurd (hright .input 1 (by decide) (by decide)) (by decide)

end ExamplePrograms.Onethread.Sockbuf
