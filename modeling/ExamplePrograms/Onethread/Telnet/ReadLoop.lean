import ExamplePrograms.Onethread.Telnet.Segmentation
import ExamplePrograms.Onethread.Telnet.WriteLoop

/-!
# The rounds of `telnet_filter_read`

Between two rounds the buffer is `front`, which the search has passed, the rest of the data, its
terminator, and what was left behind there. A round whose search meets a command takes `gap` out of the
rest (`readRound_removal`): the bytes behind it come down with the terminator, and `leftover` is what
they did not overwrite.
-/

set_option autoImplicit false

namespace ExamplePrograms.Onethread.Telnet

open ExamplePrograms.Lib.Loops ExamplePrograms.Lib.Memory

/-- The state with `front` before the pointer and `rest` from it on. -/
def loopState (front rest stale : List UInt8) (session : TelnetT) (out : List Output) : ReadState where
  buf := front ++ (rest ++ 0 :: stale)
  cmd := front.length
  len := (front.length + rest.length : Nat)
  session := session
  out := out

/-- What stands behind the terminator when `left` has come down over `gap`. -/
def leftover (gap left stale : List UInt8) : List UInt8 :=
  (gap ++ (left ++ 0 :: stale)).drop (left.length + 1)

section

variable {front pre before gap left stale : List UInt8} {session session' : TelnetT}
  {out out' : List Output}

/-- `memchr` finds the first of the characters. -/
theorem memchr_found {pre tail : List UInt8} {c : UInt8} {len : Nat} (hpre : c ∉ pre)
    (hlen : pre.length < len) (front : List UInt8) :
    memchr (front ++ (pre ++ c :: tail)) front.length c len = some (some (front.length + pre.length)) := by
  obtain ⟨n, rfl⟩ : ∃ n, len = pre.length + (n + 1) := ⟨len - pre.length - 1, by omega⟩
  have hw : window (front ++ (pre ++ c :: tail)) front.length (pre.length + (n + 1) : Nat) =
      pre ++ c :: tail.take n := by
    rw [window, if_neg (by omega), Int.toNat_natCast, List.drop_left, List.take_length_add_append,
      List.take_succ_cons]
  rw [memchr, hw, if_pos (List.mem_append_right _ List.mem_cons_self),
    List.idxOf_append_of_notMem hpre, List.idxOf_cons_self, Nat.add_zero]

/-- The `memmove` takes `gap` out and brings the terminator down. -/
theorem removeCommand_gap (cmd : Nat) :
    ReadState.removeCommand
        ⟨front ++ (gap ++ (left ++ 0 :: stale)), cmd, (front.length + (gap.length + left.length) : Nat),
          session, out⟩ ⟨front.length, gap.length, session', out'⟩ =
      .again (loopState front left (leftover gap left stale) session' (out ++ out')) := by
  have hn : ((front.length + (gap.length + left.length) : Nat) : Int) - front.length - gap.length + 1 =
      (left.length + 1 : Nat) := by omega
  have hlen : ((front.length + (gap.length + left.length) : Nat) : Int) - gap.length =
      (front.length + left.length : Nat) := by omega
  have hmove : memmove (front ++ (gap ++ (left ++ 0 :: stale))) front.length
      (front.length + gap.length) (left.length + 1) =
        front ++ (left ++ 0 :: leftover gap left stale) := by
    have hdown := memmove_down front gap (left ++ [0]) stale
    rw [List.length_append, List.length_singleton, List.append_assoc, List.singleton_append,
      List.append_assoc, List.singleton_append] at hdown
    exact hdown
  simp only [ReadState.removeCommand, hn, hlen, Int.toNat_natCast, hmove]
  rw [if_neg]
  · rfl
  · simp only [List.length_append, List.length_cons]
    omega

/-- A round takes out `gap` when the `switch` says so for the first command byte. -/
theorem readRound_removal {tail : List UInt8} (hpre : telnetCmd ∉ pre)
    (hcmd : before ++ (gap ++ left) = telnetCmd :: tail)
    (hswitch : ∀ buf, buf = front ++ (pre ++ (before ++ (gap ++ left)) ++ 0 :: stale) →
      buf[front.length + pre.length + 1]?.bind (telnetSwitch buf (front.length + pre.length) session) =
        some ⟨front.length + pre.length + before.length, gap.length, session', out'⟩) :
    readRound (loopState front (pre ++ (before ++ (gap ++ left))) stale session out) =
      .again (loopState (front ++ (pre ++ before)) left (leftover gap left stale) session'
        (out ++ out')) := by
  have hfound : memchr (front ++ (pre ++ (before ++ (gap ++ left)) ++ 0 :: stale)) front.length telnetCmd
      (front.length + (pre ++ (before ++ (gap ++ left))).length : Nat) =
        some (some (front.length + pre.length)) := by
    rw [hcmd, List.append_assoc, List.cons_append]
    apply memchr_found hpre
    rw [List.length_append, List.length_cons]
    omega
  have hbuf : front ++ (pre ++ (before ++ (gap ++ left)) ++ 0 :: stale) =
      front ++ (pre ++ before) ++ (gap ++ (left ++ 0 :: stale)) := by
    simp only [List.append_assoc]
  have hpos : front.length + pre.length + before.length = (front ++ (pre ++ before)).length := by
    rw [List.length_append, List.length_append, Nat.add_assoc]
  have hlen : front.length + (pre ++ (before ++ (gap ++ left))).length =
      (front ++ (pre ++ before)).length + (gap.length + left.length) := by
    simp only [List.length_append]
    omega
  simp only [readRound, loopState, hfound, hswitch _ rfl]
  rw [hbuf, hpos, hlen]
  exact removeCommand_gap front.length

/-- The length of what is left over. -/
theorem length_leftover (gap left stale : List UInt8) :
    (leftover gap left stale).length = gap.length + stale.length := by
  simp only [leftover, List.length_append, List.length_drop, List.length_cons]
  omega

/-- The state in which the loop starts. -/
theorem Chunk.loopState_eq (c : Chunk) (session : TelnetT) :
    (⟨c.buf, 0, c.data.length, session, []⟩ : ReadState) =
      loopState [] c.data c.behind session [] := by
  rw [loopState, List.length_nil, Nat.zero_add]
  rfl

/-! ## Behind the loop -/

/-- What is passed on, if anything is. -/
theorem received_passOn {buf : List UInt8} {cmd n : Nat} {r : TelnetT × List Output}
    (h : passOn ⟨buf, cmd, n, session, out⟩ = some r) :
    r.1 = session ∧ received r.2 = received out ++ buf.take n := by
  have hread : [Output.onRead (buf.take n)].flatMap Output.received = buf.take n := List.append_nil _
  rw [passOn] at h
  split at h
  · next hzero =>
    cases h
    have hn : n = 0 := Int.ofNat.inj hzero
    rw [hn, List.take_zero, List.append_nil]
    exact ⟨rfl, rfl⟩
  · split at h
    · obtain ⟨line, -, rfl⟩ := Option.map_eq_some_iff.1 h
      refine ⟨rfl, ?_⟩
      have hecho : received (if line = [] then [] else [.onWrite line]) = [] := by split <;> rfl
      simp only [received, List.flatMap_append] at hecho ⊢
      rw [hecho, List.append_nil, Int.toNat_natCast, hread]
    · cases h
      refine ⟨rfl, ?_⟩
      simp only [received, List.flatMap_append]
      rw [Int.toNat_natCast, hread]

/-- Something is passed on when the echo ends. -/
theorem passOn_isSome_iff {buf : List UInt8} {n : Nat} (hn : n ≤ buf.length) (cmd : Nat) :
    (passOn ⟨buf, cmd, n, session, out⟩).isSome ↔
      (session.echoes = true → NulsBehindCr (buf.take n)) := by
  by_cases hzero : n = 0
  · subst hzero
    refine iff_of_true rfl ?_
    intro _ i hnul
    cases hnul
  have hlen : (n : Int) ≠ 0 := by omega
  cases hecho : session.echoes with
  | true =>
    rw [passOn_echo hzero hecho, Option.isSome_map, telnetFilterWrite_isSome_iff hn]
    exact ⟨fun h _ => h, fun h => h rfl⟩
  | false =>
    rw [passOn, if_neg hlen]
    simp only [hecho, Bool.false_eq_true, if_false]
    exact iff_of_true rfl fun h => h.elim

end

end ExamplePrograms.Onethread.Telnet
