import ExamplePrograms.Onethread.Telnet.Commands

/-!
# Where `telnet_filter_read` reads

The search for the next command byte starts at the last one, but its length is not lowered by the bytes
it has passed. So it reads beyond the terminator as soon as two bytes have been kept before a command,
and a command that is cut at the end of the data is removed with bytes that are not there.
`bufferDiscipline_iff` says for which chunks the loop keeps to its data.
-/

set_option autoImplicit false

namespace ExamplePrograms.Onethread.Telnet

open ExamplePrograms.Lib.Loops ExamplePrograms.Lib.Memory

/-- The offsets that a round reads: those of the search up to the first command byte, the byte behind
it, and the option of `TELNET_DO` and `TELNET_DONT`. -/
inductive ReadReads (s : ReadState) : Nat → Prop
  | search {i : Nat} (hfrom : s.cmd ≤ i) (hto : (i : Int) < s.cmd + s.len)
      (hnone : telnetCmd ∉ (s.buf.drop s.cmd).take (i - s.cmd)) : ReadReads s i
  | type {cmd : Nat} (hcmd : memchr s.buf s.cmd telnetCmd s.len = some (some cmd)) :
      ReadReads s (cmd + 1)
  | arg {cmd : Nat} {type : UInt8} (hcmd : memchr s.buf s.cmd telnetCmd s.len = some (some cmd))
      (htype : s.buf[cmd + 1]? = some type) (h : type = telnetDo ∨ type = telnetDont) :
      ReadReads s (cmd + 2)

/-- A round keeps to the data and its terminator, and moves no negative number of bytes. -/
structure InBounds (s : ReadState) : Prop where
  len : 0 ≤ s.len
  reads : ∀ i : Nat, ReadReads s i → (i : Int) ≤ s.len
  move : ∀ cmd type c, memchr s.buf s.cmd telnetCmd s.len = some (some cmd) →
    s.buf[cmd + 1]? = some type → telnetSwitch s.buf cmd s.session type = some c →
      0 ≤ s.len - c.cmd - c.remove + 1

/-- All rounds are in bounds, and the loop ends with `left` as its `len`. -/
def AllInBounds (left : Nat) (s : ReadState) : Prop :=
  ∀ r, Visits readRound s r → InBounds r ∧ ∀ r', readRound r = .exit r' → r'.len = left

/-- The loop on a chunk: `decode` says which bytes are really left. -/
def BufferDiscipline (c : Chunk) (session : TelnetT) : Prop :=
  AllInBounds (decode c.data).length ⟨c.buf, 0, c.data.length, session, []⟩

/-- At most one byte is kept before every command and none before a doubled command byte, and the data does
not end inside a command. `k` is the number of the bytes kept so far. -/
def Sparse : Nat → List UInt8 → Prop
  | _, [] => True
  | k, c :: rest =>
      if c = telnetCmd then
        match rest with
        | [] => False
        | type :: tail =>
            if type = telnetCmd then k = 0 ∧ Sparse (k + 1) tail
            else if type = telnetAyt then k ≤ 1 ∧ Sparse (k + 1) tail
            else if takesOption type then
              match tail with
              | [] => False
              | _ :: after => k ≤ 1 ∧ Sparse k after
            else k ≤ 1 ∧ Sparse k tail
      else Sparse (k + 1) rest

/-- Ordinary bytes only add to what is kept. -/
theorem sparse_append {pre : List UInt8} (h : telnetCmd ∉ pre) (k : Nat) (rest : List UInt8) :
    Sparse k (pre ++ rest) ↔ Sparse (k + pre.length) rest := by
  induction pre generalizing k with
  | nil => exact Iff.rfl
  | cons c pre ih =>
    have hc : c ≠ telnetCmd := fun hc => h (hc ▸ List.mem_cons_self)
    rw [List.cons_append, Sparse.eq_def]
    simp only [if_neg hc]
    rw [ih fun hpre => h (List.mem_cons_of_mem c hpre), List.length_cons]
    exact iff_of_eq (congrArg (Sparse · rest) (by omega))

/-- A chunk without the command byte is sparse. -/
theorem sparse_of_not_mem {l : List UInt8} (h : telnetCmd ∉ l) (k : Nat) : Sparse k l := by
  rw [← List.append_nil l, sparse_append h]
  exact trivial

/-- The condition at a command byte. -/
theorem sparse_command (k : Nat) (type : UInt8) (tail : List UInt8) :
    Sparse k (telnetCmd :: type :: tail) ↔
      if type = telnetCmd then k = 0 ∧ Sparse (k + 1) tail
      else if type = telnetAyt then k ≤ 1 ∧ Sparse (k + 1) tail
      else if takesOption type then
        match tail with
        | [] => False
        | _ :: after => k ≤ 1 ∧ Sparse k after
      else k ≤ 1 ∧ Sparse k tail := by
  rw [Sparse.eq_def]
  simp only [if_true]

section

variable {before gap left : List UInt8}

/-- The condition at a command that is taken. -/
theorem Takes.sparse (h : Takes before gap left) (k : Nat) :
    Sparse k (before ++ (gap ++ left)) ↔ k + before.length ≤ 1 ∧ Sparse (k + before.length) left := by
  cases h with
  | ayt tail =>
    show Sparse k (telnetCmd :: telnetAyt :: tail) ↔ k ≤ 1 ∧ Sparse k ([telnetAyt] ++ tail)
    have hne : telnetCmd ∉ [telnetAyt] := by decide
    have hayt : telnetAyt ≠ telnetCmd := by decide
    rw [sparse_command, if_neg hayt, if_pos rfl, sparse_append hne]
    exact Iff.rfl
  | literal =>
    show Sparse k (telnetCmd :: telnetCmd :: left) ↔ k + 1 ≤ 1 ∧ Sparse (k + 1) left
    have hk : k + 1 ≤ 1 ↔ k = 0 := by omega
    rw [sparse_command, if_pos rfl, hk]
  | @option type hopt arg =>
    obtain ⟨hcmd, hayt⟩ := takesOption_ne hopt
    show Sparse k (telnetCmd :: type :: arg :: left) ↔ k ≤ 1 ∧ Sparse k left
    rw [sparse_command, if_neg hcmd, if_neg hayt, if_pos hopt]
  | @other type hayt hcmd hopt =>
    show Sparse k (telnetCmd :: type :: left) ↔ k ≤ 1 ∧ Sparse k left
    rw [sparse_command, if_neg hcmd, if_neg hayt, if_neg (by rw [hopt]; exact Bool.false_ne_true)]

/-- A chunk that ends inside a command is not sparse. -/
theorem Cut.not_sparse {l : List UInt8} (h : Cut l) (k : Nat) : ¬ Sparse k l := by
  cases h with
  | cmd => exact not_false
  | @option type hopt =>
    obtain ⟨hcmd, hayt⟩ := takesOption_ne hopt
    rw [sparse_command, if_neg hcmd, if_neg hayt, if_pos hopt]
    exact not_false

/-- Nothing of a command that is cut is left. -/
theorem Cut.decode {l : List UInt8} (h : Cut l) : Telnet.decode l = [] := by
  cases h with
  | cmd => rfl
  | @option type hopt =>
    obtain ⟨hcmd, hayt⟩ := takesOption_ne hopt
    rw [decode_telnetCmd, if_neg hcmd, if_neg hayt, if_pos hopt]
    rfl

/-! ## One round -/

variable {front pre rest stale : List UInt8} {session : TelnetT} {out : List Output}

/-- `memchr` finds the next command byte. -/
theorem memchr_loopState {tail : List UInt8} (hpre : telnetCmd ∉ pre) :
    memchr (loopState front (pre ++ telnetCmd :: tail) stale session out).buf
        (loopState front (pre ++ telnetCmd :: tail) stale session out).cmd telnetCmd
        (loopState front (pre ++ telnetCmd :: tail) stale session out).len =
      some (some (front.length + pre.length)) := by
  rw [loopState, List.append_assoc, List.cons_append]
  apply memchr_found hpre
  rw [List.length_append, List.length_cons]
  omega

/-- A round with a command in the data reads up to the byte behind it, or to its option. -/
theorem inBounds_of_command {tail : List UInt8} (hpre : telnetCmd ∉ pre)
    (hmove : ∀ type c,
      (loopState front (pre ++ telnetCmd :: tail) stale session out).buf[front.length + pre.length + 1]? =
        some type →
      telnetSwitch (loopState front (pre ++ telnetCmd :: tail) stale session out).buf
        (front.length + pre.length) session type = some c →
      (c.cmd + c.remove : Int) ≤ front.length + pre.length + tail.length + 2) :
    InBounds (loopState front (pre ++ telnetCmd :: tail) stale session out) := by
  have hlen : (loopState front (pre ++ telnetCmd :: tail) stale session out).len =
      front.length + pre.length + tail.length + 1 := by
    simp only [loopState, List.length_append, List.length_cons]
    omega
  have htype : (loopState front (pre ++ telnetCmd :: tail) stale session out).buf[front.length +
      pre.length + 1]? = (tail ++ 0 :: stale)[0]? := by
    rw [loopState, List.append_assoc, Nat.add_assoc, List.getElem?_append_right (Nat.le_add_right _ _),
      Nat.add_sub_cancel_left, List.getElem?_append_right (Nat.le_add_right _ _), Nat.add_sub_cancel_left]
    rfl
  have hcmd : (loopState front (pre ++ telnetCmd :: tail) stale session out).cmd = front.length := rfl
  refine ⟨?_, ?_, ?_⟩
  · rw [hlen]
    omega
  · intro i hi
    rw [hlen]
    cases hi with
    | search hfrom hto hnone =>
      -- the search stops at the command byte
      by_contra hbeyond
      obtain ⟨m, hm⟩ : ∃ m, i - front.length = pre.length + (m + 1) :=
        ⟨i - front.length - pre.length - 1, by omega⟩
      apply hnone
      rw [hcmd, hm, loopState, List.drop_left, List.append_assoc, List.take_length_add_append,
        List.cons_append, List.take_succ_cons]
      exact List.mem_append_right _ List.mem_cons_self
    | type h =>
      rw [memchr_loopState hpre] at h
      cases h
      omega
    | arg h htype' hopt =>
      rw [memchr_loopState hpre] at h
      cases h
      rw [htype] at htype'
      cases tail with
      | nil =>
        -- the terminator is no option command
        cases htype'
        exact absurd hopt (by decide)
      | cons type tail =>
        rw [List.length_cons]
        omega
  · intro cmd type c h htype' hswitch
    rw [memchr_loopState hpre] at h
    cases h
    have hle := hmove type c htype' hswitch
    rw [hlen]
    omega

/-- The last `memchr` runs at most one byte past the data. -/
theorem memchr_rest (hrest : telnetCmd ∉ rest) (hfront : front.length ≤ 1) (stale : List UInt8) :
    memchr (front ++ (rest ++ 0 :: stale)) front.length telnetCmd (front.length + rest.length : Nat) =
      some none := by
  apply memchr_none
  · simp only [List.length_append, List.length_cons]
    omega
  · rw [List.drop_left, List.append_cons]
    intro hmem
    have hle : front.length + rest.length ≤ (rest ++ [0]).length := by
      rw [List.length_append, List.length_singleton]
      omega
    rw [List.take_append_of_le_length hle] at hmem
    rcases List.mem_append.1 (List.mem_of_mem_take hmem) with hmem | hmem
    · exact hrest hmem
    · exact absurd (List.mem_singleton.1 hmem) (by decide)

/-- A search that starts behind two kept bytes and meets no command reads beyond the terminator. -/
theorem inBounds_of_not_mem (hrest : telnetCmd ∉ rest) :
    InBounds (loopState front rest stale session out) ↔ front.length ≤ 1 := by
  have hlen : (loopState front rest stale session out).len = front.length + rest.length := rfl
  have hcmd : (loopState front rest stale session out).cmd = front.length := rfl
  constructor
  · intro h
    by_contra htwo
    have hread : ReadReads (loopState front rest stale session out) (front.length + rest.length + 1) := by
      refine .search ?_ ?_ ?_
      · rw [hcmd]
        omega
      · rw [hcmd, hlen]
        omega
      · have hm : front.length + rest.length + 1 - front.length = (rest ++ [0]).length := by
          rw [List.length_append, List.length_singleton]
          omega
        rw [hcmd, hm, loopState, List.drop_left, List.append_cons rest 0 stale, List.take_left, List.mem_append]
        rintro (hmem | hmem)
        · exact hrest hmem
        · exact absurd (List.mem_singleton.1 hmem) (by decide)
    have hle := h.reads _ hread
    rw [hlen] at hle
    omega
  · intro hone
    have hnone := memchr_rest hrest hone stale
    refine ⟨?_, ?_, ?_⟩
    · rw [hlen]
      omega
    · intro i hi
      cases hi with
      | search hfrom hto _ =>
        rw [hcmd, hlen] at hto
        rw [hlen]
        omega
      | type h =>
        rw [loopState, hnone] at h
        cases h
      | arg h _ _ =>
        rw [loopState, hnone] at h
        cases h
    · intro cmd type c h _ _
      rw [loopState, hnone] at h
      cases h

/-- The terminator is taken for the missing byte of a command. -/
theorem Cut.switch {cut : List UInt8} (h : Cut cut) {buf : List UInt8} {pos : Nat}
    (hbuf : ∃ rest, buf.drop pos = cut ++ 0 :: rest) (session : TelnetT) :
    ∃ session' out, buf[pos + 1]?.bind (telnetSwitch buf pos session) =
      some ⟨pos, cut.length + 1, session', out⟩ := by
  obtain ⟨rest, hdrop⟩ := hbuf
  have hget : ∀ i : Nat, buf[pos + i]? = (cut ++ 0 :: rest)[i]? := by
    intro i
    rw [← hdrop, List.getElem?_drop]
  have htype := hget 1
  have harg := hget 2
  cases h with
  | cmd =>
    refine ⟨session, [], ?_⟩
    rw [htype]
    exact telnetSwitch_other (by decide) (by decide) (by decide) buf pos session
  | @option type hopt =>
    refine ⟨optionSession session type 0, optionAnswers session type 0, ?_⟩
    rw [htype]
    exact telnetSwitch_option hopt harg session

/-- Where the data ends inside a command the loop goes on with one byte less than it has kept. -/
theorem Cut.round {tail : List UInt8} (h : Cut (telnetCmd :: tail)) (hpre : telnetCmd ∉ pre)
    (front stale : List UInt8) (session : TelnetT) (out : List Output) :
    InBounds (loopState front (pre ++ telnetCmd :: tail) stale session out) ∧
    ∃ session' out', readRound (loopState front (pre ++ telnetCmd :: tail) stale session out) =
      .again ⟨front ++ pre ++ telnetCmd :: (tail ++ 0 :: stale), (front ++ pre).length,
        ((front ++ pre).length : Int) - 1, session', out'⟩ := by
  have hbuf : (loopState front (pre ++ telnetCmd :: tail) stale session out).buf =
      front ++ pre ++ (telnetCmd :: tail ++ 0 :: stale) := by
    simp only [loopState, List.append_assoc]
  have hpos : (front ++ pre).length = front.length + pre.length := List.length_append
  have hdrop : ∃ rest, (loopState front (pre ++ telnetCmd :: tail) stale session out).buf.drop
      (front.length + pre.length) = telnetCmd :: tail ++ 0 :: rest := by
    refine ⟨stale, ?_⟩
    rw [hbuf, ← hpos, List.drop_left]
  obtain ⟨session', out', hswitch⟩ := h.switch hdrop session
  constructor
  · apply inBounds_of_command hpre
    intro type c htype hc
    rw [htype, Option.bind_some, hc] at hswitch
    cases hswitch
    simp only [List.length_cons]
    omega
  · refine ⟨session', out ++ out', ?_⟩
    have hn : (loopState front (pre ++ telnetCmd :: tail) stale session out).len -
        (front.length + pre.length : Nat) - ((telnetCmd :: tail).length + 1 : Nat) + 1 = 0 := by
      simp only [loopState, List.length_append, List.length_cons]
      omega
    have hroom : ¬((0 : Int) < 0 ∨ ((loopState front (pre ++ telnetCmd :: tail) stale session out).buf.length :
        Int) < (front.length + pre.length : Nat) + ((telnetCmd :: tail).length + 1 : Nat) + 0) := by
      simp only [loopState, List.length_append, List.length_cons]
      omega
    have hlen : (loopState front (pre ++ telnetCmd :: tail) stale session out).len -
        ((telnetCmd :: tail).length + 1 : Nat) = ((front ++ pre).length : Int) - 1 := by
      simp only [loopState, List.length_append, List.length_cons]
      omega
    have hsame : memmove (loopState front (pre ++ telnetCmd :: tail) stale session out).buf
        (front.length + pre.length) (front.length + pre.length + ((telnetCmd :: tail).length + 1)) 0 =
          front ++ pre ++ telnetCmd :: (tail ++ 0 :: stale) := by
      rw [memmove, List.take_zero, List.append_nil, Nat.add_zero, List.take_append_drop, hbuf,
        List.cons_append]
    have hsession : (loopState front (pre ++ telnetCmd :: tail) stale session out).session = session := rfl
    simp only [readRound, memchr_loopState hpre, hsession, hswitch, ReadState.removeCommand, hn,
      if_neg hroom, hlen, Int.toNat_zero, hsame, hpos]
    rfl

/-- Behind a cut command the loop has lost a byte: with none kept its `len` is negative, with one the last
`len` is too small by this byte, and with more the search starts beyond the terminator. -/
theorem not_allInBounds_cut {tail : List UInt8} :
    ¬ AllInBounds front.length
      ⟨front ++ telnetCmd :: tail, front.length, (front.length : Int) - 1, session, out⟩ := by
  intro h
  obtain ⟨hbounds, hexit⟩ := h _ (.start _)
  have hlen : 0 ≤ (front.length : Int) - 1 := hbounds.len
  by_cases hone : front.length = 1
  · have hnone : memchr (front ++ telnetCmd :: tail) front.length telnetCmd ((front.length : Int) - 1) =
        some none := by
      have hzero : (front.length : Int) - 1 = (0 : Nat) := by omega
      rw [hzero]
      apply memchr_none
      · rw [List.length_append]
        exact Nat.le_add_right _ _
      · exact List.not_mem_nil
    have hleft : (front.length : Int) - 1 = front.length := by
      apply hexit ⟨front ++ telnetCmd :: tail, front.length, (front.length : Int) - 1, session, out⟩
      simp only [readRound, hnone]
    omega
  · have hread : ReadReads ⟨front ++ telnetCmd :: tail, front.length, (front.length : Int) - 1, session,
        out⟩ front.length := by
      refine .search (Nat.le_refl _) ?_ ?_
      · show (front.length : Int) < front.length + (front.length - 1)
        omega
      · rw [Nat.sub_self, List.take_zero]
        exact List.not_mem_nil
    have hle : (front.length : Int) ≤ front.length - 1 := hbounds.reads _ hread
    omega

/-- A round that takes a command out is in bounds. -/
theorem Takes.inBounds {tail : List UInt8} (h : Takes before gap left)
    (hparts : telnetCmd :: tail = before ++ (gap ++ left)) (hpre : telnetCmd ∉ pre) :
    InBounds (loopState front (pre ++ telnetCmd :: tail) stale session out) := by
  have hlen := congrArg List.length hparts
  simp only [List.length_append, List.length_cons] at hlen
  have hdrop : ∃ rest, (loopState front (pre ++ telnetCmd :: tail) stale session out).buf.drop
      (front.length + pre.length) = before ++ (gap ++ left) ++ 0 :: rest := by
    refine ⟨stale, ?_⟩
    rw [loopState, ← List.drop_drop, List.drop_left, List.append_assoc, List.drop_left, hparts]
  have hswitch := h.switch hdrop session
  apply inBounds_of_command hpre
  intro type c htype hc
  rw [htype, Option.bind_some, hc] at hswitch
  cases hswitch
  show ((front.length + pre.length + before.length : Nat) : Int) + gap.length ≤ _
  omega

/-! ## The whole loop -/

/-- A round that goes on hands nothing over. -/
theorem allInBounds_again {n : Nat} {s s' : ReadState} (h : readRound s = .again s') (hs : InBounds s) :
    AllInBounds n s ↔ AllInBounds n s' := by
  rw [AllInBounds, forall_visits_again h]
  apply and_iff_right
  refine ⟨hs, ?_⟩
  intro r' hr
  rw [h] at hr
  cases hr

/-- The round of a chunk that has no command left. -/
theorem allInBounds_of_not_mem (hrest : telnetCmd ∉ rest) :
    AllInBounds (front.length + rest.length) (loopState front rest stale session out) ↔
      front.length ≤ 1 := by
  constructor
  · exact fun h => (inBounds_of_not_mem hrest).1 (h _ (.start _)).1
  · intro hfront
    have hexit : readRound (loopState front rest stale session out) =
        .exit (loopState front rest stale session out) := by
      simp only [readRound, loopState, memchr_rest hrest hfront]
    refine (forall_visits_last fun s' h => ?_).2 ⟨(inBounds_of_not_mem hrest).2 hfront, ?_⟩
    · rw [hexit] at h
      cases h
    · intro r' hr
      rw [hexit] at hr
      cases hr
      rfl

/-- The loop keeps to its data when it has kept at most one byte so far and the rest is sparse. -/
theorem allInBounds_iff (front rest stale : List UInt8) (session : TelnetT) (out : List Output) :
    AllInBounds (front.length + (decode rest).length) (loopState front rest stale session out) ↔
      front.length ≤ 1 ∧ Sparse front.length rest := by
  induction hn : rest.length using Nat.strongRecOn generalizing front rest stale session out with
  | ind n ih =>
    by_cases hmem : telnetCmd ∈ rest
    · obtain ⟨pre, tail, rfl, hpre⟩ := List.eq_append_cons_of_mem hmem
      rcases takes_or_cut tail with ⟨before, gap, left, hparts, htakes⟩ | hcut
      · have hbounds : InBounds (loopState front (pre ++ telnetCmd :: tail) stale session out) :=
          htakes.inBounds hparts hpre
        rw [hparts] at hbounds hn ⊢
        have hround := htakes.round hpre front stale session out
        have hgap := List.length_pos_iff.2 htakes.gap_ne_nil
        have hfront : (front ++ (pre ++ before)).length = front.length + pre.length + before.length := by
          simp only [List.length_append]
          omega
        have hleft := ih left.length (by simp only [List.length_append] at hn; omega)
          (front ++ (pre ++ before)) left (leftover gap left stale) (gapSession session gap)
          (out ++ gapAnswers session before gap) rfl
        have hkept : front.length + (decode (pre ++ (before ++ (gap ++ left)))).length =
            (front ++ (pre ++ before)).length + (decode left).length := by
          rw [decode_append hpre, htakes.decode]
          simp only [List.length_append]
          omega
        rw [hkept, allInBounds_again hround hbounds, hleft, sparse_append hpre, htakes.sparse, hfront]
        constructor
        · rintro ⟨hle, hsparse⟩
          exact ⟨by omega, hle, hsparse⟩
        · rintro ⟨-, hle, hsparse⟩
          exact ⟨hle, hsparse⟩
      · obtain ⟨hbounds, session', out', hround⟩ := hcut.round hpre front stale session out
        have hkept : front.length + (decode (pre ++ telnetCmd :: tail)).length = (front ++ pre).length := by
          rw [decode_append hpre, hcut.decode, List.append_nil, List.length_append]
        rw [hkept, allInBounds_again hround hbounds, sparse_append hpre]
        exact iff_of_false not_allInBounds_cut fun h => hcut.not_sparse _ h.2
    · rw [decode_of_not_mem hmem, allInBounds_of_not_mem hmem]
      exact (and_iff_left (sparse_of_not_mem hmem _)).symm

/-- **The loop keeps to its data** on the sparse chunks, and on no other. -/
theorem bufferDiscipline_iff (c : Chunk) (session : TelnetT) :
    BufferDiscipline c session ↔ Sparse 0 c.data := by
  have h := allInBounds_iff [] c.data c.behind session []
  rw [List.length_nil, Nat.zero_add] at h
  rw [BufferDiscipline, c.loopState_eq, h]
  exact and_iff_right (Nat.zero_le 1)

/-- Two bytes are kept before a command: the second search reads beyond the terminator. -/
theorem bufferDiscipline_two_kept :
    ∃ c : Chunk, c.data = [97, 98, telnetCmd, 241, 99, 100] ∧ c.behind = List.replicate 4090 0 ∧
      ∀ session, ¬ BufferDiscipline c session := by
  refine ⟨padded [97, 98, telnetCmd, 241, 99, 100] (by decide) (by decide), rfl, rfl, ?_⟩
  intro session h
  have hsparse := (allInBounds_iff [] [97, 98, telnetCmd, 241, 99, 100] (List.replicate 4090 0) session []).1 h
  exact absurd hsparse.2.1 (by decide)

end

end ExamplePrograms.Onethread.Telnet
