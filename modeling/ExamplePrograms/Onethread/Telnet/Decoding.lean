import ExamplePrograms.Onethread.Telnet.Commands

/-!
# Chunks of complete commands

`Element` is a piece of telnet data and `reference` what a chunk of them stands for. The loop of
`telnet_filter_read` gives just that when the chunk has no `TELNET_AYT`, of which one byte stays, when the
last search neither leaves the buffer nor meets a command byte that an earlier removal left behind the
terminator, and when the echo of what is left ends. `exactlyDecoded_iff` says that it needs all of it.
-/

set_option autoImplicit false

namespace ExamplePrograms.Onethread.Telnet

open ExamplePrograms.Lib.Loops ExamplePrograms.Lib.Memory

/-! ## Telnet data -/

/-- A data byte, a doubled command byte, a command with its option, or another command. -/
inductive Element where
  | byte (c : UInt8) (h : c ≠ telnetCmd)
  | literal
  | option (type arg : UInt8) (h : takesOption type = true)
  | command (type : UInt8) (hcmd : type ≠ telnetCmd) (h : takesOption type = false)

namespace Element

/-- The bytes of an element. -/
def bytes : Element → List UInt8
  | byte c _ => [c]
  | literal => [telnetCmd, telnetCmd]
  | option type arg _ => [telnetCmd, type, arg]
  | command type _ _ => [telnetCmd, type]

/-- The data that an element stands for. -/
def decoded : Element → List UInt8
  | byte c _ => [c]
  | literal => [telnetCmd]
  | option _ _ _ => []
  | command _ _ _ => []

/-- The element is an ordinary byte. -/
def isByte : Element → Bool
  | byte _ _ => true
  | _ => false

/-- The element is a `TELNET_AYT`. -/
def isAyt : Element → Bool
  | command type _ _ => type == telnetAyt
  | _ => false

/-- How many bytes an element loses. -/
def removed : Element → Nat
  | byte _ _ => 0
  | literal => 1
  | option _ _ _ => 3
  | command _ _ _ => 2

/-- The session behind an element. -/
def session (s : TelnetT) : Element → TelnetT
  | option type arg _ => optionSession s type arg
  | _ => s

end Element

/-- The bytes of some elements. -/
def stream (es : List Element) : List UInt8 := es.flatMap Element.bytes

/-- What the elements stand for. -/
def reference (es : List Element) : List UInt8 := es.flatMap Element.decoded

/-- The session behind all elements. -/
def sessionAfter (session : TelnetT) (es : List Element) : TelnetT := es.foldl Element.session session

/-- How many bytes are kept up to the last command. -/
def keptBefore : List Element → Nat
  | [] => 0
  | e :: es => if (e :: es).all Element.isByte then 0 else e.decoded.length + keptBefore es

/-- The last `n` bytes. -/
def lastBytes (n : Nat) (l : List UInt8) : List UInt8 := l.drop (l.length - n)

/-- What the removals leave behind the terminator of `data`, the last one first: a removal of `n` bytes
leaves the last `n` bytes of the data and its terminator. -/
def leftBehind (data : List UInt8) (es : List Element) : List UInt8 :=
  es.reverse.flatMap fun e => lastBytes e.removed (data ++ [0])

/-- The data that is passed on is the reference. -/
def ExactlyDecoded (c : Chunk) (es : List Element) (session : TelnetT) : Prop :=
  ∃ session' out, telnetFilterRead c.buf c.data.length session = some (session', out) ∧
    received out = reference es

/-- What a chunk needs to be decoded exactly. -/
structure Decodable (es : List Element) (session : TelnetT) : Prop where
  noAyt : ∀ e ∈ es, e.isAyt = false
  room : keptBefore es + (reference es).length ≤ 4097
  quiet : telnetCmd ∉ (leftBehind (stream es) es).take (keptBefore es - 1)
  echo : (sessionAfter session es).echoes = true → NulsBehindCr (reference es)

/-! ## The last round -/

section

variable {front rest stale : List UInt8} {session : TelnetT} {out : List Output}

/-- A command byte beyond the data cannot be removed. -/
theorem readRound_beyond {s : ReadState} {cmd : Nat}
    (h : memchr s.buf s.cmd telnetCmd s.len = some (some cmd)) (hlt : s.len < cmd) :
    readRound s = .undefined := by
  cases hswitch : s.buf[cmd + 1]?.bind (telnetSwitch s.buf cmd s.session) with
  | none => simp only [readRound, h, hswitch]
  | some c =>
    obtain ⟨type, -, hc⟩ := Option.bind_eq_some_iff.1 hswitch
    obtain ⟨hle, hremove⟩ := telnetSwitch_spec hc
    have hnegative : s.len - c.cmd - c.remove + 1 < 0 := by omega
    simp only [readRound, h, hswitch, ReadState.removeCommand]
    exact if_pos (Or.inl hnegative)

/-- The last search stays in the buffer and meets no command byte. -/
def Quiet (front stale : List UInt8) : Prop :=
  front.length ≤ stale.length + 1 ∧ telnetCmd ∉ stale.take (front.length - 1)

/-- The bytes that `memchr` looks at, behind the kept ones. -/
theorem window_rest (front rest stale : List UInt8) :
    window (front ++ (rest ++ 0 :: stale)) front.length (front.length + rest.length : Nat) =
      rest ++ (0 :: stale).take front.length := by
  rw [window, if_neg (by omega), Int.toNat_natCast, List.drop_left, Nat.add_comm,
    List.take_length_add_append]

/-- The NUL behind the data is no command byte. -/
theorem mem_take_cons {n : Nat} : telnetCmd ∈ (0 :: stale).take n ↔ telnetCmd ∈ stale.take (n - 1) := by
  cases n with
  | zero => rw [List.take_zero, List.take_zero]
  | succ n =>
    rw [List.take_succ_cons, List.mem_cons, Nat.add_sub_cancel]
    exact or_iff_right (by decide)

/-- A command byte that was left over stands behind the NUL. -/
theorem idxOf_take_cons {n : Nat} (h : telnetCmd ∈ (0 :: stale).take n) :
    0 < ((0 :: stale).take n).idxOf telnetCmd := by
  cases n with
  | zero => exact absurd h List.not_mem_nil
  | succ n =>
    have hne : (0 : UInt8) ≠ telnetCmd := by decide
    rw [List.take_succ_cons, List.idxOf_cons_ne _ hne]
    exact Nat.succ_pos _

/-- Without another command the loop is left, or the search runs into what stands behind the data. -/
theorem readRound_last (hrest : telnetCmd ∉ rest) (front stale : List UInt8) (session : TelnetT)
    (out : List Output) :
    Quiet front stale ∧
        readRound (loopState front rest stale session out) = .exit (loopState front rest stale session out) ∨
      ¬ Quiet front stale ∧ readRound (loopState front rest stale session out) = .undefined := by
  have hwindow := window_rest front rest stale
  by_cases hmem : telnetCmd ∈ (0 :: stale).take front.length
  · right
    refine ⟨fun hquiet => hquiet.2 (mem_take_cons.1 hmem), ?_⟩
    have hfound : memchr (front ++ (rest ++ 0 :: stale)) front.length telnetCmd
        (front.length + rest.length : Nat) =
          some (some (front.length + (rest.length + ((0 :: stale).take front.length).idxOf telnetCmd))) := by
      rw [memchr, hwindow, if_pos (List.mem_append_right _ hmem), List.idxOf_append_of_notMem hrest]
    have hpos := idxOf_take_cons hmem
    refine readRound_beyond hfound ?_
    show ((front.length + rest.length : Nat) : Int) < _
    omega
  · have hnot : telnetCmd ∉ rest ++ (0 :: stale).take front.length := by
      intro h
      rcases List.mem_append.1 h with h | h
      · exact hrest h
      · exact hmem h
    have hlength : (front ++ (rest ++ 0 :: stale)).length =
        front.length + rest.length + (stale.length + 1) := by
      simp only [List.length_append, List.length_cons]
      omega
    by_cases hroom : front.length ≤ stale.length + 1
    · left
      refine ⟨⟨hroom, fun h => hmem (mem_take_cons.2 h)⟩, ?_⟩
      have hnone : memchr (front ++ (rest ++ 0 :: stale)) front.length telnetCmd
          (front.length + rest.length : Nat) = some none := by
        rw [memchr, hwindow, if_neg hnot, if_pos]
        omega
      simp only [readRound, loopState, hnone]
    · right
      refine ⟨fun hquiet => hroom hquiet.1, ?_⟩
      have hnone : memchr (front ++ (rest ++ 0 :: stale)) front.length telnetCmd
          (front.length + rest.length : Nat) = none := by
        rw [memchr, hwindow, if_neg hnot, if_neg]
        omega
      simp only [readRound, loopState, hnone]

/-- The rest of the filter, with at most `n` rounds of its loop. -/
def readFrom (n : Nat) (s : ReadState) : Option (TelnetT × List Output) :=
  (iterate readRound n s).bind passOn

/-- The kept bytes and the rest. -/
theorem take_loopState (front rest stale : List UInt8) :
    (front ++ (rest ++ 0 :: stale)).take (front.length + rest.length) = front ++ rest := by
  rw [← List.append_assoc, ← List.length_append, List.take_left]

/-- The loop ends at a chunk without a command exactly when nothing was left over and the echo is defined.
-/
theorem readFrom_last (hrest : telnetCmd ∉ rest) (n : Nat) :
    (readFrom (n + 1) (loopState front rest stale session out)).isSome ↔
      Quiet front stale ∧ (session.echoes = true → NulsBehindCr (front ++ rest)) := by
  rcases readRound_last hrest front stale session out with ⟨hquiet, hexit⟩ | ⟨hloud, hnone⟩
  · have hlen : front.length + rest.length ≤ (front ++ (rest ++ 0 :: stale)).length := by
      simp only [List.length_append]
      omega
    rw [readFrom, iterate_exit hexit, Option.bind_some, and_iff_right hquiet, ← take_loopState front rest stale]
    exact passOn_isSome_iff hlen front.length
  · rw [readFrom, iterate_undefined hnone]
    exact iff_of_false Bool.false_ne_true fun h => hloud h.1

/-! ## All rounds -/

/-- The bytes of elements, from the first one. -/
theorem stream_cons (e : Element) (es : List Element) : stream (e :: es) = e.bytes ++ stream es :=
  List.flatMap_cons

/-- The bytes of elements, one behind the other. -/
theorem stream_append (es es' : List Element) : stream (es ++ es') = stream es ++ stream es' :=
  List.flatMap_append

/-- Data without a command is its own stream and reference. -/
theorem plain_elements {es : List Element} (h : es.all Element.isByte = true) :
    telnetCmd ∉ stream es ∧ reference es = stream es := by
  induction es with
  | nil => exact ⟨List.not_mem_nil, rfl⟩
  | cons e es ih =>
    rw [List.all_cons, Bool.and_eq_true] at h
    obtain ⟨hmem, href⟩ := ih h.2
    cases e with
    | byte c hc =>
      refine ⟨?_, congrArg (c :: ·) href⟩
      exact List.not_mem_cons_of_ne_of_not_mem hc.symm hmem
    | literal => exact absurd h.1 (by decide)
    | option => exact absurd h.1 Bool.false_ne_true
    | command => exact absurd h.1 Bool.false_ne_true

/-- The elements up to the first that is no byte. -/
theorem split_elements (es : List Element) :
    es.all Element.isByte = true ∨ ∃ plain e es', es = plain ++ e :: es' ∧
      plain.all Element.isByte = true ∧ e.isByte = false := by
  induction es with
  | nil => exact Or.inl rfl
  | cons e es ih =>
    cases he : e.isByte with
    | false => exact Or.inr ⟨[], e, es, rfl, rfl, he⟩
    | true =>
      rcases ih with hall | ⟨plain, e', es', rfl, hplain, he'⟩
      · left
        rw [List.all_cons, he, hall]
        rfl
      · right
        refine ⟨e :: plain, e', es', rfl, ?_, he'⟩
        rw [List.all_cons, he, hplain]
        rfl

/-- A command of another kind than `TELNET_AYT` is taken out but for what it stands for. -/
theorem Element.takes {e : Element} (hbyte : e.isByte = false) (hayt : e.isAyt = false) :
    ∃ gap, e.bytes = e.decoded ++ gap ∧ gap.length = e.removed ∧
      (∀ session, gapSession session gap = e.session session) ∧ ∀ left, Takes e.decoded gap left := by
  cases e with
  | byte => exact absurd hbyte.symm Bool.false_ne_true
  | literal => exact ⟨[telnetCmd], rfl, rfl, fun _ => rfl, .literal⟩
  | option type arg h => exact ⟨[telnetCmd, type, arg], rfl, rfl, fun _ => rfl, .option h arg⟩
  | command type hcmd h =>
    have hne : type ≠ telnetAyt := by
      intro htype
      have hbeq : (type == telnetAyt) = true := beq_iff_eq.2 htype
      exact Bool.false_ne_true (hayt.symm.trans hbeq)
    exact ⟨[telnetCmd, type], rfl, rfl, fun _ => rfl, .other hne hcmd h⟩

/-- One round on elements with a command. -/
theorem round_elements {plain : List Element} {e : Element} (hplain : plain.all Element.isByte = true)
    (hbyte : e.isByte = false) (es : List Element) :
    ∃ before gap es', stream (plain ++ e :: es) = stream plain ++ (before ++ (gap ++ stream es')) ∧
      Takes before gap (stream es') ∧ telnetCmd ∉ stream plain := by
  obtain ⟨hmem, -⟩ := plain_elements hplain
  cases hayt : e.isAyt with
  | false =>
    obtain ⟨gap, hbytes, -, -, htakes⟩ := Element.takes hbyte hayt
    refine ⟨e.decoded, gap, es, ?_, htakes _, hmem⟩
    rw [stream_append, stream_cons, hbytes, List.append_assoc]
  | true =>
    cases e with
    | byte => exact absurd hayt Bool.false_ne_true
    | literal => exact absurd hayt Bool.false_ne_true
    | option => exact absurd hayt Bool.false_ne_true
    | command type hcmd h =>
      obtain rfl : type = telnetAyt := eq_of_beq hayt
      refine ⟨[], [telnetCmd], .byte telnetAyt hcmd :: es, ?_, .ayt _, hmem⟩
      rw [stream_append, stream_cons]
      rfl

/-- What is passed on, if anything is, is the decoded data. -/
theorem received_readFrom (n : Nat) {es : List Element} {front stale : List UInt8} {session : TelnetT}
    {out : List Output} {r : TelnetT × List Output}
    (h : readFrom n (loopState front (stream es) stale session out) = some r) :
    received r.2 = received out ++ (front ++ decode (stream es)) := by
  induction n generalizing es front stale session out with
  | zero => cases h
  | succ n ih =>
    rcases split_elements es with hplain | ⟨plain, e, es', rfl, hplain, hbyte⟩
    · obtain ⟨hmem, -⟩ := plain_elements hplain
      rcases readRound_last hmem front stale session out with ⟨-, hexit⟩ | ⟨-, hnone⟩
      · rw [readFrom, iterate_exit hexit, Option.bind_some] at h
        obtain ⟨-, hreceived⟩ := received_passOn h
        rw [hreceived, take_loopState, decode_of_not_mem hmem]
      · rw [readFrom, iterate_undefined hnone] at h
        cases h
    · obtain ⟨before, gap, es'', hstream, htakes, hmem⟩ := round_elements hplain hbyte es'
      have hround := htakes.round hmem front stale session out
      rw [hstream, readFrom, iterate_again hround] at h
      rw [ih h, hstream, decode_append hmem, htakes.decode]
      have hnil : received (out ++ gapAnswers session before gap) = received out := by
        rw [received, List.flatMap_append, ← received, ← received, received_gapAnswers, List.append_nil]
      rw [hnil]
      simp only [List.append_assoc]

/-! ## When something is passed on -/

/-- The last bytes of a list that is long enough. -/
theorem lastBytes_append {n : Nat} {l : List UInt8} (h : n ≤ l.length) (x : List UInt8) :
    lastBytes n (x ++ l) = lastBytes n l := by
  have hlen : (x ++ l).length - n = x.length + (l.length - n) := by
    rw [List.length_append]
    omega
  rw [lastBytes, lastBytes, hlen, ← List.drop_drop, List.drop_left]

/-- What a removal leaves over, as the last bytes of the data and of what was left before. -/
theorem leftover_eq (gap left stale : List UInt8) :
    leftover gap left stale = lastBytes gap.length (gap ++ left ++ [0]) ++ stale := by
  have hlen : (gap ++ left ++ [0]).length - gap.length = left.length + 1 := by
    simp only [List.length_append, List.length_singleton]
    omega
  rw [lastBytes, hlen, ← List.drop_append_of_le_length, leftover]
  · simp only [List.append_assoc, List.singleton_append]
  · simp only [List.length_append, List.length_singleton]
    omega

/-- An element removes no more than it has. -/
theorem Element.removed_le (e : Element) : e.removed ≤ e.bytes.length := by
  cases e with
  | byte => exact Nat.zero_le _
  | literal => exact Nat.le_succ 1
  | option => exact Nat.le_refl 3
  | command => exact Nat.le_refl 2

/-- The data before the elements does not matter. -/
theorem leftBehind_append (x : List UInt8) (es : List Element) :
    leftBehind (x ++ stream es) es = leftBehind (stream es) es := by
  apply List.flatMap_congr
  intro e he
  have hle : e.bytes.length ≤ (stream es).length := by
    rw [stream, List.flatMap_def]
    exact (List.sublist_flatten_of_mem (List.mem_map_of_mem (List.mem_reverse.1 he))).length_le
  rw [List.append_assoc]
  apply lastBytes_append
  rw [List.length_append]
  exact Nat.le_trans e.removed_le (Nat.le_trans hle (Nat.le_add_right _ _))

/-- An ordinary byte. -/
theorem Element.eq_byte {e : Element} (h : e.isByte = true) : ∃ c hc, e = .byte c hc := by
  cases e with
  | byte c hc => exact ⟨c, hc, rfl⟩
  | literal => exact absurd h Bool.false_ne_true
  | option => exact absurd h Bool.false_ne_true
  | command => exact absurd h Bool.false_ne_true

/-- The elements of a plain part. -/
theorem byte_of_plain {es : List Element} (h : es.all Element.isByte = true) {e : Element} (he : e ∈ es) :
    ∃ c hc, e = .byte c hc :=
  Element.eq_byte (List.all_eq_true.1 h e he)

/-- A plain part leaves nothing over. -/
theorem leftBehind_plain {es : List Element} (h : es.all Element.isByte = true) (data : List UInt8) :
    leftBehind data es = [] := by
  rw [leftBehind, List.flatMap_eq_nil_iff]
  intro e he
  obtain ⟨c, hc, rfl⟩ := byte_of_plain h (List.mem_reverse.1 he)
  exact List.drop_length

/-- A plain part keeps no byte of a command. -/
theorem keptBefore_plain {es : List Element} (h : es.all Element.isByte = true) : keptBefore es = 0 := by
  cases es with
  | nil => rfl
  | cons e es => exact if_pos h

/-- A plain part does not change the session. -/
theorem sessionAfter_plain {es : List Element} (h : es.all Element.isByte = true) (session : TelnetT) :
    sessionAfter session es = session := by
  induction es with
  | nil => rfl
  | cons e es ih =>
    obtain ⟨c, hc, rfl⟩ := byte_of_plain h List.mem_cons_self
    rw [List.all_cons, Bool.and_eq_true] at h
    exact ih h.2

/-- The bytes kept before a command. -/
theorem keptBefore_append {plain es : List Element} {e : Element}
    (hplain : plain.all Element.isByte = true) (hbyte : e.isByte = false) :
    keptBefore (plain ++ e :: es) = (stream plain).length + (e.decoded.length + keptBefore es) := by
  induction plain with
  | nil =>
    have hnot : ¬(e :: es).all Element.isByte = true := by
      rw [List.all_cons, hbyte]
      exact Bool.false_ne_true
    rw [List.nil_append, keptBefore, if_neg hnot]
    exact (Nat.zero_add _).symm
  | cons p plain ih =>
    obtain ⟨c, hc, rfl⟩ := byte_of_plain hplain List.mem_cons_self
    rw [List.all_cons, Bool.and_eq_true] at hplain
    have hnot : ¬(Element.byte c hc :: (plain ++ e :: es)).all Element.isByte = true := by
      rw [List.all_cons, List.all_append, List.all_cons, hbyte, Bool.false_and, Bool.and_false, Bool.and_false]
      exact Bool.false_ne_true
    rw [List.cons_append, keptBefore, if_neg hnot, ih hplain.2, stream_cons, List.length_append, Nat.add_assoc]
    rfl

/-- The session behind a command. -/
theorem sessionAfter_append {plain es : List Element} {e : Element}
    (hplain : plain.all Element.isByte = true) (session : TelnetT) :
    sessionAfter session (plain ++ e :: es) = sessionAfter (e.session session) es := by
  have hsame : plain.foldl Element.session session = session := sessionAfter_plain hplain session
  rw [sessionAfter, List.foldl_append, hsame]
  rfl

/-- What a command leaves over. -/
theorem leftBehind_command {plain es : List Element} {e : Element}
    (hplain : plain.all Element.isByte = true) {gap : List UInt8} (hbytes : e.bytes = e.decoded ++ gap)
    (hremoved : gap.length = e.removed) (stale : List UInt8) :
    leftBehind (stream (plain ++ e :: es)) (plain ++ e :: es) ++ stale =
      leftBehind (stream es) es ++ leftover gap (stream es) stale := by
  have hstream : stream (plain ++ e :: es) = stream plain ++ e.decoded ++ gap ++ stream es := by
    rw [stream_append, stream_cons, hbytes]
    simp only [List.append_assoc]
  have hrest : leftBehind (stream (plain ++ e :: es)) es = leftBehind (stream es) es := by
    rw [hstream, leftBehind_append]
  have hlast : lastBytes e.removed (stream (plain ++ e :: es) ++ [0]) =
      lastBytes gap.length (gap ++ stream es ++ [0]) := by
    have hsplit : stream (plain ++ e :: es) ++ [0] =
        stream plain ++ e.decoded ++ (gap ++ stream es ++ [0]) := by
      rw [hstream]
      simp only [List.append_assoc]
    rw [hsplit, ← hremoved, lastBytes_append]
    simp only [List.length_append]
    omega
  have hsplit : leftBehind (stream (plain ++ e :: es)) (plain ++ e :: es) =
      leftBehind (stream (plain ++ e :: es)) es ++
        (lastBytes e.removed (stream (plain ++ e :: es) ++ [0]) ++
          leftBehind (stream (plain ++ e :: es)) plain) := by
    rw [leftBehind, List.reverse_append, List.reverse_cons, List.flatMap_append, List.flatMap_append,
      List.flatMap_singleton, List.append_assoc]
    rfl
  rw [hsplit, hrest, hlast, leftBehind_plain hplain, leftover_eq, List.append_nil, List.append_assoc]

/-- **The rounds** on elements without `TELNET_AYT`, from any state of the loop. -/
theorem isSome_readFrom {es : List Element} (hayt : ∀ e ∈ es, e.isAyt = false) {n : Nat}
    (hn : (stream es).length < n) (front stale : List UInt8) (session : TelnetT) (out : List Output) :
    (readFrom n (loopState front (stream es) stale session out)).isSome ↔
      front.length + keptBefore es + (reference es).length ≤ (stream es).length + 1 + stale.length ∧
      telnetCmd ∉ (leftBehind (stream es) es ++ stale).take (front.length + keptBefore es - 1) ∧
      ((sessionAfter session es).echoes = true → NulsBehindCr (front ++ reference es)) := by
  induction hlen : es.length using Nat.strongRecOn generalizing es n front stale session out with
  | ind k ih =>
    obtain ⟨n, rfl⟩ := Nat.exists_eq_add_one_of_ne_zero (Nat.ne_zero_of_lt hn)
    rcases split_elements es with hplain | ⟨plain, e, es', rfl, hplain, hbyte⟩
    · obtain ⟨hmem, href⟩ := plain_elements hplain
      rw [readFrom_last hmem, leftBehind_plain hplain, keptBefore_plain hplain, sessionAfter_plain hplain,
        href, Quiet, List.nil_append, Nat.add_zero, and_assoc]
      exact and_congr_left' (by omega)
    · obtain ⟨hmem, href⟩ := plain_elements hplain
      have he : e.isAyt = false := hayt e (List.mem_append_right _ List.mem_cons_self)
      obtain ⟨gap, hbytes, hremoved, hsession, htakes⟩ := Element.takes hbyte he
      have hstream : stream (plain ++ e :: es') =
          stream plain ++ (e.decoded ++ (gap ++ stream es')) := by
        rw [stream_append, stream_cons, hbytes, List.append_assoc]
      have hround := (htakes (stream es')).round hmem front stale session out
      have hstreamlen := congrArg List.length hstream
      have hleftover := length_leftover gap (stream es') stale
      simp only [List.length_append] at hstreamlen
      have hrest := ih es'.length (by rw [← hlen, List.length_append, List.length_cons]; omega)
        (fun e' he' => hayt e' (List.mem_append_right _ (List.mem_cons_of_mem e he')))
        (show (stream es').length < n by
          have hgap := List.length_pos_iff.2 (htakes (stream es')).gap_ne_nil
          omega)
        (front ++ (stream plain ++ e.decoded)) (leftover gap (stream es') stale) (gapSession session gap)
        (out ++ gapAnswers session e.decoded gap) rfl
      have hreference : front ++ reference (plain ++ e :: es') =
          front ++ (stream plain ++ e.decoded) ++ reference es' := by
        rw [reference, List.flatMap_append, List.flatMap_cons, ← reference, ← reference, href]
        simp only [List.append_assoc]
      have hreflen := congrArg List.length hreference
      simp only [List.length_append] at hreflen
      have hfront : (front ++ (stream plain ++ e.decoded)).length + keptBefore es' =
          front.length + keptBefore (plain ++ e :: es') := by
        rw [keptBefore_append hplain hbyte]
        simp only [List.length_append]
        omega
      rw [leftBehind_command hplain hbytes hremoved, sessionAfter_append hplain, ← hsession, hreference,
        hstream, readFrom, iterate_again hround, ← readFrom, hrest, hfront, ← hstream]
      exact and_congr_left' (by omega)

/-! ## Exact decoding -/

/-- An element is decoded as what it stands for, but for `TELNET_AYT`. -/
theorem decode_bytes {e : Element} (h : e.isAyt = false) (rest : List UInt8) :
    decode (e.bytes ++ rest) = e.decoded ++ decode rest := by
  cases hbyte : e.isByte with
  | true =>
    obtain ⟨c, hc, rfl⟩ := Element.eq_byte hbyte
    exact decode_cons_of_ne hc rest
  | false =>
    obtain ⟨gap, hbytes, -, -, htakes⟩ := Element.takes hbyte h
    rw [hbytes, List.append_assoc]
    exact (htakes rest).decode

/-- Of `TELNET_AYT` one byte stays. -/
theorem decode_ayt {e : Element} (h : e.isAyt = true) (rest : List UInt8) :
    decode (e.bytes ++ rest) = telnetAyt :: decode rest ∧ e.decoded = [] := by
  cases e with
  | byte => exact absurd h Bool.false_ne_true
  | literal => exact absurd h Bool.false_ne_true
  | option => exact absurd h Bool.false_ne_true
  | command type hcmd _ =>
    obtain rfl : type = telnetAyt := eq_of_beq h
    exact ⟨decode_telnetCmd telnetAyt rest, rfl⟩

/-- The decoding keeps one byte more for every `TELNET_AYT`. -/
theorem length_decode_stream (es : List Element) :
    (decode (stream es)).length = (reference es).length + es.countP Element.isAyt := by
  induction es with
  | nil => rfl
  | cons e es ih =>
    rw [stream_cons, reference, List.flatMap_cons, ← reference, List.length_append]
    cases he : e.isAyt with
    | true =>
      obtain ⟨hdecode, hnil⟩ := decode_ayt he (stream es)
      rw [hdecode, hnil, List.length_cons, ih, List.countP_cons_of_pos he, List.length_nil]
      omega
    | false =>
      rw [decode_bytes he, List.length_append, ih, List.countP_cons_of_neg (he ▸ Bool.false_ne_true),
        Nat.add_assoc]

/-- The filter decodes what the reference does when no element is `TELNET_AYT`. -/
theorem decode_stream_eq_iff (es : List Element) :
    decode (stream es) = reference es ↔ ∀ e ∈ es, e.isAyt = false := by
  constructor
  · intro h e he
    have hlen := length_decode_stream es
    rw [h] at hlen
    have hzero : es.countP Element.isAyt = 0 := by omega
    exact Bool.eq_false_iff.2 (List.countP_eq_zero.1 hzero e he)
  · intro h
    induction es with
    | nil => rfl
    | cons e es ih =>
      obtain ⟨he, hes⟩ := List.forall_mem_cons.1 h
      rw [stream_cons, decode_bytes he, ih hes]
      rfl

/-- The filter is the loop on the whole chunk. -/
theorem telnetFilterRead_eq_readFrom {c : Chunk} {es : List Element} (hdata : c.data = stream es)
    (session : TelnetT) :
    telnetFilterRead c.buf c.data.length session =
      readFrom ((stream es).length + 1) (loopState [] (stream es) c.behind session []) := by
  rw [telnetFilterRead, c.loopState_eq, hdata]
  rfl

/-- **Telnet decoding is exact** for the decodable chunks, and for no other. -/
theorem exactlyDecoded_iff {c : Chunk} {es : List Element} (hdata : c.data = stream es)
    (hbehind : ∀ b ∈ c.behind, b = 0) (session : TelnetT) :
    ExactlyDecoded c es session ↔ Decodable es session := by
  have hrun := telnetFilterRead_eq_readFrom hdata session
  have hsize := c.size
  rw [hdata] at hsize
  -- the zero bytes behind the data hold no command byte
  have hstale : ∀ n, telnetCmd ∉ (leftBehind (stream es) es ++ c.behind).take n ↔
      telnetCmd ∉ (leftBehind (stream es) es).take n := by
    intro n
    rw [List.take_append, List.mem_append, not_or]
    apply and_iff_left
    intro hmem
    exact absurd (hbehind _ (List.mem_of_mem_take hmem)) (by decide)
  have hsome : (∀ e ∈ es, e.isAyt = false) →
      ((telnetFilterRead c.buf c.data.length session).isSome ↔
        keptBefore es + (reference es).length ≤ 4097 ∧
        telnetCmd ∉ (leftBehind (stream es) es).take (keptBefore es - 1) ∧
        ((sessionAfter session es).echoes = true → NulsBehindCr (reference es))) := by
    intro hayt
    have hiff := isSome_readFrom hayt (Nat.lt_succ_self _) [] c.behind session []
    rw [List.length_nil, Nat.zero_add, List.nil_append, hstale, hsize] at hiff
    rw [hrun]
    exact hiff
  have hreceived : ∀ r, telnetFilterRead c.buf c.data.length session = some r →
      received r.2 = decode (stream es) := by
    intro r hr
    rw [hrun] at hr
    exact received_readFrom _ hr
  constructor
  · rintro ⟨session', out, hread, hout⟩
    have hayt : ∀ e ∈ es, e.isAyt = false := by
      rw [← decode_stream_eq_iff, ← hreceived _ hread, hout]
    obtain ⟨hroom, hquiet, hecho⟩ := (hsome hayt).1 (Option.isSome_iff_exists.2 ⟨_, hread⟩)
    exact ⟨hayt, hroom, hquiet, hecho⟩
  · rintro ⟨hayt, hroom, hquiet, hecho⟩
    obtain ⟨⟨session', out⟩, hread⟩ := Option.isSome_iff_exists.1 ((hsome hayt).2 ⟨hroom, hquiet, hecho⟩)
    refine ⟨session', out, hread, ?_⟩
    rw [← (decode_stream_eq_iff es).2 hayt]
    exact hreceived _ hread

/-- Text, an option and a doubled command byte. -/
theorem exactlyDecoded_of_text :
    ExactlyDecoded (padded [telnetCmd, telnetDo, telnetEcho, 97, telnetCmd, telnetCmd] (by decide) (by decide))
      [.option telnetDo telnetEcho (by decide), .byte 97 (by decide), .literal] {} := by
  refine (exactlyDecoded_iff rfl (fun b hb => List.eq_of_mem_replicate hb) {}).2 ⟨?_, ?_, ?_, ?_⟩
  · decide
  · decide
  · decide
  · intro _ i hnul
    have hmem := List.mem_of_getElem? hnul
    exact absurd hmem (by decide)

/-- The letter of `TELNET_AYT` is passed on as data. -/
theorem not_exactlyDecoded_ayt :
    ¬ ExactlyDecoded (padded [telnetCmd, telnetAyt] (by decide) (by decide))
      [.command telnetAyt (by decide) (by decide)] {} := by
  rintro ⟨session', out, hread, hout⟩
  have hdata : (padded [telnetCmd, telnetAyt] (by decide) (by decide)).data =
      stream [.command telnetAyt (by decide) (by decide)] := rfl
  rw [telnetFilterRead_eq_readFrom hdata] at hread
  have hreceived := received_readFrom _ hread
  rw [hout] at hreceived
  exact absurd hreceived (by decide)

end

end ExamplePrograms.Onethread.Telnet
