import ExamplePrograms.Onethread.Telnet.Discipline

/-!
# Telnet input and TCP segmentation

A stream reaches `telnet_filter_read` in the chunks that `read` returns. The filter keeps its session
between two chunks and nothing else: a command that is cut is not put together again, and a chunk that
ends inside a command is taken together with what stands behind it in the buffer. So the result
does not depend on the cut for the streams without a command only. If the session echoes, a NUL must
not come first in a chunk either, for then `telnet_filter_write` looks at the byte before the buffer.
-/

set_option autoImplicit false

namespace ExamplePrograms.Onethread.Telnet

open ExamplePrograms.Lib.Loops ExamplePrograms.Lib.Memory

/-! ## Chunks -/

/-- The buffer of `sockbuf_got_readable` after a `read`: the bytes, a NUL, and whatever stands
behind it. -/
structure Chunk where
  data : List UInt8
  behind : List UInt8
  nonempty : data ≠ []
  size : data.length + 1 + behind.length = 4097

/-- The buffer that holds the chunk. -/
def Chunk.buf (c : Chunk) : List UInt8 := c.data ++ 0 :: c.behind

/-- The stream that the chunks are cut from. -/
def joined (cut : List Chunk) : List UInt8 := cut.flatMap Chunk.data

/-- `telnet_filter_read` on one chunk after the other. -/
def readChunks (session : TelnetT) : List Chunk → Option (TelnetT × List Output)
  | [] => some (session, [])
  | c :: cut =>
      (telnetFilterRead c.buf c.data.length session).bind fun r =>
        (readChunks r.1 cut).map fun r' => (r'.1, r.2 ++ r'.2)

/-- The data passed to `on_read`. -/
def Output.received : Output → List UInt8
  | .onRead data => data
  | _ => []

/-- A reply to the client, as opposed to an echo. -/
def Output.isReply : Output → Bool
  | .mode _ _ => true
  | .write _ => true
  | _ => false

/-- The data that the filter passed on. -/
def received (out : List Output) : List UInt8 := out.flatMap Output.received

/-- The answers of the filter. -/
def replies (out : List Output) : List Output := out.filter Output.isReply

/-- Any two ways to cut the stream give the same data, the same replies and the same session. -/
def SegmentationIndependent (session : TelnetT) (stream : List UInt8) : Prop :=
  ∀ cut cut' : List Chunk, joined cut = stream → joined cut' = stream →
    ∃ r r', readChunks session cut = some r ∧ readChunks session cut' = some r' ∧
      received r.2 = received r'.2 ∧ replies r.2 = replies r'.2 ∧ r.1 = r'.1

/-! ## Chunks without a command -/

/-- `memchr` finds no character that is not there. -/
theorem memchr_none {buf : List UInt8} {cmd len : Nat} {c : UInt8} (hlen : cmd + len ≤ buf.length)
    (h : c ∉ (buf.drop cmd).take len) : memchr buf cmd c len = some none := by
  have hw : window buf cmd len = (buf.drop cmd).take len := by
    rw [window, if_neg (by omega), Int.toNat_natCast]
  rw [memchr, hw, if_neg h, if_pos (by omega)]

/-- Without a command the loop is left at once. -/
theorem telnetFilterRead_eq_passOn {buf : List UInt8} {len : Nat} (session : TelnetT)
    (hlen : len ≤ buf.length) (h : telnetCmd ∉ buf.take len) :
    telnetFilterRead buf len session = passOn ⟨buf, 0, len, session, []⟩ := by
  have hnone : memchr buf 0 telnetCmd len = some none := memchr_none (by omega) h
  have hexit : readRound ⟨buf, 0, len, session, []⟩ = .exit ⟨buf, 0, len, session, []⟩ := by
    simp only [readRound, hnone]
  rw [telnetFilterRead, iterate_exit hexit, Option.bind_some]

/-- The data of the buffer. -/
theorem Chunk.take_buf (c : Chunk) : c.buf.take c.data.length = c.data := List.take_left

/-- The data fit into the buffer. -/
theorem Chunk.length_le (c : Chunk) : c.data.length ≤ c.buf.length := by
  simp [Chunk.buf]

/-- The end of the filter with the echo on. -/
theorem passOn_echo {buf : List UInt8} {cmd n : Nat} {session : TelnetT} {out : List Output}
    (hn : n ≠ 0) (h : session.echoes = true) :
    passOn ⟨buf, cmd, n, session, out⟩ = (telnetFilterWrite buf n).map fun line =>
      (session, out ++ (if line = [] then [] else [.onWrite line]) ++ [.onRead (buf.take n)]) := by
  have hlen : (n : Int) ≠ 0 := by omega
  simp only [passOn, if_neg hlen, if_pos h, Int.toNat_natCast]

/-- What is left is passed on, where an echo of it ends. -/
theorem passOn_received {buf : List UInt8} {n : Nat} {session : TelnetT} (hn : n ≤ buf.length)
    (h : session.echoes = true → 0 ∉ buf.take n) (cmd : Nat) (out : List Output) :
    ∃ out', passOn ⟨buf, cmd, n, session, out⟩ = some (session, out') ∧
      received out' = received out ++ buf.take n ∧ replies out' = replies out := by
  have happend : ∀ echo : List Output, received echo = [] → replies echo = [] →
      received (out ++ echo ++ [.onRead (buf.take n)]) = received out ++ buf.take n ∧
        replies (out ++ echo ++ [.onRead (buf.take n)]) = replies out := by
    intro echo hdata hreplies
    simp only [received, List.flatMap_append] at hdata ⊢
    simp only [replies, List.filter_append] at hreplies ⊢
    rw [hdata, hreplies]
    simp [Output.received, Output.isReply]
  by_cases hzero : n = 0
  · subst hzero
    exact ⟨out, rfl, by rw [List.take_zero, List.append_nil], rfl⟩
  have hlen : (n : Int) ≠ 0 := by omega
  cases hecho : session.echoes with
  | true =>
    rw [passOn_echo hzero hecho, telnetFilterWrite_eq hn (h hecho), Option.map_some]
    refine ⟨_, rfl, happend _ ?_ ?_⟩
    · split <;> rfl
    · split <;> rfl
  | false =>
    refine ⟨out ++ [] ++ [.onRead (buf.take n)], ?_, happend [] rfl rfl⟩
    simp only [passOn, if_neg hlen, hecho, Bool.false_eq_true, if_false, Int.toNat_natCast,
      List.append_nil]

/-- The bytes that need no care: none is a command, and none that is echoed is a NUL. -/
def Plain (session : TelnetT) (data : List UInt8) : Prop :=
  telnetCmd ∉ data ∧ (session.echoes = true → 0 ∉ data)

/-- A plain chunk is passed on. -/
theorem telnetFilterRead_plain {session : TelnetT} {c : Chunk} (h : Plain session c.data) :
    ∃ out, telnetFilterRead c.buf c.data.length session = some (session, out) ∧
      received out = c.data ∧ replies out = [] := by
  have htake := c.take_buf
  obtain ⟨out, hout, hdata, hreplies⟩ :=
    passOn_received c.length_le (fun he => htake.symm ▸ h.2 he) 0 []
  refine ⟨out, ?_, ?_, hreplies⟩
  · rw [telnetFilterRead_eq_passOn session c.length_le (htake.symm ▸ h.1), hout]
  · rw [hdata, htake]
    rfl

/-- Plain data are passed on as they are, in any chunks. -/
theorem readChunks_plain {session : TelnetT} {cut : List Chunk} (h : Plain session (joined cut)) :
    ∃ out, readChunks session cut = some (session, out) ∧ received out = joined cut ∧
      replies out = [] := by
  induction cut with
  | nil => exact ⟨[], rfl, rfl, rfl⟩
  | cons c cut ih =>
    have hjoined : joined (c :: cut) = c.data ++ joined cut := rfl
    rw [hjoined] at h
    have hhead : Plain session c.data :=
      ⟨fun hc => h.1 (List.mem_append_left _ hc), fun he h0 => h.2 he (List.mem_append_left _ h0)⟩
    have htail : Plain session (joined cut) :=
      ⟨fun hc => h.1 (List.mem_append_right _ hc), fun he h0 => h.2 he (List.mem_append_right _ h0)⟩
    obtain ⟨out, hout, hdata, hreplies⟩ := telnetFilterRead_plain hhead
    obtain ⟨out', hout', hdata', hreplies'⟩ := ih htail
    refine ⟨out ++ out', ?_, ?_, ?_⟩
    · rw [readChunks, hout, Option.bind_some, hout', Option.map_some]
    · rw [hjoined, ← hdata, ← hdata']
      exact List.flatMap_append
    · rw [replies, List.filter_append, ← replies, ← replies, hreplies, hreplies', List.append_nil]

/-! ## Chunks of one byte -/

/-- A chunk with zero bytes behind it. -/
def padded (data : List UInt8) (hne : data ≠ []) (hlen : data.length ≤ 4096) : Chunk where
  data := data
  behind := List.replicate (4096 - data.length) 0
  nonempty := hne
  size := by
    rw [List.length_replicate]
    omega

/-- A byte that is read alone. -/
def single (b : UInt8) : Chunk :=
  padded [b] (List.cons_ne_nil b []) (by rw [List.length_singleton]; decide)

/-- Chunks of one byte make up the stream. -/
theorem joined_map_single (stream : List UInt8) : joined (stream.map single) = stream := by
  induction stream with
  | nil => rfl
  | cons b stream ih =>
    rw [List.map_cons]
    exact congrArg (b :: ·) ih

/-- The size of the buffer. -/
theorem Chunk.length_buf (c : Chunk) : c.buf.length = 4097 := by
  have := c.size
  rw [buf, List.length_append, List.length_cons]
  omega

/-- A command byte alone: the NUL behind it is taken for the command, two bytes of one are removed
and the search goes on with a negative length. -/
theorem read_telnetCmd {c : Chunk} (hc : c.data = [telnetCmd]) (session : TelnetT) :
    telnetFilterRead c.buf c.data.length session = none := by
  have hbuf : c.buf = telnetCmd :: 0 :: c.behind := by rw [Chunk.buf, hc]; rfl
  -- the command byte stays in front, so both searches find it
  have hfound : ∀ n : Int, n ≠ 0 → memchr c.buf 0 telnetCmd n = some (some 0) := by
    intro n hn
    obtain ⟨tail, htail⟩ : ∃ tail, window c.buf 0 n = telnetCmd :: tail := by
      rw [window, hbuf]
      split
      · exact ⟨_, rfl⟩
      · obtain ⟨m, hm⟩ : ∃ m, n.toNat = m + 1 := ⟨n.toNat - 1, by omega⟩
        exact ⟨_, by rw [hm]; rfl⟩
    rw [memchr, htail, if_pos List.mem_cons_self, List.idxOf_cons_self]
  have hswitch : c.buf[0 + 1]?.bind (telnetSwitch c.buf 0 session) = some ⟨0, 2, session, []⟩ := by
    rw [hbuf]
    rfl
  have hfirst : readRound ⟨c.buf, 0, 1, session, []⟩ = .again ⟨c.buf, 0, -1, session, []⟩ := by
    simp only [readRound, hfound 1 (by decide), hswitch, ReadState.removeCommand]
    rw [if_neg (by rw [c.length_buf]; decide), hbuf]
    rfl
  have hsecond : readRound ⟨c.buf, 0, -1, session, []⟩ = .undefined := by
    simp only [readRound, hfound (-1) (by decide), hswitch, ReadState.removeCommand]
    rw [if_pos (Or.inl (by decide))]
  rw [hc, telnetFilterRead]
  exact (congrArg (Option.bind · passOn) (iterate_again hfirst 1)).trans
    (congrArg (Option.bind · passOn) (iterate_undefined hsecond 1))

/-- An echoed NUL alone: `telnet_filter_write` looks at the byte before the buffer. -/
theorem read_nul {c : Chunk} (hc : c.data = [0]) {session : TelnetT}
    (h : session.echoes = true) : telnetFilterRead c.buf c.data.length session = none := by
  have hbuf : c.buf = 0 :: 0 :: c.behind := by rw [Chunk.buf, hc]; rfl
  have hround : writeRound c.buf ⟨0, 1, .empty, false⟩ = .undefined := by rw [hbuf]; rfl
  have hwrite : telnetFilterWrite c.buf 1 = none := by
    rw [telnetFilterWrite, iterate_undefined hround, Option.map_none]
  rw [telnetFilterRead_eq_passOn session c.length_le (by rw [c.take_buf, hc]; decide), hc]
  rw [List.length_singleton, passOn_echo (by decide) h, hwrite, Option.map_none]

/-- Byte by byte a stream that is not plain cannot be read. -/
theorem readChunks_single {session : TelnetT} {stream : List UInt8} (h : ¬ Plain session stream) :
    readChunks session (stream.map single) = none := by
  induction stream with
  | nil => exact absurd ⟨List.not_mem_nil, fun _ => List.not_mem_nil⟩ h
  | cons b stream ih =>
    rw [List.map_cons, readChunks]
    by_cases hcmd : b = telnetCmd
    · rw [hcmd, read_telnetCmd rfl, Option.bind_none]
    by_cases hnul : session.echoes = true ∧ b = 0
    · rw [hnul.2, read_nul rfl hnul.1, Option.bind_none]
    have hplain : Plain session (single b).data :=
      ⟨fun hc => hcmd (List.mem_singleton.1 hc).symm,
        fun he h0 => hnul ⟨he, (List.mem_singleton.1 h0).symm⟩⟩
    obtain ⟨out, hout, -, -⟩ := telnetFilterRead_plain hplain
    -- The session is still the same, so that the rest of the stream is not plain either.
    have hrest : ¬ Plain session stream := fun hs =>
      h ⟨fun hc => (List.mem_cons.1 hc).elim (fun e => hcmd e.symm) hs.1,
        fun he h0 => (List.mem_cons.1 h0).elim (fun e => hnul ⟨he, e.symm⟩) (hs.2 he)⟩
    rw [hout, Option.bind_some, ih hrest, Option.map_none]

/-- **Telnet input is independent of its segmentation** for the plain streams, and for no other. -/
theorem segmentationIndependent_iff (session : TelnetT) (stream : List UInt8) :
    SegmentationIndependent session stream ↔
      telnetCmd ∉ stream ∧ (session.echoes = true → 0 ∉ stream) := by
  constructor
  · intro h
    by_contra hplain
    -- the stream in chunks of one byte has no result at all
    obtain ⟨r, -, hr, -⟩ := h _ _ (joined_map_single stream) (joined_map_single stream)
    rw [readChunks_single hplain] at hr
    cases hr
  · rintro hplain cut cut' rfl hcut
    obtain ⟨out, hout, hdata, hreplies⟩ := readChunks_plain hplain
    obtain ⟨out', hout', hdata', hreplies'⟩ := readChunks_plain (hcut.symm ▸ hplain)
    exact ⟨_, _, hout, hout', by rw [hdata, hdata', hcut], by rw [hreplies, hreplies'], rfl⟩

/-! ## A request that is cut -/

/-- The client asks for echo behind a byte of text. -/
def doEcho : List UInt8 := [97, telnetCmd, telnetDo, telnetEcho]

/-- In one chunk the request is answered and taken out of the data, and the text is echoed. -/
theorem read_doEcho {c : Chunk} (hc : c.data = doEcho) :
    telnetFilterRead c.buf c.data.length {} =
      some ({ echo := true }, [.mode telnetWill telnetEcho, .onWrite [97], .onRead [97]]) := by
  have hbuf : c.buf = 97 :: telnetCmd :: telnetDo :: telnetEcho :: 0 :: c.behind := by
    rw [Chunk.buf, hc]
    rfl
  have hfound : memchr c.buf 0 telnetCmd 4 = some (some 1) := by rw [hbuf]; rfl
  have hswitch : c.buf[1 + 1]?.bind (telnetSwitch c.buf 1 {}) =
      some ⟨1, 3, { echo := true }, [.mode telnetWill telnetEcho]⟩ := by
    rw [hbuf]
    rfl
  have hfirst : readRound ⟨c.buf, 0, 4, {}, []⟩ =
      .again ⟨97 :: 0 :: telnetDo :: telnetEcho :: 0 :: c.behind, 1, 1, { echo := true },
        [.mode telnetWill telnetEcho]⟩ := by
    simp only [readRound, hfound, hswitch, ReadState.removeCommand]
    rw [if_neg (by rw [c.length_buf]; decide), hbuf]
    rfl
  have hnone : memchr (97 :: 0 :: telnetDo :: telnetEcho :: 0 :: c.behind) 1 telnetCmd 1 = some none :=
    memchr_none (by simp) (List.not_mem_cons_of_ne_of_not_mem (by decide) List.not_mem_nil)
  have hsecond : readRound ⟨97 :: 0 :: telnetDo :: telnetEcho :: 0 :: c.behind, 1, 1,
      { echo := true }, [.mode telnetWill telnetEcho]⟩ =
      .exit ⟨97 :: 0 :: telnetDo :: telnetEcho :: 0 :: c.behind, 1, 1, { echo := true },
        [.mode telnetWill telnetEcho]⟩ := by
    simp only [readRound, hnone]
  rw [hc, telnetFilterRead]
  exact (congrArg (Option.bind · passOn) (iterate_again hfirst 4)).trans
    (congrArg (Option.bind · passOn) (iterate_exit hsecond 3))

/-- When the chunk ends behind the command byte, the NUL is taken for the command and the text is
lost. -/
theorem read_doEcho_first {c : Chunk} (hc : c.data = [97, telnetCmd]) :
    telnetFilterRead c.buf c.data.length {} = some ({}, []) := by
  have hbuf : c.buf = 97 :: telnetCmd :: 0 :: c.behind := by
    rw [Chunk.buf, hc]
    rfl
  have hfound : memchr c.buf 0 telnetCmd 2 = some (some 1) := by rw [hbuf]; rfl
  have hswitch : c.buf[1 + 1]?.bind (telnetSwitch c.buf 1 {}) = some ⟨1, 2, {}, []⟩ := by
    rw [hbuf]
    rfl
  have hfirst : readRound ⟨c.buf, 0, 2, {}, []⟩ = .again ⟨c.buf, 1, 0, {}, []⟩ := by
    simp only [readRound, hfound, hswitch, ReadState.removeCommand]
    rw [if_neg (by rw [c.length_buf]; decide), hbuf]
    rfl
  have hnone : memchr c.buf 1 telnetCmd 0 = some none :=
    memchr_none (by rw [c.length_buf]; decide) List.not_mem_nil
  have hsecond : readRound ⟨c.buf, 1, 0, {}, []⟩ = .exit ⟨c.buf, 1, 0, {}, []⟩ := by
    simp only [readRound, hnone]
  rw [hc, telnetFilterRead]
  exact (congrArg (Option.bind · passOn) (iterate_again hfirst 2)).trans
    (congrArg (Option.bind · passOn) (iterate_exit hsecond 1))

/-- The request in one chunk, and cut in its middle: data, reply and session differ. -/
theorem segmentation_matters :
    ∃ whole first second : Chunk, joined [whole] = doEcho ∧ joined [first, second] = doEcho ∧
      readChunks {} [whole] =
        some ({ echo := true }, [.mode telnetWill telnetEcho, .onWrite [97], .onRead [97]]) ∧
      readChunks {} [first, second] = some ({}, [.onRead [telnetDo, telnetEcho]]) ∧
      ¬ SegmentationIndependent {} doEcho := by
  have hwhole : readChunks {} [padded doEcho (by decide) (by decide)] =
      some ({ echo := true }, [.mode telnetWill telnetEcho, .onWrite [97], .onRead [97]]) := by
    rw [readChunks, read_doEcho rfl]
    rfl
  have hcut : readChunks {} [padded [97, telnetCmd] (by decide) (by decide),
      padded [telnetDo, telnetEcho] (by decide) (by decide)] =
        some ({}, [.onRead [telnetDo, telnetEcho]]) := by
    rw [readChunks, read_doEcho_first rfl, Option.bind_some, readChunks,
      telnetFilterRead_eq_passOn _ (Chunk.length_le _) (by rw [Chunk.take_buf]; decide)]
    rfl
  refine ⟨_, _, _, rfl, rfl, hwhole, hcut, fun h => ?_⟩
  obtain ⟨r, r', hr, hr', -, -, hsession⟩ :=
    h [padded doEcho (by decide) (by decide)] [padded [97, telnetCmd] (by decide) (by decide),
      padded [telnetDo, telnetEcho] (by decide) (by decide)] rfl rfl
  rw [hwhole] at hr
  rw [hcut] at hr'
  cases hr
  cases hr'
  exact absurd hsession (by decide)

end ExamplePrograms.Onethread.Telnet
