import ExamplePrograms.Onethread.Telnet.Commands

/-!
# Escaping and unescaping

`telnet_filter_write` means to double the command byte, but it writes this byte as `'\255'`, which C reads
as octal. So it doubles another byte and lets the command byte through, and `decode`, which states what
`telnet_filter_read` makes of its data, gives back what was written just when the text has neither of
the two.
-/

set_option autoImplicit false

namespace ExamplePrograms.Onethread.Telnet

open ExamplePrograms.Lib.Loops ExamplePrograms.Lib.Memory

/-! ## What is written -/

/-- No byte of the text is a NUL, a CR or a formatting byte. -/
def Unformatted (x : List UInt8) : Prop := ∀ c ∈ x, c ∉ [0, cr, 2, bel, 15, 22, 31]

instance (x : List UInt8) : Decidable (Unformatted x) :=
  List.decidableBAll (fun c => c ∉ [0, cr, 2, bel, 15, 22, 31]) x

/-- Every LF replaced by CR LF. -/
def crlfLines (x : List UInt8) : List UInt8 := x.flatMap fun c => if c = lf then crlf else [c]

/-- What the filter writes for a byte of an unformatted text. -/
def writtenByte (c : UInt8) : List UInt8 :=
  if c = lf then crlf else if c = octal255 then [octal255, octal255] else [c]

/-- Text without formatting is written byte by byte. -/
theorem discipline_unformatted {x : List UInt8} (h : Unformatted x) :
    discipline false x = x.flatMap writtenByte := by
  induction x with
  | nil => rfl
  | cons c x ih =>
    have hc := h c List.mem_cons_self
    simp only [List.mem_cons, List.not_mem_nil, or_false, not_or] at hc
    obtain ⟨-, hcr, h2, hbel, h15, h22, h31⟩ := hc
    have hesc : escCode c = none := by simp [escCode, h2, h15, h22, h31]
    have hrest := ih fun y hy => h y (List.mem_cons_of_mem c hy)
    rw [discipline, if_neg hbel, if_neg hcr, hesc, hrest, List.flatMap_cons, writtenByte]
    split
    · rfl
    · split <;> rfl

/-- Bytes that are written as often as they stand there. -/
theorem count_flatMap {f : UInt8 → List UInt8} {a : UInt8}
    (h : ∀ c, (f c).count a = [c].count a) (x : List UInt8) : (x.flatMap f).count a = x.count a := by
  induction x with
  | nil => rfl
  | cons c x ih =>
    rw [List.flatMap_cons, List.count_append, ih, h, ← List.count_append, List.singleton_append]

/-- The filter writes the command bytes of the text, no more and no less. -/
theorem count_written (x : List UInt8) :
    (x.flatMap writtenByte).count telnetCmd = x.count telnetCmd := by
  refine count_flatMap (fun c => ?_) x
  rw [writtenByte]
  split
  · next h => rw [h]; rfl
  split
  · next h => rw [h]; rfl
  · rfl

/-- The line ends have no command byte. -/
theorem count_crlfLines (x : List UInt8) : (crlfLines x).count telnetCmd = x.count telnetCmd := by
  refine count_flatMap (fun c => ?_) x
  split
  · next h => rw [h]; rfl
  · rfl

/-- The length of what is written. -/
theorem length_written (x : List UInt8) :
    (x.flatMap writtenByte).length = (crlfLines x).length + x.count octal255 := by
  induction x with
  | nil => rfl
  | cons c x ih =>
    have hcrlf : crlfLines (c :: x) = (if c = lf then crlf else [c]) ++ crlfLines x := rfl
    rw [List.flatMap_cons, hcrlf, List.length_append, List.length_append, ih, writtenByte]
    by_cases hlf : c = lf
    · rw [if_pos hlf, if_pos hlf, List.count_cons_of_ne (by rw [hlf]; decide)]
      omega
    rw [if_neg hlf, if_neg hlf]
    by_cases h255 : c = octal255
    · rw [if_pos h255, h255, List.count_cons_self, List.length_cons]
      omega
    · rw [if_neg h255, List.count_cons_of_ne h255]
      omega

/-- Without the byte `'\255'` only the line ends change. -/
theorem written_eq_crlfLines {x : List UInt8} (h : octal255 ∉ x) :
    x.flatMap writtenByte = crlfLines x := by
  refine List.flatMap_congr fun c hc => ?_
  have h255 : c ≠ octal255 := fun h' => h (h' ▸ hc)
  rw [writtenByte, if_neg h255]

/-- A text without command bytes has none in its lines. -/
theorem telnetCmd_notMem_crlfLines {x : List UInt8} (h : telnetCmd ∉ x) :
    telnetCmd ∉ crlfLines x := by
  rw [← List.count_eq_zero, count_crlfLines, List.count_eq_zero]
  exact h

/-- The output of the filter for an unformatted text. -/
theorem telnetFilterWrite_unformatted {x : List UInt8} (h : Unformatted x) :
    telnetFilterWrite x x.length = some (x.flatMap writtenByte) := by
  have h0 : 0 ∉ x := fun h0 => h 0 h0 List.mem_cons_self
  rw [telnetFilterWrite_eq (Nat.le_refl _) (by rwa [List.take_length]), List.take_length,
    discipline_unformatted h]

/-- **What is written is read**, just when the text has neither a command byte nor the byte that is
doubled in its place. -/
theorem decode_written_iff {x : List UInt8} (h : Unformatted x) :
    (telnetFilterWrite x x.length).map decode = some (crlfLines x) ↔
      telnetCmd ∉ x ∧ octal255 ∉ x := by
  rw [telnetFilterWrite_unformatted h, Option.map_some, Option.some.injEq]
  constructor
  · intro hdecode
    -- Half of the command bytes at most survive the decoding, so that there is none.
    have hcmd : telnetCmd ∉ x := by
      have hhalf := count_decode (x.flatMap writtenByte)
      rw [hdecode, count_crlfLines, count_written] at hhalf
      rw [← List.count_eq_zero]
      omega
    have hclean : telnetCmd ∉ x.flatMap writtenByte := by
      rw [← List.count_eq_zero, count_written, List.count_eq_zero]
      exact hcmd
    rw [decode_of_not_mem hclean] at hdecode
    have hlen := length_written x
    rw [hdecode] at hlen
    exact ⟨hcmd, List.count_eq_zero.1 (by omega)⟩
  · rintro ⟨hcmd, h255⟩
    rw [written_eq_crlfLines h255, decode_of_not_mem (telnetCmd_notMem_crlfLines hcmd)]

/-- A line of text. -/
theorem decode_written_lines :
    Unformatted [104, 105, lf] ∧
      (telnetFilterWrite [104, 105, lf] 3).map decode = some (crlfLines [104, 105, lf]) :=
  ⟨by decide, (decode_written_iff (by decide)).2 (by decide)⟩

/-- A command byte is written as it is, and takes the next byte with it. The byte `'\255'` is
doubled. -/
theorem written_altered :
    Unformatted [65, telnetCmd, 66, octal255] ∧
      telnetFilterWrite [65, telnetCmd, 66, octal255] 4 =
        some [65, telnetCmd, 66, octal255, octal255] ∧
      decode [65, telnetCmd, 66, octal255, octal255] = [65, octal255, octal255] ∧
      ¬ (telnetFilterWrite [65, telnetCmd, 66, octal255] 4).map decode =
        some (crlfLines [65, telnetCmd, 66, octal255]) := by
  have hwrite : telnetFilterWrite [65, telnetCmd, 66, octal255] 4 =
      some [65, telnetCmd, 66, octal255, octal255] :=
    telnetFilterWrite_unformatted (by decide)
  refine ⟨by decide, hwrite, by decide, ?_⟩
  rw [hwrite]
  decide

/-- What the filter writes for a text without the two bytes is read by a filter at the other end as the
text, however it is cut. -/
theorem readChunks_written {x : List UInt8} (h : Unformatted x) (hcmd : telnetCmd ∉ x)
    (h255 : octal255 ∉ x) {cut : List Chunk} (hcut : telnetFilterWrite x x.length = some (joined cut))
    (session : TelnetT) :
    ∃ out, readChunks session cut = some (session, out) ∧ received out = crlfLines x ∧
      replies out = [] := by
  rw [telnetFilterWrite_unformatted h, written_eq_crlfLines h255, Option.some.injEq] at hcut
  rw [hcut]
  refine readChunks_plain ⟨hcut ▸ telnetCmd_notMem_crlfLines hcmd, fun _ h0 => ?_⟩
  rw [← hcut, crlfLines, List.mem_flatMap] at h0
  obtain ⟨c, hc, h0⟩ := h0
  split at h0
  · exact absurd h0 (by decide)
  · exact h 0 (List.mem_singleton.1 h0 ▸ hc) List.mem_cons_self

end ExamplePrograms.Onethread.Telnet
