import ExamplePrograms.Onethread.Telnet.Discipline

/-!
# The lines that `telnet_filter_write` puts out

The output of the filter as a list of pieces, one or two for each byte of the input that is not
dropped. Read as pieces the output shows what its bytes do not: which escapes come from a formatting
byte, and that a line in which there is one is reset before it ends.
-/

set_option autoImplicit false

namespace ExamplePrograms.Onethread.Telnet

/-- A piece of the output: a character, the byte `'\255'` doubled, a code, a reset, or a line end. -/
inductive Piece where
  | copied (c : UInt8)
  | doubled
  | code (n : UInt8)
  | reset
  | newline
  deriving DecidableEq, Repr

/-- The bytes of a piece. -/
def Piece.bytes : Piece → List UInt8
  | .copied c => [c]
  | .doubled => [octal255, octal255]
  | .code n => escape n
  | .reset => escape 0
  | .newline => crlf

/-- The reset of a line that has a formatting code. -/
def resetPiece (code : Bool) : List Piece := if code then [.reset] else []

/-- The pieces for a byte string. `code` says that the line has a formatting code. -/
def pieces : Bool → List UInt8 → List Piece
  | _, [] => []
  | code, c :: rest =>
      if c = bel then pieces code rest
      else if c = cr then resetPiece code ++ pieces false rest
      else if c = lf then resetPiece code ++ .newline :: pieces false rest
      else if c = octal255 then .doubled :: pieces code rest
      else
        match escCode c with
        | some n => .code n :: pieces true rest
        | none => .copied c :: pieces code rest

/-- The bytes of a reset. -/
theorem flatMap_resetPiece (code : Bool) : (resetPiece code).flatMap Piece.bytes = lineReset code := by
  cases code with
  | false => rfl
  | true => rfl

/-- The output is the bytes of its pieces. -/
theorem discipline_eq_flatMap (code : Bool) (text : List UInt8) :
    discipline code text = (pieces code text).flatMap Piece.bytes := by
  induction text generalizing code with
  | nil => rfl
  | cons c text ih =>
    rw [discipline, pieces]
    split
    · exact ih code
    split
    · rw [List.flatMap_append, flatMap_resetPiece, ih]
    split
    · rw [List.flatMap_append, flatMap_resetPiece, List.flatMap_cons, ih, List.append_assoc]
      rfl
    split
    · rw [List.flatMap_cons, ih]
      rfl
    cases escCode c with
    | some n =>
      rw [List.flatMap_cons, ih]
      rfl
    | none =>
      rw [List.flatMap_cons, ← ih]
      rfl

/-! ## Resets -/

/-- Between a formatting code and the end of its line there is a reset. -/
def ResetsLines (ps : List Piece) : Prop :=
  ∀ before n line after, ps = before ++ .code n :: line ++ .newline :: after → .reset ∈ line

/-- There is a reset before the next line ends. -/
def ResetsFirst (ps : List Piece) : Prop :=
  ∀ line after, ps = line ++ .newline :: after → .reset ∈ line

/-- A piece that neither formats nor ends a line changes nothing. -/
theorem ResetsFirst.cons {ps : List Piece} {p : Piece} (h : ResetsFirst ps) (hp : p ≠ .newline) :
    ResetsFirst (p :: ps) := by
  intro line after heq
  cases line with
  | nil => exact absurd (List.cons.inj heq).1 hp
  | cons q line => exact List.mem_cons_of_mem q (h line after (List.cons.inj heq).2)

/-- A list that starts with a reset. -/
theorem ResetsFirst.reset (ps : List Piece) : ResetsFirst (.reset :: ps) := by
  intro line after heq
  cases line with
  | nil => cases (List.cons.inj heq).1
  | cons q line =>
    rw [← (List.cons.inj heq).1]
    exact List.mem_cons_self

/-- One more piece before the others, which is no code or stands before a reset. -/
theorem ResetsLines.cons {ps : List Piece} {p : Piece} (h : ResetsLines ps)
    (hp : ∀ n, p = .code n → ResetsFirst ps) : ResetsLines (p :: ps) := by
  intro before n line after heq
  cases before with
  | nil =>
    obtain ⟨rfl, hrest⟩ := List.cons.inj heq
    exact hp n rfl line after hrest
  | cons q before => exact h before n line after (List.cons.inj heq).2

/-- A reset before the others. -/
theorem ResetsLines.append_reset {ps : List Piece} (h : ResetsLines ps) (code : Bool) :
    ResetsLines (resetPiece code ++ ps) := by
  cases code with
  | false => exact h
  | true => exact h.cons fun n hn => by cases hn

/-- The flag of the loop: a line that has a formatting code is reset before it ends. -/
theorem resets_pieces (code : Bool) (text : List UInt8) :
    ResetsLines (pieces code text) ∧ (code = true → ResetsFirst (pieces code text)) := by
  induction text generalizing code with
  | nil => exact ⟨fun before _ _ _ h => by simp [pieces] at h, fun _ line _ h => by simp [pieces] at h⟩
  | cons c text ih =>
    rw [pieces]
    split
    · exact ih code
    split
    -- a CR is dropped, but the reset comes here
    · refine ⟨(ih false).1.append_reset code, ?_⟩
      rintro rfl
      exact .reset _
    split
    · refine ⟨((ih false).1.cons fun n hn => by cases hn).append_reset code, ?_⟩
      rintro rfl
      exact .reset _
    split
    · exact ⟨(ih code).1.cons (fun n hn => by cases hn), fun h => ((ih code).2 h).cons (by decide)⟩
    cases escCode c with
    | some n =>
      have hfirst := (ih true).2 rfl
      exact ⟨(ih true).1.cons fun _ _ => hfirst, fun _ => hfirst.cons (by simp)⟩
    | none =>
      exact ⟨(ih code).1.cons (fun n hn => by cases hn), fun h => ((ih code).2 h).cons (by simp)⟩

/-! ## Bytes -/

/-- A piece other than the end of a line holds neither a CR nor a LF, and no piece a formatting byte. -/
structure Piece.Clean (p : Piece) : Prop where
  lineEnd : p = .newline ∨ cr ∉ p.bytes ∧ lf ∉ p.bytes
  plain : ∀ c ∈ p.bytes, escCode c = none ∧ c ≠ bel

/-- Characters that were checked are no formatting. -/
theorem plain_of_all {l : List UInt8}
    (h : (l.all fun c => (escCode c).isNone && c != bel) = true) : ∀ c ∈ l, escCode c = none ∧ c ≠ bel := by
  intro c hc
  obtain ⟨hnone, hne⟩ := Bool.and_eq_true_iff.1 (List.all_eq_true.1 h c hc)
  exact ⟨Option.isNone_iff_eq_none.1 hnone, bne_iff_ne.1 hne⟩

/-- The digits of the escapes are 0, 1, 4 and 7. -/
theorem clean_code {c n : UInt8} (h : escCode c = some n) : (Piece.code n).Clean := by
  have hn : n = 1 ∨ n = 0 ∨ n = 7 ∨ n = 4 := by
    rw [escCode] at h
    split at h
    · exact Or.inl (Option.some.inj h).symm
    split at h
    · exact Or.inr (Or.inl (Option.some.inj h).symm)
    split at h
    · exact Or.inr (Or.inr (Or.inl (Option.some.inj h).symm))
    split at h
    · exact Or.inr (Or.inr (Or.inr (Option.some.inj h).symm))
    · cases h
  rcases hn with rfl | rfl | rfl | rfl
  · exact ⟨Or.inr (by decide), plain_of_all rfl⟩
  · exact ⟨Or.inr (by decide), plain_of_all rfl⟩
  · exact ⟨Or.inr (by decide), plain_of_all rfl⟩
  · exact ⟨Or.inr (by decide), plain_of_all rfl⟩

/-- An ordinary character is clean. -/
theorem clean_copied {c : UInt8} (hbel : c ≠ bel) (hcr : c ≠ cr) (hlf : c ≠ lf)
    (hesc : escCode c = none) : (Piece.copied c).Clean := by
  refine ⟨Or.inr ⟨fun h => hcr (List.mem_singleton.1 h).symm, fun h => ?_⟩, fun d hd => ?_⟩
  · exact hlf (List.mem_singleton.1 h).symm
  · rw [List.mem_singleton.1 hd]
    exact ⟨hesc, hbel⟩

/-- A reset is clean. -/
theorem clean_resetPiece (code : Bool) : ∀ p ∈ resetPiece code, p.Clean := by
  cases code with
  | false => exact fun p hp => absurd hp List.not_mem_nil
  | true =>
    intro p hp
    rw [List.mem_singleton.1 hp]
    exact ⟨Or.inr (by decide), plain_of_all rfl⟩

/-- Every piece of the output is clean. -/
theorem clean_pieces (code : Bool) (text : List UInt8) : ∀ p ∈ pieces code text, p.Clean := by
  induction text generalizing code with
  | nil => exact fun p hp => absurd hp List.not_mem_nil
  | cons c text ih =>
    rw [pieces]
    split
    · exact ih code
    next hbel =>
    split
    · exact List.forall_mem_append.2 ⟨clean_resetPiece code, ih false⟩
    next hcr =>
    split
    · refine List.forall_mem_append.2 ⟨clean_resetPiece code, List.forall_mem_cons.2 ⟨?_, ih false⟩⟩
      exact ⟨Or.inl rfl, plain_of_all rfl⟩
    next hlf =>
    split
    · exact List.forall_mem_cons.2 ⟨⟨Or.inr (by decide), plain_of_all rfl⟩, ih code⟩
    cases hesc : escCode c with
    | some n => exact List.forall_mem_cons.2 ⟨clean_code hesc, ih true⟩
    | none => exact List.forall_mem_cons.2 ⟨clean_copied hbel hcr hlf hesc, ih code⟩

/-- Every CR is followed by a LF and every LF is behind a CR. -/
def LineEndsPaired (out : List UInt8) : Prop :=
  ∀ i : Nat, (out[i]? = some cr → out[i + 1]? = some lf) ∧
    (out[i]? = some lf → 0 < i ∧ out[i - 1]? = some cr)

/-- A line end before the others. -/
theorem lineEndsPaired_crlf {out : List UInt8} (h : LineEndsPaired out) :
    LineEndsPaired (crlf ++ out) := by
  have hne : some cr ≠ some lf := by decide
  intro i
  match i with
  | 0 => exact ⟨fun _ => rfl, fun hlf => absurd hlf hne⟩
  | 1 => exact ⟨fun hcr => absurd hcr hne.symm, fun _ => ⟨Nat.one_pos, rfl⟩⟩
  | i + 2 =>
    refine ⟨(h i).1, fun hlf => ⟨Nat.succ_pos _, ?_⟩⟩
    obtain ⟨hpos, hcr⟩ := (h i).2 hlf
    obtain ⟨j, rfl⟩ := Nat.exists_eq_succ_of_ne_zero (Nat.ne_of_gt hpos)
    exact hcr

/-- A block without line ends before the others. -/
theorem lineEndsPaired_append {block out : List UInt8} (h : LineEndsPaired out) (hcr : cr ∉ block)
    (hlf : lf ∉ block) : LineEndsPaired (block ++ out) := by
  intro i
  by_cases hi : i < block.length
  · rw [List.getElem?_append_left hi]
    exact ⟨fun hc => absurd (List.mem_of_getElem? hc) hcr,
      fun hc => absurd (List.mem_of_getElem? hc) hlf⟩
  · rw [Nat.not_lt] at hi
    rw [List.getElem?_append_right hi, List.getElem?_append_right (Nat.le_succ_of_le hi)]
    have hnext : i + 1 - block.length = i - block.length + 1 := by omega
    refine ⟨fun hc => hnext ▸ (h _).1 hc, fun hc => ?_⟩
    obtain ⟨hpos, hprev⟩ := (h _).2 hc
    have hsub : i - 1 - block.length = i - block.length - 1 := by omega
    refine ⟨by omega, ?_⟩
    rw [List.getElem?_append_right (by omega), hsub]
    exact hprev

/-- The line ends of clean pieces are paired. -/
theorem lineEndsPaired_flatMap {ps : List Piece} (h : ∀ p ∈ ps, p.Clean) :
    LineEndsPaired (ps.flatMap Piece.bytes) := by
  induction ps with
  | nil => exact fun i => ⟨fun hc => by simp at hc, fun hc => by simp at hc⟩
  | cons p ps ih =>
    obtain ⟨hp, hps⟩ := List.forall_mem_cons.1 h
    rw [List.flatMap_cons]
    rcases hp.lineEnd with rfl | ⟨hcr, hlf⟩
    · exact lineEndsPaired_crlf (ih hps)
    · exact lineEndsPaired_append (ih hps) hcr hlf

/-- **`telnet_filter_write` follows its line discipline** on text without NUL: its output is that of
`pieces` byte by byte, each CR and LF in it are a pair, no formatting byte is left in it, and a line
with a formatting code is reset before it ends. -/
theorem telnetFilterWrite_lines (text behind : List UInt8) (h0 : 0 ∉ text) :
    ∃ out, telnetFilterWrite (text ++ behind) text.length = some out ∧
      out = (pieces false text).flatMap Piece.bytes ∧ LineEndsPaired out ∧
      (∀ c ∈ out, escCode c = none ∧ c ≠ bel) ∧ ResetsLines (pieces false text) := by
  have htake : (text ++ behind).take text.length = text := List.take_left
  have hlen : text.length ≤ (text ++ behind).length := by
    rw [List.length_append]
    exact Nat.le_add_right _ _
  have hwrite := telnetFilterWrite_eq hlen (by rwa [htake])
  have hclean := clean_pieces false text
  rw [htake, discipline_eq_flatMap] at hwrite
  refine ⟨_, hwrite, rfl, lineEndsPaired_flatMap hclean, fun c hc => ?_, (resets_pieces false text).1⟩
  obtain ⟨p, hp, hcp⟩ := List.mem_flatMap.1 hc
  exact (hclean p hp).plain c hcp

/-- A bold line. -/
theorem telnetFilterWrite_lines_bold :
    ∃ out, telnetFilterWrite ([2, 104, 105, lf] ++ [0]) [2, 104, 105, lf].length = some out ∧
      out = (pieces false [2, 104, 105, lf]).flatMap Piece.bytes ∧ LineEndsPaired out ∧
      (∀ c ∈ out, escCode c = none ∧ c ≠ bel) ∧ ResetsLines (pieces false [2, 104, 105, lf]) :=
  telnetFilterWrite_lines [2, 104, 105, lf] [0] (by decide)

end ExamplePrograms.Onethread.Telnet
