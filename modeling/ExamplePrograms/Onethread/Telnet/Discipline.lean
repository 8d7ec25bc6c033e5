import ExamplePrograms.Onethread.Telnet.Filter

/-!
# The line discipline of `telnet_filter_write`

`discipline` says byte by byte what the filter makes of its input; it knows nothing of the runs of 63
bytes, of the offsets or of the growing string. On input without NUL the loop of the filter produces
just that (`telnetFilterWrite_eq`). The invariant `Sound` is that the string so far, followed by the
discipline of the bytes that are left, is the discipline of the whole input.
-/

set_option autoImplicit false

namespace ExamplePrograms.Onethread.Telnet

open ExamplePrograms.Lib.Loops ExamplePrograms.Lib.Memory

/-- What ends the formatting of a line. -/
def lineReset (code : Bool) : List UInt8 := if code then escape 0 else []

/-- The output for a byte string. `code` says that the line has a formatting code. -/
def discipline : Bool → List UInt8 → List UInt8
  | _, [] => []
  | code, c :: rest =>
      if c = bel then discipline code rest
      else if c = cr then lineReset code ++ discipline false rest
      else if c = lf then lineReset code ++ crlf ++ discipline false rest
      else if c = octal255 then [octal255, octal255] ++ discipline code rest
      else
        match escCode c with
        | some n => escape n ++ discipline true rest
        | none => c :: discipline code rest

/-- Bytes that are not filtered are copied. -/
theorem discipline_append {run : List UInt8} (h : ∀ c ∈ run, isFiltered c = false) (code : Bool)
    (rest : List UInt8) : discipline code (run ++ rest) = run ++ discipline code rest := by
  induction run with
  | nil => rfl
  | cons c run ih =>
    have hc : isFiltered c = false := h c List.mem_cons_self
    simp only [isFiltered, filterchars, List.contains_cons, List.contains_nil, Bool.or_eq_false_iff,
      beq_eq_false_iff_ne] at hc
    obtain ⟨-, hlf, hcr, h2, hbel, h15, h22, h31, h255, -⟩ := hc
    have hesc : escCode c = none := by simp [escCode, h2, h15, h22, h31]
    rw [List.cons_append, discipline, if_neg hbel, if_neg hcr, if_neg hlf, if_neg h255, hesc,
      ih fun x hx => h x (List.mem_cons_of_mem _ hx), List.cons_append]

/-! ## One round -/

/-- The bytes that are left. -/
def WriteState.rest (s : WriteState) (data : List UInt8) : List UInt8 :=
  (data.drop s.pos).take s.len

/-- The invariant of the loop. -/
structure Sound (data goal : List UInt8) (s : WriteState) : Prop where
  bounds : s.pos + s.len ≤ data.length
  noNul : 0 ∉ s.rest data
  output : s.newline.text ++ discipline s.code (s.rest data) = goal

section Round

variable {data goal : List UInt8} {s s' : WriteState}

/-- A round that consumes `n` bytes and appends `out`, which is what the discipline makes of them. -/
structure Advance (data : List UInt8) (s s' : WriteState) (n : Nat) (out : List UInt8) : Prop where
  pos : s'.pos = s.pos + n
  len : s'.len = s.len - n
  some_byte : 0 < n
  within : n ≤ s.len
  noNul : ∀ j < n, data[s.pos + j]? ≠ some 0
  text : s'.newline.text = s.newline.text ++ out
  output : discipline s.code (s.rest data) = out ++ discipline s'.code ((s.rest data).drop n)

/-- A round that advances keeps the invariant. -/
theorem Sound.advance (h : Sound data goal s) {n : Nat} {out : List UInt8}
    (ha : Advance data s s' n out) : Sound data goal s' := by
  have hrest : s'.rest data = (s.rest data).drop n := by
    rw [WriteState.rest, WriteState.rest, ha.pos, ha.len, List.drop_take, List.drop_drop]
  refine ⟨?_, fun h0 => h.noNul ?_, ?_⟩
  · have hbounds := h.bounds
    have hpos := ha.pos
    have hlen := ha.len
    have hwithin := ha.within
    omega
  · rw [hrest] at h0
    exact List.mem_of_mem_drop h0
  · rw [hrest, ha.text, List.append_assoc, ← ha.output]
    exact h.output

/-- The byte at the pointer is the first of those that are left. -/
theorem WriteState.rest_eq_cons (hbounds : s.pos + s.len ≤ data.length) (hlen : s.len ≠ 0) :
    ∃ c tail, data[s.pos]? = some c ∧ s.rest data = c :: tail := by
  have hlt : s.pos < data.length := by omega
  obtain ⟨n, hn⟩ : ∃ n, s.len = n + 1 := ⟨s.len - 1, by omega⟩
  have hrest : s.rest data = data[s.pos] :: (data.drop (s.pos + 1)).take n := by
    rw [WriteState.rest, hn, List.drop_eq_getElem_cons hlt, List.take_succ_cons]
  exact ⟨data[s.pos], _, List.getElem?_eq_getElem hlt, hrest⟩

/-- A run is copied without the characters that are filtered. -/
theorem copyRun_spec {n pos : Nat} (h : pos + n ≤ data.length) :
    ∃ temp, copyRun data n pos = some temp ∧ temp <+: (data.drop pos).take n ∧
      ∀ c ∈ temp, isFiltered c = false := by
  induction n generalizing pos with
  | zero => exact ⟨[], rfl, List.nil_prefix, fun c hc => absurd hc List.not_mem_nil⟩
  | succ n ih =>
    have hlt : pos < data.length := by omega
    rw [List.drop_eq_getElem_cons hlt, List.take_succ_cons]
    simp only [copyRun, List.getElem?_eq_getElem hlt]
    by_cases hf : isFiltered data[pos] = true
    · exact ⟨[], by rw [if_pos hf], List.nil_prefix, fun c hc => absurd hc List.not_mem_nil⟩
    · obtain ⟨temp, htemp, hprefix, hplain⟩ := ih (show pos + 1 + n ≤ data.length by omega)
      refine ⟨data[pos] :: temp, by rw [if_neg hf, htemp]; rfl,
        List.cons_prefix_cons.2 ⟨rfl, hprefix⟩, fun c hc => ?_⟩
      rcases List.mem_cons.1 hc with rfl | hc
      · simpa using hf
      · exact hplain c hc

/-- What the inner loop copies is what the bytes that are left start with. -/
theorem WriteState.copyRun (hbounds : s.pos + s.len ≤ data.length) :
    ∃ temp, copyRun data (min 63 s.len) s.pos = some temp ∧ temp <+: s.rest data ∧
      temp.length ≤ s.len ∧ ∀ c ∈ temp, isFiltered c = false := by
  obtain ⟨temp, htemp, hprefix, hplain⟩ :=
    copyRun_spec (show s.pos + min 63 s.len ≤ data.length by omega)
  have hrest : temp <+: s.rest data :=
    hprefix.trans (List.take_prefix_take_left (Nat.min_le_right 63 s.len))
  refine ⟨temp, htemp, hrest, ?_, hplain⟩
  have hle := hrest.length_le
  rw [WriteState.rest, List.length_take] at hle
  omega

/-- A prefix of the bytes that are left stands at the pointer. -/
theorem WriteState.getElem?_prefix {temp : List UInt8} (h : temp <+: s.rest data) {j : Nat}
    (hj : j < temp.length) : data[s.pos + j]? = temp[j]? := by
  obtain ⟨after, hafter⟩ := h
  have hlen := congrArg List.length hafter
  rw [List.length_append, WriteState.rest, List.length_take] at hlen
  have hget : (s.rest data)[j]? = temp[j]? := by
    rw [← hafter, List.getElem?_append_left hj]
  rw [← hget, WriteState.rest, List.getElem?_take_of_lt (by omega), List.getElem?_drop]

/-- The text behind a reset. -/
theorem text_reset (s : WriteState) :
    s.reset.newline.text = s.newline.text ++ lineReset s.code := by
  rw [WriteState.reset, lineReset]
  split
  · exact text_eggAppendStr _ _
  · rw [List.append_nil]

/-- A reset ends the code. -/
theorem code_reset (s : WriteState) : s.reset.code = false := by
  rw [WriteState.reset]
  split
  · rfl
  · next h => simpa using h

/-- A reset stays at its byte. -/
theorem pos_reset (s : WriteState) : s.reset.pos = s.pos := by
  rw [WriteState.reset]
  split <;> rfl

/-- A reset leaves as much to read. -/
theorem len_reset (s : WriteState) : s.reset.len = s.len := by
  rw [WriteState.reset]
  split <;> rfl

/-- A round at a byte other than NUL consumes something. -/
theorem writeRound_advance {c : UInt8} (hbounds : s.pos + s.len ≤ data.length) (hlen : s.len ≠ 0)
    (hc : data[s.pos]? = some c) (h0 : c ≠ 0) :
    ∃ s' n out, writeRound data s = .again s' ∧ Advance data s s' n out := by
  obtain ⟨c', tail, hc', hrest⟩ := WriteState.rest_eq_cons hbounds hlen
  obtain rfl : c = c' := Option.some.inj (hc.symm.trans hc')
  rw [writeRound, if_neg hlen]
  simp only [hc, if_neg h0]
  -- one case for each test of the loop; all but the last consume one byte
  have hdrop : (s.rest data).drop 1 = tail := by rw [hrest]; rfl
  have hpos : 1 ≤ s.len := Nat.one_le_iff_ne_zero.2 hlen
  have hone : ∀ j < 1, data[s.pos + j]? ≠ some 0 := by
    intro j hj
    rw [Nat.lt_one_iff.1 hj, Nat.add_zero, hc]
    exact fun h => h0 (Option.some.inj h)
  by_cases hbel : c = bel
  · refine ⟨_, 1, [], if_pos hbel, rfl, rfl, Nat.one_pos, hpos, hone, ?_, ?_⟩
    · exact (List.append_nil _).symm
    · rw [hdrop, hrest, discipline, if_pos hbel]
      rfl
  rw [if_neg hbel]
  by_cases hcr : c = cr
  · refine ⟨_, 1, lineReset s.code, if_pos hcr, ?_, ?_, Nat.one_pos, hpos, hone, ?_, ?_⟩
    · exact congrArg (· + 1) (pos_reset s)
    · exact congrArg (· - 1) (len_reset s)
    · exact text_reset s
    · rw [hdrop, hrest, discipline, if_neg hbel, if_pos hcr]
      exact congrArg (lineReset s.code ++ discipline · tail) (code_reset s).symm
  rw [if_neg hcr]
  by_cases hlf : c = lf
  · refine ⟨_, 1, lineReset s.code ++ crlf, if_pos hlf, ?_, ?_, Nat.one_pos, hpos, hone, ?_, ?_⟩
    · exact congrArg (· + 1) (pos_reset s)
    · exact congrArg (· - 1) (len_reset s)
    · show (eggAppendStr s.reset.newline crlf).text = _
      rw [text_eggAppendStr, text_reset, List.append_assoc]
    · rw [hdrop, hrest, discipline, if_neg hbel, if_neg hcr, if_pos hlf]
      exact congrArg (lineReset s.code ++ crlf ++ discipline · tail) (code_reset s).symm
  rw [if_neg hlf]
  by_cases h255 : c = octal255
  · refine ⟨_, 1, [octal255, octal255], if_pos h255, rfl, rfl, Nat.one_pos, hpos, hone, ?_, ?_⟩
    · exact text_eggAppendStr _ _
    · rw [hdrop, hrest, discipline, if_neg hbel, if_neg hcr, if_neg hlf, if_pos h255]
      rfl
  rw [if_neg h255]
  cases hesc : escCode c with
  | some n =>
    refine ⟨_, 1, escape n, rfl, rfl, rfl, Nat.one_pos, hpos, hone, ?_, ?_⟩
    · exact text_eggAppendStr _ _
    · rw [hdrop, hrest, discipline, if_neg hbel, if_neg hcr, if_neg hlf, if_neg h255, hesc]
  | none =>
    -- the run of plain bytes that the inner loop copies
    obtain ⟨temp, htemp, hprefix, htlen, hplain⟩ := WriteState.copyRun hbounds
    -- The first byte is not filtered, so that the run is not empty.
    have hf : isFiltered c = false := by
      have h2 : c ≠ 2 := by rintro rfl; exact absurd hesc (by decide)
      have h15 : c ≠ 15 := by rintro rfl; exact absurd hesc (by decide)
      have h22 : c ≠ 22 := by rintro rfl; exact absurd hesc (by decide)
      have h31 : c ≠ 31 := by rintro rfl; exact absurd hesc (by decide)
      simp [isFiltered, filterchars, h0, hbel, hcr, hlf, h255, h2, h15, h22, h31]
    simp only [htemp]
    refine ⟨_, temp.length, temp, rfl, rfl, rfl, copyRun_pos hc hf (by omega) htemp, htlen, ?_, ?_, ?_⟩
    · intro j hj
      rw [WriteState.getElem?_prefix hprefix hj, List.getElem?_eq_getElem hj]
      intro h
      have hnul := hplain _ (List.getElem_mem hj)
      rw [Option.some.inj h] at hnul
      exact absurd hnul (by decide)
    · exact text_eggAppendStr _ _
    · obtain ⟨after, hafter⟩ := hprefix
      rw [← hafter, List.drop_left, discipline_append hplain]
      rfl

/-- A round ends the loop, or keeps the invariant and consumes something. -/
theorem Sound.round (h : Sound data goal s) :
    (s.len = 0 ∧ writeRound data s = .exit s) ∨
      ∃ s', writeRound data s = .again s' ∧ Sound data goal s' ∧ s'.len < s.len := by
  by_cases hlen : s.len = 0
  · exact Or.inl ⟨hlen, by rw [writeRound, if_pos hlen]⟩
  obtain ⟨c, tail, hc, hrest⟩ := WriteState.rest_eq_cons h.bounds hlen
  have h0 : c ≠ 0 := by
    rintro rfl
    apply h.noNul
    rw [hrest]
    exact List.mem_cons_self
  obtain ⟨s', n, out, hround, ha⟩ := writeRound_advance h.bounds hlen hc h0
  refine Or.inr ⟨s', hround, h.advance ha, ?_⟩
  have hn := ha.some_byte
  rw [ha.len]
  omega

end Round

/-- On bytes without NUL `telnet_filter_write` ends, and its output is that of the discipline. -/
theorem telnetFilterWrite_eq {data : List UInt8} {len : Nat} (hlen : len ≤ data.length)
    (h0 : 0 ∉ data.take len) :
    telnetFilterWrite data len = some (discipline false (data.take len)) := by
  have hstart : Sound data (discipline false (data.take len)) ⟨0, len, .empty, false⟩ := by
    refine ⟨by simpa using hlen, by simpa [WriteState.rest] using h0, ?_⟩
    simp [WriteState.rest]
  obtain ⟨r, hr, hsound, hdone⟩ := iterate_variant
    (Q := fun r => Sound data (discipline false (data.take len)) r ∧ r.len = 0) WriteState.len
    (fun s hs => hs.round.imp (fun h => ⟨s, h.2, hs, h.1⟩) id) hstart (Nat.lt_succ_self len)
  rw [telnetFilterWrite, hr, Option.map_some, ← hsound.output, WriteState.rest, hdone,
    List.take_zero, discipline, List.append_nil]

end ExamplePrograms.Onethread.Telnet
