import ExamplePrograms.Onethread.Telnet.Discipline

/-!
# The loop of `telnet_filter_write`

The data that is echoed comes from the client and may have any bytes. All cases of the loop consume
something but one: at a NUL the loop looks at the byte before, and behind any other byte than a CR it
neither consumes the NUL nor leaves the loop. At the start of the data the byte before is outside.
`writeSound_iff` says that this is the only fault.
-/

set_option autoImplicit false

namespace ExamplePrograms.Onethread.Telnet

open ExamplePrograms.Lib.Loops

/-- The offsets that a round reads: `*data`, `*(data - 1)`, and `*data` in the inner loop. -/
inductive WriteReads (block : List UInt8) (s : WriteState) : Int → Prop
  | byte (hlen : s.len ≠ 0) : WriteReads block s s.pos
  | before (hlen : s.len ≠ 0) (hnul : block[s.pos]? = some 0) : WriteReads block s (s.pos - 1)
  | run {i : Nat} (hlen : s.len ≠ 0) (hi : i < min 63 s.len)
      (hplain : ∀ j < i, ∃ c, block[s.pos + j]? = some c ∧ isFiltered c = false) :
      WriteReads block s (s.pos + i)

/-- The first round on a block of `len` bytes. -/
def writeStart (len : Nat) : WriteState := ⟨0, len, .empty, false⟩

/-- The loop ends, every round that goes on consumes at least one byte, and no round reads outside the
data. -/
structure WriteSound (data behind : List UInt8) : Prop where
  ends : ∃ n r, iterate (writeRound (data ++ behind)) n (writeStart data.length) = some r
  consumes : ∀ s, Visits (writeRound (data ++ behind)) (writeStart data.length) s →
    ∀ s', writeRound (data ++ behind) s = .again s' → ∃ n, 0 < n ∧ s'.pos = s.pos + n ∧ s.len = s'.len + n
  reads : ∀ s, Visits (writeRound (data ++ behind)) (writeStart data.length) s →
    ∀ i, WriteReads (data ++ behind) s i → 0 ≤ i ∧ i < data.length

/-- Every NUL stands directly behind a CR. -/
def NulsBehindCr (data : List UInt8) : Prop :=
  ∀ i : Nat, data[i]? = some 0 → 0 < i ∧ data[i - 1]? = some cr

section

variable {data behind : List UInt8} {s s' : WriteState}

/-- The loop ends when nothing is left. -/
theorem writeRound_done (data : List UInt8) (hlen : s.len = 0) : writeRound data s = .exit s :=
  if_pos hlen

/-- The round at a NUL. -/
theorem writeRound_nul (hlen : s.len ≠ 0) (hc : data[s.pos]? = some 0) :
    writeRound data s = s.nul data := by
  rw [writeRound, if_neg hlen, hc]
  exact if_pos rfl

/-- A NUL behind a CR becomes a line end. -/
theorem nul_behind_cr (hpos : 0 < s.pos) (hc : data[s.pos - 1]? = some cr) :
    s.nul data = .again ((s.append crlf).skip 1) := by
  rw [WriteState.nul, if_neg (Nat.ne_of_gt hpos), hc]
  exact congrArg Round.again (if_pos rfl)

/-- At a NUL behind no byte or another one the loop is undefined or stays where it is. -/
theorem nul_cases (s : WriteState) (data : List UInt8) :
    0 < s.pos ∧ data[s.pos - 1]? = some cr ∨ s.nul data = .undefined ∨ s.nul data = .again s := by
  rw [WriteState.nul]
  split
  · exact Or.inr (Or.inl rfl)
  · next hpos =>
    cases hc : data[s.pos - 1]? with
    | none => exact Or.inr (Or.inl rfl)
    | some c =>
      by_cases hcr : c = cr
      · exact Or.inl ⟨Nat.pos_of_ne_zero hpos, congrArg some hcr⟩
      · exact Or.inr (Or.inr (congrArg Round.again (if_neg hcr)))

/-- The pointer and the length go through the data together. -/
def WriteState.Aligned (s : WriteState) (total : Nat) : Prop := s.pos + s.len = total

/-- The loop starts inside the data. -/
theorem writeStart_aligned (total : Nat) : (writeStart total).Aligned total := Nat.zero_add total

/-- The loop stays inside the data. -/
theorem WriteState.Aligned.bounds (hs : s.Aligned data.length) (behind : List UInt8) :
    s.pos + s.len ≤ (data ++ behind).length := by
  rw [List.length_append, hs]
  exact Nat.le_add_right _ _

/-- When all NULs are behind a CR, a round leaves the loop or consumes something. -/
theorem NulsBehindCr.round (h : NulsBehindCr data) (behind : List UInt8)
    (hs : s.Aligned data.length) :
    writeRound (data ++ behind) s = .exit s ∨
      ∃ s' n, writeRound (data ++ behind) s = .again s' ∧ s'.Aligned data.length ∧ 0 < n ∧
        s'.pos = s.pos + n ∧ s.len = s'.len + n := by
  by_cases hlen : s.len = 0
  · exact Or.inl (writeRound_done _ hlen)
  have hconsume : ∃ s' n, writeRound (data ++ behind) s = .again s' ∧ 0 < n ∧ s'.pos = s.pos + n ∧
      s.len = s'.len + n := by
    obtain ⟨c, tail, hc, -⟩ := WriteState.rest_eq_cons (hs.bounds behind) hlen
    by_cases h0 : c = 0
    · subst h0
      have hlt : s.pos < data.length := by
        rw [← hs]
        omega
      rw [List.getElem?_append_left hlt] at hc
      obtain ⟨hpos, hcr⟩ := h s.pos hc
      rw [← List.getElem?_append_left (by omega)] at hc hcr
      refine ⟨(s.append crlf).skip 1, 1, ?_, Nat.one_pos, rfl, ?_⟩
      · rw [writeRound_nul hlen hc, nul_behind_cr hpos hcr]
      · show s.len = s.len - 1 + 1
        omega
    · obtain ⟨s', n, out, hround, ha⟩ := writeRound_advance (hs.bounds behind) hlen hc h0
      refine ⟨s', n, hround, ha.some_byte, ha.pos, ?_⟩
      have hwithin := ha.within
      rw [ha.len]
      omega
  obtain ⟨s', n, hround, hn, hpos, hlen'⟩ := hconsume
  refine Or.inr ⟨s', n, hround, ?_, hn, hpos, hlen'⟩
  rw [WriteState.Aligned, hpos, ← hs, hlen']
  omega

/-- What a round that goes on has done. -/
theorem NulsBehindCr.round_again (h : NulsBehindCr data) (hs : s.Aligned data.length)
    (hround : writeRound (data ++ behind) s = .again s') :
    s'.Aligned data.length ∧ ∃ n, 0 < n ∧ s'.pos = s.pos + n ∧ s.len = s'.len + n := by
  rcases h.round behind hs with hexit | ⟨s'', n, hround', hs', hn, hpos, hlen⟩
  · rw [hexit] at hround
    cases hround
  · rw [hround'] at hround
    cases hround
    exact ⟨hs', n, hn, hpos, hlen⟩

/-- **The loop ends** when every NUL stands behind a CR. -/
theorem NulsBehindCr.ends (h : NulsBehindCr data) (behind : List UInt8) :
    ∃ r, iterate (writeRound (data ++ behind)) (data.length + 1) (writeStart data.length) = some r := by
  have hvariant : ∀ s : WriteState, s.Aligned data.length →
      (∃ r, writeRound (data ++ behind) s = .exit r ∧ True) ∨
        ∃ s', writeRound (data ++ behind) s = .again s' ∧ s'.Aligned data.length ∧ s'.len < s.len := by
    intro s hs
    rcases h.round behind hs with hexit | ⟨s', n, hround, hs', hn, -, hlen⟩
    · exact Or.inl ⟨s, hexit, trivial⟩
    · exact Or.inr ⟨s', hround, hs', by omega⟩
  obtain ⟨r, hr, -⟩ := iterate_variant WriteState.len hvariant (writeStart_aligned data.length)
    (Nat.lt_succ_self data.length)
  exact ⟨r, hr⟩

/-- A loop that ends has passed every NUL, and it passes those behind a CR only. -/
theorem nulsBehindCr_of_iterate (behind : List UInt8) {n : Nat} {r : WriteState} (hs : s.Aligned data.length)
    (h : iterate (writeRound (data ++ behind)) n s = some r) :
    ∀ i : Nat, s.pos ≤ i → data[i]? = some 0 → 0 < i ∧ data[i - 1]? = some cr := by
  induction n generalizing s with
  | zero => cases h
  | succ n ih =>
    intro i hi hnul
    have hilt : i < data.length := (List.getElem?_eq_some_iff.1 hnul).1
    have hlen : s.len ≠ 0 := by
      rw [WriteState.Aligned] at hs
      omega
    have hbounds := hs.bounds behind
    obtain ⟨c, tail, hc, -⟩ := WriteState.rest_eq_cons hbounds hlen
    by_cases h0 : c = 0
    · subst h0
      have hround := writeRound_nul hlen hc
      rcases nul_cases s (data ++ behind) with ⟨hpos, hcr⟩ | hnone | hsame
      · rw [nul_behind_cr hpos hcr] at hround
        rw [iterate_again hround] at h
        rcases Nat.eq_or_lt_of_le hi with rfl | hlt
        · rw [List.getElem?_append_left (by omega)] at hcr
          exact ⟨hpos, hcr⟩
        · apply ih _ h i hlt hnul
          show s.pos + 1 + (s.len - 1) = data.length
          rw [← hs]
          omega
      · rw [iterate_undefined (hround.trans hnone)] at h
        cases h
      · rw [iterate_fixed (hround.trans hsame)] at h
        cases h
    · obtain ⟨s', m, out, hround, ha⟩ := writeRound_advance hbounds hlen hc h0
      rw [iterate_again hround] at h
      have hpos := ha.pos
      have hwithin := ha.within
      have hlen' := ha.len
      have hs' : s'.Aligned data.length := by
        rw [WriteState.Aligned, hpos, hlen', ← hs]
        omega
      -- the NUL is not among the bytes of this round
      have hpassed : s'.pos ≤ i := by
        by_contra hlt
        apply ha.noNul (i - s.pos) (by omega)
        rw [show s.pos + (i - s.pos) = i by omega, List.getElem?_append_left hilt, hnul]
      exact ih hs' h i hpassed hnul

/-- The reads of a round, when the only look at the byte before is behind a CR. -/
theorem reads_within (h : NulsBehindCr data) (hs : s.Aligned data.length) {i : Int}
    (hi : WriteReads (data ++ behind) s i) : 0 ≤ i ∧ i < data.length := by
  rw [WriteState.Aligned] at hs
  cases hi with
  | byte hlen => omega
  | before hlen hnul =>
    rw [List.getElem?_append_left (by omega)] at hnul
    obtain ⟨hpos, -⟩ := h s.pos hnul
    omega
  | run hlen hj hplain => omega

/-- **The loop is sound** for the data in which every NUL stands behind a CR, and for no other. -/
theorem writeSound_iff (data behind : List UInt8) : WriteSound data behind ↔ NulsBehindCr data := by
  constructor
  · intro h i hnul
    obtain ⟨n, r, hr⟩ := h.ends
    exact nulsBehindCr_of_iterate behind (writeStart_aligned data.length) hr i (Nat.zero_le i) hnul
  · intro h
    have haligned : ∀ s, Visits (writeRound (data ++ behind)) (writeStart data.length) s →
        s.Aligned data.length := by
      intro s hs
      exact hs.invariant (P := fun s => s.Aligned data.length)
        (fun s s' hs hround => (h.round_again hs hround).1) (writeStart_aligned data.length)
    refine ⟨⟨data.length + 1, h.ends behind⟩, ?_, ?_⟩
    · intro s hs s' hround
      exact (h.round_again (haligned s hs) hround).2
    · intro s hs i hi
      exact reads_within h (haligned s hs) hi

/-- A NUL behind another byte is never passed: the loop does not end. -/
theorem writeLoop_nul :
    (∀ n, iterate (writeRound [97, 0]) n (writeStart 2) = none) ∧ ¬ WriteSound [97, 0] [] := by
  have hnone : ∀ n, iterate (writeRound [97, 0]) n (writeStart 2) = none := by
    intro n
    cases hr : iterate (writeRound [97, 0]) n (writeStart 2) with
    | none => rfl
    | some r =>
      have hcr := nulsBehindCr_of_iterate [] (writeStart_aligned [97, 0].length) hr 1
        (Nat.zero_le 1) rfl
      exact absurd hcr.2 (by decide)
  refine ⟨hnone, ?_⟩
  intro h
  obtain ⟨n, r, hr⟩ := h.ends
  cases (hnone n).symm.trans hr

/-- An echo of the first `len` bytes of a block ends just when every NUL in them is behind a CR. -/
theorem telnetFilterWrite_isSome_iff {buf : List UInt8} {len : Nat} (hlen : len ≤ buf.length) :
    (telnetFilterWrite buf len).isSome ↔ NulsBehindCr (buf.take len) := by
  have hsplit := List.take_append_drop len buf
  have htake : (buf.take len).length = len := List.length_take_of_le hlen
  rw [telnetFilterWrite, Option.isSome_map, Option.isSome_iff_exists]
  constructor
  · rintro ⟨r, hr⟩ i hnul
    rw [← hsplit] at hr
    exact nulsBehindCr_of_iterate (buf.drop len) (htake.symm ▸ Nat.zero_add len) hr i (Nat.zero_le i) hnul
  · intro h
    obtain ⟨r, hr⟩ := h.ends (buf.drop len)
    rw [hsplit, htake] at hr
    exact ⟨r, hr⟩

end

end ExamplePrograms.Onethread.Telnet
