import ExamplePrograms.Onethread.Mvsprintf

/-!
# The buffer of the formatting loop

The loop of `egg_mvsprintf` by itself: every call of `vsnprintf` formats the same text, integers have no
bounds and memory does not run out. `len` is the capacity between two rounds and `size` what a round hands
to `vsnprintf`. `printLoop_fits` is for both conventions of what `vsnprintf` returns, and
`printRound_eq_c99` says that the loop with an argument list is this one as long as a format takes no
arguments.
-/

set_option autoImplicit false

namespace ExamplePrograms.Onethread

open ExamplePrograms.Lib.Memory ExamplePrograms.Lib.Loops

/-- What `vsnprintf` returns for a text that does not fit: its length, or -1. -/
inductive Convention where
  | c99
  | older
  deriving DecidableEq, Repr

namespace Convention

/-- The result for a text of length `n` that does not fit. -/
def tooLong : Convention → Nat → Int
  | c99, n => n
  | older, _ => -1

/-- `vsnprintf(output, size, format, args)` where the text is `text`. -/
def vsnprintf (conv : Convention) (output : List UInt8) (size : Int) (text : List UInt8) :
    Int × List UInt8 :=
  (if (text.length : Int) < size then text.length else conv.tooLong text.length,
    if 0 < size then memcpy output 0 (text.take (size - 1).toNat ++ [0]) else output)

/-- One round of the loop, under either convention. -/
def printRound (conv : Convention) (fill : UInt8) (text : List UInt8) (s : PrintState) :
    Round PrintState :=
  let (n, output) := conv.vsnprintf s.output s.size text
  if n > -1 ∧ n < s.size then .exit ⟨output, s.isBuf, s.size, s.args, n⟩
  else
    let len := (if n > s.size then n + 1 else s.size * 2) + 10
    .again
      -- the buffer of the caller is not `realloc`ed but left behind
      ⟨if s.isBuf then List.replicate len.toNat fill else realloc output len.toNat fill, false, len,
        s.args, n⟩

end Convention

/-- A buffer of the caller and its length. -/
structure Block where
  cells : List UInt8
  len : Int
  fits : len ≤ cells.length

/-- The block of the caller. -/
def CallerBuf.block (b : CallerBuf) : Block := ⟨b.cells, b.len, b.fits⟩

/-- The buffer of the first attempt. -/
def startPrint (fill : UInt8) (buf : Option Block) (args : VaList) : PrintState :=
  match buf with
  | none => ⟨List.replicate 512 fill, false, 512, args, 0⟩
  | some b =>
      if b.len > 10 then ⟨b.cells, true, b.len, args, 0⟩
      else ⟨List.replicate 512 fill, false, 512, args, 0⟩

/-- The loop starts as that of `egg_mvsprintf` does. -/
theorem startPrint_block (fill : UInt8) (buf : Option CallerBuf) (args : VaList) :
    startPrint fill (buf.map CallerBuf.block) args = printStart fill buf args := by
  cases buf with
  | none => rfl
  | some b => rfl

/-- While no call takes an argument and all sizes are `int`s. -/
theorem printRound_eq_c99 (fill : UInt8) {format : List Piece} {s : PrintState} {text : List UInt8}
    (htext : render format s.args = some text) (hargs : .conversion ∉ format)
    (hlen : (text.length : Int) ≤ intMax) (hint : retryLen s.size text ≤ intMax) :
    printRound fill format s = Convention.c99.printRound fill text s := by
  have hafter : s.args.after format = s.args := if_neg hargs
  have hresult : (if (text.length : Int) < s.size then (text.length : Int)
      else Convention.c99.tooLong text.length) = text.length := ite_self _
  rw [printRound, vsnprintf_eq htext, if_neg (Int.not_lt.2 hlen), Convention.printRound,
    Convention.vsnprintf]
  simp only [hafter, hresult]
  by_cases hfit : (text.length : Int) > -1 ∧ (text.length : Int) < s.size
  · rw [if_pos hfit, if_pos hfit]
  · rw [retryLen] at hint
    rw [if_neg hfit, if_neg hfit, if_neg (Int.not_lt.2 hint)]

/-! ## Rounds -/

/-- The capacity is right, and `vsnprintf` gets a size of one or more. -/
structure Ready (s : PrintState) : Prop where
  size : 1 ≤ s.size
  capacity : s.len ≤ s.output.length

/-- The loop starts with room in its block. -/
theorem ready_startPrint (fill : UInt8) (buf : Option Block) (args : VaList) :
    Ready (startPrint fill buf args) := by
  have hfresh : Ready ⟨List.replicate 512 fill, false, 512, args, 0⟩ := by
    refine ⟨?_, ?_⟩
    · show (1 : Int) ≤ 512 - 10
      decide
    · rw [List.length_replicate]
      exact Int.le_refl _
  cases buf with
  | none => exact hfresh
  | some b =>
    rw [startPrint]
    split
    · next hlen => exact ⟨by show 1 ≤ b.len - 10; omega, b.fits⟩
    · exact hfresh

section Rounds

variable (conv : Convention) (fill : UInt8) {text : List UInt8} {s : PrintState}

/-- A text that fits with its NUL leaves the loop. -/
theorem bufferRound_exit (h : Ready s) (hfit : (text.length : Int) < s.size) :
    ∃ r, conv.printRound fill text s = .exit r ∧ r.len = s.size ∧ r.len ≤ r.output.length ∧
      Holds r.output text ∧ r.n = text.length := by
  have hsize := h.size
  have hcapacity := h.capacity
  have hlen := s.len_eq
  have hcopy : 0 + (text.take (s.size - 1).toNat ++ [(0 : UInt8)]).length ≤ s.output.length := by
    rw [List.length_append, List.length_take, List.length_singleton]
    omega
  rw [Convention.printRound, Convention.vsnprintf, if_pos hfit]
  simp only
  rw [if_pos ⟨by omega, hfit⟩, if_pos (by omega)]
  refine ⟨_, rfl, rfl, ?_, holds_memcpy hfit (by omega), rfl⟩
  show s.size ≤ ((memcpy s.output 0 _).length : Int)
  rw [length_memcpy hcopy]
  omega

/-- Otherwise the next buffer is larger, whatever `vsnprintf` has returned. -/
theorem bufferRound_again (h : Ready s) (hfit : s.size ≤ text.length) :
    ∃ s', conv.printRound fill text s = .again s' ∧ Ready s' ∧ s.size < s'.size := by
  have hsize := h.size
  obtain ⟨n, output, hcall, hn⟩ : ∃ n output, conv.vsnprintf s.output s.size text = (n, output) ∧
      ¬ (n > -1 ∧ n < s.size) := by
    refine ⟨_, _, rfl, ?_⟩
    rw [if_neg (by omega)]
    cases conv with
    | c99 => exact fun hand => absurd hand.2 (Int.not_lt.2 hfit)
    | older => exact fun hand => absurd hand.1 (Int.lt_irrefl _)
  -- the text is longer than the size, as long, or its length is not known
  have hlarger : s.size < if n > s.size then n + 1 else s.size * 2 := by
    split <;> omega
  rw [Convention.printRound, hcall]
  simp only
  rw [if_neg hn]
  generalize (if n > s.size then n + 1 else s.size * 2) = size at hlarger
  refine ⟨_, rfl, ⟨?_, ?_⟩, ?_⟩
  · show 1 ≤ size + 10 - 10
    omega
  · show size + 10 ≤ _
    split
    · rw [List.length_replicate]
      omega
    · rw [length_realloc]
      omega
  · show s.size < size + 10 - 10
    omega

/-- A round exits with the text in the block, or makes room for another one. -/
theorem bufferRound_cases (h : Ready s) :
    (∃ r, conv.printRound fill text s = .exit r ∧ (text.length : Int) < r.len ∧
      r.len ≤ r.output.length ∧ Holds r.output text ∧ r.n = text.length) ∨
    ∃ s', conv.printRound fill text s = .again s' ∧ Ready s' ∧
      (text.length + 1 - s'.size).toNat < (text.length + 1 - s.size).toNat := by
  rcases Int.lt_or_le text.length s.size with hfit | hfit
  · obtain ⟨r, hr, hlen, hcapacity, hholds, hn⟩ := bufferRound_exit conv fill h hfit
    exact Or.inl ⟨r, hr, by omega, hcapacity, hholds, hn⟩
  · obtain ⟨s', hs', hready, hlt⟩ := bufferRound_again conv fill h hfit
    exact Or.inr ⟨s', hs', hready, by omega⟩

end Rounds

/-- **The formatting loop has enough room.** For every text, every buffer of the caller and both
conventions, `vsnprintf` gets a size between one and the capacity of its buffer in every round, the loop
is left when the text and its NUL are in the buffer, and the last `realloc` keeps them. -/
theorem printLoop_fits (conv : Convention) (fill : UInt8) (text : List UInt8) (buf : Option Block)
    (args : VaList) :
    (∀ s, Visits (conv.printRound fill text) (startPrint fill buf args) s →
      1 ≤ s.size ∧ s.size ≤ s.output.length) ∧
    ∃ s, (∀ n, text.length + 2 ≤ n →
        iterate (conv.printRound fill text) n (startPrint fill buf args) = some s) ∧
      text.length + 1 ≤ s.len ∧ s.len ≤ s.output.length ∧ Holds s.output text ∧
      ∀ wantsLen, 0 ∉ text → Holds (printEnd fill wantsLen s).output text := by
  have hstart := ready_startPrint fill buf args
  constructor
  · intro s hs
    have hready : Ready s := by
      refine hs.invariant (fun s s' h hround => ?_) hstart
      rcases bufferRound_cases conv fill h with ⟨r, hr, -⟩ | ⟨t, ht, hready, -⟩
      · rw [hr] at hround
        cases hround
      · rw [ht] at hround
        cases hround
        exact hready
    have hcapacity := hready.capacity
    have hlen := s.len_eq
    exact ⟨hready.size, by omega⟩
  · -- the room that is missing is the variant
    have hvariant : (text.length + 1 - (startPrint fill buf args).size).toNat <
        text.length + 2 := by
      have := hstart.size
      omega
    have hrun := iterate_variant (fun s : PrintState => (text.length + 1 - s.size).toNat)
      (fun _ h => bufferRound_cases conv fill h) hstart hvariant
    obtain ⟨s, hs, hlt, hcapacity, hholds, hn⟩ := hrun
    refine ⟨s, fun n hle => iterate_mono hs hle, by omega, hcapacity, hholds, fun wantsLen h0 => ?_⟩
    exact ((printEnd_exact_iff fill wantsLen hholds hn).2 fun _ _ => h0).1

end ExamplePrograms.Onethread
