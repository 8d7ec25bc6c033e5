import ExamplePrograms.Lib.CString
import ExamplePrograms.Lib.Loops
import ExamplePrograms.Onethread.Sockbuf.Functions

/-!
# Formatted output

`egg_mvsprintf` and `iprintf` of `memutil.c`. A format is the list of its literal characters and
conversions; an argument is what its conversion makes of it, any bytes at all. `vsnprintf` is that of
C99, and an argument list that a call of it has read from cannot be read again.

The text that does not fit is formatted a second time into a larger buffer, from the same argument
list. `egg_mvsprintf_exact_iff` says when the result is the text: when it fits the first time, or takes
no arguments; and a requested length is right unless it is a multiple of 1024 and the text holds a NUL.
-/

set_option autoImplicit false

namespace ExamplePrograms.Onethread

open ExamplePrograms.Lib.Memory ExamplePrograms.Lib.CString ExamplePrograms.Lib.Loops
open ExamplePrograms.Onethread.Sockbuf

/-- The largest `int`. -/
def intMax : Int := 2147483647

/-- A part of a format string, which ends at its first NUL. -/
inductive Piece where
  | literal (c : UInt8) (nonzero : c ≠ 0)
  | conversion
  deriving DecidableEq

/-- A `va_list`: the arguments from the next one on, each as its conversion prints it. -/
inductive VaList where
  | ready (args : List (List UInt8))
  | spent
  deriving DecidableEq, Repr

/-- The text of a format. A conversion without a usable argument is undefined. -/
def render : List Piece → VaList → Option (List UInt8)
  | [], _ => some []
  | .literal c _ :: format, args => (render format args).map (c :: ·)
  | .conversion :: format, .ready (a :: args) => (render format (.ready args)).map (a ++ ·)
  | .conversion :: _, _ => none

/-- The argument list behind a call that formats with it. -/
def VaList.after (args : VaList) (format : List Piece) : VaList :=
  if .conversion ∈ format then .spent else args

/-- `vsnprintf(output, size, format, args)`: the length of the text, and the buffer and the argument
list behind the call. A length that is no `int` cannot be returned. -/
def vsnprintf (output : List UInt8) (size : Int) (format : List Piece) (args : VaList) :
    Option (Int × List UInt8 × VaList) :=
  match render format args with
  | none => none
  | some text =>
      -- the result is an `int`
      if intMax < text.length then none
      else
        some (text.length,
          if 0 < size then memcpy output 0 (text.take (size - 1).toNat ++ [0]) else output,
          args.after format)

/-- The state of the loop. `isBuf` is `output == buf`, and `n` the last result. -/
structure PrintState where
  output : List UInt8
  isBuf : Bool
  len : Int
  args : VaList
  n : Int := 0

/-- The size that a round hands to `vsnprintf`: `len -= 10`. -/
def PrintState.size (s : PrintState) : Int := s.len - 10

/-- The length of the block is the size and ten more. -/
theorem PrintState.len_eq (s : PrintState) : s.len = s.size + 10 := (Int.sub_add_cancel _ _).symm

/-- A buffer of the caller and its length, an `int`. -/
structure CallerBuf where
  cells : List UInt8
  len : Int
  fits : len ≤ cells.length
  isInt : len ≤ intMax

/-- The buffer of the first attempt. Fresh memory holds `fill`. -/
def printStart (fill : UInt8) (buf : Option CallerBuf) (args : VaList) : PrintState :=
  match buf with
  | none => ⟨List.replicate 512 fill, false, 512, args, 0⟩
  | some b =>
      if b.len > 10 then ⟨b.cells, true, b.len, args, 0⟩
      else ⟨List.replicate 512 fill, false, 512, args, 0⟩

/-- One round of the loop of `egg_mvsprintf`. -/
def printRound (fill : UInt8) (format : List Piece) (s : PrintState) : Round PrintState :=
  match vsnprintf s.output s.size format s.args with
  | none => .undefined
  | some (n, output, args) =>
      -- the text and its NUL fit in `size` bytes
      if n > -1 ∧ n < s.size then .exit ⟨output, s.isBuf, s.size, args, n⟩
      else
        let len := (if n > s.size then n + 1 else s.size * 2) + 10
        if intMax < len then .undefined
        else
          .again
            -- the buffer of the caller is not `realloc`ed but left behind
            ⟨if s.isBuf then List.replicate len.toNat fill else realloc output len.toNat fill,
              false, len, args, n⟩

/-- What `egg_mvsprintf` returns: the buffer, and what it stores in `final_len`. -/
structure Printed where
  output : List UInt8
  finalLen : Option Int
  deriving DecidableEq, Repr

/-- `strlen(output)`. -/
def strlen (output : List UInt8) : Nat := (cstr output 0).length

/-- The part behind the loop. -/
def printEnd (fill : UInt8) (wantsLen : Bool) (s : PrintState) : Printed :=
  -- a requested length that is a multiple of 1024 is counted again, up to the first NUL
  let n := if wantsLen ∧ s.n % 1024 = 0 then (strlen s.output : Int) else s.n
  { output :=
      if s.isBuf = false ∧ s.len - n > 256 then realloc s.output (n + 20).toNat fill else s.output
    finalLen := if wantsLen then some n else none }

/-- `egg_mvsprintf(buf, len, final_len, format, args)`. The loop is left in its second round at the
latest. -/
def eggMvsprintf (fill : UInt8) (buf : Option CallerBuf) (wantsLen : Bool) (format : List Piece)
    (args : VaList) : Option Printed :=
  (iterate (printRound fill format) 2 (printStart fill buf args)).map (printEnd fill wantsLen)

/-- `char buf[1024]`. -/
def stackBuf (cells : List UInt8) (h : cells.length = 1024) : CallerBuf where
  cells := cells
  len := 1024
  fits := by rw [h]; decide
  isInt := by decide

/-- `iprintf(idx, format, ..)`: the outcome of its `sockbuf_write` and what it returns. -/
def iprintf (fill : UInt8) (buf : CallerBuf) (k : Kernel) (s : State) (idx : Nat)
    (format : List Piece) (args : VaList) : Option (Outcome × Int) :=
  (eggMvsprintf fill (some buf) true format args).bind fun r =>
    r.finalLen.map fun len => (sockbufWrite k s idx r.output len, len)

/-! ## Formats -/

/-- Arguments that were consumed give no text. -/
theorem render_spent {format : List Piece} (h : .conversion ∈ format) :
    render format .spent = none := by
  induction format with
  | nil => cases h
  | cons p format ih =>
    cases p with
    | conversion => rfl
    | literal c hc =>
      have hrest : .conversion ∈ format := (List.mem_cons.1 h).resolve_left (by simp)
      rw [render, ih hrest]
      rfl

/-- A text without arguments is part of the format. -/
theorem zero_not_mem_render {format : List Piece} (h : .conversion ∉ format) {args : VaList}
    {text : List UInt8} (htext : render format args = some text) : 0 ∉ text := by
  induction format generalizing text with
  | nil =>
    cases htext
    exact List.not_mem_nil
  | cons p format ih =>
    cases p with
    | conversion => exact absurd List.mem_cons_self h
    | literal c hc =>
      rw [render] at htext
      obtain ⟨rest, hrest, rfl⟩ := Option.map_eq_some_iff.1 htext
      have hnot := ih (fun hm => h (List.mem_cons_of_mem _ hm)) hrest
      rw [List.mem_cons, not_or]
      exact ⟨hc.symm, hnot⟩

/-! ## Buffers -/

/-- The block starts with the text and its terminator. -/
def Holds (output text : List UInt8) : Prop := output.take (text.length + 1) = text ++ [0]

/-- The text stands at the start of the block, with its NUL. -/
theorem Holds.eq_append {output text : List UInt8} (h : Holds output text) :
    output = text ++ 0 :: output.drop (text.length + 1) := by
  have hsplit := (List.take_append_drop (text.length + 1) output).symm
  rw [h, List.append_assoc] at hsplit
  exact hsplit

/-- A block that holds the text has room for its NUL. -/
theorem Holds.length {output text : List UInt8} (h : Holds output text) :
    text.length + 1 ≤ output.length := by
  have hlen := congrArg List.length h
  rw [List.length_take, List.length_append, List.length_singleton] at hlen
  omega

/-- Shrinking a buffer to more than the text keeps the text. -/
theorem Holds.realloc {output text : List UInt8} (h : Holds output text) (fill : UInt8) {m : Nat}
    (hm : text.length + 1 ≤ m) : Holds (Lib.Memory.realloc output m fill) text := by
  rw [Holds, take_realloc fill hm h.length]
  exact h

/-- The bytes of the text. -/
theorem Holds.take {output text : List UInt8} (h : Holds output text) :
    output.take text.length = text := by
  rw [h.eq_append, List.take_left]

/-- `strlen` measures the text exactly when it has no NUL. -/
theorem Holds.strlen_iff {output text : List UInt8} (h : Holds output text) :
    strlen output = text.length ↔ 0 ∉ text := by
  constructor
  · intro hlen
    -- a string of that length is the text, and no string holds a NUL
    have htext : cstr output 0 = text := by
      have hpre : cstr output 0 <+: output := List.takeWhile_prefix (· != 0)
      rw [List.prefix_iff_eq_take.1 hpre]
      rw [strlen] at hlen
      rw [hlen]
      exact h.take
    intro hzero
    rw [← htext] at hzero
    have hne := List.mem_takeWhile_imp hzero
    cases hne
  · intro hzero
    have happ := cstr_append (a := []) (b := output.drop (text.length + 1)) hzero
    rw [List.nil_append, ← h.eq_append] at happ
    exact congrArg List.length happ

/-! ## The loop -/

/-- `vsnprintf` for a text that the format gives. -/
theorem vsnprintf_eq {output : List UInt8} {size : Int} {format : List Piece} {args : VaList}
    {text : List UInt8} (htext : render format args = some text) :
    vsnprintf output size format args =
      if intMax < text.length then none
      else
        some ((text.length : Int),
          if 0 < size then memcpy output 0 (text.take (size - 1).toNat ++ [0]) else output,
          args.after format) := by
  rw [vsnprintf, htext]

/-- A buffer larger than the text holds it behind the call. -/
theorem holds_memcpy {output text : List UInt8} {size : Int} (hsize : (text.length : Int) < size)
    (hroom : size ≤ output.length) :
    Holds (memcpy output 0 (text.take (size - 1).toNat ++ [0])) text := by
  have htake : text.take (size - 1).toNat = text := List.take_of_length_le (by omega)
  have hlen : (text ++ [(0 : UInt8)]).length = text.length + 1 := List.length_append
  have hcopy : (memcpy output 0 (text ++ [0])).take (0 + (text ++ [0]).length) =
      output.take 0 ++ (text ++ [0]) := take_memcpy (by rw [Nat.zero_add, hlen]; omega)
  rw [Nat.zero_add, hlen, List.take_zero, List.nil_append] at hcopy
  rw [htake]
  exact hcopy

section Loop

variable (fill : UInt8) {format : List Piece} {text : List UInt8} {s : PrintState}

/-- A text that fits ends the loop. -/
theorem printRound_fits (htext : render format s.args = some text)
    (hfit : (text.length : Int) < s.size) (hint : s.len ≤ intMax) :
    printRound fill format s =
      .exit ⟨memcpy s.output 0 (text.take (s.size - 1).toNat ++ [0]), s.isBuf, s.size,
        s.args.after format, text.length⟩ := by
  have hlen := s.len_eq
  rw [printRound, vsnprintf_eq htext, if_neg (by omega)]
  simp only
  rw [if_pos ⟨by omega, hfit⟩, if_pos (by omega)]

/-- The size that a text which does not fit asks for. -/
def retryLen (room : Int) (text : List UInt8) : Int :=
  (if (text.length : Int) > room then (text.length : Int) + 1 else room * 2) + 10

/-- A round in which the text does not fit makes room. -/
theorem printRound_retry (htext : render format s.args = some text)
    (hfit : s.size ≤ text.length) (hint : retryLen s.size text ≤ intMax)
    (hpos : 0 < s.size) :
    ∃ output, printRound fill format s =
        .again ⟨output, false, retryLen s.size text, s.args.after format, text.length⟩ ∧
      output.length = (retryLen s.size text).toNat := by
  have hle : (text.length : Int) ≤ intMax := by
    rw [retryLen] at hint
    split at hint <;> omega
  rw [printRound, vsnprintf_eq htext, if_neg (Int.not_lt.2 hle)]
  simp only
  rw [if_neg (by omega), if_neg (by rw [retryLen] at hint; omega)]
  refine ⟨_, rfl, ?_⟩
  split
  · rw [List.length_replicate]
    rfl
  · rw [length_realloc]
    rfl

/-- A size that is no `int`. -/
theorem printRound_overflow (htext : render format s.args = some text)
    (hfit : s.size ≤ text.length) (hint : intMax < retryLen s.size text) :
    printRound fill format s = .undefined := by
  rw [printRound, vsnprintf_eq htext]
  -- a length that cannot be returned, or a size that cannot be computed
  by_cases hle : intMax < text.length
  · rw [if_pos hle]
  · rw [if_neg hle]
    simp only
    rw [if_neg (by omega), if_pos (by rw [retryLen] at hint; exact hint)]

end Loop

/-- What the first attempt has room for, terminator included. -/
def room : Option CallerBuf → Int
  | none => 502
  | some b => if b.len > 10 then b.len - 10 else 502

/-- The text is shorter than the room of the first attempt, or it takes no arguments and the size of
the second attempt is an `int`. -/
def InRoom (room : Int) (format : List Piece) (text : List UInt8) : Prop :=
  (text.length : Int) < room ∨ (.conversion ∉ format ∧ retryLen room text ≤ intMax)

section Start

variable (fill : UInt8) (buf : Option CallerBuf) (args : VaList)

/-- The size at the start is the room there is. -/
theorem printStart_len : (printStart fill buf args).size = room buf := by
  cases buf with
  | none => rfl
  | some b =>
    rw [printStart, room]
    split <;> rfl

/-- The arguments at the start. -/
theorem printStart_args : (printStart fill buf args).args = args := by
  cases buf with
  | none => rfl
  | some b =>
    rw [printStart]
    split <;> rfl

/-- The buffer of the first attempt has the size that the loop starts with, which is an `int`. -/
theorem printStart_fits : (printStart fill buf args).len ≤ (printStart fill buf args).output.length ∧
    (printStart fill buf args).len ≤ intMax := by
  cases buf with
  | none =>
    rw [printStart]
    simp only [List.length_replicate]
    exact ⟨Int.le_refl _, by decide⟩
  | some b =>
    rw [printStart]
    split
    · exact ⟨b.fits, b.isInt⟩
    · simp only [List.length_replicate]
      exact ⟨Int.le_refl _, by decide⟩

/-- There is some room. -/
theorem room_pos : 0 < room buf := by
  cases buf with
  | none => decide
  | some b =>
    rw [room]
    split <;> omega

end Start

section Print

variable (fill : UInt8) {buf : Option CallerBuf} {format : List Piece} {args : VaList}
  {text : List UInt8}

/-- How the loop is left. -/
theorem printLoop_exit (htext : render format args = some text) (h : InRoom (room buf) format text) :
    ∃ s, (∀ m, iterate (printRound fill format) (m + 2) (printStart fill buf args) = some s) ∧
      Holds s.output text ∧ s.n = text.length := by
  obtain ⟨hfits, hint⟩ := printStart_fits fill buf args
  have hlen := printStart_len fill buf args
  have hpos := room_pos buf
  have htext₀ : render format (printStart fill buf args).args = some text := by
    rw [printStart_args, htext]
  by_cases hroom : (text.length : Int) < room buf
  · -- the text fits the first time
    have hround := printRound_fits fill htext₀ (by rw [hlen]; exact hroom) hint
    have hstart := (printStart fill buf args).len_eq
    exact ⟨_, fun m => iterate_exit hround (m + 1), holds_memcpy (by omega) (by omega), rfl⟩
  · -- it does not, and is formatted again from the same list
    obtain ⟨hargs, hretry⟩ := h.resolve_left hroom
    rw [← hlen] at hretry
    obtain ⟨output, hround, hout⟩ := printRound_retry fill htext₀ (by omega) hretry
      (by omega)
    have hfit : (text.length : Int) < retryLen ((printStart fill buf args).size) text - 10 := by
      rw [retryLen]
      split <;> omega
    have hagain : render format (VaList.after (printStart fill buf args).args format) =
        some text := by
      rw [VaList.after, if_neg hargs, htext₀]
    have hround' := printRound_fits fill (s := ⟨output, false,
      retryLen ((printStart fill buf args).size) text,
      (printStart fill buf args).args.after format, text.length⟩) hagain hfit hretry
    refine ⟨_, fun m => (iterate_again hround (m + 1)).trans (iterate_exit hround' m), ?_, rfl⟩
    refine holds_memcpy hfit ?_
    show retryLen ((printStart fill buf args).size) text - 10 ≤ (output.length : Int)
    rw [hout]
    omega

/-- A text without room and with arguments is lost: the second attempt reads a spent list. -/
theorem printLoop_none (htext : render format args = some text)
    (h : ¬ InRoom (room buf) format text) (m : Nat) :
    iterate (printRound fill format) (m + 2) (printStart fill buf args) = none := by
  have hlen := printStart_len fill buf args
  have hpos := room_pos buf
  have htext₀ : render format (printStart fill buf args).args = some text := by
    rw [printStart_args, htext]
  obtain ⟨hroom, hargs⟩ := not_or.1 h
  rw [← hlen] at hargs
  by_cases hretry : retryLen ((printStart fill buf args).size) text ≤ intMax
  · obtain ⟨output, hround, -⟩ := printRound_retry fill htext₀ (by omega) hretry (by omega)
    -- the second attempt needs an argument that the first has taken
    have hconv : .conversion ∈ format := by
      by_contra hconv
      exact hargs ⟨hconv, hretry⟩
    rw [iterate_again hround]
    refine iterate_undefined ?_ (m + 1)
    rw [printRound, vsnprintf]
    simp only [VaList.after, if_pos hconv, render_spent hconv]
  · exact iterate_undefined (printRound_overflow fill htext₀ (by omega) (Int.not_le.1 hretry)) (m + 2)

end Print

/-- The buffer holds the text, and a requested length is that of the text. -/
def Exact (r : Printed) (text : List UInt8) (wantsLen : Bool) : Prop :=
  Holds r.output text ∧ r.finalLen = if wantsLen then some (text.length : Int) else none

/-- Behind the loop the length is counted again when it is a multiple of 1024. -/
theorem printEnd_exact_iff {s : PrintState} {text : List UInt8} (fill : UInt8) (wantsLen : Bool)
    (hout : Holds s.output text) (hn : s.n = text.length) :
    Exact (printEnd fill wantsLen s) text wantsLen ↔
      (wantsLen = true → text.length % 1024 = 0 → 0 ∉ text) := by
  have hmod : s.n % 1024 = 0 ↔ text.length % 1024 = 0 := by
    rw [hn]
    omega
  have hbuffer : ∀ n : Int, n = text.length → Holds
      (if s.isBuf = false ∧ s.len - n > 256 then Lib.Memory.realloc s.output (n + 20).toNat fill
        else s.output) text := by
    intro n hlen
    split
    · exact hout.realloc fill (by omega)
    · exact hout
  -- the counted length is right when it meets no NUL; one that is not counted is that of the text
  by_cases hcount : wantsLen = true ∧ s.n % 1024 = 0
  · constructor
    · rintro ⟨-, hfinal⟩ - -
      rw [printEnd] at hfinal
      simp only [if_pos hcount, if_pos hcount.1, Option.some.injEq] at hfinal
      exact hout.strlen_iff.1 (Int.natCast_inj.1 hfinal)
    · intro hzero
      have hlen : strlen s.output = text.length :=
        hout.strlen_iff.2 (hzero hcount.1 (hmod.1 hcount.2))
      rw [printEnd, if_pos hcount, hlen]
      exact ⟨hbuffer _ rfl, rfl⟩
  · refine iff_of_true ?_ fun hw hm => absurd ⟨hw, hmod.2 hm⟩ hcount
    rw [printEnd, if_neg hcount]
    refine ⟨hbuffer _ hn, ?_⟩
    rw [hn]

/-- **The result is exact** just when the text finds room, and no NUL of it cuts short a length that is
counted again. -/
theorem eggMvsprintf_exact_iff {format : List Piece} {args : VaList} {text : List UInt8}
    (htext : render format args = some text) (fill : UInt8) (buf : Option CallerBuf)
    (wantsLen : Bool) :
    (∃ r, eggMvsprintf fill buf wantsLen format args = some r ∧ Exact r text wantsLen) ↔
      InRoom (room buf) format text ∧
        (wantsLen = true → text.length % 1024 = 0 → 0 ∉ text) := by
  by_cases hroom : InRoom (room buf) format text
  · obtain ⟨s, hs, hout, hn⟩ := printLoop_exit fill htext hroom
    rw [eggMvsprintf, hs 0]
    constructor
    · rintro ⟨r, hr, hexact⟩
      cases hr
      exact ⟨hroom, (printEnd_exact_iff fill wantsLen hout hn).1 hexact⟩
    · rintro ⟨-, hzero⟩
      exact ⟨_, rfl, (printEnd_exact_iff fill wantsLen hout hn).2 hzero⟩
  · rw [eggMvsprintf, printLoop_none fill htext hroom 0]
    exact iff_of_false (fun ⟨r, hr, _⟩ => by cases hr) fun h => hroom h.1

/-- A write of a buffer that starts with the text is a write of the text. -/
theorem sockbufWrite_take {output text : List UInt8} (h : Holds output text) (k : Kernel) (s : State)
    (idx : Nat) :
    sockbufWrite k s idx output text.length = sockbufWrite k s idx text text.length := by
  have harg : ∀ data : List UInt8, data.take text.length = text →
      writeArgument data text.length = text := by
    intro data hdata
    rw [writeArgument, if_neg (Int.not_lt.2 (Int.natCast_nonneg _)), Int.toNat_natCast, hdata]
  rw [sockbufWrite, sockbufWrite, harg output h.take, harg text List.take_length]

/-- Its buffer leaves `iprintf` no length to count again: only the empty text is a multiple of 1024
that fits. -/
theorem InRoom.zero_not_mem {format : List Piece} {args : VaList} {text : List UInt8}
    (htext : render format args = some text) (h : InRoom 1014 format text)
    (hm : text.length % 1024 = 0) : 0 ∉ text := by
  rcases h with hlt | ⟨hargs, -⟩
  · have hnil : text = [] := List.eq_nil_of_length_eq_zero (by omega)
    rw [hnil]
    exact List.not_mem_nil
  · exact zero_not_mem_render hargs htext

/-- **Formatted output.** `egg_mvsprintf` returns the text and its length exactly when the text has
room or takes no arguments, and a length that is counted again meets no NUL; `iprintf` passes the text
on exactly when it has room in 1014 bytes or takes no arguments. -/
theorem formatted_text_exact_iff {format : List Piece} {args : List (List UInt8)}
    {text : List UInt8} (htext : render format (.ready args) = some text) (fill : UInt8) :
    (∀ (buf : Option CallerBuf) (wantsLen : Bool),
      (∃ r, eggMvsprintf fill buf wantsLen format (.ready args) = some r ∧ Exact r text wantsLen) ↔
        InRoom (room buf) format text ∧
          (wantsLen = true → text.length % 1024 = 0 → 0 ∉ text)) ∧
      ∀ (cells : List UInt8) (hcells : cells.length = 1024) (k : Kernel) (s : State) (idx : Nat),
        iprintf fill (stackBuf cells hcells) k s idx format (.ready args) =
            some (sockbufWrite k s idx text text.length, (text.length : Int)) ↔
          InRoom 1014 format text := by
  refine ⟨fun buf wantsLen => eggMvsprintf_exact_iff htext fill buf wantsLen, ?_⟩
  intro cells hcells k s idx
  have hroom : room (some (stackBuf cells hcells)) = 1014 := rfl
  constructor
  · intro hprint
    by_contra hno
    rw [← hroom] at hno
    rw [iprintf, eggMvsprintf, printLoop_none fill htext hno 0] at hprint
    cases hprint
  · intro hin
    have hexact := (eggMvsprintf_exact_iff htext fill (some (stackBuf cells hcells)) true).2
      ⟨hroom ▸ hin, fun _ hm => hin.zero_not_mem htext hm⟩
    obtain ⟨r, hr, hholds, hfinal⟩ := hexact
    rw [iprintf, hr, Option.bind_some, hfinal, if_pos rfl, Option.map_some,
      sockbufWrite_take hholds]

/-- The format `%s` and the format `ok`. -/
def percentS : List Piece := [.conversion]

/-- A text with a NUL, printed with its length. -/
theorem formatted_text_short :
    (∃ r, eggMvsprintf 0 none true percentS (.ready [[104, 0, 105]]) = some r ∧
      Exact r [104, 0, 105] true) ∧
    iprintf 0 (stackBuf (List.replicate 1024 0) List.length_replicate) {} {} 0 percentS
        (.ready [[104, 0, 105]]) =
      some (sockbufWrite {} {} 0 [104, 0, 105] 3, 3) := by
  have htext : render percentS (.ready [[104, 0, 105]]) = some [104, 0, 105] := rfl
  have hall := formatted_text_exact_iff htext 0
  exact ⟨(hall.1 none true).2 ⟨Or.inl (by decide), fun _ h => absurd h (by decide)⟩,
    (hall.2 _ _ {} {} 0).2 (Or.inl (by decide))⟩

/-- A text of 1014 bytes, one too many for the buffer of `iprintf`. -/
theorem long_text_lost :
    render percentS (.ready [List.replicate 1014 65]) = some (List.replicate 1014 65) ∧
      iprintf 0 (stackBuf (List.replicate 1024 0) List.length_replicate) {} {} 0 percentS
        (.ready [List.replicate 1014 65]) = none ∧
      ¬ ∃ r, eggMvsprintf 0 (some (stackBuf (List.replicate 1024 0) List.length_replicate)) true
          percentS (.ready [List.replicate 1014 65]) = some r ∧
        Exact r (List.replicate 1014 65) true := by
  have htext : render percentS (.ready [List.replicate 1014 65]) =
      some (List.replicate 1014 65) := by
    show Option.map (List.replicate 1014 65 ++ ·) (some []) = _
    rw [Option.map_some, List.append_nil]
  have hno : ¬ InRoom (room (some (stackBuf (List.replicate 1024 0) List.length_replicate)))
      percentS (List.replicate 1014 65) := by
    rintro (hlt | ⟨hargs, -⟩)
    · rw [List.length_replicate] at hlt
      exact absurd hlt (by decide)
    · exact hargs List.mem_cons_self
  refine ⟨htext, ?_, ?_⟩
  · rw [iprintf, eggMvsprintf, printLoop_none 0 htext hno 0]
    rfl
  · rintro ⟨r, hr, -⟩
    rw [eggMvsprintf, printLoop_none 0 htext hno 0] at hr
    cases hr

end ExamplePrograms.Onethread
