import ExamplePrograms.Lib.Memory

/-!
# Appending to a growing string

`egg_append_str` of `memutil.c`. The block `dest` has `max + 1` cells, the first `cur` of which hold
the string. The test for growth keeps ten cells free, and the record carries that with it: a string
without room for its terminator cannot be built.

`DynStr` is the same without what the record carries. A copy that leaves the block is undefined there,
and `egg_append_str_sound` says that no sequence of calls makes one.
-/

set_option autoImplicit false

namespace ExamplePrograms.Onethread

open ExamplePrograms.Lib.Memory

/-- `*dest`, `*cur` and `*max`. -/
structure EggStr where
  dest : List UInt8
  cur : Nat
  max : Nat
  capacity : dest.length = max + 1
  room : cur + 10 ≤ max

/-- The string so far. -/
def EggStr.text (s : EggStr) : List UInt8 := s.dest.take s.cur

/-- `cur = 0; max = 128; malloc(max + 1)`. -/
def EggStr.empty : EggStr where
  dest := List.replicate 129 0
  cur := 0
  max := 128
  capacity := List.length_replicate
  room := by decide

/-- `egg_append_str`. `src` is the string without its terminator. -/
def eggAppendStr (s : EggStr) (src : List UInt8) : EggStr :=
  if h : s.cur + src.length + 10 > s.max then
    { dest := memcpy (realloc s.dest (s.max + (src.length + 128) + 1) 0) s.cur src
      cur := s.cur + src.length
      max := s.max + (src.length + 128)
      capacity := by
        rw [length_memcpy] <;> rw [length_realloc]
        have := s.room
        omega
      room := by
        have := s.room
        omega }
  else
    { dest := memcpy s.dest s.cur src
      cur := s.cur + src.length
      max := s.max
      capacity := by
        rw [length_memcpy, s.capacity]
        rw [s.capacity]
        omega
      room := by omega }

@[simp] theorem EggStr.text_empty : EggStr.empty.text = [] := rfl

/-- `egg_append_str` appends the text. -/
@[simp] theorem text_eggAppendStr (s : EggStr) (src : List UInt8) :
    (eggAppendStr s src).text = s.text ++ src := by
  have hroom := s.room
  have hcur : s.cur ≤ s.dest.length := by
    rw [s.capacity]
    omega
  unfold eggAppendStr EggStr.text
  split
  · rw [take_memcpy (by rw [length_realloc]; omega), take_realloc 0 (by omega) hcur]
  · rw [take_memcpy (by rw [s.capacity]; omega)]

/-! ## Any values of the pointers -/

/-- `*dest`, `*cur` and `*max`, whatever they are. -/
structure DynStr where
  dest : List UInt8
  cur : Nat
  max : Nat
  deriving DecidableEq, Repr

/-- `memmove(dest + dst, src, len)` from another block, inside of `dest`. -/
def memmoveFrom (dest : List UInt8) (dst : Nat) (src : List UInt8) : Option (List UInt8) :=
  if dst + src.length ≤ dest.length then some (memcpy dest dst src) else none

namespace DynStr

/-- `egg_append_str`. `src` is the string without its terminator, or NULL. Memory that `realloc` adds
holds `fill`. -/
def eggAppendStr (fill : UInt8) (s : DynStr) : Option (List UInt8) → Option DynStr
  | none => some s
  | some src =>
      let grown : DynStr :=
        if s.cur + src.length + 10 > s.max then
          { s with
            max := s.max + (src.length + 128)
            dest := realloc s.dest (s.max + (src.length + 128) + 1) fill }
        else s
      (memmoveFrom grown.dest grown.cur src).map fun dest =>
        { grown with dest := dest, cur := grown.cur + src.length }

/-- `cur = 0; max = 128; malloc(max + 1)`. -/
def init (cells : List UInt8) : DynStr := ⟨cells, 0, 128⟩

/-- What a call appends. -/
def appended (src : Option (List UInt8)) : List UInt8 := src.getD []

/-- The block has `max + 1` cells, ten of them free, and holds `text`. -/
structure Holding (s : DynStr) (text : List UInt8) : Prop where
  capacity : s.dest.length = s.max + 1
  room : s.cur + 10 ≤ s.max
  text : s.dest.take s.cur = text

variable {s : DynStr} {text : List UInt8}

/-- The block behind `init` holds the empty text. -/
theorem holding_init {cells : List UInt8} (h : cells.length = 129) : (init cells).Holding [] :=
  ⟨h, Nat.le_of_ble_eq_true rfl, List.take_zero⟩

/-- A copy into a block with room for it and for ten cells more. -/
theorem Holding.copy (s : DynStr) (src : List UInt8) {dest : List UInt8} {max : Nat}
    (hlen : dest.length = max + 1) (hroom : s.cur + src.length + 10 ≤ max) (htext : dest.take s.cur = text) :
    ∃ dest', memmoveFrom dest s.cur src = some dest' ∧
      Holding ⟨dest', s.cur + src.length, max⟩ (text ++ src) := by
  have hfits : s.cur + src.length ≤ dest.length := by omega
  refine ⟨_, if_pos hfits, ?_, hroom, ?_⟩
  · exact (length_memcpy hfits).trans hlen
  · exact (take_memcpy hfits).trans (congrArg (· ++ src) htext)

/-- **One call** keeps the invariant and stays in the block. -/
theorem Holding.eggAppendStr (h : s.Holding text) (fill : UInt8) (src : Option (List UInt8)) :
    ∃ s', s.eggAppendStr fill src = some s' ∧ s'.Holding (text ++ appended src) := by
  cases src with
  | none =>
    refine ⟨s, rfl, ?_⟩
    rw [appended, Option.getD_none, List.append_nil]
    exact h
  | some src =>
    have hcur : s.cur ≤ s.dest.length := by
      have := h.capacity
      have := h.room
      omega
    rw [DynStr.eggAppendStr]
    by_cases hgrow : s.cur + src.length + 10 > s.max
    · -- the block grows by 128 cells more than the string
      have hkept : (realloc s.dest (s.max + (src.length + 128) + 1) fill).take s.cur = text := by
        have := h.room
        rw [take_realloc fill (by omega) hcur]
        exact h.text
      obtain ⟨dest, hdest, hholding⟩ := Holding.copy s src
        (length_realloc s.dest _ fill) (by have := h.room; omega) hkept
      simp only [if_pos hgrow, hdest]
      exact ⟨_, rfl, hholding⟩
    · obtain ⟨dest, hdest, hholding⟩ := Holding.copy s src h.capacity (by omega) h.text
      simp only [if_neg hgrow, hdest]
      exact ⟨_, rfl, hholding⟩

/-- **Any number of appended strings** are held in order. -/
theorem Holding.run (h : s.Holding text) (fill : UInt8) (calls : List (Option (List UInt8))) :
    ∃ s', calls.foldlM (DynStr.eggAppendStr fill) s = some s' ∧
      s'.Holding (text ++ calls.flatMap appended) := by
  induction calls generalizing s text with
  | nil =>
    refine ⟨s, rfl, ?_⟩
    rw [List.flatMap_nil, List.append_nil]
    exact h
  | cons src calls ih =>
    obtain ⟨s₁, hs₁, h₁⟩ := h.eggAppendStr fill src
    obtain ⟨s', hs', h'⟩ := ih h₁
    refine ⟨s', ?_, ?_⟩
    · rw [List.foldlM_cons, hs₁]
      exact hs'
    · rw [List.flatMap_cons, ← List.append_assoc]
      exact h'

end DynStr

/-- The pointers of a string. -/
def EggStr.pointers (s : EggStr) : DynStr := ⟨s.dest, s.cur, s.max⟩

/-- The record is kept by the calls as they are made. -/
theorem eggAppendStr_pointers (s : EggStr) (src : List UInt8) :
    s.pointers.eggAppendStr 0 (some src) = some (eggAppendStr s src).pointers := by
  have hroom := s.room
  have hcapacity := s.capacity
  rw [DynStr.eggAppendStr, eggAppendStr]
  by_cases hgrow : s.cur + src.length + 10 > s.max
  · have hgrow' : s.pointers.cur + src.length + 10 > s.pointers.max := hgrow
    have hcopy : memmoveFrom (realloc s.pointers.dest (s.pointers.max + (src.length + 128) + 1) 0)
        s.pointers.cur src =
          some (memcpy (realloc s.dest (s.max + (src.length + 128) + 1) 0) s.cur src) := by
      refine if_pos (Nat.le_trans ?_ (Nat.le_of_eq (length_realloc _ _ _).symm))
      show s.cur + src.length ≤ s.max + (src.length + 128) + 1
      omega
    rw [dif_pos hgrow]
    simp only [if_pos hgrow', hcopy]
    rfl
  · have hgrow' : ¬ s.pointers.cur + src.length + 10 > s.pointers.max := hgrow
    have hcopy : memmoveFrom s.pointers.dest s.pointers.cur src = some (memcpy s.dest s.cur src) := by
      refine if_pos ?_
      show s.cur + src.length ≤ s.dest.length
      omega
    rw [dif_neg hgrow]
    simp only [if_neg hgrow', hcopy]
    rfl

/-- **No call leaves the block.** After any sequence of calls the block has `max + 1` cells, ten of them
free, the string is what was appended, and its terminator has a cell. -/
theorem egg_append_str_sound (fill : UInt8) {cells : List UInt8} (h : cells.length = 129)
    (calls : List (Option (List UInt8))) :
    ∃ s, calls.foldlM (DynStr.eggAppendStr fill) (DynStr.init cells) = some s ∧
      s.dest.length = s.max + 1 ∧ s.cur + 10 ≤ s.max ∧
      s.dest.take s.cur = calls.flatMap DynStr.appended ∧
      ∃ newline, memmoveFrom s.dest s.cur [0] = some newline := by
  obtain ⟨s, hs, hholding⟩ := (DynStr.holding_init h).run fill calls
  have hend : s.cur + [(0 : UInt8)].length ≤ s.dest.length := by
    have := hholding.capacity
    have := hholding.room
    rw [List.length_singleton]
    omega
  exact ⟨s, hs, hholding.capacity, hholding.room, hholding.text, _, if_pos hend⟩

/-- A string, NULL, and a string that makes the block grow. -/
theorem egg_append_str_sound_grown :
    ∃ s, [some [104, 105], none, some (List.replicate 200 33)].foldlM (DynStr.eggAppendStr 7)
        (DynStr.init (List.replicate 129 0)) = some s ∧
      s.dest.length = s.max + 1 ∧ s.cur + 10 ≤ s.max ∧
      s.dest.take s.cur =
        [some [104, 105], none, some (List.replicate 200 33)].flatMap DynStr.appended ∧
      ∃ newline, memmoveFrom s.dest s.cur [0] = some newline :=
  egg_append_str_sound 7 List.length_replicate _

end ExamplePrograms.Onethread
