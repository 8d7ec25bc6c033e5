import Mathlib.Data.List.Basic
import Mathlib.Data.List.InsertIdx
import Mathlib.Tactic.Common

/-!
# Blocks of memory

A block of memory is the list of its cells. `realloc`, `memmove` and `memcpy` act on a block as the
C functions of the same names do inside its bounds. The lemmas read a cell of the result, and relate
the two hand-written idioms of array code, opening a gap and closing one, to `List.insertIdx` and
`List.eraseIdx` on the used part of the block.
-/

set_option autoImplicit false

namespace ExamplePrograms.Lib.Memory

universe u

variable {α : Type u}

/-- `realloc(p, n)`: the old cells up to the new size; a cell past the old block holds `fresh`. -/
def realloc (l : List α) (n : Nat) (fresh : α) : List α :=
  l.take n ++ List.replicate (n - l.length) fresh

/-- `memmove(p + dst, p + src, n)`. -/
def memmove (l : List α) (dst src n : Nat) : List α :=
  l.take dst ++ (l.drop src).take n ++ l.drop (dst + n)

/-- `memcpy(p + dst, src, length of src)`. -/
def memcpy (l : List α) (dst : Nat) (src : List α) : List α :=
  l.take dst ++ src ++ l.drop (dst + src.length)

@[simp] theorem length_realloc (l : List α) (n : Nat) (fresh : α) :
    (realloc l n fresh).length = n := by
  simp only [realloc, List.length_append, List.length_take, List.length_replicate]
  omega

/-- `realloc` keeps the cells that fit. -/
theorem take_realloc {l : List α} {n m : Nat} (fresh : α) (hm : m ≤ n) (hl : m ≤ l.length) :
    (realloc l n fresh).take m = l.take m := by
  rw [realloc, List.take_append_of_le_length (by rw [List.length_take]; omega), List.take_take]
  congr 1
  omega

/-- A cell that `realloc` keeps. -/
theorem getElem?_realloc {l : List α} {n i : Nat} (fresh : α) (hi : i < n) (hl : i < l.length) :
    (realloc l n fresh)[i]? = l[i]? := by
  rw [realloc, List.getElem?_append_left (by rw [List.length_take]; omega)]
  exact List.getElem?_take_of_lt hi

/-- The cell of `realloc` at the end of the old block is fresh. -/
theorem getElem?_realloc_length {l : List α} {n : Nat} (fresh : α) (hn : l.length < n) :
    (realloc l n fresh)[l.length]? = some fresh := by
  rw [realloc, List.getElem?_append_right (by rw [List.length_take]; omega)]
  simp only [List.length_take, List.getElem?_replicate]
  rw [if_pos (by omega)]

/-- Every cell of `realloc` is an old one or fresh. -/
theorem mem_realloc {l : List α} {n : Nat} {fresh x : α} (h : x ∈ realloc l n fresh) :
    x ∈ l ∨ x = fresh := by
  rcases List.mem_append.1 h with h | h
  · exact Or.inl (List.mem_of_mem_take h)
  · exact Or.inr (List.eq_of_mem_replicate h)

/-- `memmove` only moves cells. -/
theorem mem_memmove {l : List α} {dst src n : Nat} {x : α} (h : x ∈ memmove l dst src n) : x ∈ l := by
  rcases List.mem_append.1 h with h | h
  · rcases List.mem_append.1 h with h | h
    · exact List.mem_of_mem_take h
    · exact List.mem_of_mem_drop (List.mem_of_mem_take h)
  · exact List.mem_of_mem_drop h

/-- `memmove` keeps the size of the block. -/
theorem length_memmove {l : List α} {dst src n : Nat} (hd : dst + n ≤ l.length)
    (hs : src + n ≤ l.length) : (memmove l dst src n).length = l.length := by
  simp only [memmove, List.length_append, List.length_take, List.length_drop]
  omega

/-- The cells of the block behind a `memmove`. -/
theorem getElem?_memmove {l : List α} {dst src n : Nat} (hd : dst + n ≤ l.length)
    (hs : src + n ≤ l.length) (i : Nat) :
    (memmove l dst src n)[i]? =
      if dst ≤ i ∧ i < dst + n then l[src + (i - dst)]? else l[i]? := by
  have hdst : (l.take dst).length = dst := by rw [List.length_take]; omega
  have hmid : ((l.drop src).take n).length = n := by
    rw [List.length_take, List.length_drop]; omega
  rw [memmove, List.append_assoc]
  by_cases h1 : i < dst
  · rw [List.getElem?_append_left (by omega), List.getElem?_take_of_lt h1, if_neg (by omega)]
  · rw [List.getElem?_append_right (by omega), hdst]
    by_cases h2 : i < dst + n
    · rw [List.getElem?_append_left (by omega), List.getElem?_take_of_lt (by omega),
        List.getElem?_drop, if_pos (by omega)]
    · rw [List.getElem?_append_right (by omega), hmid, List.getElem?_drop, if_neg (by omega)]
      congr 1
      omega

/-- Closing the gap at `i` in the first `m` cells removes element `i` from the first `k` of them. -/
theorem take_memmove_close {l : List α} {i k m : Nat} (hi : i < k) (hk : k ≤ m)
    (hm : m ≤ l.length) :
    (memmove l i (i + 1) (m - i - 1)).take (k - 1) = (l.take k).eraseIdx i := by
  apply List.ext_getElem?
  intro j
  rw [List.getElem?_take, getElem?_memmove (by omega) (by omega), List.getElem?_eraseIdx]
  by_cases hj : j < k - 1
  · rw [if_pos hj]
    by_cases hji : j < i
    · rw [if_neg (by omega), if_pos hji, List.getElem?_take_of_lt (by omega)]
    · rw [if_pos (by omega), if_neg hji, List.getElem?_take_of_lt (by omega)]
      congr 1
      omega
  · rw [if_neg hj, if_neg (by omega), List.getElem?_eq_none]
    rw [List.length_take]
    omega

/-- Opening a gap at `i` in the first `m` cells and filling it inserts an element. -/
theorem take_memmove_open {l : List α} {i m : Nat} (x : α) (hi : i ≤ m) (hm : m < l.length) :
    ((memmove l (i + 1) i (m - i)).set i x).take (m + 1) = (l.take m).insertIdx i x := by
  apply List.ext_getElem?
  intro j
  have hlen : (memmove l (i + 1) i (m - i)).length = l.length :=
    length_memmove (by omega) (by omega)
  rw [List.getElem?_insertIdx, List.getElem?_take, List.getElem?_set,
    getElem?_memmove (by omega) (by omega), hlen, List.length_take]
  by_cases hj : j < m + 1
  · rw [if_pos hj]
    rcases Nat.lt_trichotomy j i with h | h | h
    · rw [if_neg (by omega), if_neg (by omega), if_pos h, List.getElem?_take_of_lt (by omega)]
    · subst h
      rw [if_pos rfl, if_pos (by omega), if_neg (by omega), if_pos rfl, if_pos (by omega)]
    · rw [if_neg (by omega), if_pos (by omega), if_neg (by omega), if_neg (by omega),
        List.getElem?_take_of_lt (by omega)]
      congr 1
      omega
  · rw [if_neg hj, if_neg (by omega), if_neg (by omega), List.getElem?_eq_none]
    rw [List.length_take]
    omega

/-- A block that has been grown, with its cells moved up for a new one. -/
theorem take_realloc_open {l : List α} {n i : Nat} (fresh x : α) (hn : n ≤ l.length)
    (hi : i ≤ n) :
    ((memmove (realloc l (n + 1) fresh) (i + 1) i (n - i)).set i x).take (n + 1) =
      (l.take n).insertIdx i x := by
  rw [take_memmove_open x hi (by rw [length_realloc]; exact Nat.lt_succ_self _),
    take_realloc _ (Nat.le_succ _) hn]

/-- Opening a gap in a block that grew by one cell keeps its size. -/
theorem length_realloc_open {l : List α} {i n : Nat} (fresh x : α) (hi : i ≤ n) :
    ((memmove (realloc l (n + 1) fresh) (i + 1) i (n - i)).set i x).length = n + 1 := by
  rw [List.length_set, length_memmove, length_realloc] <;> rw [length_realloc] <;> omega

/-- The cells behind the closed gap keep their order. -/
theorem drop_memmove_close {l : List α} {i k m : Nat} (hi : i < k) (hk : k ≤ m)
    (hm : m ≤ l.length) :
    ((memmove l i (i + 1) (m - i - 1)).drop (k - 1)).take (m - k) = (l.drop k).take (m - k) := by
  apply List.ext_getElem?
  intro j
  rw [List.getElem?_take, List.getElem?_take, List.getElem?_drop, List.getElem?_drop]
  by_cases hj : j < m - k
  · rw [if_pos hj, if_pos hj, getElem?_memmove (by omega) (by omega), if_pos (by omega)]
    congr 1
    omega
  · rw [if_neg hj, if_neg hj]

/-- Growing the first `n` cells by one and writing the new cell appends an element. -/
theorem take_realloc_set {l : List α} {n : Nat} (fresh x : α) (hn : n ≤ l.length) :
    ((realloc l (n + 1) fresh).set n x).take (n + 1) = l.take n ++ [x] := by
  have hlen : (realloc l (n + 1) fresh).length = n + 1 := length_realloc l (n + 1) fresh
  rw [List.take_of_length_le (by rw [List.length_set]; omega), List.set_eq_take_append_cons_drop,
    if_pos (by omega), take_realloc fresh (by omega) hn,
    List.drop_of_length_le (by omega)]

/-- Copying `src` behind the first `n` cells appends it to them. -/
theorem take_memcpy {l : List α} {n : Nat} {src : List α} (h : n + src.length ≤ l.length) :
    (memcpy l n src).take (n + src.length) = l.take n ++ src := by
  have hlen : (l.take n ++ src).length = n + src.length := by
    rw [List.length_append, List.length_take]
    omega
  rw [memcpy, List.take_append_of_le_length (by omega), List.take_of_length_le (by omega)]

/-- Growing the first `n` cells by the length of `src` and copying `src` behind them appends it. -/
theorem take_memcpy_realloc {l : List α} {n : Nat} (fresh : α) (src : List α) (hn : n ≤ l.length) :
    (memcpy (realloc l (n + src.length) fresh) n src).take (n + src.length) = l.take n ++ src := by
  rw [take_memcpy (Nat.le_of_eq (length_realloc ..).symm), take_realloc fresh (Nat.le_add_right _ _) hn]

/-- `memcpy` keeps the size of the block. -/
theorem length_memcpy {l : List α} {dst : Nat} {src : List α} (h : dst + src.length ≤ l.length) :
    (memcpy l dst src).length = l.length := by
  simp only [memcpy, List.length_append, List.length_take, List.length_drop]
  omega

/-- Moving `m` cells to the front. -/
theorem take_memmove_front {l : List α} {n m : Nat} (h : n + m ≤ l.length) :
    (memmove l 0 n m).take m = (l.drop n).take m := by
  have hlen : ((l.drop n).take m).length = m := by
    rw [List.length_take, List.length_drop]
    omega
  rw [memmove, List.take_zero, List.nil_append, List.take_append_of_le_length (by omega),
    List.take_of_length_le (by omega)]

/-- Moving `b` down over `r`. What stands behind it is left from before. -/
theorem memmove_down (a r b rest : List α) :
    memmove (a ++ (r ++ (b ++ rest))) a.length (a.length + r.length) b.length =
      a ++ (b ++ (r ++ (b ++ rest)).drop b.length) := by
  rw [memmove, List.take_left, ← List.drop_drop, List.drop_left, List.drop_left, List.take_left,
    ← List.drop_drop, List.drop_left, List.append_assoc]

theorem modify_concat (l : List α) (a : α) (f : α → α) :
    (l ++ [a]).modify l.length f = l ++ [f a] := by
  induction l with
  | nil => rfl
  | cons b l ih => simpa using ih

end ExamplePrograms.Lib.Memory
