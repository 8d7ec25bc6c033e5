import Mathlib.Data.List.TakeWhile
import Mathlib.Data.List.Infix

/-!
# NUL-terminated strings

The string functions of C on a block of bytes, where a pointer into the block is the offset of its
cell. `cstr` is the string at an offset; the block has a NUL at that offset or behind it.

`StringAt buf p s` says that the block holds the string `s` at `p`, terminator included. It is kept when
the block grows behind the terminator (`StringAt.append`), which is how a parser that cuts its input in
place is followed: what it has cut off is settled.
-/

set_option autoImplicit false

namespace ExamplePrograms.Lib.CString

/-- `*(buf + i)`. -/
def byte (buf : List UInt8) (i : Nat) : UInt8 := buf.getD i 0

/-- The string at `buf + i`. -/
def cstr (buf : List UInt8) (i : Nat) : List UInt8 := (buf.drop i).takeWhile (· != 0)

/-- `strncpy(dest, src, n)` for a block `dest` of `n` bytes. -/
def strncpy (src : List UInt8) (n : Nat) : List UInt8 :=
  (cstr src 0).take n ++ List.replicate (n - (cstr src 0).length) 0

/-- `vsnprintf(dest, n, ..)` with the formatted text `text`: what fits in front of a NUL is stored. -/
def vsnprintf (dest : List UInt8) (n : Nat) (text : List UInt8) : List UInt8 :=
  let s := text.take (n - 1)
  s ++ 0 :: dest.drop (s.length + 1)

/-- `strcat(dest, src)`. -/
def strcat (dest src : List UInt8) : List UInt8 :=
  let s := cstr dest 0 ++ cstr src 0
  s ++ 0 :: dest.drop (s.length + 1)

/-- `strchr(buf + i, c)` for a byte that is not NUL. -/
def strchr (buf : List UInt8) (i : Nat) (c : UInt8) : Option Nat :=
  if c ∈ cstr buf i then some (i + (cstr buf i).idxOf c) else none

/-- `strspn(buf + i, set)`. -/
def strspn (buf : List UInt8) (i : Nat) (set : List UInt8) : Nat :=
  ((cstr buf i).takeWhile set.contains).length

/-- `strcspn(buf + i, set)`. -/
def strcspn (buf : List UInt8) (i : Nat) (set : List UInt8) : Nat :=
  ((cstr buf i).takeWhile fun c => !set.contains c).length

/-- `tolower`. -/
def tolower (c : UInt8) : UInt8 := if 65 ≤ c ∧ c ≤ 90 then c + 32 else c

/-- `strcasecmp(a, b)` finds no difference between two strings. -/
def sameText (a b : List UInt8) : Bool := a.map tolower == b.map tolower

/-- `strncasecmp(a, b, n)` finds no difference between two strings. -/
def sameCase (a b : List UInt8) (n : Nat) : Bool := sameText (a.take n) (b.take n)

/-- The result of `strtok_r`: the block, the token and the saved pointer. -/
structure Token where
  buf : List UInt8
  token : Option Nat
  save : Nat

/-- `strtok_r`, from the first argument or from the saved pointer on. -/
def strtokR (buf : List UInt8) (s : Nat) (delim : List UInt8) : Token :=
  let s := s + strspn buf s delim
  if byte buf s = 0 then ⟨buf, none, s⟩
  else
    let e := s + strcspn buf s delim
    if byte buf e = 0 then ⟨buf, some s, e⟩ else ⟨buf.set e 0, some s, e + 1⟩

/-- `buf` holds the string `s` at `p`. -/
def StringAt (buf : List UInt8) (p : Nat) (s : List UInt8) : Prop :=
  ∃ a b, buf = a ++ (s ++ 0 :: b) ∧ a.length = p ∧ 0 ∉ s

section Strings

variable {a b s : List UInt8} {c : UInt8}

theorem takeWhile_ne_append (h : 0 ∉ s) (rest : List UInt8) :
    (s ++ rest).takeWhile (· != 0) = s ++ rest.takeWhile (· != 0) :=
  List.takeWhile_append_of_pos fun _ hx => bne_iff_ne.2 (ne_of_mem_of_not_mem hx h)

/-- The string at an offset runs up to the NUL behind it. -/
theorem cstr_eq (h : 0 ∉ s) (rest : List UInt8) :
    cstr (a ++ (s ++ rest)) a.length = s ++ rest.takeWhile (· != 0) := by
  rw [cstr, List.drop_left, takeWhile_ne_append h]

/-- The string that a NUL ends. -/
theorem cstr_append (h : 0 ∉ s) : cstr (a ++ (s ++ 0 :: b)) a.length = s := by
  rw [cstr_eq h]
  exact List.append_nil s

theorem cstr_of_noNul (h : 0 ∉ s) : cstr s 0 = s := by
  have := cstr_eq (a := []) h []
  rwa [List.append_nil, List.nil_append, List.takeWhile_nil, List.append_nil] at this

/-- Bytes behind a NUL do not matter. -/
theorem cstr_append_zero (s b : List UInt8) : cstr (s ++ 0 :: b) 0 = cstr s 0 := by
  show (s ++ 0 :: b).takeWhile (· != 0) = s.takeWhile (· != 0)
  induction s with
  | nil => rfl
  | cons x s ih => rw [List.cons_append, List.takeWhile_cons, List.takeWhile_cons, ih]

/-- The string that is read at its own position. -/
theorem StringAt.cstr {buf : List UInt8} {p : Nat} (h : StringAt buf p s) : cstr buf p = s := by
  obtain ⟨a, b, rfl, rfl, hs⟩ := h
  exact cstr_append hs

theorem stringAt_append (h : 0 ∉ s) : StringAt (a ++ (s ++ 0 :: b)) a.length s := ⟨a, b, rfl, rfl, h⟩

/-- A string stays where it is when the block gets longer. -/
theorem StringAt.append {buf : List UInt8} {p : Nat} (h : StringAt buf p s) (more : List UInt8) :
    StringAt (buf ++ more) p s := by
  obtain ⟨a, b, rfl, rfl, hs⟩ := h
  exact ⟨a, b ++ more, by simp, rfl, hs⟩

theorem StringAt.of_take {buf : List UInt8} {p i : Nat} (h : StringAt (buf.take i) p s) :
    StringAt buf p s := by
  rw [← List.take_append_drop i buf]
  exact h.append (buf.drop i)

/-- A string lies in its block. -/
theorem StringAt.lt {buf : List UInt8} {p : Nat} (h : StringAt buf p s) : p < buf.length := by
  obtain ⟨a, b, rfl, rfl, -⟩ := h
  simp only [List.length_append, List.length_cons]
  omega

theorem byte_append (x : UInt8) : byte (a ++ x :: b) a.length = x := by
  simp [byte]

theorem byte_append_length : byte (a ++ (s ++ c :: b)) (a.length + s.length) = c := by
  rw [← List.append_assoc, ← List.length_append, byte_append]

/-- Cutting a string in place. -/
theorem set_append (x y : UInt8) : (a ++ (s ++ x :: b)).set (a.length + s.length) y =
    a ++ (s ++ y :: b) := by
  rw [← List.append_assoc, ← List.length_append, List.set_append_right _ _ (Nat.le_refl _),
    Nat.sub_self, List.set_cons_zero, List.append_assoc]

/-- `strchr` finds the first one. -/
theorem strchr_append (hc : c ≠ 0) (hs : 0 ∉ s) (hcs : c ∉ s) :
    strchr (a ++ (s ++ c :: b)) a.length c = some (a.length + s.length) := by
  have hcstr : cstr (a ++ (s ++ c :: b)) a.length = s ++ c :: b.takeWhile (· != 0) := by
    rw [cstr_eq hs, List.takeWhile_cons, if_pos (bne_iff_ne.2 hc)]
  rw [strchr, hcstr, if_pos (List.mem_append_right _ List.mem_cons_self),
    List.idxOf_append_of_notMem hcs, List.idxOf_cons_self, Nat.add_zero]

/-- No character is found that the string does not have. -/
theorem strchr_none (hs : 0 ∉ s) (hcs : c ∉ s) :
    strchr (a ++ (s ++ 0 :: b)) a.length c = none := by
  rw [strchr, cstr_append hs, if_neg hcs]

/-- A token in front of `c` reaches up to it. -/
theorem strtokR_token {delim : List UInt8} (hne : s ≠ []) (hs : 0 ∉ s) (hd : ∀ x ∈ s, x ∉ delim)
    (hc : c = 0 ∨ c ∈ delim) :
    strtokR (a ++ (s ++ c :: b)) a.length delim =
      if c = 0 then ⟨a ++ (s ++ c :: b), some a.length, a.length + s.length⟩
      else ⟨a ++ (s ++ 0 :: b), some a.length, a.length + s.length + 1⟩ := by
  have hcstr := cstr_eq (a := a) hs (c :: b)
  have hspn : strspn (a ++ (s ++ c :: b)) a.length delim = 0 := by
    rw [strspn, hcstr]
    cases s with
    | nil => exact absurd rfl hne
    | cons x s =>
      rw [List.cons_append, List.takeWhile_cons, if_neg (by simpa using hd x List.mem_cons_self)]
      rfl
  have hcspn : strcspn (a ++ (s ++ c :: b)) a.length delim = s.length := by
    rw [strcspn, hcstr, List.takeWhile_append_of_pos fun x hx => by simpa using hd x hx]
    rcases hc with rfl | hc
    · simp
    · by_cases h0 : c = 0
      · simp [h0]
      · simp [h0, hc]
  have hfirst : byte (a ++ (s ++ c :: b)) a.length ≠ 0 := by
    cases s with
    | nil => exact absurd rfl hne
    | cons x s =>
      rw [List.cons_append, byte_append]
      exact ne_of_mem_of_not_mem List.mem_cons_self hs
  simp only [strtokR, hspn, Nat.add_zero, if_neg hfirst, hcspn, byte_append_length, set_append]

/-- A token that ends at a delimiter is cut off there. -/
theorem strtokR_delim {delim : List UInt8} (hne : s ≠ []) (hs : 0 ∉ s) (hd : ∀ x ∈ s, x ∉ delim)
    (hc : c ≠ 0) (hcd : c ∈ delim) : strtokR (a ++ (s ++ c :: b)) a.length delim =
      ⟨a ++ (s ++ 0 :: b), some a.length, a.length + s.length + 1⟩ := by
  rw [strtokR_token hne hs hd (Or.inr hcd), if_neg hc]

/-- A token that ends with the string. -/
theorem strtokR_last {delim : List UInt8} (hne : s ≠ []) (hs : 0 ∉ s) (hd : ∀ x ∈ s, x ∉ delim) :
    strtokR (a ++ (s ++ 0 :: b)) a.length delim =
      ⟨a ++ (s ++ 0 :: b), some a.length, a.length + s.length⟩ := by
  rw [strtokR_token hne hs hd (Or.inl rfl), if_pos rfl]

/-- At the end of the string there is no token. -/
theorem strtokR_end (delim : List UInt8) :
    strtokR (a ++ 0 :: b) a.length delim = ⟨a ++ 0 :: b, none, a.length⟩ := by
  have hcstr : cstr (a ++ 0 :: b) a.length = [] :=
    cstr_append (List.not_mem_nil (a := (0 : UInt8)))
  have hspn : strspn (a ++ 0 :: b) a.length delim = 0 := by
    rw [strspn, hcstr]
    rfl
  simp only [strtokR, hspn, Nat.add_zero, byte_append, if_true]

/-- Delimiters in front of a token are skipped. -/
theorem strtokR_skip {delim : List UInt8} (hs : 0 ∉ s) (hd : ∀ x ∈ s, x ∈ delim) :
    strtokR (a ++ (s ++ b)) a.length delim = strtokR (a ++ (s ++ b)) (a.length + s.length) delim := by
  have hcstr : cstr (a ++ (s ++ b)) (a.length + s.length) = b.takeWhile (· != 0) := by
    have := cstr_eq (a := a ++ s) (s := []) List.not_mem_nil b
    rwa [List.nil_append, List.append_assoc, List.length_append, List.nil_append] at this
  have hstart : a.length + strspn (a ++ (s ++ b)) a.length delim =
      a.length + s.length + strspn (a ++ (s ++ b)) (a.length + s.length) delim := by
    rw [strspn, strspn, cstr_eq hs, hcstr,
      List.takeWhile_append_of_pos fun x hx => by simpa using hd x hx, List.length_append,
      Nat.add_assoc]
  rw [strtokR, strtokR, hstart]

/-- What is in front of the string stays as it is. -/
theorem take_strtokR (buf : List UInt8) (i : Nat) (delim : List UInt8) {k : Nat} (hk : k ≤ i) :
    (strtokR buf i delim).buf.take k = buf.take k ∧ k ≤ (strtokR buf i delim).save := by
  rw [strtokR]
  dsimp only
  split
  · exact ⟨rfl, by dsimp only; omega⟩
  split
  · exact ⟨rfl, by dsimp only; omega⟩
  · exact ⟨List.take_set_of_le (by omega), by dsimp only; omega⟩

/-- A string does not reach beyond a NUL. -/
theorem length_cstr_le {buf : List UInt8} {i k : Nat} (hik : i ≤ k) (hk : byte buf k = 0) :
    (cstr buf i).length ≤ k - i := by
  by_contra hlong
  have hlt : k - i < (cstr buf i).length := by omega
  have hpre : cstr buf i <+: buf.drop i := List.takeWhile_prefix _
  have hne : (cstr buf i)[k - i] ≠ 0 := by
    have := List.mem_takeWhile_imp (List.getElem_mem hlt)
    exact bne_iff_ne.1 this
  have hlen : k < buf.length := by
    have := hpre.length_le
    rw [List.length_drop] at this
    omega
  rw [hpre.getElem hlt, List.getElem_drop] at hne
  rw [byte, List.getD_eq_getElem?_getD, List.getElem?_eq_getElem hlen, Option.getD_some] at hk
  refine hne (Eq.trans ?_ hk)
  congr 1
  omega

/-- Blocks that agree from an offset on have the same byte there. -/
theorem byte_eq_of_drop {buf buf' : List UInt8} {k : Nat} (h : buf'.drop k = buf.drop k) :
    byte buf' k = byte buf k := by
  have hfirst := congrArg (fun l => l[0]?) h
  simp only [List.getElem?_drop, Nat.add_zero] at hfirst
  rw [byte, byte, List.getD_eq_getElem?_getD, List.getD_eq_getElem?_getD, hfirst]

/-- `strtok_r` works in front of the NUL that ends its string. -/
theorem strtokR_keeps {buf : List UInt8} {i k : Nat} (delim : List UInt8) (hik : i ≤ k)
    (hk : byte buf k = 0) :
    (strtokR buf i delim).buf.length = buf.length ∧
      (strtokR buf i delim).buf.drop k = buf.drop k ∧ (strtokR buf i delim).save ≤ k := by
  have hspn : i + strspn buf i delim ≤ k := by
    have hle : strspn buf i delim ≤ (cstr buf i).length := (List.takeWhile_prefix _).length_le
    have := length_cstr_le hik hk
    omega
  have hcspn : i + strspn buf i delim + strcspn buf (i + strspn buf i delim) delim ≤ k := by
    have hle : strcspn buf (i + strspn buf i delim) delim ≤
        (cstr buf (i + strspn buf i delim)).length := (List.takeWhile_prefix _).length_le
    have := length_cstr_le hspn hk
    omega
  rw [strtokR]
  dsimp only
  split
  · exact ⟨rfl, rfl, hspn⟩
  split
  · exact ⟨rfl, rfl, hcspn⟩
  · next hdelim =>
    have hne : i + strspn buf i delim + strcspn buf (i + strspn buf i delim) delim ≠ k := by
      intro heq
      exact hdelim (heq ▸ hk)
    have hlt := Nat.lt_of_le_of_ne hcspn hne
    exact ⟨List.length_set, List.drop_set_of_lt hlt, hlt⟩

end Strings

end ExamplePrograms.Lib.CString
