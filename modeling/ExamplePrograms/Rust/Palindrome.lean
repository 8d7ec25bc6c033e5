import Mathlib.Data.String.Basic
import ExamplePrograms.Lib.Loops

/-!
# Palindromes

`is_palindrome` of `palindrome/src/main.rs` compares the characters of a word from both ends. It takes
the last index from `word.len()`, the number of bytes of the word in UTF-8. A `usize` subtraction below
zero and an index behind the vector are panics, which give no result here.

It decides the palindromes among the words of single-byte characters (`isPalindrome_ascii`), and panics
for the empty word and for every word with a longer character.
-/

set_option autoImplicit false

namespace ExamplePrograms.Rust.Palindrome

open ExamplePrograms.Lib.Loops

/-- The state of the loop, with what the function returns when the loop is left. -/
structure Search where
  cur : Nat
  answer : Bool := true
  deriving DecidableEq, Repr

/-- One round of the loop. -/
def compareRound (chars : List Char) (len : Nat) (s : Search) : Round Search :=
  if len < s.cur then .undefined
  else if 0 < len - s.cur then
    match chars[s.cur]?, chars[len - s.cur]? with
    | some front, some back =>
        if front = back then .again { s with cur := s.cur + 1 }
        else .exit { s with answer := false }
    -- an index behind the vector
    | _, _ => .undefined
  else .exit { s with answer := true }

/-- `is_palindrome`. It takes at most as many rounds as the word has bytes. -/
def isPalindrome (word : String) : Option Bool :=
  if word.utf8ByteSize < 1 then none
  else
    let len := word.utf8ByteSize - 1
    (iterate (compareRound word.toList len) (len + 1) { cur := 0 }).map Search.answer

/-! ## Lengths -/

/-- A text has no more characters than bytes. -/
theorem length_le_utf8Len (chars : List Char) : chars.length ≤ String.utf8Len chars := by
  induction chars with
  | nil => exact Nat.le_refl 0
  | cons c chars ih =>
    have hc := Char.utf8Size_pos c
    rw [List.length_cons, String.utf8Len_cons]
    omega

/-- There are as many characters as bytes when every character is a single byte. -/
theorem utf8Len_eq_length_iff (chars : List Char) :
    String.utf8Len chars = chars.length ↔ ∀ c ∈ chars, c.utf8Size = 1 := by
  induction chars with
  | nil => simp
  | cons c chars ih =>
    have hc := Char.utf8Size_pos c
    have hle := length_le_utf8Len chars
    rw [String.utf8Len_cons, List.length_cons, List.forall_mem_cons, ← ih]
    omega

/-- Bytes and characters are equally many exactly in a text of one-byte characters. -/
theorem utf8ByteSize_eq_length_iff (word : String) :
    word.utf8ByteSize = word.toList.length ↔ ∀ c ∈ word.toList, c.utf8Size = 1 := by
  rw [← String.utf8Len_toList]
  exact utf8Len_eq_length_iff word.toList

/-! ## The loop -/

section Loop

variable {chars : List Char} {len : Nat} {s : Search}

/-- The comparison ends at the middle. -/
theorem compareRound_end (h : s.cur = len) :
    compareRound chars len s = .exit { s with answer := true } := by
  rw [compareRound, if_neg (by omega), if_neg (by omega)]

/-- A round that compares two characters. -/
theorem compareRound_inside {front back : Char} (h : s.cur < len) (hfront : chars[s.cur]? = some front)
    (hback : chars[len - s.cur]? = some back) :
    compareRound chars len s =
      if front = back then .again { s with cur := s.cur + 1 } else .exit { s with answer := false } := by
  rw [compareRound, if_neg (by omega), if_pos (by omega), hfront, hback]

/-- A round behind the last character. -/
theorem compareRound_behind (h : s.cur < len) (hback : chars.length ≤ len - s.cur) :
    compareRound chars len s = .undefined := by
  rw [compareRound, if_neg (by omega), if_pos (by omega), List.getElem?_eq_none hback]
  cases chars[s.cur]? <;> rfl

/-- The characters in front of the last one are those that stand at the other end. -/
theorem eq_reverse_iff (hlen : chars.length = len + 1) :
    chars = chars.reverse ↔ ∀ i < len, chars[i]? = chars[len - i]? := by
  have hrev : ∀ i ≤ len, chars.reverse[i]? = chars[len - i]? := fun i hi => by
    rw [List.getElem?_reverse (by omega), hlen, Nat.add_sub_cancel]
  constructor
  · intro h i hi
    rw [← hrev i (Nat.le_of_lt hi), ← h]
  · intro h
    refine List.ext_getElem? fun i => ?_
    rcases Nat.lt_trichotomy i len with hi | rfl | hi
    · rw [hrev i (Nat.le_of_lt hi), h i hi]
    -- the last character was compared with the first one in the first round
    · rw [hrev i (Nat.le_refl i), Nat.sub_self]
      cases i with
      | zero => rfl
      | succ i => rw [h 0 (Nat.succ_pos i), Nat.sub_zero]
    · rw [List.getElem?_eq_none (by omega), List.getElem?_eq_none (by simpa using by omega)]

/-- The loop returns when the last index is that of the last character. -/
theorem iterate_compareRound (hlen : chars.length = len + 1) {n : Nat} (hn : len < n) :
    ∃ r, iterate (compareRound chars len) n { cur := 0 } = some r ∧
      (r.answer = true ↔ chars = chars.reverse) := by
  refine iterate_variant (I := fun s => s.cur ≤ len ∧ ∀ i < s.cur, chars[i]? = chars[len - i]?)
    (fun s => len - s.cur) ?_ ⟨Nat.zero_le _, fun i hi => absurd hi (Nat.not_lt_zero i)⟩ hn
  rintro s ⟨hcur, hsame⟩
  rcases Nat.lt_or_eq_of_le hcur with hlt | heq
  · have hfront : chars[s.cur]? = some chars[s.cur] := List.getElem?_eq_getElem (by omega)
    have hback : chars[len - s.cur]? = some chars[len - s.cur] := List.getElem?_eq_getElem (by omega)
    rw [compareRound_inside hlt hfront hback]
    split
    · next heq =>
      refine .inr ⟨_, rfl, ⟨hlt, fun i hi => ?_⟩, show len - (s.cur + 1) < len - s.cur by omega⟩
      rcases Nat.lt_or_eq_of_le (Nat.le_of_lt_succ hi) with hi | rfl
      · exact hsame i hi
      · rw [hfront, hback, heq]
    · next hne =>
      refine .inl ⟨_, rfl, ?_⟩
      rw [eq_reverse_iff hlen]
      refine ⟨fun h => absurd h Bool.false_ne_true, fun h => absurd ?_ hne⟩
      have hcmp := h s.cur hlt
      rw [hfront, hback] at hcmp
      exact Option.some.inj hcmp
  · refine .inl ⟨_, compareRound_end heq, ?_⟩
    rw [eq_reverse_iff hlen]
    exact ⟨fun _ => heq ▸ hsame, fun _ => rfl⟩

end Loop

/-! ## What the function decides -/

section Words

variable {word : String}

/-- A word of single-byte characters is decided. -/
theorem isPalindrome_ascii (hne : word ≠ "") (h : ∀ c ∈ word.toList, c.utf8Size = 1) :
    ∃ b, isPalindrome word = some b ∧ (b = true ↔ word.toList = word.toList.reverse) := by
  have hpos : word.utf8ByteSize ≠ 0 := fun h => hne (String.utf8ByteSize_eq_zero_iff.1 h)
  have hbytes := (utf8ByteSize_eq_length_iff word).2 h
  have hlen : word.toList.length = word.utf8ByteSize - 1 + 1 := by omega
  obtain ⟨r, hr, hanswer⟩ := iterate_compareRound hlen (Nat.lt_succ_self _)
  refine ⟨r.answer, ?_, hanswer⟩
  rw [isPalindrome, if_neg (by omega)]
  exact congrArg (Option.map Search.answer) hr

/-- The first round looks behind the last character when the bytes are more. -/
theorem isPalindrome_multibyte (h : word.toList.length < word.utf8ByteSize) :
    isPalindrome word = none := by
  have hne : word.toList.length ≠ 0 := fun hnil => by
    rw [String.toList_eq_nil_iff.1 (List.eq_nil_of_length_eq_zero hnil)] at h
    exact absurd h (by decide)
  have hfirst : compareRound word.toList (word.utf8ByteSize - 1) { cur := 0 } = .undefined :=
    compareRound_behind (by dsimp only; omega) (by dsimp only; omega)
  rw [isPalindrome, if_neg (by omega)]
  exact congrArg (Option.map Search.answer) (iterate_undefined hfirst _)

/-- The empty word makes the function panic. -/
theorem isPalindrome_empty : isPalindrome "" = none := rfl

end Words

/-- **The words that `is_palindrome` decides.** It returns, and says whether the characters of the word
read the same from both ends, for the words of single-byte characters but the empty one. -/
theorem isPalindrome_decides_iff (word : String) :
    (∃ b, isPalindrome word = some b ∧ (b = true ↔ word.toList = word.toList.reverse)) ↔
      word ≠ "" ∧ ∀ c ∈ word.toList, c.utf8Size = 1 := by
  constructor
  · rintro ⟨b, hb, -⟩
    refine ⟨fun hempty => ?_, (utf8ByteSize_eq_length_iff word).1 ?_⟩
    · rw [hempty, isPalindrome_empty] at hb
      cases hb
    · by_contra hne
      have hle : word.toList.length ≤ word.utf8ByteSize := by
        rw [← String.utf8Len_toList]
        exact length_le_utf8Len word.toList
      rw [isPalindrome_multibyte (by omega)] at hb
      cases hb
  · rintro ⟨hne, h⟩
    exact isPalindrome_ascii hne h

example : isPalindrome "racecar" = some true := by decide

/-- The empty word and `été` are palindromes, and no answer is given for them. -/
theorem isPalindrome_panics :
    ¬ (∀ word : String,
        ∃ b, isPalindrome word = some b ∧ (b = true ↔ word.toList = word.toList.reverse)) ∧
      isPalindrome "" = none ∧ isPalindrome "été" = none := by
  refine ⟨fun h => ?_, by decide, by decide⟩
  obtain ⟨b, hb, -⟩ := h ""
  cases hb

end ExamplePrograms.Rust.Palindrome
