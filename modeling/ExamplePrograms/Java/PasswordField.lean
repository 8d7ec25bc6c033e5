import ExamplePrograms.Java.Sekure
import ExamplePrograms.Lib.Loops

/-!
# The password prompt

`PasswordField.getPassword` reads the password that `Sekure` uses from `System.in`, byte by byte: a byte is
cast to a character, and so is the -1 that `read` returns at the end of the input. The loop is run here on
the bytes that are there; the thread that masks the prompt has no part in what is read.

`getPassword_line` says what the password is for every input, and for which there is none.
-/

set_option autoImplicit false

namespace ExamplePrograms.Java

open ExamplePrograms.Lib.Loops

/-- The input and the password of `getPassword`. -/
structure PasswordField where
  /-- What `System.in` still holds. -/
  input : List UInt8
  password : JString

namespace PasswordField

/-- `(char)System.in.read()`. -/
def read (s : PasswordField) : UInt16 × PasswordField :=
  match s.input with
  | c :: rest => (c.toUInt16, { s with input := rest })
  | [] => (0xFFFF, s)

/-- A round of the loop. Behind a carriage return one more character is read, and dropped unless it is a
line feed. -/
def round (s : PasswordField) : Round PasswordField :=
  let (c, s) := s.read
  if c = 13 then
    let (c, s) := s.read
    if c = 10 then .exit s else .again s
  else if c = 10 then .exit s
  else .again { s with password := s.password ++ [c] }

/-- The loop of `getPassword` for at most `n` rounds. -/
def getPassword (n : Nat) (input : List UInt8) : Option PasswordField := iterate round n ⟨input, []⟩

/-- What is left of a line without its carriage returns and without the byte behind each of them; the
first byte is dropped as well when `skip` holds. -/
def unreturned : Bool → List UInt8 → List UInt8
  | _, [] => []
  | true, _ :: line => unreturned false line
  | false, c :: line => if c = 13 then unreturned true line else c :: unreturned false line

/-- A text without CR stands before the line end as it is. -/
theorem unreturned_body {body : List UInt8} (h : 13 ∉ body) (line : List UInt8) :
    unreturned false (body ++ line) = body ++ unreturned false line := by
  induction body with
  | nil => rfl
  | cons c body ih =>
    obtain ⟨hc, hbody⟩ := not_or.1 (mt List.mem_cons.2 h)
    rw [List.cons_append, unreturned, if_neg (Ne.symm hc), ih hbody, List.cons_append]

section Rounds

variable {rest : List UInt8} {password : JString} {c : UInt8}

/-- At the end of the input the character -1 is appended. -/
theorem round_end : round ⟨[], password⟩ = .again ⟨[], password ++ [0xFFFF]⟩ := rfl

/-- An LF ends the password. -/
theorem round_lf : round ⟨10 :: rest, password⟩ = .exit ⟨rest, password⟩ := rfl

/-- A CR at the end of the input is dropped. -/
theorem round_cr_end : round ⟨[13], password⟩ = .again ⟨[], password⟩ := rfl

/-- A CR LF ends the password. -/
theorem round_crlf : round ⟨13 :: 10 :: rest, password⟩ = .exit ⟨rest, password⟩ := rfl

/-- Two bytes that give the same character are equal. -/
theorem toUInt16_eq_iff {c d : UInt8} : c.toUInt16 = d.toUInt16 ↔ c = d := by
  constructor
  · intro h
    have hnat := congrArg UInt16.toNat h
    rw [UInt8.toNat_toUInt16, UInt8.toNat_toUInt16] at hnat
    exact UInt8.toNat_inj.1 hnat
  · rintro rfl
    rfl

/-- A CR and the byte behind it are dropped. -/
theorem round_cr (h : c ≠ 10) : round ⟨13 :: c :: rest, password⟩ = .again ⟨rest, password⟩ := by
  have hc : ¬ c.toUInt16 = 10 := fun hc => h (toUInt16_eq_iff.1 hc)
  exact if_neg hc

/-- Any other character is appended. -/
theorem round_char (hcr : c ≠ 13) (hlf : c ≠ 10) :
    round ⟨c :: rest, password⟩ = .again ⟨rest, password ++ [c.toUInt16]⟩ := by
  have h13 : ¬ c.toUInt16 = 13 := fun hc => hcr (toUInt16_eq_iff.1 hc)
  have h10 : ¬ c.toUInt16 = 10 := fun hc => hlf (toUInt16_eq_iff.1 hc)
  exact (if_neg h13).trans (if_neg h10)

end Rounds

/-- The first line feed ends the loop, also behind a carriage return. -/
theorem iterate_line {n : Nat} {line : List UInt8} (hn : line.length ≤ n) (hline : 10 ∉ line)
    (rest : List UInt8) (password : JString) :
    iterate round (n + 1) ⟨line ++ 10 :: rest, password⟩ =
      some ⟨rest, password ++ chars (unreturned false line)⟩ := by
  induction n using Nat.strongRecOn generalizing line password with
  | ind n ih =>
    cases line with
    | nil =>
      rw [unreturned, chars, List.map_nil, List.append_nil]
      exact iterate_exit round_lf n
    | cons c line =>
      obtain ⟨hc, hline⟩ := not_or.1 (mt List.mem_cons.2 hline)
      rw [List.length_cons] at hn
      obtain ⟨n, rfl⟩ : ∃ m, n = m + 1 := ⟨n - 1, by omega⟩
      rw [List.cons_append, unreturned]
      by_cases hcr : c = 13
      · rw [if_pos hcr, hcr]
        cases line with
        | nil =>
          rw [unreturned, chars, List.map_nil, List.append_nil]
          exact iterate_exit round_crlf _
        | cons d line =>
          obtain ⟨hd, hline⟩ := not_or.1 (mt List.mem_cons.2 hline)
          rw [List.length_cons] at hn
          obtain ⟨n, rfl⟩ : ∃ m, n = m + 1 := ⟨n - 1, by omega⟩
          rw [List.cons_append, iterate_again (round_cr (Ne.symm hd)), unreturned]
          exact iterate_mono (ih n (by omega) (by omega) hline password) (by omega)
      · rw [if_neg hcr, iterate_again (round_char hcr (Ne.symm hc)), ih n (by omega) (by omega) hline,
          List.append_assoc]
        rfl

/-- Without a line feed the loop goes on, at the end of the input too. -/
theorem round_again {s : PasswordField} (h : 10 ∉ s.input) :
    ∃ s', round s = .again s' ∧ 10 ∉ s'.input := by
  obtain ⟨input, password⟩ := s
  cases input with
  | nil => exact ⟨_, round_end, h⟩
  | cons c rest =>
    obtain ⟨hc, hrest⟩ := not_or.1 (mt List.mem_cons.2 h)
    by_cases hcr : c = 13
    · rw [hcr]
      cases rest with
      | nil => exact ⟨_, round_cr_end, List.not_mem_nil⟩
      | cons d rest =>
        obtain ⟨hd, hrest⟩ := not_or.1 (mt List.mem_cons.2 hrest)
        exact ⟨_, round_cr (Ne.symm hd), hrest⟩
    · exact ⟨_, round_char hcr (Ne.symm hc), hrest⟩

/-- **The password is the first line.** `getPassword` reads the input up to the first line feed and no
further. Its characters are those bytes, one each, but the carriage returns and the byte behind each of
them; a line without a carriage return is the password itself, whichever of the two line ends is behind it.
An input without a line feed gives no password, and the loop never ends. -/
theorem getPassword_line (input : List UInt8) :
    (∀ line rest, input = line ++ 10 :: rest → 10 ∉ line →
      getPassword (line.length + 1) input = some ⟨rest, chars (unreturned false line)⟩) ∧
    (∀ body rest, 10 ∉ body → 13 ∉ body →
      input = body ++ 10 :: rest ∨ input = body ++ 13 :: 10 :: rest →
      getPassword (body.length + 2) input = some ⟨rest, chars body⟩) ∧
    (10 ∉ input → ∀ n, getPassword n input = none) := by
  refine ⟨?_, ?_, ?_⟩
  · rintro line rest rfl hline
    exact iterate_line (Nat.le_refl _) hline rest []
  · rintro body rest hlf hcr (rfl | rfl)
    · have hread := iterate_line (Nat.le_succ body.length) hlf rest []
      rwa [← List.append_nil body, unreturned_body hcr, List.append_nil, unreturned,
        List.append_nil] at hread
    · have hline : 10 ∉ body ++ [13] := by
        rw [List.mem_append, List.mem_singleton]
        exact not_or.2 ⟨hlf, by decide⟩
      have hlen : (body ++ [13]).length ≤ body.length + 1 := Nat.le_of_eq List.length_append
      have hread := iterate_line hlen hline rest []
      rw [List.append_assoc, unreturned_body hcr] at hread
      exact hread.trans (congrArg _ (congrArg _ (congrArg chars (List.append_nil body))))
  · exact fun h n => iterate_never (fun _ => round_again) h n

end PasswordField

end ExamplePrograms.Java
