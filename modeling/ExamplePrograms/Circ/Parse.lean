import ExamplePrograms.Lib.CString
import ExamplePrograms.Lib.Loops

/-!
# Parsing an IRC line

`circ_parse` of `circ.c` and its message. The text is copied to the buffer of the message and cut up
there: each field is a pointer into the buffer, at a string that ends where the parser has put a NUL.
A pointer is the offset of its cell; NULL is `none`.
-/

set_option autoImplicit false

namespace ExamplePrograms.Circ

open ExamplePrograms.Lib.CString ExamplePrograms.Lib.Loops

/-- The separator of the parts of a line. -/
def space : UInt8 := 32

/-- The character before the source and before the trailing parameter. -/
def colon : UInt8 := 58

/-- The character between the nick and the ident. -/
def bang : UInt8 := 33

/-- The character between the ident and the host. -/
def atSign : UInt8 := 64

/-- `circ_message_t`. -/
structure CircMessage where
  buffer : List UInt8
  command : Option Nat := none
  hostmask : Option Nat := none
  nick : Option Nat := none
  ident : Option Nat := none
  host : Option Nat := none
  argv : List (Option Nat) := List.replicate 19 none
  argc : Nat := 0
  deriving DecidableEq, Repr

namespace CircMessage

/-- `memset(msg, 0, sizeof(*msg)); strncpy(msg->buffer, text, 512)`. -/
def copy (text : List UInt8) : CircMessage := { buffer := strncpy text 512 ++ [0] }

/-- `*sp = '\0'`. -/
def cut (m : CircMessage) (sp : Nat) : CircMessage := { m with buffer := m.buffer.set sp 0 }

/-- `msg->argv[msg->argc++] = text`. -/
def push (m : CircMessage) (text : Nat) : CircMessage :=
  { m with argv := m.argv.set m.argc (some text), argc := m.argc + 1 }

/-- The string at a pointer of the message. -/
def str (m : CircMessage) (p : Option Nat) : Option (List UInt8) := p.map (cstr m.buffer)

/-- `argv[0] .. argv[argc - 1]`. -/
def args (m : CircMessage) : List (Option (List UInt8)) := (m.argv.take m.argc).map m.str

/-- The three `strtok_r` calls on the hostmask. -/
def splitHostmask (m : CircMessage) (hostmask : Nat) : CircMessage :=
  let nick := strtokR m.buffer hostmask [bang]
  let ident := strtokR nick.buf nick.save [atSign]
  let host := strtokR ident.buf ident.save []
  { m with buffer := host.buf, nick := nick.token, ident := ident.token, host := host.token }

end CircMessage

/-- The message with the pointer `text`. -/
structure ParamState where
  msg : CircMessage
  text : Nat

/-- One round of the parameter loop. -/
def paramRound (s : ParamState) : Round ParamState :=
  if byte s.msg.buffer s.text = 0 ∨ byte s.msg.buffer s.text = colon then .exit s
  else
    match strchr s.msg.buffer s.text space with
    -- the last parameter, up to the NUL
    | none => .exit { s with msg := s.msg.push s.text }
    | some sp =>
        -- the 18th parameter is the rest of the line, with its spaces
        if s.msg.argc + 1 = 18 then .exit { s with msg := s.msg.push s.text }
        else .again ⟨(s.msg.push s.text).cut sp, sp + 1⟩

/-- The trailing parameter. -/
def parseTrailing (s : ParamState) : CircMessage :=
  if byte s.msg.buffer s.text = colon ∧ s.msg.argc < 19 then s.msg.push (s.text + 1) else s.msg

/-- The parameters. The loop is left in its 18th round at the latest. -/
def parseParams (s : ParamState) : Option CircMessage :=
  (iterate paramRound 18 s).map parseTrailing

/-- The command at `text` and what follows it. -/
def parseCommand (m : CircMessage) (text : Nat) : Option CircMessage :=
  let m := { m with command := some text }
  match strchr m.buffer text space with
  | none => some m
  | some sp => parseParams ⟨m.cut sp, sp + 1⟩

/-- `circ_parse`. -/
def circParse (text : List UInt8) : Option CircMessage :=
  let m := CircMessage.copy text
  if byte m.buffer 0 = colon then
    let m := { m with hostmask := some 1 }
    match strchr m.buffer 0 space with
    | none => some m
    | some sp => parseCommand ((m.cut sp).splitHostmask 1) (sp + 1)
  else parseCommand m 0

/-! ## Rounds

The parser has come to the end of `done`, and the line goes on behind it. -/

section Rounds

variable {m : CircMessage} {done w pad : List UInt8}

/-- The loop is left at the end of the line and in front of a trailing parameter. -/
theorem paramRound_stop {s : ParamState}
    (h : byte s.msg.buffer s.text = 0 ∨ byte s.msg.buffer s.text = colon) :
    paramRound s = .exit s := by
  rw [paramRound, if_pos h]

/-- The last round takes the rest of the line. -/
theorem paramRound_last (hnul : byte m.buffer done.length ≠ 0)
    (hcolon : byte m.buffer done.length ≠ colon) (hbuffer : m.buffer = done ++ (w ++ 0 :: pad))
    (h0 : 0 ∉ w) (hlast : space ∉ w ∨ m.argc + 1 = 18) :
    paramRound ⟨m, done.length⟩ = .exit ⟨m.push done.length, done.length⟩ := by
  rw [paramRound, if_neg (not_or.2 ⟨hnul, hcolon⟩)]
  dsimp only
  split
  · rfl
  · next sp hsp =>
    have hargc : m.argc + 1 = 18 := by
      refine hlast.resolve_left fun hspace => ?_
      rw [hbuffer, strchr_none h0 hspace] at hsp
      cases hsp
    rw [if_pos hargc]

/-- The other rounds cut off a word. -/
theorem paramRound_word (hnul : byte m.buffer done.length ≠ 0)
    (hcolon : byte m.buffer done.length ≠ colon) (hbuffer : m.buffer = done ++ (w ++ space :: pad))
    (h0 : 0 ∉ w) (hspace : space ∉ w) (hargc : m.argc + 1 ≠ 18) :
    paramRound ⟨m, done.length⟩ =
      .again ⟨(m.push done.length).cut (done.length + w.length), (done ++ (w ++ [0])).length⟩ := by
  have hend : done.length + w.length + 1 = (done ++ (w ++ [0])).length := by
    simp only [List.length_append, List.length_singleton]
    omega
  rw [paramRound, if_neg (not_or.2 ⟨hnul, hcolon⟩)]
  simp only [hbuffer, strchr_append (show space ≠ 0 by decide) h0 hspace, if_neg hargc, hend]

/-- The buffer of a message whose line is cut behind a word. -/
theorem buffer_cut (hbuffer : m.buffer = done ++ (w ++ space :: pad)) :
    (m.cut (done.length + w.length)).buffer = done ++ (w ++ [0]) ++ pad := by
  show m.buffer.set (done.length + w.length) 0 = _
  rw [hbuffer, set_append]
  simp

/-- What a round makes of a line that goes on with `rest`, and of the trailing parameter if it is the
last round. -/
theorem paramRound_cases {rest : List UInt8} (hbuffer : m.buffer = done ++ (rest ++ 0 :: pad))
    (h0 : 0 ∉ rest) :
    (rest = [] ∧ ∃ s, paramRound ⟨m, done.length⟩ = .exit s ∧ parseTrailing s = m) ∨
    (∃ r, rest = colon :: r ∧ ∃ s, paramRound ⟨m, done.length⟩ = .exit s ∧
      (m.argc < 19 → parseTrailing s = m.push (done.length + 1))) ∨
    (∃ s, paramRound ⟨m, done.length⟩ = .exit s ∧ parseTrailing s = m.push done.length) ∨
    ∃ w r, rest = w ++ space :: r ∧ space ∉ w ∧ m.argc + 1 ≠ 18 ∧
      paramRound ⟨m, done.length⟩ =
        .again ⟨(m.push done.length).cut (done.length + w.length), (done ++ (w ++ [0])).length⟩ := by
  cases rest with
  | nil =>
    have hbyte : byte m.buffer done.length = 0 := by
      rw [hbuffer]
      exact byte_append 0
    refine Or.inl ⟨rfl, _, paramRound_stop (Or.inl hbyte), if_neg fun h => ?_⟩
    exact absurd (hbyte.symm.trans h.1) (by decide)
  | cons x r =>
    have hx : byte m.buffer done.length = x := by
      rw [hbuffer]
      exact byte_append x
    by_cases hcolon : x = colon
    · subst hcolon
      exact Or.inr (Or.inl ⟨r, rfl, _, paramRound_stop (Or.inr hx), fun hargc => if_pos ⟨hx, hargc⟩⟩)
    have hnul : byte m.buffer done.length ≠ 0 := by
      rw [hx]
      exact ne_of_mem_of_not_mem List.mem_cons_self h0
    have hbyte : byte m.buffer done.length ≠ colon := by
      rw [hx]
      exact hcolon
    by_cases hlast : space ∉ x :: r ∨ m.argc + 1 = 18
    · refine Or.inr (Or.inr (Or.inl ⟨_, paramRound_last hnul hbyte hbuffer h0 hlast, ?_⟩))
      exact if_neg fun h => hbyte h.1
    · -- a word ends at the first space
      obtain ⟨hspace, hne⟩ := not_or.1 hlast
      obtain ⟨w, r', hrest, hw⟩ := List.eq_append_cons_of_mem (not_not.1 hspace)
      rw [hrest, List.append_assoc, List.cons_append] at hbuffer
      rw [hrest, List.mem_append, not_or] at h0
      exact Or.inr (Or.inr (Or.inr
        ⟨w, r', hrest, hw, hne, paramRound_word hnul hbyte hbuffer h0.1 hw hne⟩))

end Rounds

/-! ## The parser ends -/

/-- A round of the parameter loop adds a parameter, and the 18th leaves the loop. -/
theorem paramRound_again {s s' : ParamState} (h : paramRound s = .again s') :
    s'.msg.argc = s.msg.argc + 1 ∧ s.msg.argc + 1 ≠ 18 := by
  rw [paramRound] at h
  split at h
  · cases h
  split at h
  · cases h
  split at h
  · cases h
  · next hargc =>
    cases h
    exact ⟨rfl, hargc⟩

/-- A round of the parameter loop is defined. -/
theorem paramRound_defined (s : ParamState) : paramRound s ≠ .undefined := by
  rw [paramRound]
  split
  · exact fun h => by cases h
  split
  · exact fun h => by cases h
  split <;> exact fun h => by cases h

/-- The parameter loop ends. -/
theorem parseParams_isSome {s : ParamState} (h : s.msg.argc = 0) :
    (parseParams s).isSome = true := by
  have hround : ∀ s : ParamState, s.msg.argc < 18 →
      (∃ r, paramRound s = .exit r ∧ True) ∨
        ∃ s', paramRound s = .again s' ∧ s'.msg.argc < 18 ∧ 17 - s'.msg.argc < 17 - s.msg.argc := by
    intro s hs
    cases hr : paramRound s with
    | undefined => exact absurd hr (paramRound_defined s)
    | exit r => exact Or.inl ⟨r, rfl, trivial⟩
    | again s' =>
      obtain ⟨hargc, hne⟩ := paramRound_again hr
      exact Or.inr ⟨s', rfl, by omega, by omega⟩
  have hstart : s.msg.argc < 18 := by omega
  -- the rounds that are left are the variant
  obtain ⟨r, hr, -⟩ := iterate_variant (fun s : ParamState => 17 - s.msg.argc) hround hstart
    (show 17 - s.msg.argc < 18 by omega)
  rw [parseParams, hr]
  rfl

/-- `circ_parse` ends on every text. -/
theorem circParse_isSome (text : List UInt8) : (circParse text).isSome = true := by
  have hcommand : ∀ (m : CircMessage) (p : Nat), m.argc = 0 →
      (parseCommand m p).isSome = true := by
    intro m p hm
    rw [parseCommand]
    dsimp only
    split
    · rfl
    · exact parseParams_isSome hm
  rw [circParse]
  dsimp only
  split
  · split
    · rfl
    · exact hcommand _ _ rfl
  · exact hcommand _ _ rfl

end ExamplePrograms.Circ
