import ExamplePrograms.Onethread.Telnet.ReadLoop

/-!
# Telnet commands

`decode` states the rules by which `telnet_filter_read` takes commands out of its data. `Takes` says what
a command loses: the `switch` keeps the bytes before `gap` and goes on with the bytes behind it, and one
round of the loop does so in the buffer (`Takes.round`). A command that is cut at the end of the data is
taken together with the terminator.
-/

set_option autoImplicit false

namespace ExamplePrograms.Onethread.Telnet

open ExamplePrograms.Lib.Loops ExamplePrograms.Lib.Memory

/-! ## The rules of the reader -/

/-- The commands that are followed by an option. -/
def takesOption (type : UInt8) : Bool :=
  type == telnetWill || type == telnetWont || type == telnetDo || type == telnetDont

/-- The data without its commands. A doubled command byte stands for itself. Of `TELNET_AYT` only the
command byte is taken out. -/
def decode : List UInt8 → List UInt8
  | [] => []
  | c :: rest =>
      if c = telnetCmd then
        match rest with
        | [] => []
        | type :: tail =>
            if type = telnetCmd then telnetCmd :: decode tail
            else if type = telnetAyt then type :: decode tail
            else if takesOption type then
              match tail with
              | [] => []
              | _ :: after => decode after
            else decode tail
      else c :: decode rest

/-- An ordinary byte is kept. -/
theorem decode_cons_of_ne {c : UInt8} (h : c ≠ telnetCmd) (rest : List UInt8) :
    decode (c :: rest) = c :: decode rest := by
  rw [decode.eq_def]
  exact if_neg h

/-- A command with its type. -/
theorem decode_telnetCmd (type : UInt8) (tail : List UInt8) :
    decode (telnetCmd :: type :: tail) =
      if type = telnetCmd then telnetCmd :: decode tail
      else if type = telnetAyt then type :: decode tail
      else if takesOption type then decode tail.tail
      else decode tail := by
  rw [decode.eq_def]
  simp only [if_true]
  cases tail <;> rfl

/-- Ordinary bytes are kept. -/
theorem decode_append {pre : List UInt8} (h : telnetCmd ∉ pre) (rest : List UInt8) :
    decode (pre ++ rest) = pre ++ decode rest := by
  induction pre with
  | nil => rfl
  | cons c pre ih =>
    rw [List.cons_append, decode_cons_of_ne fun hc => h (hc ▸ List.mem_cons_self),
      ih fun hpre => h (List.mem_cons_of_mem c hpre), List.cons_append]

/-- Bytes without a command are their own decoding. -/
theorem decode_of_not_mem {l : List UInt8} (h : telnetCmd ∉ l) : decode l = l := by
  have := decode_append h []
  rwa [List.append_nil, show decode [] = [] from rfl, List.append_nil] at this

/-- A command byte in the decoded data comes from two in the data. -/
theorem count_decode (l : List UInt8) :
    2 * (decode l).count telnetCmd ≤ l.count telnetCmd := by
  fun_induction decode l with
  | case1 => exact Nat.le_refl _
  | case2 => exact Nat.zero_le _
  | case3 tail ih =>
    simp only [List.count_cons_self]
    omega
  | case4 tail hne ih =>
    simp only [List.count_cons_self]
    rw [List.count_cons_of_ne hne, List.count_cons_of_ne hne]
    omega
  | case5 => exact Nat.zero_le _
  -- what is left out of the data only lowers its count
  | case6 type hne hayt hopt x after ih =>
    exact Nat.le_trans ih (((List.suffix_cons x after).sublist.trans
      ((List.suffix_cons type _).sublist.trans (List.suffix_cons _ _).sublist)).count_le _)
  | case7 type tail hne hayt hopt ih =>
    exact Nat.le_trans ih (((List.suffix_cons type tail).sublist.trans
      (List.suffix_cons _ _).sublist).count_le _)
  | case8 c rest hne ih =>
    rw [List.count_cons_of_ne hne, List.count_cons_of_ne hne]
    exact ih

/-! ## What a round takes out -/

/-- A command byte and what follows it in the data, as what is kept, what is taken out and what is
searched next. Of a doubled byte the first one is kept; behind `TELNET_AYT` the search goes on with
that byte. -/
inductive Takes : (before gap left : List UInt8) → Prop
  | ayt (tail : List UInt8) : Takes [] [telnetCmd] (telnetAyt :: tail)
  | literal (tail : List UInt8) : Takes [telnetCmd] [telnetCmd] tail
  | option {type : UInt8} (h : takesOption type = true) (arg : UInt8) (tail : List UInt8) :
      Takes [] [telnetCmd, type, arg] tail
  | other {type : UInt8} (hayt : type ≠ telnetAyt) (hcmd : type ≠ telnetCmd)
      (h : takesOption type = false) (tail : List UInt8) : Takes [] [telnetCmd, type] tail

/-- The data ends inside a command. -/
inductive Cut : List UInt8 → Prop
  | cmd : Cut [telnetCmd]
  | option {type : UInt8} (h : takesOption type = true) : Cut [telnetCmd, type]

/-- A command is taken, or the chunk ends inside it. -/
theorem takes_or_cut (tail : List UInt8) :
    (∃ before gap left, telnetCmd :: tail = before ++ (gap ++ left) ∧ Takes before gap left) ∨
      Cut (telnetCmd :: tail) := by
  cases tail with
  | nil => exact Or.inr .cmd
  | cons type tail =>
    by_cases hayt : type = telnetAyt
    · subst hayt
      exact Or.inl ⟨[], [telnetCmd], telnetAyt :: tail, rfl, .ayt tail⟩
    by_cases hcmd : type = telnetCmd
    · subst hcmd
      exact Or.inl ⟨[telnetCmd], [telnetCmd], tail, rfl, .literal tail⟩
    cases hopt : takesOption type with
    | false => exact Or.inl ⟨[], [telnetCmd, type], tail, rfl, .other hayt hcmd hopt tail⟩
    | true =>
      cases tail with
      | nil => exact Or.inr (.option hopt)
      | cons arg tail => exact Or.inl ⟨[], [telnetCmd, type, arg], tail, rfl, .option hopt arg tail⟩

/-- The types that are followed by an option. -/
theorem takesOption_iff {type : UInt8} : takesOption type = true ↔
    type = telnetWill ∨ type = telnetWont ∨ type = telnetDo ∨ type = telnetDont := by
  simp [takesOption, or_assoc]

/-- A type with an option is no escape and no `TELNET_AYT`. -/
theorem takesOption_ne {type : UInt8} (h : takesOption type = true) :
    type ≠ telnetCmd ∧ type ≠ telnetAyt := by
  constructor
  · rintro rfl
    exact absurd h (by decide)
  · rintro rfl
    exact absurd h (by decide)

/-- The session behind an option command. -/
def optionSession (session : TelnetT) (type arg : UInt8) : TelnetT :=
  if type = telnetDo then (telnetOnDo session arg).1
  else if type = telnetDont then (telnetOnDont session arg).1
  else session

/-- The session when `gap` was taken out. -/
def gapSession (session : TelnetT) : List UInt8 → TelnetT
  | [_, type, arg] => optionSession session type arg
  | _ => session

/-- What is sent for an option command. -/
def optionAnswers (session : TelnetT) (type arg : UInt8) : List Output :=
  if type = telnetDo then (telnetOnDo session arg).2
  else if type = telnetDont then (telnetOnDont session arg).2
  else []

/-- What is sent when `gap` was taken out behind `before`. Of the commands that lose one byte only
`TELNET_AYT` keeps nothing before it. -/
def gapAnswers (session : TelnetT) (before : List UInt8) : List UInt8 → List Output
  | [_, type, arg] => optionAnswers session type arg
  | [_] => if before = [] then [.write telnetYes] else []
  | _ => []

section

variable {session : TelnetT} {arg : UInt8}

/-- An option that is not supported is refused. -/
theorem telnetOnDo_refused (hbits : arg &&& (telnetEcho ||| telnetSupressGa) = 0) :
    telnetOnDo session arg = (session, [.mode telnetWont arg]) := by
  rw [telnetOnDo, if_neg (not_not.2 hbits)]

/-- An echo that is on is not turned on again, and nothing is answered. -/
theorem telnetOnDo_silent (hbits : arg &&& (telnetEcho ||| telnetSupressGa) ≠ 0)
    (hecho : session.echo = true) : telnetOnDo session arg = (session, []) := by
  rw [telnetOnDo, if_pos hbits, if_pos hecho]

/-- An option that is supported is accepted, and turns the echo on. -/
theorem telnetOnDo_accepted (hbits : arg &&& (telnetEcho ||| telnetSupressGa) ≠ 0)
    (hecho : session.echo = false) :
    telnetOnDo session arg = ({ session with echo := true }, [.mode telnetWill arg]) := by
  rw [telnetOnDo, if_pos hbits, if_neg (Bool.eq_false_iff.1 hecho)]

/-- `TELNET_DONT` turns the echo off. -/
theorem telnetOnDont_off (hecho : arg = telnetEcho ∧ session.echo = true) :
    telnetOnDont session arg = ({ session with echo := false }, [.mode telnetWont arg]) :=
  if_pos hecho

/-- Other requests are not answered. -/
theorem telnetOnDont_silent (hecho : ¬(arg = telnetEcho ∧ session.echo = true)) :
    telnetOnDont session arg = (session, []) :=
  if_neg hecho

end

/-- A request passes no data on. -/
theorem received_telnetOnDo (session : TelnetT) (arg : UInt8) :
    received (telnetOnDo session arg).2 = [] := by
  rw [telnetOnDo]
  split
  · split <;> rfl
  · rfl

/-- The opposite request passes no data on. -/
theorem received_telnetOnDont (session : TelnetT) (arg : UInt8) :
    received (telnetOnDont session arg).2 = [] := by
  rw [telnetOnDont]
  split <;> rfl

/-- An answer is not passed on as data. -/
theorem received_gapAnswers (session : TelnetT) (before gap : List UInt8) :
    received (gapAnswers session before gap) = [] := by
  rw [gapAnswers.eq_def]
  split
  · rw [optionAnswers]
    split
    · exact received_telnetOnDo session _
    split
    · exact received_telnetOnDont session _
    · rfl
  · split <;> rfl
  · rfl

/-- The option decides the session and the answer, but not what is removed. -/
theorem telnetSwitch_option {buf : List UInt8} {pos : Nat} {type arg : UInt8}
    (h : takesOption type = true) (harg : buf[pos + 2]? = some arg) (session : TelnetT) :
    telnetSwitch buf pos session type =
      some ⟨pos, 3, optionSession session type arg, optionAnswers session type arg⟩ := by
  rcases takesOption_iff.1 h with rfl | rfl | rfl | rfl
  · rfl
  · rfl
  · show buf[pos + 2]?.map _ = _
    rw [harg]
    rfl
  · show buf[pos + 2]?.map _ = _
    rw [harg]
    rfl

/-- A command of another type is two bytes. -/
theorem telnetSwitch_other {type : UInt8} (hayt : type ≠ telnetAyt) (hcmd : type ≠ telnetCmd)
    (h : takesOption type = false) (buf : List UInt8) (pos : Nat) (session : TelnetT) :
    telnetSwitch buf pos session type = some ⟨pos, 2, session, []⟩ := by
  simp only [takesOption, Bool.or_eq_false_iff, beq_eq_false_iff_ne] at h
  obtain ⟨⟨⟨hwill, hwont⟩, hdo⟩, hdont⟩ := h
  rw [telnetSwitch, if_neg hayt, if_neg hcmd, if_neg hdo, if_neg hdont, if_neg hwill, if_neg hwont]

section

variable {before gap left : List UInt8}

/-- What the `switch` decides about a command at `pos`. -/
theorem Takes.switch (h : Takes before gap left) {buf : List UInt8} {pos : Nat}
    (hbuf : ∃ rest, buf.drop pos = before ++ (gap ++ left) ++ 0 :: rest) (session : TelnetT) :
    buf[pos + 1]?.bind (telnetSwitch buf pos session) =
      some ⟨pos + before.length, gap.length, gapSession session gap, gapAnswers session before gap⟩ := by
  obtain ⟨rest, hdrop⟩ := hbuf
  have hget : ∀ i : Nat, buf[pos + i]? = (before ++ (gap ++ left) ++ 0 :: rest)[i]? := by
    intro i
    rw [← hdrop, List.getElem?_drop]
  have htype := hget 1
  have harg := hget 2
  cases h with
  | ayt tail =>
    rw [htype]
    rfl
  | literal =>
    rw [htype]
    rfl
  | option hopt arg =>
    rw [htype]
    exact telnetSwitch_option hopt harg session
  | other hayt hcmd hopt =>
    rw [htype]
    exact telnetSwitch_other hayt hcmd hopt buf pos session

/-- A command starts with its byte. -/
theorem Takes.cons (h : Takes before gap left) :
    ∃ tail, before ++ (gap ++ left) = telnetCmd :: tail := by
  cases h with
  | ayt => exact ⟨_, rfl⟩
  | literal => exact ⟨_, rfl⟩
  | option => exact ⟨_, rfl⟩
  | other => exact ⟨_, rfl⟩

/-- A command has bytes that are removed. -/
theorem Takes.gap_ne_nil (h : Takes before gap left) : gap ≠ [] := by
  cases h <;> exact List.cons_ne_nil _ _

/-- A command is decoded on its own. -/
theorem Takes.decode (h : Takes before gap left) :
    decode (before ++ (gap ++ left)) = before ++ decode left := by
  cases h with
  | ayt tail =>
    have hne : telnetAyt ≠ telnetCmd := by decide
    rw [decode_cons_of_ne hne]
    exact decode_telnetCmd telnetAyt tail
  | literal => exact decode_telnetCmd telnetCmd left
  | @option type hopt arg =>
    obtain ⟨hcmd, hayt⟩ := takesOption_ne hopt
    show Telnet.decode (telnetCmd :: type :: arg :: left) = Telnet.decode left
    rw [decode_telnetCmd, if_neg hcmd, if_neg hayt, if_pos hopt]
    rfl
  | @other type hayt hcmd hopt =>
    show Telnet.decode (telnetCmd :: type :: left) = Telnet.decode left
    rw [decode_telnetCmd, if_neg hcmd, if_neg hayt, if_neg (by rw [hopt]; exact Bool.false_ne_true)]

/-- A round of the loop at the first command of the rest. -/
theorem Takes.round (h : Takes before gap left) {pre : List UInt8} (hpre : telnetCmd ∉ pre)
    (front stale : List UInt8) (session : TelnetT) (out : List Output) :
    readRound (loopState front (pre ++ (before ++ (gap ++ left))) stale session out) =
      .again (loopState (front ++ (pre ++ before)) left (leftover gap left stale)
        (gapSession session gap) (out ++ gapAnswers session before gap)) := by
  obtain ⟨tail, htail⟩ := h.cons
  have hdrop : ∃ rest, (front ++ (pre ++ (before ++ (gap ++ left)) ++ 0 :: stale)).drop
      (front.length + pre.length) = before ++ (gap ++ left) ++ 0 :: rest := by
    refine ⟨stale, ?_⟩
    rw [← List.drop_drop, List.drop_left, List.append_assoc, List.drop_left]
  refine readRound_removal hpre htail ?_
  rintro buf rfl
  exact h.switch hdrop session

end

end ExamplePrograms.Onethread.Telnet
