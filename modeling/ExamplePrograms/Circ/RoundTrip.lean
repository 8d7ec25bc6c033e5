import Mathlib.Data.List.Forall2
import ExamplePrograms.Circ.Parse

/-!
# Rendering and parsing an IRC line

`IrcLine` is a message that can be sent as one line and is parsed in full: its parts have the form that
keeps them apart on the line, and there are not more of them than the parser takes. `render` is the
line, and `circ_parse` gives back the parts (`circParse_render`).

The parser works from left to right and never writes to the left of its pointer. So the buffer is
`done ++ rest`, where the parts found so far are strings of `done` (`Args`), whatever becomes of the
rest.
-/

set_option autoImplicit false

namespace ExamplePrograms.Circ

open ExamplePrograms.Lib.CString ExamplePrograms.Lib.Loops

/-! ## Messages -/

/-- A word that does not look like a prefix or a trailing parameter. -/
structure IsWord (w : List UInt8) : Prop where
  ne : w ≠ []
  noNul : 0 ∉ w
  noSpace : space ∉ w
  head : w.head? ≠ some colon

/-- A part of a prefix, which ends before the byte `stop`. -/
structure IsPart (stop : UInt8) (w : List UInt8) : Prop where
  ne : w ≠ []
  noNul : 0 ∉ w
  noSpace : space ∉ w
  noStop : stop ∉ w

/-- The prefix of a message. -/
inductive Source where
  | name (nick : List UInt8) (hnick : IsPart bang nick)
  | user (nick ident host : List UInt8) (hnick : IsPart bang nick) (hident : IsPart atSign ident)
      (hhost : IsPart space host)

namespace Source

/-- The part before the `!`, or the name of a server. -/
def nick : Source → List UInt8
  | name nick _ => nick
  | user nick _ _ _ _ _ => nick

/-- The part between `!` and `@`. -/
def ident : Source → Option (List UInt8)
  | name _ _ => none
  | user _ ident _ _ _ _ => some ident

/-- The part behind the `@`. -/
def host : Source → Option (List UInt8)
  | name _ _ => none
  | user _ _ host _ _ _ => some host

/-- The source as it stands in a line, behind the colon. -/
def render : Source → List UInt8
  | name nick _ => nick
  | user nick ident host _ _ _ => nick ++ bang :: (ident ++ atSign :: host)

end Source

/-- The parameters, each behind a space. -/
def renderParams (middles : List (List UInt8)) (trailing : Option (List UInt8)) : List UInt8 :=
  middles.flatMap (space :: ·) ++
    match trailing with
    | none => []
    | some text => space :: colon :: text

/-- The first part of a line, with its colon and its space. -/
def renderSource : Option Source → List UInt8
  | none => []
  | some source => colon :: (source.render ++ [space])

/-- An IRC message that fits on a line and in the parser's array. -/
structure IrcLine where
  source : Option Source
  command : List UInt8
  middles : List (List UInt8)
  trailing : Option (List UInt8)
  isWord_command : IsWord command
  isWord_middle : ∀ w ∈ middles, IsWord w
  noNul_trailing : ∀ text ∈ trailing, 0 ∉ text
  count : middles.length ≤ if trailing.isSome then 17 else 18
  fits : (renderSource source ++ (command ++ renderParams middles trailing)).length ≤ 512

namespace IrcLine

/-- The text of the line. -/
def render (l : IrcLine) : List UInt8 :=
  renderSource l.source ++ (l.command ++ renderParams l.middles l.trailing)

/-- The parameters, with the trailing one last. -/
def params (l : IrcLine) : List (List UInt8) := l.middles ++ l.trailing.toList

end IrcLine

/-! ## Parameters -/

/-- The parameters found so far are the strings `ps` of `done`. -/
structure Args (done : List UInt8) (m : CircMessage) (ps : List (List UInt8)) : Prop where
  argc : m.argc = ps.length
  slots : m.argv.length = 19
  pointers : ∃ ptrs, m.argv.take m.argc = ptrs.map some ∧ List.Forall₂ (StringAt done) ptrs ps

section Args

variable {done : List UInt8} {m : CircMessage} {ps : List (List UInt8)}

/-- Parameters that were parsed stay where they are. -/
theorem Args.append (h : Args done m ps) (more : List UInt8) : Args (done ++ more) m ps := by
  obtain ⟨ptrs, hptrs, hall⟩ := h.pointers
  exact ⟨h.argc, h.slots, ptrs, hptrs, hall.imp fun _ _ hp => hp.append more⟩

/-- The pointers of a message with one more parameter. -/
theorem take_push (text : Nat) (hargc : m.argc < m.argv.length) :
    (m.push text).argv.take (m.push text).argc = m.argv.take m.argc ++ [some text] := by
  show (m.argv.set m.argc (some text)).take (m.argc + 1) = _
  rw [List.take_add_one, List.take_set_of_le (Nat.le_refl _), List.getElem?_set_self hargc]
  rfl

/-- One more parameter is parsed. -/
theorem Args.push {text : Nat} {p : List UInt8} (h : Args done m ps) (hp : StringAt done text p)
    (hargc : m.argc < 19) : Args done (m.push text) (ps ++ [p]) := by
  obtain ⟨ptrs, hptrs, hall⟩ := h.pointers
  refine ⟨?_, ?_, ptrs ++ [text], ?_, ?_⟩
  · show m.argc + 1 = (ps ++ [p]).length
    rw [h.argc, List.length_append, List.length_singleton]
  · show (m.argv.set m.argc (some text)).length = 19
    rw [List.length_set, h.slots]
  · rw [take_push text (h.slots.symm ▸ hargc), hptrs, List.map_append]
    rfl
  · exact List.rel_append hall (.cons hp .nil)

/-- The arguments of a message whose buffer is behind them. -/
theorem Args.args (h : Args m.buffer m ps) : m.args = ps.map some := by
  obtain ⟨ptrs, hptrs, hall⟩ := h.pointers
  rw [CircMessage.args, hptrs, List.map_map]
  clear hptrs h
  induction hall with
  | nil => rfl
  | cons hp _ ih =>
    rw [List.map_cons, List.map_cons, ih]
    exact congrArg (· :: _) (congrArg some hp.cstr)

end Args

/-- The pointers that the parameters do not touch. -/
def CircMessage.fields (m : CircMessage) : List (Option Nat) :=
  [m.command, m.hostmask, m.nick, m.ident, m.host]

section Params

variable {middles : List (List UInt8)} {trailing : Option (List UInt8)}

theorem renderParams_cons (w : List UInt8) (middles : List (List UInt8))
    (trailing : Option (List UInt8)) :
    renderParams (w :: middles) trailing = space :: (w ++ renderParams middles trailing) := by
  simp [renderParams]

/-- The text of the parameters is empty or starts with a space. -/
theorem renderParams_cases (middles : List (List UInt8)) (trailing : Option (List UInt8)) :
    (middles = [] ∧ trailing = none ∧ renderParams middles trailing = []) ∨
      ∃ r, renderParams middles trailing = space :: r := by
  cases middles with
  | cons w middles => exact Or.inr ⟨_, renderParams_cons w middles trailing⟩
  | nil =>
    cases trailing with
    | none => exact Or.inl ⟨rfl, rfl, rfl⟩
    | some text => exact Or.inr ⟨_, rfl⟩

/-- A word does not start like a trailing parameter. -/
theorem IsWord.byte {w : List UInt8} (h : IsWord w) (a b : List UInt8) :
    byte (a ++ (w ++ b)) a.length ≠ 0 ∧ byte (a ++ (w ++ b)) a.length ≠ colon := by
  have hhead := h.head
  cases w with
  | nil => exact absurd rfl h.ne
  | cons x w =>
    rw [List.cons_append, byte_append]
    exact ⟨ne_of_mem_of_not_mem List.mem_cons_self h.noNul, fun hx => hhead (congrArg some hx)⟩

/-- The parameter loop, and the trailing parameter behind it. The induction is on the middle parameters
that are left: a round cuts off one and moves it from the rest of the buffer to `done`. -/
theorem params_spec (hmiddles : ∀ w ∈ middles, IsWord w) (htrailing : ∀ text ∈ trailing, 0 ∉ text)
    {m : CircMessage} {done r pad : List UInt8} {ps : List (List UInt8)} {n : Nat}
    (hrender : renderParams middles trailing = space :: r)
    (hbuffer : m.buffer = done ++ (r ++ 0 :: pad)) (hargs : Args done m ps)
    (hcount : ps.length + middles.length ≤ if trailing.isSome then 17 else 18)
    (hrounds : 18 ≤ n + ps.length) :
    ∃ m' more, (iterate paramRound n ⟨m, done.length⟩).map parseTrailing = some m' ∧
      m'.fields = m.fields ∧ m'.buffer = done ++ more ∧
      Args m'.buffer m' (ps ++ middles ++ trailing.toList) := by
  induction middles generalizing m done r ps n with
  | nil =>
    -- What is left is the trailing parameter.
    cases trailing with
    | none => cases hrender
    | some text =>
      cases hrender
      obtain ⟨k, rfl⟩ : ∃ k, n = k + 1 := ⟨n - 1, by
        simp only [Option.isSome_some, if_true] at hcount
        omega⟩
      have hbyte : byte m.buffer done.length = colon := by
        rw [hbuffer]
        exact byte_append colon
      have hargc : m.argc < 19 := by
        rw [hargs.argc]
        simp only [Option.isSome_some, if_true] at hcount
        omega
      have hexit : paramRound ⟨m, done.length⟩ = .exit ⟨m, done.length⟩ :=
        paramRound_stop (Or.inr hbyte)
      have htext : StringAt (done ++ (colon :: text ++ 0 :: pad)) (done.length + 1) text :=
        ⟨done ++ [colon], pad, by simp, by simp, htrailing text rfl⟩
      refine ⟨m.push (done.length + 1), _, ?_, rfl, hbuffer, ?_⟩
      · rw [iterate_exit hexit, Option.map_some, parseTrailing, if_pos ⟨hbyte, hargc⟩]
      · rw [List.append_nil]
        show Args m.buffer _ _
        rw [hbuffer]
        exact (hargs.append _).push htext hargc
  | cons w middles ih =>
    have hw := hmiddles w List.mem_cons_self
    rw [renderParams_cons, List.cons.injEq] at hrender
    obtain ⟨-, rfl⟩ := hrender
    rw [List.append_assoc] at hbuffer
    obtain ⟨hnul, hcolon⟩ := hw.byte done (renderParams middles trailing ++ 0 :: pad)
    rw [← hbuffer] at hnul hcolon
    have hcap : ps.length + (middles.length + 1) ≤ 18 := by
      refine Nat.le_trans hcount ?_
      split <;> omega
    have hargc : m.argc < 18 := by
      rw [hargs.argc]
      omega
    obtain ⟨k, rfl⟩ : ∃ k, n = k + 1 := ⟨n - 1, by omega⟩
    rcases renderParams_cases middles trailing with ⟨rfl, rfl, hnil⟩ | ⟨r', hr'⟩
    · -- The last parameter reaches to the end of the line.
      rw [hnil, List.nil_append] at hbuffer
      have hexit : paramRound ⟨m, done.length⟩ = .exit ⟨m.push done.length, done.length⟩ :=
        paramRound_last hnul hcolon hbuffer hw.noNul (Or.inl hw.noSpace)
      refine ⟨m.push done.length, _, ?_, rfl, hbuffer, ?_⟩
      · rw [iterate_exit hexit, Option.map_some, parseTrailing,
          if_neg fun h => hcolon h.1]
      · rw [Option.toList_none, List.append_nil]
        show Args m.buffer _ _
        rw [hbuffer]
        exact (hargs.append _).push (stringAt_append hw.noNul) (by omega)
    · -- Another parameter follows behind a space.
      rw [hr', List.cons_append] at hbuffer
      -- so this is not the 18th parameter, which would take the rest of the line
      have hmore : trailing.isSome = true ∨ 0 < middles.length := by
        cases trailing with
        | some text => exact Or.inl rfl
        | none =>
          cases middles with
          | nil => cases hr'
          | cons x middles => exact Or.inr (Nat.succ_pos _)
      rw [List.length_cons] at hcount
      have hne : m.argc + 1 ≠ 18 := by
        rw [hargs.argc]
        split at hcount
        · omega
        · next hnone =>
          have := hmore.resolve_left hnone
          omega
      have hagain := paramRound_word hnul hcolon hbuffer hw.noNul hw.noSpace hne
      have hcut : ((m.push done.length).cut (done.length + w.length)).buffer =
          done ++ (w ++ [0]) ++ (r' ++ 0 :: pad) := buffer_cut hbuffer
      have hargs' : Args (done ++ (w ++ [0])) ((m.push done.length).cut (done.length + w.length))
          (ps ++ [w]) := by
        have := (hargs.append (w ++ [0])).push (stringAt_append (b := []) hw.noNul) (by omega)
        exact ⟨this.argc, this.slots, this.pointers⟩
      obtain ⟨m', more, hm', hfields, hbuf', hargs''⟩ :=
        ih (fun x hx => hmiddles x (List.mem_cons_of_mem w hx)) hr' hcut hargs'
          (by rw [List.length_append, List.length_singleton]; omega)
          (show 18 ≤ k + (ps ++ [w]).length by
            rw [List.length_append, List.length_singleton]; omega)
      refine ⟨m', w ++ [0] ++ more, ?_, hfields, ?_, ?_⟩
      · rw [iterate_again hagain, hm']
      · rw [hbuf']
        simp
      · simpa using hargs''

/-- A message without parameters. -/
theorem Args.fresh {done : List UInt8} {m : CircMessage} (hargc : m.argc = 0)
    (hslots : m.argv.length = 19) : Args done m [] :=
  ⟨hargc, hslots, [], by rw [hargc]; rfl, .nil⟩

/-- The command, and the parameters behind it. -/
theorem command_spec (hmiddles : ∀ w ∈ middles, IsWord w)
    (htrailing : ∀ text ∈ trailing, 0 ∉ text)
    (hcount : middles.length ≤ if trailing.isSome then 17 else 18) {m : CircMessage}
    {done command pad : List UInt8} (hcommand : IsWord command)
    (hbuffer : m.buffer = done ++ (command ++ (renderParams middles trailing ++ 0 :: pad)))
    (hargc : m.argc = 0) (hslots : m.argv.length = 19) :
    ∃ m' more, parseCommand m done.length = some m' ∧
      m'.fields = { m with command := some done.length }.fields ∧ m'.buffer = done ++ more ∧
      StringAt m'.buffer done.length command ∧
      Args m'.buffer m' (middles ++ trailing.toList) := by
  rcases renderParams_cases middles trailing with ⟨rfl, rfl, hnil⟩ | ⟨r, hr⟩
  · rw [hnil, List.nil_append] at hbuffer
    refine ⟨{ m with command := some done.length }, _, ?_, rfl, hbuffer, ?_, .fresh hargc hslots⟩
    · simp only [parseCommand, hbuffer, strchr_none hcommand.noNul hcommand.noSpace]
    · show StringAt m.buffer _ _
      rw [hbuffer]
      exact stringAt_append hcommand.noNul
  · rw [hr, List.cons_append] at hbuffer
    have hfound : strchr m.buffer done.length space = some (done.length + command.length) := by
      rw [hbuffer]
      exact strchr_append (by decide) hcommand.noNul hcommand.noSpace
    have hdone : done.length + command.length + 1 = (done ++ (command ++ [0])).length := by
      simp only [List.length_append, List.length_singleton]
      omega
    have hcut : (({ m with command := some done.length } : CircMessage).cut
        (done.length + command.length)).buffer = done ++ (command ++ [0]) ++ (r ++ 0 :: pad) :=
      buffer_cut hbuffer
    obtain ⟨m', more, hm', hfields, hbuf', hargs⟩ := params_spec hmiddles htrailing hr hcut
      (Args.fresh hargc hslots) (by simpa using hcount) (show 18 ≤ 18 + [].length from Nat.le_refl _)
    refine ⟨m', command ++ [0] ++ more, ?_, hfields, ?_, ?_, hargs⟩
    · simp only [parseCommand, hfound, parseParams, hdone, hm']
    · rw [hbuf']
      simp
    · rw [hbuf']
      exact (stringAt_append (b := []) hcommand.noNul).append more

end Params

/-! ## The prefix -/

/-- A part does not have the character that ends it. -/
theorem IsPart.delim {stop : UInt8} {w : List UInt8} (h : IsPart stop w) : ∀ x ∈ w, x ∉ [stop] :=
  fun _ hx => by simpa using ne_of_mem_of_not_mem hx h.noStop

/-- The three tokens of the prefix. -/
theorem splitHostmask_spec (source : Source) {m : CircMessage} {rest : List UInt8}
    (hbuffer : m.buffer = [colon] ++ (source.render ++ 0 :: rest)) :
    ∃ done, (m.splitHostmask 1).buffer = done ++ rest ∧ done.length = source.render.length + 2 ∧
      Option.Rel (StringAt done) (m.splitHostmask 1).nick (some source.nick) ∧
      Option.Rel (StringAt done) (m.splitHostmask 1).ident source.ident ∧
      Option.Rel (StringAt done) (m.splitHostmask 1).host source.host := by
  cases source with
  | name nick hnick =>
    have hnick' : strtokR m.buffer 1 [bang] =
        ⟨[colon] ++ (nick ++ 0 :: rest), some 1, 1 + nick.length⟩ := by
      rw [hbuffer]
      exact strtokR_last hnick.ne hnick.noNul hnick.delim
    -- the first token reaches to the NUL, and the two calls behind it find none
    have hend : ∀ delim, strtokR ([colon] ++ (nick ++ 0 :: rest)) (1 + nick.length) delim =
        ⟨[colon] ++ (nick ++ 0 :: rest), none, 1 + nick.length⟩ := by
      intro delim
      have := strtokR_end (a := [colon] ++ nick) (b := rest) delim
      rwa [List.append_assoc, List.length_append] at this
    have hsplit : m.splitHostmask 1 =
        { m with buffer := [colon] ++ (nick ++ 0 :: rest), nick := some 1, ident := none,
                 host := none } := by
      simp only [CircMessage.splitHostmask, hnick', hend]
    rw [hsplit]
    refine ⟨[colon] ++ (nick ++ [0]), ?_, ?_, ?_, .none, .none⟩
    · simp
    · simp [Source.render]
    · exact .some (stringAt_append (a := [colon]) hnick.noNul)
  | user nick ident host hnick hident hhost =>
    have hnick' : strtokR m.buffer 1 [bang] =
        ⟨[colon] ++ (nick ++ 0 :: (ident ++ atSign :: (host ++ 0 :: rest))), some 1,
          1 + nick.length + 1⟩ := by
      rw [hbuffer]
      simp only [Source.render, List.append_assoc, List.cons_append]
      exact strtokR_delim (a := [colon]) hnick.ne hnick.noNul hnick.delim (by decide)
        List.mem_cons_self
    have hident' : strtokR ([colon] ++ (nick ++ 0 :: (ident ++ atSign :: (host ++ 0 :: rest))))
        (1 + nick.length + 1) [atSign] =
          ⟨[colon] ++ (nick ++ 0 :: (ident ++ 0 :: (host ++ 0 :: rest))), some (1 + nick.length + 1),
            1 + nick.length + 1 + ident.length + 1⟩ := by
      have := strtokR_delim (a := [colon] ++ (nick ++ [0])) (b := host ++ 0 :: rest) hident.ne
        hident.noNul hident.delim (by decide) List.mem_cons_self
      simpa [Nat.add_comm, Nat.add_left_comm] using this
    -- no byte ends the last token, so it reaches to the NUL
    have hhost' : strtokR ([colon] ++ (nick ++ 0 :: (ident ++ 0 :: (host ++ 0 :: rest))))
        (1 + nick.length + 1 + ident.length + 1) [] =
          ⟨[colon] ++ (nick ++ 0 :: (ident ++ 0 :: (host ++ 0 :: rest))),
            some (1 + nick.length + 1 + ident.length + 1),
            1 + nick.length + 1 + ident.length + 1 + host.length⟩ := by
      have := strtokR_last (a := [colon] ++ (nick ++ 0 :: (ident ++ [0]))) (b := rest) hhost.ne
        hhost.noNul fun _ _ => List.not_mem_nil
      simpa [Nat.add_comm, Nat.add_left_comm] using this
    have hsplit : m.splitHostmask 1 =
        { m with buffer := [colon] ++ (nick ++ 0 :: (ident ++ 0 :: (host ++ 0 :: rest))),
                 nick := some 1, ident := some (1 + nick.length + 1),
                 host := some (1 + nick.length + 1 + ident.length + 1) } := by
      simp only [CircMessage.splitHostmask, hnick', hident', hhost']
    rw [hsplit]
    refine ⟨[colon] ++ (nick ++ 0 :: (ident ++ 0 :: (host ++ [0]))), ?_, ?_, .some ?_, .some ?_,
      .some ?_⟩
    · simp
    · simp [Source.render]
      omega
    · exact stringAt_append (a := [colon]) hnick.noNul
    · exact ⟨[colon] ++ (nick ++ [0]), host ++ [0], by simp, by simp; omega, hident.noNul⟩
    · exact ⟨[colon] ++ (nick ++ 0 :: (ident ++ [0])), [], by simp, by simp; omega, hhost.noNul⟩

/-! ## The line -/

/-- The string that a field points to. -/
theorem str_of_rel {m : CircMessage} {p : Option Nat} {s : Option (List UInt8)}
    (h : Option.Rel (StringAt m.buffer) p s) : m.str p = s := by
  cases h with
  | some hp => exact congrArg some hp.cstr
  | none => rfl

/-- Fields that point to strings keep them when more bytes are read. -/
theorem rel_append {done : List UInt8} {p : Option Nat} {s : Option (List UInt8)}
    (h : Option.Rel (StringAt done) p s) (more : List UInt8) :
    Option.Rel (StringAt (done ++ more)) p s := by
  cases h with
  | some hp => exact .some (hp.append more)
  | none => exact .none

/-- The buffer holds the first 512 bytes of the text, and zero bytes behind them. -/
theorem buffer_copy_take (text : List UInt8) : (CircMessage.copy text).buffer =
    (cstr text 0).take 512 ++ 0 :: List.replicate (512 - (cstr text 0).length) 0 := by
  show strncpy text 512 ++ [0] = _
  rw [strncpy, List.append_assoc, ← List.replicate_succ', List.replicate_succ]

/-- The buffer holds a line that fits. -/
theorem buffer_copy {line : List UInt8} (h0 : 0 ∉ line) (hlen : line.length ≤ 512) :
    (CircMessage.copy line).buffer = line ++ 0 :: List.replicate (512 - line.length) 0 := by
  rw [buffer_copy_take, cstr_of_noNul h0, List.take_of_length_le hlen]

/-- A source has neither a NUL nor a space. -/
theorem Source.clean (source : Source) : 0 ∉ source.render ∧ space ∉ source.render := by
  cases source with
  | name nick hnick => exact ⟨hnick.noNul, hnick.noSpace⟩
  | user nick ident host hnick hident hhost =>
    simp only [Source.render, List.mem_append, List.mem_cons, not_or]
    exact ⟨⟨hnick.noNul, by decide, hident.noNul, by decide, hhost.noNul⟩,
      hnick.noSpace, by decide, hident.noSpace, by decide, hhost.noSpace⟩

/-- The text of the parameters has no NUL. -/
theorem noNul_renderParams {middles : List (List UInt8)} {trailing : Option (List UInt8)}
    (hmiddles : ∀ w ∈ middles, IsWord w) (htrailing : ∀ text ∈ trailing, 0 ∉ text) :
    0 ∉ renderParams middles trailing := by
  unfold renderParams
  rw [List.mem_append, List.mem_flatMap]
  rintro (⟨w, hw, h0⟩ | h0)
  · exact (List.mem_cons.1 h0).elim (by decide) (hmiddles w hw).noNul
  · cases trailing with
    | none => exact absurd h0 List.not_mem_nil
    | some text =>
      simp only [List.mem_cons] at h0
      rcases h0 with h0 | h0 | h0
      · exact absurd h0 (by decide)
      · exact absurd h0 (by decide)
      · exact htrailing text rfl h0

/-- The text of a line has no NUL. -/
theorem IrcLine.noNul (l : IrcLine) : 0 ∉ l.render := by
  have hparams := noNul_renderParams l.isWord_middle l.noNul_trailing
  have hsource : 0 ∉ renderSource l.source := by
    cases l.source with
    | none => exact List.not_mem_nil
    | some source =>
      simp only [renderSource, List.mem_cons, List.mem_append, not_or]
      exact ⟨by decide, source.clean.1, by decide, List.not_mem_nil⟩
  simp only [IrcLine.render, List.mem_append, not_or]
  exact ⟨hsource, l.isWord_command.noNul, hparams⟩

/-- The prefix, when there is one: the parser goes on behind it with its parts settled. -/
theorem source_spec (l : IrcLine) :
    ∃ m done pad, circParse l.render = parseCommand m done.length ∧
      m.buffer = done ++ (l.command ++ (renderParams l.middles l.trailing ++ 0 :: pad)) ∧
      m.argc = 0 ∧ m.argv.length = 19 ∧
      Option.Rel (StringAt done) m.nick (l.source.map Source.nick) ∧
      Option.Rel (StringAt done) m.ident (l.source.bind Source.ident) ∧
      Option.Rel (StringAt done) m.host (l.source.bind Source.host) := by
  obtain ⟨pad, hpad⟩ : ∃ pad, pad = List.replicate (512 - l.render.length) (0 : UInt8) := ⟨_, rfl⟩
  have hbuffer : (CircMessage.copy l.render).buffer = l.render ++ 0 :: pad := by
    rw [hpad]
    exact buffer_copy l.noNul l.fits
  cases hsource : l.source with
  | none =>
    have hline : (CircMessage.copy l.render).buffer =
        [] ++ (l.command ++ (renderParams l.middles l.trailing ++ 0 :: pad)) := by
      rw [hbuffer, IrcLine.render, hsource]
      simp [renderSource]
    -- the command does not begin with a colon, so it is not taken for a prefix
    have hbyte := (l.isWord_command.byte [] (renderParams l.middles l.trailing ++ 0 :: pad)).2
    rw [← hline] at hbyte
    refine ⟨CircMessage.copy l.render, [], pad, ?_, hline, rfl, rfl, .none, .none, .none⟩
    exact if_neg hbyte
  | some source =>
    obtain ⟨rest, hrest⟩ : ∃ rest,
        rest = l.command ++ (renderParams l.middles l.trailing ++ 0 :: pad) := ⟨_, rfl⟩
    have hline : (CircMessage.copy l.render).buffer =
        [] ++ (colon :: source.render ++ space :: rest) := by
      rw [hbuffer, IrcLine.render, hsource, hrest]
      simp [renderSource]
    have hbyte : byte (CircMessage.copy l.render).buffer 0 = colon := by
      rw [hline]
      rfl
    have hnoNul : 0 ∉ colon :: source.render :=
      List.not_mem_cons_of_ne_of_not_mem (by decide) source.clean.1
    have hnoSpace : space ∉ colon :: source.render :=
      List.not_mem_cons_of_ne_of_not_mem (by decide) source.clean.2
    have hspace : strchr (CircMessage.copy l.render).buffer 0 space =
        some (source.render.length + 1) := by
      have := strchr_append (a := []) (b := rest) (by decide) hnoNul hnoSpace
      rwa [← hline, List.length_nil, Nat.zero_add, List.length_cons] at this
    have hcut : (({ CircMessage.copy l.render with hostmask := some 1 } : CircMessage).cut
        (source.render.length + 1)).buffer = [colon] ++ (source.render ++ 0 :: rest) := by
      have := set_append (a := []) (s := colon :: source.render) (b := rest) space 0
      rwa [← hline, List.length_nil, Nat.zero_add, List.length_cons] at this
    obtain ⟨done, hdone, hlen, hnick, hident, hhost⟩ := splitHostmask_spec source hcut
    refine ⟨_, done, pad, ?_, hrest ▸ hdone, rfl, rfl, hnick, hident, hhost⟩
    simp only [circParse, if_pos hbyte, hspace, hlen]

/-- **Round trip**: parsing the line of a message gives back its parts. -/
theorem circParse_render (l : IrcLine) :
    ∃ m, circParse l.render = some m ∧
      m.str m.nick = l.source.map Source.nick ∧
      m.str m.ident = l.source.bind Source.ident ∧
      m.str m.host = l.source.bind Source.host ∧
      m.str m.command = some l.command ∧
      m.argc = l.params.length ∧ m.args = l.params.map some := by
  obtain ⟨m, done, pad, hparse, hbuffer, hargc, hslots, hnick, hident, hhost⟩ := source_spec l
  obtain ⟨m', more, hm', hfields, hbuffer', hcommand, hargs⟩ := command_spec l.isWord_middle
    l.noNul_trailing l.count l.isWord_command hbuffer hargc hslots
  simp only [CircMessage.fields, List.cons.injEq, and_true] at hfields
  obtain ⟨hcommand', -, hnick', hident', hhost'⟩ := hfields
  refine ⟨m', hparse.trans hm', ?_, ?_, ?_, ?_, hargs.argc, hargs.args⟩
  · rw [hnick']
    exact str_of_rel (hbuffer' ▸ rel_append hnick more)
  · rw [hident']
    exact str_of_rel (hbuffer' ▸ rel_append hident more)
  · rw [hhost']
    exact str_of_rel (hbuffer' ▸ rel_append hhost more)
  · rw [hcommand']
    exact str_of_rel (.some hcommand)

/-- `":a!b@c P d :"`: a message with every part, and an empty trailing text. -/
def shortLine : IrcLine where
  source := some (.user [97] [98] [99] ⟨by decide, by decide, by decide, by decide⟩
    ⟨by decide, by decide, by decide, by decide⟩ ⟨by decide, by decide, by decide, by decide⟩)
  command := [80]
  middles := [[100]]
  trailing := some []
  isWord_command := ⟨by decide, by decide, by decide, by decide⟩
  isWord_middle := fun w hw => by
    rw [List.mem_singleton.1 hw]
    exact ⟨by decide, by decide, by decide, by decide⟩
  noNul_trailing := fun text ht => by
    cases ht
    exact List.not_mem_nil
  count := by decide
  fits := by decide

example : shortLine.render = [58, 97, 33, 98, 64, 99, 32, 80, 32, 100, 32, 58] := by decide

end ExamplePrograms.Circ
