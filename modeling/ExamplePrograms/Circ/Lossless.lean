import ExamplePrograms.Circ.RoundTrip

/-!
# Parsing an arbitrary line

What `circ_parse` makes of a text that nobody has rendered: runs of spaces, a colon on its own, more
parameters than the array takes, a text that is too long. The line is the first 512 bytes of the text.
The command begins at its front, or behind the first space when it has a prefix (`commandStart`), and
the parameters are what follows the next space (`paramText`).

`Lossless` says what the message keeps of the line: the array is never full, and the parameters
joined by spaces are the text they come from, up to the colon of a trailing parameter and a space at
the end (`Joined`). The invariant of the loop is `Filled`, which adds to `Args` of the round trip what
concerns the array itself.
-/

set_option autoImplicit false

namespace ExamplePrograms.Circ

open ExamplePrograms.Lib.CString ExamplePrograms.Lib.Loops

/-! ## The parts of a line -/

/-- What follows the first space. -/
def afterSpace (line : List UInt8) : Option (List UInt8) :=
  if space ∈ line then some (line.drop (line.idxOf space + 1)) else none

/-- The offset of the command. -/
def commandStart (line : List UInt8) : Option Nat :=
  if line.head? = some colon then
    if space ∈ line then some (line.idxOf space + 1) else none
  else some 0

/-- The text of the parameters. -/
def paramText (line : List UInt8) : Option (List UInt8) :=
  (commandStart line).bind fun start => afterSpace (line.drop start)

/-- `text` is the parameters joined by spaces. It may end in one more space, and the last parameter may
stand behind a colon. -/
def Joined (text : List UInt8) (params : List (List UInt8)) : Prop :=
  text = [space].intercalate params ∨
    (params ≠ [] ∧ text = [space].intercalate params ++ [space]) ∨
      ∃ init last, params = init ++ [last] ∧ text = [space].intercalate (init ++ [colon :: last])

/-- What a message keeps of its line. -/
structure Lossless (line : List UInt8) (m : CircMessage) : Prop where
  buffer : m.buffer.length = 513
  bounded : m.argc ≤ 18
  slots : m.argv.length = 19
  nulls : ∀ i, m.argc ≤ i → i < 19 → m.argv[i]? = some none
  pointers : ∃ ptrs : List Nat, m.argv.take m.argc = ptrs.map some ∧ ptrs.Pairwise (· < ·) ∧
    ∀ p ∈ ptrs, p < m.buffer.length
  noCommand : m.command = none ↔ line.head? = some colon ∧ space ∉ line
  command : m.command = commandStart line
  params : ∃ ps, m.args = ps.map some ∧
    match paramText line with
    | none => ps = []
    | some text => Joined text ps

section Parts

variable {w r : List UInt8}

/-- A text of one word has nothing behind it. -/
theorem afterSpace_none (h : space ∉ w) : afterSpace w = none := if_neg h

/-- A word ends at the first space. -/
theorem idxOf_space (h : space ∉ w) : (w ++ space :: r).idxOf space = w.length := by
  rw [List.idxOf_append_of_notMem h, List.idxOf_cons_self, Nat.add_zero]

theorem drop_word : (w ++ space :: r).drop (w.length + 1) = r := by
  rw [List.drop_append, List.drop_of_length_le (Nat.le_succ _), Nat.add_sub_cancel_left]
  rfl

/-- What stands behind the first word. -/
theorem afterSpace_append (h : space ∉ w) : afterSpace (w ++ space :: r) = some r := by
  rw [afterSpace, if_pos (List.mem_append_right w List.mem_cons_self), idxOf_space h, drop_word]

/-- A line without a command is a prefix with nothing behind it. -/
theorem commandStart_none_iff (line : List UInt8) :
    commandStart line = none ↔ line.head? = some colon ∧ space ∉ line := by
  rw [commandStart]
  split
  · next hcolon =>
    split
    · next hspace => exact iff_of_false (fun h => by cases h) fun h => h.2 hspace
    · next hspace => exact iff_of_true rfl ⟨hcolon, hspace⟩
  · next hcolon => exact iff_of_false (fun h => by cases h) fun h => hcolon h.1

/-- A word in front of the parameters that have been joined. -/
theorem Joined.cons {text : List UInt8} {params : List (List UInt8)} (h : Joined text params) :
    Joined (w ++ space :: text) (w :: params) := by
  have hcons : ∀ ps : List (List UInt8), ps ≠ [] →
      [space].intercalate (w :: ps) = w ++ space :: [space].intercalate ps := by
    intro ps hps
    rw [List.intercalate_cons_of_ne_nil hps, List.append_assoc]
    rfl
  rcases h with rfl | ⟨hne, rfl⟩ | ⟨init, last, rfl, rfl⟩
  · by_cases hnil : params = []
    · -- nothing follows the space
      subst hnil
      exact Or.inr (Or.inl ⟨List.cons_ne_nil w [], by simp⟩)
    · exact Or.inl (hcons params hnil).symm
  · refine Or.inr (Or.inl ⟨List.cons_ne_nil w params, ?_⟩)
    rw [hcons params hne, List.append_assoc, List.cons_append]
  · refine Or.inr (Or.inr ⟨w :: init, last, rfl, ?_⟩)
    rw [List.cons_append, hcons _ (by simp)]

end Parts

/-! ## The parameters -/

/-- The parameters found so far are the strings `ps` of `done`, in its order, and no other slot is
taken. -/
structure Filled (done : List UInt8) (m : CircMessage) (ps : List (List UInt8)) : Prop
    extends Args done m ps where
  nulls : ∀ i, m.argc ≤ i → i < 19 → m.argv[i]? = some none
  increasing : ∀ ptrs : List Nat, m.argv.take m.argc = ptrs.map some → ptrs.Pairwise (· < ·)

section Filled

variable {done more : List UInt8} {m : CircMessage} {ps : List (List UInt8)}

/-- The strings of `done` begin inside it. -/
theorem lt_of_stringAt {ptrs : List Nat} (h : List.Forall₂ (StringAt done) ptrs ps) :
    ∀ p ∈ ptrs, p < done.length := by
  induction h with
  | nil => exact fun p hp => absurd hp List.not_mem_nil
  | cons hs _ ih =>
    intro p hp
    rcases List.mem_cons.1 hp with rfl | hp
    · exact hs.lt
    · exact ih p hp

/-- Parameters that were found stay where they are. -/
theorem Filled.append (h : Filled done m ps) (more : List UInt8) : Filled (done ++ more) m ps :=
  ⟨h.toArgs.append more, h.nulls, h.increasing⟩

/-- A parameter behind the ones found so far. -/
theorem Filled.push {text : Nat} {p : List UInt8} (h : Filled done m ps)
    (hp : StringAt (done ++ more) text p) (htext : done.length ≤ text) (hargc : m.argc < 19) :
    Filled (done ++ more) (m.push text) (ps ++ [p]) := by
  obtain ⟨ptrs, hptrs, hall⟩ := h.pointers
  refine ⟨(h.toArgs.append more).push hp hargc, ?_, ?_⟩
  · intro i hi hlt
    have hslot : (m.argv.set m.argc (some text))[i]? = m.argv[i]? :=
      List.getElem?_set_ne (by exact Nat.ne_of_lt hi)
    exact hslot.trans (h.nulls i (Nat.le_of_succ_le hi) hlt)
  · intro ptrs' hptrs'
    rw [take_push text (h.slots.symm ▸ hargc), hptrs] at hptrs'
    obtain rfl : ptrs' = ptrs ++ [text] :=
      List.map_injective_iff.2 (fun _ _ h => Option.some.inj h) (by simpa using hptrs'.symm)
    refine List.pairwise_append.2 ⟨h.increasing ptrs hptrs, List.pairwise_singleton _ _, ?_⟩
    intro q hq t ht
    rw [List.mem_singleton.1 ht]
    exact Nat.lt_of_lt_of_le (lt_of_stringAt hall q hq) htext

end Filled

section Loop

variable {m : CircMessage} {done rest pad : List UInt8} {ps : List (List UInt8)}

/-- The loop on a line that goes on with `rest`, and the trailing parameter behind it. The induction is
on the rounds that are left: a round that goes on has moved a word and its space to `done`. -/
theorem params_joined {n : Nat} (hbuffer : m.buffer = done ++ (rest ++ 0 :: pad)) (h0 : 0 ∉ rest)
    (hfilled : Filled done m ps) (hcount : ps.length ≤ 17) (hrounds : 18 ≤ n + ps.length) :
    ∃ m' new, (iterate paramRound n ⟨m, done.length⟩).map parseTrailing = some m' ∧
      m'.command = m.command ∧ m'.buffer.length = m.buffer.length ∧
      Filled m'.buffer m' (ps ++ new) ∧ (ps ++ new).length ≤ 18 ∧ Joined rest new := by
  induction n generalizing m done rest ps with
  | zero => omega
  | succ n ih =>
    have hargc := hfilled.argc
    rcases paramRound_cases hbuffer h0 with
      ⟨rfl, s, hexit, hs⟩ | ⟨r, rfl, s, hexit, hs⟩ | ⟨s, hexit, hs⟩ | ⟨w, r, rfl, hw, hne, hagain⟩
    · -- The line is at its end.
      refine ⟨m, [], ?_, rfl, rfl, ?_, ?_, Or.inl rfl⟩
      · rw [iterate_exit hexit, Option.map_some, hs]
      · rw [List.append_nil, hbuffer]
        exact hfilled.append _
      · rw [List.append_nil]
        omega
    · -- The trailing parameter is what follows the colon.
      have htext : StringAt (done ++ (colon :: r ++ 0 :: pad)) (done.length + 1) r :=
        ⟨done ++ [colon], pad, by simp, by simp, fun h => h0 (List.mem_cons_of_mem _ h)⟩
      refine ⟨m.push (done.length + 1), [r], ?_, rfl, rfl, ?_, ?_, ?_⟩
      · rw [iterate_exit hexit, Option.map_some, hs (by omega)]
      · show Filled m.buffer _ _
        rw [hbuffer]
        exact hfilled.push htext (Nat.le_succ _) (by omega)
      · rw [List.length_append, List.length_singleton]
        omega
      · exact Or.inr (Or.inr ⟨[], r, rfl, List.intercalate_singleton.symm⟩)
    · -- The last parameter takes the rest of the line.
      refine ⟨m.push done.length, [rest], ?_, rfl, rfl, ?_, ?_, Or.inl ?_⟩
      · rw [iterate_exit hexit, Option.map_some, hs]
      · show Filled m.buffer _ _
        rw [hbuffer]
        exact hfilled.push (stringAt_append h0) (Nat.le_refl _) (by omega)
      · rw [List.length_append, List.length_singleton]
        omega
      · exact List.intercalate_singleton.symm
    · -- A word is cut off.
      rw [List.mem_append, not_or] at h0
      rw [List.append_assoc, List.cons_append] at hbuffer
      have hpush : Filled (done ++ (w ++ [0])) (m.push done.length) (ps ++ [w]) :=
        hfilled.push (stringAt_append h0.1) (Nat.le_refl _) (by omega)
      have hcut : Filled (done ++ (w ++ [0])) ((m.push done.length).cut (done.length + w.length))
          (ps ++ [w]) :=
        ⟨⟨hpush.argc, hpush.slots, hpush.pointers⟩, hpush.nulls, hpush.increasing⟩
      have hbuffer' : ((m.push done.length).cut (done.length + w.length)).buffer =
          done ++ (w ++ [0]) ++ (r ++ 0 :: pad) := buffer_cut hbuffer
      have hlength : (ps ++ [w]).length = ps.length + 1 := by
        rw [List.length_append, List.length_singleton]
      obtain ⟨m', new, hm', hcommand, hlen, hfilled', hcount', hjoined⟩ :=
        ih hbuffer' (fun h => h0.2 (List.mem_cons_of_mem _ h)) hcut (by omega) (by omega)
      rw [List.append_assoc, List.singleton_append] at hfilled' hcount'
      refine ⟨m', w :: new, ?_, hcommand, ?_, hfilled', hcount', hjoined.cons⟩
      · rw [iterate_again hagain, hm']
      · rw [hlen]
        exact List.length_set

/-- A message without parameters. -/
theorem Filled.fresh (hargc : m.argc = 0) (hargv : m.argv = List.replicate 19 none) :
    Filled done m [] := by
  refine ⟨.fresh hargc (by rw [hargv]; rfl), ?_, ?_⟩
  · intro i _ hlt
    rw [hargv, List.getElem?_replicate, if_pos hlt]
  · intro ptrs hptrs
    rw [hargc, List.take_zero] at hptrs
    rw [List.map_eq_nil_iff.1 hptrs.symm]
    exact .nil

/-- The command, and the parameters behind it. -/
theorem command_joined (hbuffer : m.buffer = done ++ (rest ++ 0 :: pad)) (h0 : 0 ∉ rest)
    (hargc : m.argc = 0) (hargv : m.argv = List.replicate 19 none) :
    ∃ m' new, parseCommand m done.length = some m' ∧ m'.command = some done.length ∧
      m'.buffer.length = m.buffer.length ∧ Filled m'.buffer m' new ∧ new.length ≤ 18 ∧
      match afterSpace rest with
      | none => new = []
      | some text => Joined text new := by
  by_cases hspace : space ∈ rest
  · obtain ⟨w, text, rfl, hw⟩ := List.eq_append_cons_of_mem hspace
    rw [List.mem_append, not_or] at h0
    rw [List.append_assoc, List.cons_append] at hbuffer
    have hfound : strchr m.buffer done.length space = some (done.length + w.length) := by
      rw [hbuffer]
      exact strchr_append (by decide) h0.1 hw
    have hend : done.length + w.length + 1 = (done ++ (w ++ [0])).length := by
      simp only [List.length_append, List.length_singleton]
      omega
    have hcut : (({ m with command := some done.length } : CircMessage).cut
        (done.length + w.length)).buffer = done ++ (w ++ [0]) ++ (text ++ 0 :: pad) :=
      buffer_cut hbuffer
    obtain ⟨m', new, hm', hcommand, hlen, hfilled, hcount, hjoined⟩ :=
      params_joined hcut (fun h => h0.2 (List.mem_cons_of_mem _ h)) (Filled.fresh hargc hargv)
        (Nat.zero_le 17) (show 18 ≤ 18 + 0 from Nat.le_refl 18)
    refine ⟨m', new, ?_, hcommand, ?_, hfilled, hcount, ?_⟩
    · simp only [parseCommand, hfound, parseParams, hend, hm']
    · rw [hlen]
      exact List.length_set
    · rw [afterSpace_append hw]
      exact hjoined
  · have hnone : strchr m.buffer done.length space = none := by
      rw [hbuffer]
      exact strchr_none h0 hspace
    refine ⟨{ m with command := some done.length }, [], ?_, rfl, rfl, .fresh hargc hargv,
      Nat.zero_le 18, ?_⟩
    · simp only [parseCommand, hnone]
    · rw [afterSpace_none hspace]

end Loop

/-! ## The prefix -/

/-- The hostmask is split in front of the NUL that ends it. -/
theorem splitHostmask_keeps {m : CircMessage} {i k : Nat} (hik : i ≤ k) (hk : byte m.buffer k = 0) :
    (m.splitHostmask i).buffer.length = m.buffer.length ∧
      (m.splitHostmask i).buffer.drop k = m.buffer.drop k := by
  obtain ⟨hlen, hdrop, hsave⟩ := strtokR_keeps [bang] hik hk
  have hk₁ := (byte_eq_of_drop hdrop).trans hk
  obtain ⟨hlen₁, hdrop₁, hsave₁⟩ := strtokR_keeps [atSign] hsave hk₁
  have hk₂ := (byte_eq_of_drop hdrop₁).trans hk₁
  obtain ⟨hlen₂, hdrop₂, -⟩ := strtokR_keeps [] hsave₁ hk₂
  rw [CircMessage.splitHostmask]
  dsimp only
  rw [hlen₂, hlen₁, hlen, hdrop₂, hdrop₁, hdrop]
  exact ⟨rfl, rfl⟩

/-- What follows the prefix stays as it is when the prefix is cut off and split. -/
theorem prefix_cut {m : CircMessage} {w r : List UInt8} (hbuffer : m.buffer = w ++ space :: r)
    (hw : 0 < w.length) :
    ∃ done, done.length = w.length + 1 ∧ ((m.cut w.length).splitHostmask 1).buffer = done ++ r ∧
      ((m.cut w.length).splitHostmask 1).buffer.length = m.buffer.length := by
  have hcut : (m.cut w.length).buffer = w ++ 0 :: r := by
    have := set_append (a := []) (s := w) (b := r) space 0
    rwa [List.nil_append, ← hbuffer, List.length_nil, Nat.zero_add] at this
  obtain ⟨hlen, hdrop⟩ := splitHostmask_keeps (m := m.cut w.length) hw (by
    rw [hcut]
    exact byte_append 0)
  have hrest : ((m.cut w.length).splitHostmask 1).buffer.drop (w.length + 1) = r := by
    rw [← List.drop_drop, hdrop, hcut, List.drop_left]
    rfl
  refine ⟨((m.cut w.length).splitHostmask 1).buffer.take (w.length + 1), ?_, ?_, ?_⟩
  · rw [List.length_take, hlen, hcut, List.length_append, List.length_cons]
    omega
  · rw [← hrest, List.take_append_drop]
  · rw [hlen]
    exact List.length_set

/-- The first byte of the buffer. -/
theorem byte_head (line pad : List UInt8) :
    byte (line ++ 0 :: pad) 0 = colon ↔ line.head? = some colon := by
  cases line with
  | nil => exact iff_of_false (show (0 : UInt8) ≠ colon by decide) fun h => by cases h
  | cons x line =>
    show x = colon ↔ some x = some colon
    rw [Option.some_inj]

/-- The parser goes on at the command, with the line behind it untouched. -/
theorem circParse_command {text line : List UInt8} {pad : List UInt8} {start : Nat}
    (hbuffer : (CircMessage.copy text).buffer = line ++ 0 :: pad) (h0 : 0 ∉ line)
    (hstart : commandStart line = some start) :
    ∃ m done, circParse text = parseCommand m done.length ∧ done.length = start ∧
      m.buffer = done ++ (line.drop start ++ 0 :: pad) ∧
      m.buffer.length = (CircMessage.copy text).buffer.length ∧
      m.argc = 0 ∧ m.argv = List.replicate 19 none := by
  rw [commandStart] at hstart
  split at hstart
  · next hcolon =>
    -- a prefix up to the first space
    split at hstart
    · next hspace =>
      cases hstart
      have hbyte : byte (CircMessage.copy text).buffer 0 = colon := by
        rw [hbuffer]
        exact (byte_head line pad).2 hcolon
      obtain ⟨w, r, rfl, hw⟩ := List.eq_append_cons_of_mem hspace
      rw [List.mem_append, not_or] at h0
      rw [List.append_assoc, List.cons_append] at hbuffer
      have hfound : strchr (CircMessage.copy text).buffer 0 space = some w.length := by
        have := strchr_append (a := []) (b := r ++ 0 :: pad) (show space ≠ 0 by decide) h0.1 hw
        rwa [List.nil_append, ← hbuffer, List.length_nil, Nat.zero_add] at this
      have hw0 : 0 < w.length := by
        refine List.length_pos_iff.2 fun hnil => ?_
        rw [hnil] at hcolon
        exact absurd (Option.some.inj hcolon) (show space ≠ colon by decide)
      obtain ⟨done, hdone, hrest, hlen⟩ :=
        prefix_cut (m := { CircMessage.copy text with hostmask := some 1 }) hbuffer hw0
      refine ⟨_, done, ?_, ?_, ?_, hlen, rfl, rfl⟩
      · rw [hdone]
        simp only [circParse, if_pos hbyte, hfound]
      · rw [hdone, idxOf_space hw]
      · rw [idxOf_space hw, drop_word, hrest]
    · cases hstart
  · next hcolon =>
    cases hstart
    refine ⟨CircMessage.copy text, [], ?_, rfl, hbuffer, rfl, rfl, rfl⟩
    have hbyte : byte (CircMessage.copy text).buffer 0 ≠ colon := by
      rw [hbuffer]
      exact fun h => hcolon ((byte_head line pad).1 h)
    simp only [circParse, if_neg hbyte]
    rfl

/-- A prefix without an end is all there is. -/
theorem circParse_prefix {text line : List UInt8} {pad : List UInt8}
    (hbuffer : (CircMessage.copy text).buffer = line ++ 0 :: pad) (h0 : 0 ∉ line)
    (hstart : commandStart line = none) :
    circParse text = some { CircMessage.copy text with hostmask := some 1 } := by
  obtain ⟨hcolon, hspace⟩ := (commandStart_none_iff line).1 hstart
  have hbyte : byte (CircMessage.copy text).buffer 0 = colon := by
    rw [hbuffer]
    exact (byte_head line pad).2 hcolon
  have hnone : strchr (CircMessage.copy text).buffer 0 space = none := by
    rw [hbuffer]
    exact strchr_none (a := []) h0 hspace
  simp only [circParse, if_pos hbyte, hnone]

/-! ## The line -/

/-- A message and its parameters, as the loop leaves them. -/
theorem Filled.lossless {line : List UInt8} {m : CircMessage} {ps : List (List UInt8)}
    (h : Filled m.buffer m ps) (hbuffer : m.buffer.length = 513) (hcount : ps.length ≤ 18)
    (hcommand : m.command = commandStart line)
    (hjoined : match paramText line with
      | none => ps = []
      | some text => Joined text ps) : Lossless line m := by
  obtain ⟨ptrs, hptrs, hall⟩ := h.pointers
  exact
    { buffer := hbuffer
      bounded := h.argc ▸ hcount
      slots := h.slots
      nulls := h.nulls
      pointers := ⟨ptrs, hptrs, h.increasing ptrs hptrs, lt_of_stringAt hall⟩
      noCommand := hcommand ▸ commandStart_none_iff line
      command := hcommand
      params := ⟨ps, h.args, hjoined⟩ }

/-- **Nothing is lost**: on every text, the message keeps the first 512 bytes of it. -/
theorem circParse_lossless (text : List UInt8) :
    ∃ m, circParse text = some m ∧ Lossless ((cstr text 0).take 512) m := by
  have hbuffer := buffer_copy_take text
  have hlen : (CircMessage.copy text).buffer.length = 513 := by
    rw [hbuffer]
    simp only [List.length_append, List.length_take, List.length_cons, List.length_replicate]
    omega
  have h0 : 0 ∉ (cstr text 0).take 512 := by
    intro hmem
    exact absurd (List.mem_takeWhile_imp (List.mem_of_mem_take hmem)) (by decide)
  cases hstart : commandStart ((cstr text 0).take 512) with
  | none =>
    have hparams : paramText ((cstr text 0).take 512) = none := by rw [paramText, hstart]; rfl
    refine ⟨_, circParse_prefix hbuffer h0 hstart, ?_⟩
    refine (Filled.fresh rfl rfl).lossless hlen (Nat.zero_le 18) hstart.symm ?_
    rw [hparams]
  | some start =>
    obtain ⟨m, done, hparse, rfl, hm, hlen', hargc, hargv⟩ :=
      circParse_command hbuffer h0 hstart
    obtain ⟨m', ps, hm', hcommand, hlen'', hfilled, hcount, hjoined⟩ :=
      command_joined hm (fun h => h0 (List.mem_of_mem_drop h)) hargc hargv
    have hparams : paramText ((cstr text 0).take 512) =
        afterSpace (((cstr text 0).take 512).drop done.length) := by rw [paramText, hstart]; rfl
    refine ⟨m', hparse.trans hm', hfilled.lossless ?_ hcount (hcommand.trans hstart.symm) ?_⟩
    · rw [hlen'', hlen', hlen]
    · rw [hparams]
      exact hjoined

end ExamplePrograms.Circ
