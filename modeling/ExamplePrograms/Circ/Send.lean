import ExamplePrograms.Circ.Sessions

/-!
# The line that is sent

`circ_send` formats its text into an array of 513 bytes. `vsnprintf` stores 509 bytes of it at most,
and `strcat` puts CR LF behind what it takes for the end of the text, which is the first NUL. The length
for `cnet_write` is that of the whole text, whatever has been stored of it.

So one line is written just when the text is stored whole and has no NUL in it
(`circSend_writesLine_iff`).
-/

set_option autoImplicit false

namespace ExamplePrograms.Circ

open ExamplePrograms.Lib.CString

/-- The bytes written are one line: what is stored of the text, with CR LF behind it. They come from an
array of 513 bytes, and there is no other call. -/
def WritesLine (text : List UInt8) (out : List Output) : Prop :=
  ∃ nsid data len, out = [.write nsid data len] ∧ data.length = 513 ∧ len ≤ 511 ∧
    data.take len = text.take 509 ++ [13, 10]

/-! ## The array -/

/-- CR LF stands where the text that is stored has its first NUL. -/
theorem sendBuffer_eq (text : List UInt8) : sendBuffer text =
    cstr (text.take 509) 0 ++ 13 :: 10 :: 0 ::
      (vsnprintf (List.replicate 513 0) 510 text).drop ((cstr (text.take 509) 0).length + 3) := by
  have hstored : cstr (vsnprintf (List.replicate 513 0) 510 text) 0 = cstr (text.take 509) 0 :=
    cstr_append_zero _ _
  have hcrlf : cstr [13, 10] 0 = [13, 10] := rfl
  rw [sendBuffer, strcat]
  rw [hstored, hcrlf, List.length_append, List.append_assoc]
  rfl

/-- The buffer of `circ_send` has 513 bytes. -/
theorem length_sendBuffer (text : List UInt8) : (sendBuffer text).length = 513 := by
  have hstored : (cstr (text.take 509) 0).length ≤ (text.take 509).length :=
    (List.takeWhile_prefix _).length_le
  have htake : (text.take 509).length ≤ 509 := List.length_take_le 509 text
  have harray : (vsnprintf (List.replicate 513 0) 510 text).length = 513 := by
    show (text.take 509 ++ 0 :: (List.replicate 513 0).drop ((text.take 509).length + 1)).length = 513
    rw [List.length_append, List.length_cons, List.length_drop, List.length_replicate]
    omega
  rw [sendBuffer_eq, List.length_append, List.length_cons, List.length_cons, List.length_cons,
    List.length_drop, harray]
  omega

/-- The array holds the line of the text in front of the length that is passed on. -/
theorem sendBuffer_line_iff (text : List UInt8) :
    (text.length + 2 ≤ 511 ∧ (sendBuffer text).take (text.length + 2) = text.take 509 ++ [13, 10]) ↔
      text.length ≤ 509 ∧ 0 ∉ text := by
  have hbuffer := sendBuffer_eq text
  constructor
  · rintro ⟨hlen, hline⟩
    have hshort : text.length ≤ 509 := Nat.le_of_add_le_add_right hlen
    refine ⟨hshort, fun h0 => ?_⟩
    obtain ⟨w, r, rfl, hw⟩ := List.eq_append_cons_of_mem h0
    rw [List.take_of_length_le hshort] at hline hbuffer
    have hstored : cstr (w ++ 0 :: r) 0 = w := cstr_append (a := []) hw
    rw [hbuffer, hstored, List.append_assoc] at hline
    -- the CR has taken the place of the NUL
    have hbyte := congrArg (fun l => l[w.length]?) hline
    have hlt : w.length < (w ++ 0 :: r).length + 2 := by
      rw [List.length_append]
      omega
    simp only [List.getElem?_take_of_lt hlt, List.getElem?_append_right (Nat.le_refl _),
      Nat.sub_self, List.cons_append] at hbyte
    exact absurd (Option.some.inj hbyte) (by decide)
  · rintro ⟨hshort, h0⟩
    refine ⟨Nat.add_le_add_right hshort 2, ?_⟩
    rw [List.take_of_length_le hshort] at hbuffer ⊢
    rw [hbuffer, cstr_of_noNul h0, List.take_append, List.take_of_length_le (Nat.le_add_right _ _),
      Nat.add_sub_cancel_left]
    rfl

section Calls

variable {env : Env} {s : State} {sid : Int} {o : Outcome}

/-- **The buffer is the line** exactly when the text fits and has no NUL. -/
theorem writesLine_iff {text : List UInt8} {nsid : Int} :
    WritesLine text [.write nsid (sendBuffer text) (text.length + 2)] ↔
      text.length ≤ 509 ∧ 0 ∉ text := by
  rw [← sendBuffer_line_iff]
  constructor
  · rintro ⟨nsid', data, len, hout, -, hlen, hline⟩
    cases hout
    exact ⟨hlen, hline⟩
  · rintro ⟨hlen, hline⟩
    exact ⟨nsid, _, _, rfl, length_sendBuffer text, hlen, hline⟩

/-- What `circ_send` writes for a session that it finds. -/
theorem circSend_out {idx : Nat} {text : List UInt8} (hfound : s.circFetch sid = some idx)
    (h : circSend env s sid text = some o) :
    ∃ nsid, o.out = [.write nsid (sendBuffer text) (text.length + 2)] := by
  rw [circSend] at h
  rw [hfound] at h
  obtain ⟨sess, -, rfl⟩ := Option.map_eq_some_iff.1 h
  exact ⟨sess.nsid, rfl⟩

/-- **One line**: `circ_send` writes its text as one line just when it has at most 509 bytes and no
NUL. -/
theorem circSend_writesLine_iff {idx : Nat} {text : List UInt8}
    (hfound : s.circFetch sid = some idx) (h : circSend env s sid text = some o) :
    WritesLine text o.out ↔ text.length ≤ 509 ∧ 0 ∉ text := by
  obtain ⟨nsid, hout⟩ := circSend_out hfound h
  rw [hout]
  exact writesLine_iff

/-- The program behind the first `circ_session_create`. -/
def oneSession : State := (circSessionCreate {} start none [] 1).st

/-- `"PING"`. -/
theorem circSend_writesLine_ping :
    ∃ o, circSend {} oneSession 0 [80, 73, 78, 71] = some o ∧
      (WritesLine [80, 73, 78, 71] o.out ↔
        [80, 73, 78, 71].length ≤ 509 ∧ (0 : UInt8) ∉ ([80, 73, 78, 71] : List UInt8)) :=
  ⟨_, rfl, circSend_writesLine_iff (show oneSession.circFetch 0 = some 0 from rfl) rfl⟩

/-- A text that does not fit. -/
def longText : List UInt8 := List.replicate 510 97

/-- Its last byte is not stored, and 512 bytes are written. -/
theorem circSend_long :
    ∃ o, circSend {} oneSession 0 longText = some o ∧
      o.out = [.write 0 (sendBuffer longText) 512] ∧ ¬ WritesLine longText o.out := by
  have hlength : longText.length = 510 := List.length_replicate
  refine ⟨⟨oneSession, longText.length, [.write 0 (sendBuffer longText) (longText.length + 2)]⟩, rfl,
    ?_, fun h => ?_⟩
  · rw [hlength]
  · have hshort := (writesLine_iff.1 h).1
    rw [hlength] at hshort
    exact absurd hshort (by decide)

/-- `circ_disconnect` sends the text of its message. -/
theorem circDisconnect_writesLine_iff {idx : Nat} {message : Option (List UInt8)}
    (hmessage : ∀ text ∈ message, 0 ∉ text) (hfound : s.circFetch sid = some idx)
    (h : circDisconnect env s sid message = some o) :
    WritesLine (quitText message) o.out ↔ (quitText message).length ≤ 509 := by
  have h0 : 0 ∉ quitText message := by
    rw [quitText]
    cases message with
    | none => decide
    | some text => exact fun hmem => (List.mem_append.1 hmem).elim (by decide) (hmessage text rfl)
  rw [circDisconnect] at h
  rw [hfound] at h
  obtain ⟨o', ho', rfl⟩ := Option.map_eq_some_iff.1 h
  have hfound' : ∀ f, (s.update idx f).circFetch sid = some idx := fun _ => hfound
  obtain ⟨nsid, hout⟩ := circSend_out (hfound' _) ho'
  rw [show ({ o' with ret := 0 } : Outcome).out = o'.out from rfl, hout, writesLine_iff]
  exact and_iff_left h0

end Calls

end ExamplePrograms.Circ
