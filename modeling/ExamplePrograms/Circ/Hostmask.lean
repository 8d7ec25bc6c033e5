import ExamplePrograms.Circ.Lossless

/-!
# The hostmask of a prefix

`circ_parse` keeps a pointer to the whole prefix, and splits the prefix in place at that pointer. This
module says what string is left there (`hostmask_of_prefix`): the splitting ends it at the first `!`
behind its first other byte, and nothing that is done to the rest of the line reaches it.
-/

set_option autoImplicit false

namespace ExamplePrograms.Circ

open ExamplePrograms.Lib.CString ExamplePrograms.Lib.Loops

/-- The bytes of a prefix up to the end of its first token. -/
def keptHostmask (pre : List UInt8) : List UInt8 :=
  pre.takeWhile (· == bang) ++ (pre.dropWhile (· == bang)).takeWhile (· != bang)

/-- A prefix is kept as it is in exactly the cases without a `!` behind its first characters. -/
theorem keptHostmask_eq_iff (pre : List UInt8) :
    keptHostmask pre = pre ↔ bang ∉ pre.dropWhile (· == bang) := by
  have hsplit := List.takeWhile_append_dropWhile (p := (· == bang)) (l := pre)
  have hkept : keptHostmask pre = pre ↔
      (pre.dropWhile (· == bang)).takeWhile (· != bang) = pre.dropWhile (· == bang) := by
    constructor
    · exact fun h => List.append_cancel_left (h.trans hsplit.symm)
    · intro h
      rw [keptHostmask, h, hsplit]
  rw [hkept, List.takeWhile_eq_self_iff]
  constructor
  · exact fun h hmem => bne_iff_ne.1 (h bang hmem) rfl
  · exact fun h x hx => bne_iff_ne.2 (ne_of_mem_of_not_mem hx h)

/-- A prefix that has one token is kept, and of the others what is in front of the second `!`. -/
theorem keptHostmask_cases (pre : List UInt8) :
    ∃ lead, (∀ x ∈ lead, x = bang) ∧
      ((∃ nick, pre = lead ++ nick ∧ bang ∉ nick ∧ keptHostmask pre = pre) ∨
        ∃ nick tail, pre = lead ++ (nick ++ bang :: tail) ∧ nick ≠ [] ∧ bang ∉ nick ∧
          keptHostmask pre = lead ++ nick) := by
  have hsplit := List.takeWhile_append_dropWhile (p := (· == bang)) (l := pre)
  have hlead : ∀ x ∈ pre.takeWhile (· == bang), x = bang := fun x hx => by
    have := List.mem_takeWhile_imp hx
    exact eq_of_beq this
  refine ⟨pre.takeWhile (· == bang), hlead, ?_⟩
  by_cases hbang : bang ∈ pre.dropWhile (· == bang)
  · obtain ⟨nick, tail, htoken, hnick⟩ := List.eq_append_cons_of_mem hbang
    refine .inr ⟨nick, tail, ?_, ?_, hnick, ?_⟩
    · rw [← htoken, hsplit]
    · -- the first byte behind the delimiters is none
      rintro rfl
      have hhead := List.head?_dropWhile_not (· == bang) pre
      rw [htoken] at hhead
      exact absurd (show (bang == bang) = false from hhead) (by decide)
    · have hall : ∀ x ∈ nick, (x != bang) = true := fun x hx =>
        bne_iff_ne.2 (ne_of_mem_of_not_mem hx hnick)
      rw [keptHostmask, htoken, List.takeWhile_append_of_pos hall, List.takeWhile_cons]
      simp
  · exact .inl ⟨pre.dropWhile (· == bang), hsplit.symm, hbang, (keptHostmask_eq_iff pre).2 hbang⟩

/-! ## The rest of the line -/

/-- The parser does not go back behind `k`. -/
structure Behind (k : Nat) (m m' : CircMessage) : Prop where
  buffer : m'.buffer.take k = m.buffer.take k
  hostmask : m'.hostmask = m.hostmask

/-- `strchr` finds nothing before the offset it starts from. -/
theorem le_of_strchr {buf : List UInt8} {i sp : Nat} {c : UInt8} (h : strchr buf i c = some sp) :
    i ≤ sp := by
  rw [strchr] at h
  split at h
  · cases h
    exact Nat.le_add_right _ _
  · cases h

section Behind

variable {k : Nat} {m : CircMessage} {s : ParamState}

/-- A cut behind `k` leaves the bytes before it. -/
theorem Behind.cut {m' : CircMessage} {sp : Nat} (h : Behind k m m') (hk : k ≤ sp) :
    Behind k m (m'.cut sp) :=
  ⟨(List.take_set_of_le hk).trans h.buffer, h.hostmask⟩

/-- A further parameter leaves the bytes. -/
theorem Behind.push {m' : CircMessage} (h : Behind k m m') (text : Nat) : Behind k m (m'.push text) :=
  ⟨h.buffer, h.hostmask⟩

/-- A round of the parameter loop leaves the bytes before the text that is left. -/
theorem paramRound_behind (h : Behind k m s.msg ∧ k ≤ s.text) :
    (∀ s', paramRound s = .again s' → Behind k m s'.msg ∧ k ≤ s'.text) ∧
      ∀ r, paramRound s = .exit r → Behind k m r.msg := by
  obtain ⟨hbehind, hk⟩ := h
  rw [paramRound]
  split
  · refine ⟨fun s' h => ?_, fun r h => ?_⟩
    · cases h
    · cases h
      exact hbehind
  split
  · refine ⟨fun s' h => ?_, fun r h => ?_⟩
    · cases h
    · cases h
      exact hbehind.push _
  · next sp hsp =>
    have hle := le_of_strchr hsp
    split
    · refine ⟨fun s' h => ?_, fun r h => ?_⟩
      · cases h
      · cases h
        exact hbehind.push _
    · refine ⟨fun s' h => ?_, fun r h => ?_⟩
      · cases h
        exact ⟨(hbehind.push _).cut (by omega), Nat.le_succ_of_le (Nat.le_trans hk hle)⟩
      · cases h

/-- The trailing parameter leaves the bytes before it. -/
theorem parseTrailing_behind (h : Behind k m s.msg) : Behind k m (parseTrailing s) := by
  rw [parseTrailing]
  split
  · exact h.push _
  · exact h

/-- The command and the parameters are cut up behind the prefix. -/
theorem parseCommand_behind {text : Nat} {m' : CircMessage} (hk : k ≤ text)
    (h : parseCommand m text = some m') : Behind k m m' := by
  have hself : Behind k m { m with command := some text } := ⟨rfl, rfl⟩
  rw [parseCommand] at h
  dsimp only at h
  split at h
  · cases h
    exact hself
  · next sp hsp =>
    have hle := le_of_strchr hsp
    rw [parseParams] at h
    obtain ⟨r, hr, rfl⟩ := Option.map_eq_some_iff.1 h
    have hkept := iterate_invariant (I := fun s => Behind k m s.msg ∧ k ≤ s.text)
      (Q := fun r => Behind k m r.msg) (fun s s' hs => (paramRound_behind hs).1 s')
      (fun s r hs => (paramRound_behind hs).2 r) hr
      ⟨hself.cut (by omega), Nat.le_succ_of_le (Nat.le_trans hk hle)⟩
    exact parseTrailing_behind hkept

end Behind

/-! ## The prefix -/

/-- The later tokens are taken behind the first one. -/
theorem splitHostmask_take (m : CircMessage) {k : Nat} (hk : k ≤ (strtokR m.buffer 1 [bang]).save) :
    (m.splitHostmask 1).buffer.take k = (strtokR m.buffer 1 [bang]).buf.take k := by
  obtain ⟨hident, hsave⟩ := take_strtokR (strtokR m.buffer 1 [bang]).buf _ [atSign] hk
  obtain ⟨hhost, -⟩ := take_strtokR
    (strtokR (strtokR m.buffer 1 [bang]).buf (strtokR m.buffer 1 [bang]).save [atSign]).buf _ [] hsave
  rw [CircMessage.splitHostmask]
  dsimp only
  rw [hhost, hident]

/-- The first token is taken behind the delimiters in front of it. -/
theorem strtokR_lead {lead b : List UInt8} (hlead : ∀ x ∈ lead, x = bang) :
    strtokR ([colon] ++ (lead ++ b)) 1 [bang] =
      strtokR ([colon] ++ lead ++ b) ([colon] ++ lead).length [bang] := by
  have h0 : 0 ∉ lead := fun h => absurd (hlead 0 h) (by decide)
  have hskip := strtokR_skip (a := [colon]) (b := b) h0 fun x hx => List.mem_singleton.2 (hlead x hx)
  rw [List.append_assoc, List.length_append]
  exact hskip

/-- A hostmask of one token is not cut. -/
theorem splitHostmask_whole {m : CircMessage} {lead nick r : List UInt8}
    (hlead : ∀ x ∈ lead, x = bang) (h0 : 0 ∉ nick) (hbang : bang ∉ nick)
    (hbuffer : m.buffer = [colon] ++ (lead ++ nick ++ 0 :: r)) :
    (m.splitHostmask 1).buffer = m.buffer := by
  have hfirst : (strtokR m.buffer 1 [bang]).buf = m.buffer ∧
      (strtokR m.buffer 1 [bang]).save = (lead ++ nick).length + 1 := by
    rw [hbuffer, List.append_assoc, strtokR_lead hlead]
    by_cases hnil : nick = []
    · subst hnil
      rw [List.nil_append, strtokR_end]
      simp
    · rw [strtokR_last hnil h0 fun x hx => by simpa using ne_of_mem_of_not_mem hx hbang]
      refine ⟨List.append_assoc _ _ _, ?_⟩
      simp only [List.length_append, List.length_singleton]
      omega
  have hend : byte m.buffer ((lead ++ nick).length + 1) = 0 := by
    have := byte_append_length (a := [colon]) (s := lead ++ nick) (c := 0) (b := r)
    rwa [← hbuffer, List.length_singleton, Nat.add_comm] at this
  have htake := splitHostmask_take m (Nat.le_of_eq hfirst.2.symm)
  obtain ⟨-, hdrop⟩ := splitHostmask_keeps (Nat.succ_le_succ (Nat.zero_le _)) hend
  rw [hfirst.1] at htake
  rw [← List.take_append_drop ((lead ++ nick).length + 1) (m.splitHostmask 1).buffer, htake, hdrop,
    List.take_append_drop]

/-- The splitting ends the hostmask behind its first token. -/
theorem splitHostmask_hostmask {m : CircMessage} {pre r : List UInt8} (h0 : 0 ∉ pre)
    (hbuffer : m.buffer = [colon] ++ (pre ++ 0 :: r)) :
    StringAt ((m.splitHostmask 1).buffer.take (pre.length + 2)) 1 (keptHostmask pre) := by
  obtain ⟨lead, hlead, ⟨nick, rfl, hbang, hkept⟩ | ⟨nick, tail, rfl, hne, hbang, hkept⟩⟩ :=
    keptHostmask_cases pre
  · rw [splitHostmask_whole hlead (fun h => h0 (List.mem_append_right lead h)) hbang hbuffer, hkept,
      hbuffer]
    have hbuffer' : [colon] ++ (lead ++ nick ++ 0 :: r) = [colon] ++ (lead ++ nick ++ [0]) ++ r := by
      simp
    rw [hbuffer', List.take_left' (by simp; omega)]
    exact ⟨[colon], [], rfl, rfl, h0⟩
  · rw [List.mem_append, List.mem_append, not_or, not_or] at h0
    have hfirst : strtokR m.buffer 1 [bang] =
        ⟨[colon] ++ lead ++ (nick ++ 0 :: (tail ++ 0 :: r)), some ([colon] ++ lead).length,
          ([colon] ++ lead).length + nick.length + 1⟩ := by
      rw [hbuffer, List.append_assoc, strtokR_lead hlead, List.append_assoc nick, List.cons_append]
      exact strtokR_delim hne h0.2.1 (fun x hx => by simpa using ne_of_mem_of_not_mem hx hbang)
        (by decide) List.mem_cons_self
    have htake := splitHostmask_take m (Nat.le_refl (strtokR m.buffer 1 [bang]).save)
    rw [hfirst] at htake
    -- the NUL behind the first token
    have hkeep : StringAt ((m.splitHostmask 1).buffer.take
        (([colon] ++ lead).length + nick.length + 1)) 1 (lead ++ nick) := by
      have hbuffer' : [colon] ++ lead ++ (nick ++ 0 :: (tail ++ 0 :: r)) =
          [colon] ++ (lead ++ nick ++ [0]) ++ (tail ++ 0 :: r) := by
        simp
      rw [htake, hbuffer', List.take_left' (by simp [Nat.add_comm, Nat.add_left_comm])]
      exact ⟨[colon], [], rfl, rfl, List.mem_append.not.2 (not_or.2 ⟨h0.1, h0.2.1⟩)⟩
    rw [hkept]
    refine StringAt.of_take (i := ([colon] ++ lead).length + nick.length + 1) ?_
    rw [List.take_take, Nat.min_eq_left (by simp; omega)]
    exact hkeep

/-- The string ends behind the prefix when the line is cut there. -/
theorem hostmask_of_short {pre : List UInt8} (h0 : 0 ∉ pre) (hspace : space ∉ pre) (text : List UInt8)
    {r : List UInt8} (hbuffer : (CircMessage.copy text).buffer = colon :: pre ++ space :: r) :
    ∃ m, circParse text = some m ∧ m.str m.hostmask = some (keptHostmask pre) := by
  have h0' : 0 ∉ colon :: pre := List.not_mem_cons_of_ne_of_not_mem (by decide) h0
  have hspace' : space ∉ colon :: pre := List.not_mem_cons_of_ne_of_not_mem (by decide) hspace
  have hbyte : byte (CircMessage.copy text).buffer 0 = colon := by
    rw [hbuffer]
    rfl
  have hfound : strchr (CircMessage.copy text).buffer 0 space = some (pre.length + 1) := by
    have := strchr_append (a := []) (b := r) (show space ≠ 0 by decide) h0' hspace'
    rwa [List.nil_append, ← hbuffer, List.length_nil, Nat.zero_add] at this
  have hcut : (({ CircMessage.copy text with hostmask := some 1 } : CircMessage).cut
      (pre.length + 1)).buffer = [colon] ++ (pre ++ 0 :: r) := by
    have := set_append (a := []) (s := colon :: pre) (b := r) space 0
    rwa [List.nil_append, ← hbuffer, List.length_nil, Nat.zero_add] at this
  obtain ⟨m, hm⟩ := Option.isSome_iff_exists.1 (circParse_isSome text)
  refine ⟨m, hm, ?_⟩
  have hstring := splitHostmask_hostmask h0 hcut
  simp only [circParse, if_pos hbyte, hfound] at hm
  have hbehind := parseCommand_behind (Nat.le_refl (pre.length + 2)) hm
  rw [← hbehind.buffer] at hstring
  rw [hbehind.hostmask]
  exact congrArg some hstring.of_take.cstr

/-- What is left of the prefix: it is split, or cut off with the line. -/
theorem hostmask_of_prefix {pre : List UInt8} (h0 : 0 ∉ pre) (hspace : space ∉ pre)
    (rest : List UInt8) :
    ∃ m, circParse (colon :: (pre ++ space :: rest)) = some m ∧
      m.str m.hostmask = some (if pre.length ≤ 510 then keptHostmask pre else pre.take 511) := by
  have hbuffer := buffer_copy_take (colon :: (pre ++ space :: rest))
  have h0' : 0 ∉ colon :: pre := List.not_mem_cons_of_ne_of_not_mem (by decide) h0
  have hcstr : cstr (colon :: (pre ++ space :: rest)) 0 =
      colon :: pre ++ space :: rest.takeWhile (· != 0) := by
    have := cstr_eq (a := []) h0' (space :: rest)
    rwa [List.takeWhile_cons, if_pos (by decide)] at this
  rw [hcstr, List.take_append] at hbuffer
  split
  · next hlen =>
    obtain ⟨n, hn⟩ : ∃ n, 512 - (colon :: pre).length = n + 1 :=
      ⟨510 - pre.length, by rw [List.length_cons]; omega⟩
    rw [List.take_of_length_le (by rw [List.length_cons]; omega), hn, List.take_succ_cons,
      List.append_assoc, List.cons_append] at hbuffer
    exact hostmask_of_short h0 hspace _ hbuffer
  · next hlen =>
    rw [show 512 - (colon :: pre).length = 0 by rw [List.length_cons]; omega, List.take_zero,
      List.append_nil, List.take_succ_cons] at hbuffer
    have h0'' : 0 ∉ pre.take 511 := fun h => h0 (List.mem_of_mem_take h)
    have hstart : commandStart (colon :: pre.take 511) = none :=
      (commandStart_none_iff _).2 ⟨rfl, List.not_mem_cons_of_ne_of_not_mem (by decide)
        fun h => hspace (List.mem_of_mem_take h)⟩
    have h0line : 0 ∉ colon :: pre.take 511 := List.not_mem_cons_of_ne_of_not_mem (by decide) h0''
    refine ⟨_, circParse_prefix hbuffer h0line hstart, ?_⟩
    show some (cstr (CircMessage.copy _).buffer 1) = _
    rw [hbuffer]
    exact congrArg some (cstr_append (a := [colon]) h0'')

/-- **The prefixes that are kept whole.** The hostmask is the text between the colon and the first space,
and so that of a user, when it has no `!` to be cut at, or when the line is cut off right behind it. -/
theorem hostmask_whole_iff {pre : List UInt8} (h0 : 0 ∉ pre) (hspace : space ∉ pre)
    (rest : List UInt8) :
    (∃ m, circParse (colon :: (pre ++ space :: rest)) = some m ∧ m.str m.hostmask = some pre ∧
      ∀ nick ident host, nick ≠ [] → ident ≠ [] → host ≠ [] →
        pre = nick ++ bang :: (ident ++ atSign :: host) →
          m.str m.hostmask = some (nick ++ bang :: (ident ++ atSign :: host))) ↔
      pre.length = 511 ∨ pre.length ≤ 510 ∧ bang ∉ pre.dropWhile (· == bang) := by
  obtain ⟨m, hm, hhostmask⟩ := hostmask_of_prefix h0 hspace rest
  have hwhole : m.str m.hostmask = some pre ↔
      pre.length = 511 ∨ pre.length ≤ 510 ∧ bang ∉ pre.dropWhile (· == bang) := by
    rw [hhostmask, Option.some_inj]
    split
    · next hlen =>
      rw [keptHostmask_eq_iff]
      exact ⟨fun h => .inr ⟨hlen, h⟩, fun h => (h.resolve_left (by omega)).2⟩
    · next hlen =>
      rw [List.take_eq_self_iff]
      omega
  rw [← hwhole]
  constructor
  · rintro ⟨m', hm', hpre, -⟩
    rw [hm] at hm'
    cases hm'
    exact hpre
  · intro hpre
    exact ⟨m, hm, hpre, fun nick ident host _ _ _ heq => heq ▸ hpre⟩

/-- `:irc PING`. -/
theorem hostmask_whole_server :
    (∃ m, circParse (colon :: ([105, 114, 99] ++ space :: [80, 73, 78, 71])) = some m ∧
      m.str m.hostmask = some [105, 114, 99] ∧
      ∀ nick ident host, nick ≠ [] → ident ≠ [] → host ≠ [] →
        [105, 114, 99] = nick ++ bang :: (ident ++ atSign :: host) →
          m.str m.hostmask = some (nick ++ bang :: (ident ++ atSign :: host))) ↔
      [105, 114, 99].length = 511 ∨
        [105, 114, 99].length ≤ 510 ∧ bang ∉ [105, 114, 99].dropWhile (· == bang) :=
  hostmask_whole_iff (by decide) (by decide) [80, 73, 78, 71]

/-- `:n!u@h PING`. The hostmask is `n`. -/
theorem hostmask_user_cut :
    ∃ m, circParse (colon :: ([110, bang, 117, atSign, 104] ++ space :: [80, 73, 78, 71])) = some m ∧
      m.str m.hostmask = some [110] ∧
      m.str m.hostmask ≠ some ([110] ++ bang :: ([117] ++ atSign :: [104])) := by
  obtain ⟨m, hm, hhostmask⟩ :=
    hostmask_of_prefix (show 0 ∉ [110, bang, 117, atSign, 104] by decide) (by decide) [80, 73, 78, 71]
  have hkept : m.str m.hostmask = some [110] := hhostmask
  refine ⟨m, hm, hkept, ?_⟩
  rw [hkept]
  decide

end ExamplePrograms.Circ
