import ExamplePrograms.Onethread.Socket.Create
import ExamplePrograms.Onethread.Socket.Names

/-!
# IPv6 addresses in dotted decimal

`socket_ipv6_to_dots` writes the sixteen bytes of an address in decimal, with a dot between two of them, to
a block for which its caller is told to have 65 bytes. The text always fits, and `readDots` reads the
address back from the block, so that no two addresses have the same text.
-/

set_option autoImplicit false

namespace ExamplePrograms.Onethread.Socket

open ExamplePrograms.Lib.CString ExamplePrograms.Lib.Numerals

/-- `socket_ipv6_to_dots`: the result, and the block of `dots`. `%u` of a byte is `decimal`. -/
def socketIpv6ToDots (pton : Pton) (ip : List UInt8) (dots : List UInt8) : Int × List UInt8 :=
  let dots := dots.set 0 0
  match pton.inet6 ip with
  | none => (-1, dots)
  | some addr => (0, Lib.CString.vsnprintf dots 65 ([dot].intercalate (addr.map decimal)))

/-- The address that a text of decimal bytes shows. -/
def readDots (dots : List UInt8) : List UInt8 :=
  ((cstr dots 0).splitOn dot).map fun s => UInt8.ofNat (readNumeral 10 s)

/-- A decimal number has no dot. -/
theorem dot_notMem_decimal (b : UInt8) : dot ∉ decimal b := by
  have hdigit : ∀ d < 10, UInt8.ofNat d.digitChar.toNat ≠ dot := by decide
  intro h
  obtain ⟨d, hd, hdot⟩ := mem_numeral (by decide) h
  exact hdigit d hd hdot.symm

/-- A byte is read back from its decimal number. -/
theorem read_decimal (b : UInt8) : UInt8.ofNat (readNumeral 10 (decimal b)) = b := by
  rw [decimal, readNumeral_numeral (by decide) (by decide), UInt8.ofNat_toNat]

section Text

/-- The dotted text has no NUL. -/
theorem noNul_dots (addr : List UInt8) : 0 ∉ [dot].intercalate (addr.map decimal) := by
  induction addr with
  | nil => exact List.not_mem_nil
  | cons b rest ih =>
    cases rest with
    | nil =>
      rw [List.map_singleton, List.intercalate_singleton]
      exact noNul_decimal b
    | cons c rest =>
      rw [List.map_cons, List.map_cons, List.intercalate_cons_cons]
      rw [List.map_cons] at ih
      simp only [List.mem_append, List.mem_singleton, not_or]
      exact ⟨⟨noNul_decimal b, by decide⟩, ih⟩

/-- At most three digits for each byte, and the dots. -/
theorem length_dots_le {addr : List UInt8} (hne : addr ≠ []) :
    ([dot].intercalate (addr.map decimal)).length + 1 ≤ 4 * addr.length := by
  induction addr with
  | nil => exact absurd rfl hne
  | cons b rest ih =>
    have hb := length_decimal_le b
    cases rest with
    | nil =>
      rw [List.map_singleton, List.intercalate_singleton, List.length_singleton]
      omega
    | cons c rest =>
      have hrest := ih (List.cons_ne_nil c rest)
      rw [List.map_cons, List.map_cons, List.intercalate_cons_cons]
      rw [List.map_cons] at hrest
      simp only [List.length_append, List.length_cons, List.length_nil] at hrest ⊢
      omega

/-- The dotted text is split into its numbers. -/
theorem splitOn_dots {addr : List UInt8} (hne : addr ≠ []) :
    ([dot].intercalate (addr.map decimal)).splitOn dot = addr.map decimal := by
  refine List.splitOn_intercalate dot (fun s hs => ?_) (fun hnil => hne (List.map_eq_nil_iff.1 hnil))
  obtain ⟨b, -, rfl⟩ := List.mem_map.1 hs
  exact dot_notMem_decimal b

end Text

/-- **The dotted text is complete and can be read back.** For a block of at least 65 bytes: a string that
is no address leaves an empty text; for an address the text has all its bytes, from which it can be read
back, with its terminator within the first 64 bytes; and nothing behind them is written. -/
theorem ipv6_dots {pton : Pton} (hpton : ∀ ip addr, pton.inet6 ip = some addr → addr.length = 16)
    (ip : List UInt8) {dots : List UInt8} (hroom : 65 ≤ dots.length) :
    ∃ ret out, socketIpv6ToDots pton ip dots = (ret, out) ∧ out.length = dots.length ∧
      out.drop 64 = dots.drop 64 ∧ (cstr out 0).length < 64 ∧
      match pton.inet6 ip with
      | none => ret = -1 ∧ cstr out 0 = []
      | some addr => ret = 0 ∧ readDots out = addr := by
  obtain ⟨c, rest, rfl⟩ : ∃ c rest, dots = c :: rest := by
    cases dots with
    | nil => cases hroom
    | cons c rest => exact ⟨c, rest, rfl⟩
  rw [socketIpv6ToDots]
  cases h : pton.inet6 ip with
  | none => exact ⟨_, _, rfl, rfl, rfl, by simp [cstr], rfl, by simp [cstr]⟩
  | some addr =>
    dsimp only
    have hlen := hpton ip addr h
    have hne : addr ≠ [] := by
      rintro rfl
      cases hlen
    have hshort := length_dots_le hne
    have hsplit := splitOn_dots hne
    have hnul := noNul_dots addr
    generalize [dot].intercalate (addr.map decimal) = text at hshort hsplit hnul ⊢
    -- 63 bytes at most, of the 64 that `snprintf` may write in front of the terminator
    have htake : text.take (65 - 1) = text := List.take_of_length_le (by omega)
    have hout : Lib.CString.vsnprintf ((c :: rest).set 0 0) 65 text =
        text ++ 0 :: rest.drop text.length := by
      rw [Lib.CString.vsnprintf, htake]
      rfl
    have hcstr : cstr (text ++ 0 :: rest.drop text.length) 0 = text := (stringAt_front hnul _).cstr
    simp only [List.length_cons] at hroom
    refine ⟨_, _, rfl, ?_, ?_, ?_, rfl, ?_⟩
    · rw [hout]
      simp only [List.length_append, List.length_cons, List.length_drop]
      omega
    · have hbehind : 64 - text.length = 63 - text.length + 1 := by omega
      rw [hout, List.drop_append, List.drop_of_length_le (by omega), List.nil_append, hbehind,
        List.drop_succ_cons, List.drop_drop, List.drop_succ_cons]
      congr 1
      omega
    · rw [hout, hcstr]
      omega
    · rw [hout, readDots, hcstr, hsplit, List.map_map]
      have hid : (fun s => UInt8.ofNat (readNumeral 10 s)) ∘ decimal = id := funext read_decimal
      rw [hid, List.map_id]

/-- `::`, in a block that holds anything. -/
theorem ipv6_dots_passive : ∃ ret out,
    socketIpv6ToDots tablePton passive6 (List.replicate 70 85) = (ret, out) ∧ out.length = 70 ∧
      out.drop 64 = (List.replicate 70 85).drop 64 ∧ (cstr out 0).length < 64 ∧
      match tablePton.inet6 passive6 with
      | none => ret = -1 ∧ cstr out 0 = []
      | some addr => ret = 0 ∧ readDots out = addr := by
  have hpton : ∀ ip addr, tablePton.inet6 ip = some addr → addr.length = 16 := by
    intro ip addr h
    have hif : (if ip = passive6 then some (List.replicate 16 0) else none) = some addr := h
    split at hif
    · cases hif
      rfl
    · cases hif
  have hroom : 65 ≤ (List.replicate 70 (85 : UInt8)).length := by decide
  exact ipv6_dots hpton passive6 hroom

end ExamplePrograms.Onethread.Socket
