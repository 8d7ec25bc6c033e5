import ExamplePrograms.Lib.CString
import ExamplePrograms.Lib.Memory
import ExamplePrograms.Lib.Numerals

/-!
# The address of an endpoint

`socket_get_name`, `socket_get_peer_name` and `socket_accept` of `socket.c` report the text of an address
in a block of their own. Each has its own conversion of an IPv4-mapped address: the first moves the
quad to the front without its terminator, the second does not move it and the third moves both.

The kernel answers with a `sockaddr` of the size of the socket's family, of which it copies as much as
the caller has room for. `inet_ntop` for IPv6 is a parameter; `Ntop6.Lawful` is what is known of it.
Fresh memory, on the stack or from `malloc`, holds anything.
-/

set_option autoImplicit false

namespace ExamplePrograms.Onethread.Socket

open ExamplePrograms.Lib.CString ExamplePrograms.Lib.Memory ExamplePrograms.Lib.Numerals

/-! ## Addresses -/

/-- The size of a `struct sockaddr_in` and of a `struct sockaddr_in6`, which is that of the union. -/
def sizeofIpv4 : Nat := 16

/-- `sizeof(struct sockaddr_in6)`. -/
def sizeofIpv6 : Nat := 28

/-- What the kernel knows of an endpoint: a `sockaddr_in` or a `sockaddr_in6`. -/
structure Sockaddr where
  bytes : List UInt8
  size : bytes.length = sizeofIpv4 ∨ bytes.length = sizeofIpv6

/-- `ntohs(sin_port)` and `ntohs(sin6_port)`. -/
def sinPort (name : List UInt8) : Nat := 256 * (byte name 2).toNat + (byte name 3).toNat

/-- `sin_addr`. -/
def sinAddr (name : List UInt8) : List UInt8 := (name.drop 4).take 4

/-- `sin6_addr`. -/
def sin6Addr (name : List UInt8) : List UInt8 := (name.drop 8).take 16

/-- Ten bytes of zero and two of `0xff`. -/
def mappedPrefix : List UInt8 := [0, 0, 0, 0, 0, 0, 0, 0, 0, 0, 255, 255]

/-- `IN6_IS_ADDR_V4MAPPED`. -/
def isV4Mapped (addr : List UInt8) : Bool := addr.take 12 = mappedPrefix

/-- The endpoint has an IPv4-mapped address. -/
def Sockaddr.IsMapped (e : Sockaddr) : Prop :=
  e.bytes.length = sizeofIpv6 ∧ isV4Mapped (sin6Addr e.bytes) = true

/-! ## Texts -/

/-- The character `.`. -/
def dot : UInt8 := 46

/-- A byte in decimal. -/
def decimal (b : UInt8) : List UInt8 := numeral 10 b.toNat

/-- The text of an IPv4 address. -/
def dottedQuad (addr : List UInt8) : List UInt8 := [dot].intercalate (addr.map decimal)

/-- `::ffff:`. -/
def mappedLead : List UInt8 := [58, 58, 102, 102, 102, 102, 58]

/-- The text that `inet_ntop` gives for an IPv6 address. -/
abbrev Ntop6 := List UInt8 → List UInt8

/-- It has no NUL, fits in `INET6_ADDRSTRLEN`, and shows the quad of an IPv4-mapped address. -/
structure Ntop6.Lawful (ntop6 : Ntop6) : Prop where
  noNul : ∀ addr, addr.length = 16 → 0 ∉ ntop6 addr
  short : ∀ addr, addr.length = 16 → (ntop6 addr).length + 1 ≤ 46
  mapped : ∀ quad, quad.length = 4 → ntop6 (mappedPrefix ++ quad) = mappedLead ++ dottedQuad quad

/-- `inet_ntop` to the block `dst`. A text that does not fit is not written. -/
def inetNtop (dst text : List UInt8) : List UInt8 :=
  if text.length + 1 ≤ dst.length then memcpy dst 0 (text ++ [0]) else dst

/-- What fresh memory holds. -/
structure Garbage where
  stack : Nat → UInt8
  heap : Nat → UInt8

/-- Cells that hold anything. -/
def cells (garbage : Nat → UInt8) (n : Nat) : List UInt8 := (List.range n).map garbage

/-- `malloc`: a block that holds anything. -/
def malloc (g : Garbage) (n : Nat) : List UInt8 := cells g.heap n

/-- `strlen` of the string at the start of a block. -/
def strlen (s : List UInt8) : Nat := (cstr s 0).length

/-! ## The three reporters -/

/-- What a reporter returns, with the block of `*ip`, if that is not NULL, and `*port`. -/
structure Report where
  ret : Int
  ip : Option (List UInt8) := none
  port : Nat := 0
  deriving DecidableEq, Repr

/-- The block of a `sockaddr_in`. -/
def ipv4Block (g : Garbage) (name : List UInt8) : List UInt8 :=
  inetNtop (malloc g 32) (dottedQuad (sinAddr name))

/-- The block of a `sockaddr_in6`, in which `unmap` edits the text of an IPv4-mapped address. -/
def ipv6Block (ntop6 : Ntop6) (unmap : List UInt8 → List UInt8) (g : Garbage)
    (name : List UInt8) : List UInt8 :=
  let ip := inetNtop (malloc g 128) (ntop6 (sin6Addr name))
  if isV4Mapped (sin6Addr name) then unmap ip else ip

/-- The body of `socket_get_name` and `socket_get_peer_name`: the system call is asked for an address of
the size of either family. `answer` is the kernel's, if the call does not fail; `wantIp` and `wantPort`
say that the pointers are not NULL. -/
def reportName (ntop6 : Ntop6) (unmap : List UInt8 → List UInt8) (g : Garbage)
    (wantIp wantPort : Bool) (answer : Option Sockaddr) : Report :=
  match answer with
  | none => { ret := -1 }
  | some e =>
      let name := memcpy (cells g.stack sizeofIpv6) 0 (e.bytes.take sizeofIpv4)
      if e.bytes.length = sizeofIpv4 then
        { ret := 0
          ip := if wantIp then some (ipv4Block g name) else none
          port := if wantPort then sinPort name else 0 }
      else
        let name := memcpy name 0 (e.bytes.take sizeofIpv6)
        if e.bytes.length = sizeofIpv6 then
          { ret := 0
            ip := if wantIp then some (ipv6Block ntop6 unmap g name) else none
            port := if wantPort then sinPort name else 0 }
        else { ret := -1 }

/-- `socket_get_name`: `memmove(*ip, *ip+7, strlen(*ip)-7)`. -/
def socketGetName (ntop6 : Ntop6) (g : Garbage) (wantIp wantPort : Bool)
    (answer : Option Sockaddr) : Report :=
  reportName ntop6 (fun ip => memmove ip 0 7 (strlen ip - 7)) g wantIp wantPort answer

/-- `socket_get_peer_name`. -/
def socketGetPeerName (ntop6 : Ntop6) (g : Garbage) (wantIp wantPort : Bool)
    (answer : Option Sockaddr) : Report :=
  reportName ntop6 (fun ip => ip) g wantIp wantPort answer

/-- `socket_accept`: `memmove(*peer_ip, *peer_ip+7, strlen(*peer_ip)-6)`. The length is that of the union
when `accept` fails. -/
def socketAccept (ntop6 : Ntop6) (g : Garbage) (answer : Option (Int × Sockaddr)) : Report :=
  let zero := List.replicate sizeofIpv6 0
  let newsock := (answer.map Prod.fst).getD (-1)
  let name := (answer.map fun a => memcpy zero 0 (a.2.bytes.take sizeofIpv6)).getD zero
  let len := (answer.map fun a => a.2.bytes.length).getD sizeofIpv6
  if len = sizeofIpv4 then
    { ret := newsock, ip := some (ipv4Block g name), port := sinPort name }
  else if len = sizeofIpv6 then
    { ret := newsock
      ip := some (ipv6Block ntop6 (fun ip => memmove ip 0 7 (strlen ip - 6)) g name)
      port := sinPort name }
  else { ret := newsock }

/-- The report has a NUL-terminated text. -/
def Report.Shows (r : Report) (text : List UInt8) : Prop :=
  ∃ block, r.ip = some block ∧ StringAt block 0 text

/-! ## What the texts look like -/

/-- A decimal number has no NUL. -/
theorem noNul_decimal (b : UInt8) : 0 ∉ decimal b := noNul_numeral (by decide) (by decide)

/-- The decimal number of a byte has at most three digits. -/
theorem length_decimal_le (b : UInt8) : (decimal b).length ≤ 3 := by
  have hb := b.toNat_lt
  rw [decimal, length_numeral_le_iff (by decide) (by decide)]
  omega

/-- The four numbers of an IPv4 address. -/
theorem dottedQuad_four (a b c d : UInt8) :
    dottedQuad [a, b, c, d] =
      decimal a ++ dot :: (decimal b ++ dot :: (decimal c ++ dot :: decimal d)) := by
  simp [dottedQuad, List.intercalate]

/-- Four bytes by name. -/
theorem eq_four {quad : List UInt8} (h : quad.length = 4) : ∃ a b c d, quad = [a, b, c, d] := by
  match quad, h with
  | [a, b, c, d], _ => exact ⟨a, b, c, d, rfl⟩

/-- The dotted text of an address has no NUL. -/
theorem noNul_dottedQuad {quad : List UInt8} (h : quad.length = 4) : 0 ∉ dottedQuad quad := by
  obtain ⟨a, b, c, d, rfl⟩ := eq_four h
  rw [dottedQuad_four]
  simp [noNul_decimal, dot]

/-- The dotted text of an address has at most fifteen characters. -/
theorem length_dottedQuad_le {quad : List UInt8} (h : quad.length = 4) :
    (dottedQuad quad).length ≤ 15 := by
  obtain ⟨a, b, c, d, rfl⟩ := eq_four h
  have ha := length_decimal_le a
  have hb := length_decimal_le b
  have hc := length_decimal_le c
  have hd := length_decimal_le d
  rw [dottedQuad_four]
  simp only [List.length_append, List.length_cons]
  omega

/-! ## Blocks -/

@[simp] theorem length_cells (garbage : Nat → UInt8) (n : Nat) : (cells garbage n).length = n := by
  rw [cells, List.length_map, List.length_range]

@[simp] theorem length_malloc (g : Garbage) (n : Nat) : (malloc g n).length = n := length_cells _ n

/-- A text that fits is in the block with its terminator. -/
theorem inetNtop_fits {dst text : List UInt8} (h : text.length + 1 ≤ dst.length) :
    ∃ rest, inetNtop dst text = text ++ 0 :: rest := by
  rw [inetNtop, if_pos h, memcpy]
  exact ⟨dst.drop (text.length + 1), by simp⟩

/-- The string at the start of a block. -/
theorem stringAt_front {text : List UInt8} (h0 : 0 ∉ text) (rest : List UInt8) :
    StringAt (text ++ 0 :: rest) 0 text := ⟨[], rest, rfl, rfl, h0⟩

/-- The length of the string at the start of a block. -/
theorem strlen_front {text : List UInt8} (h0 : 0 ∉ text) (rest : List UInt8) :
    strlen (text ++ 0 :: rest) = text.length := by
  rw [strlen, (stringAt_front h0 rest).cstr]

/-- The text behind the first seven bytes is moved to the front with its terminator. -/
theorem memmove_strip {lead : List UInt8} (hlead : lead.length = 7) (text rest : List UInt8) :
    ∃ rest', memmove (lead ++ text ++ 0 :: rest) 0 7 (text.length + 1) = text ++ 0 :: rest' := by
  have hdrop : (lead ++ text ++ 0 :: rest).drop 7 = text ++ [0] ++ rest := by
    rw [List.append_assoc, List.drop_left' hlead]
    simp
  have htake : (text ++ [0] ++ rest).take (text.length + 1) = text ++ [0] := List.take_left' (by simp)
  rw [memmove, hdrop, htake, List.take_zero, List.nil_append, List.append_assoc]
  exact ⟨_, rfl⟩

/-- Without the terminator it is followed by what stood there. -/
theorem memmove_unterminated {lead text : List UInt8} (hlead : lead.length = 7) (rest : List UInt8) :
    memmove (lead ++ text ++ 0 :: rest) 0 7 text.length =
      text ++ (lead ++ text).drop text.length ++ 0 :: rest := by
  have hdrop : (lead ++ text ++ 0 :: rest).drop 7 = text ++ 0 :: rest := by
    rw [List.append_assoc, List.drop_left' hlead]
  rw [memmove, hdrop, List.take_left' rfl, List.take_zero, List.nil_append, Nat.zero_add,
    List.drop_append_of_le_length (by simp), List.append_assoc]

/-- A full copy leaves nothing of what was there. -/
theorem memcpy_all {l src : List UInt8} (h : src.length = l.length) : memcpy l 0 src = src := by
  rw [memcpy, List.take_zero, List.nil_append, Nat.zero_add, h, List.drop_length, List.append_nil]

/-! ## What is reported -/

section Reports

variable {e : Sockaddr}

/-- A report shows one text. -/
theorem Report.Shows.unique {r : Report} {text text' : List UInt8} (h : r.Shows text)
    (h' : r.Shows text') : text = text' := by
  obtain ⟨block, hblock, htext⟩ := h
  obtain ⟨block', hblock', htext'⟩ := h'
  rw [hblock] at hblock'
  cases hblock'
  rw [← htext.cstr, htext'.cstr]

/-- The address is in the first 16 bytes, whatever is behind them. -/
theorem sinAddr_memcpy {l bytes : List UInt8} (hsize : bytes.length = sizeofIpv4) :
    sinAddr (memcpy l 0 (bytes.take sizeofIpv6)) = sinAddr bytes ∧
      sinAddr (memcpy l 0 (bytes.take sizeofIpv4)) = sinAddr bytes := by
  rw [sizeofIpv4] at hsize
  have happend : ∀ rest, sinAddr (bytes ++ rest) = sinAddr bytes := fun rest => by
    rw [sinAddr, List.drop_append_of_le_length (by omega),
      List.take_append_of_le_length (by rw [List.length_drop]; omega), sinAddr]
  have htake : ∀ n, 16 ≤ n → bytes.take n = bytes := fun n hn => List.take_of_length_le (by omega)
  rw [sizeofIpv4, sizeofIpv6, htake 28 (by decide), htake 16 (by decide), memcpy, List.take_zero,
    List.nil_append, happend]
  exact ⟨rfl, rfl⟩

/-- The size of an IPv4 address. -/
theorem length_sinAddr {bytes : List UInt8} (hsize : bytes.length = sizeofIpv4) :
    (sinAddr bytes).length = 4 := by
  rw [sinAddr, List.length_take, List.length_drop, hsize]
  rfl

/-- The size of an IPv6 address. -/
theorem length_sin6Addr {bytes : List UInt8} (hsize : bytes.length = sizeofIpv6) :
    (sin6Addr bytes).length = 16 := by
  rw [sin6Addr, List.length_take, List.length_drop, hsize]
  rfl

/-- An IPv4 address is shown as it is. -/
theorem stringAt_ipv4Block {name addr : List UInt8} (g : Garbage) (haddr : sinAddr name = addr)
    (hlen : addr.length = 4) : StringAt (ipv4Block g name) 0 (dottedQuad addr) := by
  have hle := length_dottedQuad_le hlen
  have hfits : (dottedQuad addr).length + 1 ≤ (malloc g 32).length := by
    rw [length_malloc]
    omega
  obtain ⟨rest, hrest⟩ := inetNtop_fits hfits
  rw [ipv4Block, haddr, hrest]
  exact stringAt_front (noNul_dottedQuad hlen) rest

/-- The block behind `inet_ntop`. -/
theorem ipv6Block_text {ntop6 : Ntop6} (h : ntop6.Lawful) (g : Garbage) {addr : List UInt8}
    (hlen : addr.length = 16) : ∃ rest, inetNtop (malloc g 128) (ntop6 addr) = ntop6 addr ++ 0 :: rest := by
  have hshort := h.short addr hlen
  exact inetNtop_fits (by rw [length_malloc]; omega)

/-- An IPv4 name is shown as it is. -/
theorem reportName_ipv4 (ntop6 : Ntop6) (unmap : List UInt8 → List UInt8) (g : Garbage) (wantPort : Bool)
    (hsize : e.bytes.length = sizeofIpv4) :
    (reportName ntop6 unmap g true wantPort (some e)).Shows (dottedQuad (sinAddr e.bytes)) := by
  refine ⟨ipv4Block g (memcpy (cells g.stack sizeofIpv6) 0 (e.bytes.take sizeofIpv4)), ?_, ?_⟩
  · rw [reportName]
    simp only [if_pos hsize]
    rfl
  · exact stringAt_ipv4Block g (sinAddr_memcpy hsize).2 (length_sinAddr hsize)

/-- An IPv6 name is shown as `inet_ntop` writes it, unmapped. -/
theorem reportName_ipv6 (ntop6 : Ntop6) (unmap : List UInt8 → List UInt8) (g : Garbage) (wantPort : Bool)
    (hsize : e.bytes.length = sizeofIpv6) :
    (reportName ntop6 unmap g true wantPort (some e)).ip = some (ipv6Block ntop6 unmap g e.bytes) := by
  have hne : e.bytes.length ≠ sizeofIpv4 := by
    rw [hsize]
    decide
  have hcopy : ∀ l : List UInt8, l.length = sizeofIpv6 → memcpy l 0 (e.bytes.take sizeofIpv6) = e.bytes :=
    fun l hl => by
      rw [List.take_of_length_le (Nat.le_of_eq hsize)]
      exact memcpy_all (hsize.trans hl.symm)
  rw [reportName]
  simp only [if_neg hne, if_pos hsize]
  rw [hcopy]
  · rfl
  · rw [length_memcpy, length_cells]
    rw [Nat.zero_add, length_cells, List.length_take, hsize]
    decide

/-- An IPv4 peer is shown as it is. -/
theorem socketAccept_ipv4 (ntop6 : Ntop6) (g : Garbage) (newsock : Int)
    (hsize : e.bytes.length = sizeofIpv4) :
    (socketAccept ntop6 g (some (newsock, e))).Shows (dottedQuad (sinAddr e.bytes)) := by
  refine ⟨ipv4Block g (memcpy (List.replicate sizeofIpv6 0) 0 (e.bytes.take sizeofIpv6)), ?_, ?_⟩
  · rw [socketAccept]
    simp only [Option.map_some, Option.getD_some, if_pos hsize]
  · exact stringAt_ipv4Block g (sinAddr_memcpy hsize).1 (length_sinAddr hsize)

/-- An IPv6 peer is shown as `inet_ntop` writes it, moved to the front. -/
theorem socketAccept_ipv6 (ntop6 : Ntop6) (g : Garbage) (newsock : Int)
    (hsize : e.bytes.length = sizeofIpv6) :
    (socketAccept ntop6 g (some (newsock, e))).ip =
      some (ipv6Block ntop6 (fun ip => memmove ip 0 7 (strlen ip - 6)) g e.bytes) := by
  have hne : e.bytes.length ≠ sizeofIpv4 := by
    rw [hsize]
    decide
  rw [socketAccept]
  simp only [Option.map_some, Option.getD_some, if_neg hne, if_pos hsize]
  rw [List.take_of_length_le (Nat.le_of_eq hsize), memcpy_all (by rw [hsize, List.length_replicate])]

/-- The text of an IPv6 address is left alone when it is not a mapped one. -/
theorem stringAt_ipv6Block {ntop6 : Ntop6} (h : ntop6.Lawful) (unmap : List UInt8 → List UInt8)
    (g : Garbage) (hsize : e.bytes.length = sizeofIpv6) (hmapped : ¬ e.IsMapped) :
    StringAt (ipv6Block ntop6 unmap g e.bytes) 0 (ntop6 (sin6Addr e.bytes)) := by
  have hlen := length_sin6Addr hsize
  obtain ⟨rest, hrest⟩ := ipv6Block_text h g hlen
  rw [ipv6Block, if_neg fun hflag => hmapped ⟨hsize, hflag⟩, hrest]
  exact stringAt_front (h.noNul _ hlen) rest

/-! ### IPv4-mapped addresses -/

/-- The quad of an IPv4-mapped address. -/
def Sockaddr.quad (e : Sockaddr) : List UInt8 := (sin6Addr e.bytes).drop 12

/-- A mapped address has four bytes behind its lead. -/
theorem Sockaddr.IsMapped.length_quad (hmapped : e.IsMapped) : e.quad.length = 4 := by
  rw [Sockaddr.quad, List.length_drop, length_sin6Addr hmapped.1]

/-- The block of a mapped address. -/
theorem ipv6Block_mapped {ntop6 : Ntop6} (h : ntop6.Lawful) (unmap : List UInt8 → List UInt8)
    (g : Garbage) (hmapped : e.IsMapped) :
    ∃ rest, ipv6Block ntop6 unmap g e.bytes = unmap (mappedLead ++ dottedQuad e.quad ++ 0 :: rest) := by
  obtain ⟨rest, hrest⟩ := ipv6Block_text h g (length_sin6Addr hmapped.1)
  have haddr : sin6Addr e.bytes = mappedPrefix ++ e.quad := by
    rw [← of_decide_eq_true hmapped.2, Sockaddr.quad, List.take_append_drop]
  refine ⟨rest, ?_⟩
  rw [ipv6Block, if_pos hmapped.2, hrest, haddr, h.mapped _ hmapped.length_quad]

/-- Of the text before the move, NUL included. -/
theorem noNul_mapped (hmapped : e.IsMapped) : 0 ∉ mappedLead ++ dottedQuad e.quad :=
  List.mem_append.not.2 (not_or.2 ⟨by decide, noNul_dottedQuad hmapped.length_quad⟩)

/-- `socket_accept` reports the quad. -/
theorem socketAccept_mapped {ntop6 : Ntop6} (h : ntop6.Lawful) (g : Garbage) (newsock : Int)
    (hmapped : e.IsMapped) :
    (socketAccept ntop6 g (some (newsock, e))).Shows (dottedQuad e.quad) := by
  obtain ⟨rest, hrest⟩ := ipv6Block_mapped h (fun ip => memmove ip 0 7 (strlen ip - 6)) g hmapped
  refine ⟨_, socketAccept_ipv6 ntop6 g newsock hmapped.1, ?_⟩
  have hmove : strlen (mappedLead ++ dottedQuad e.quad ++ 0 :: rest) - 6 =
      (dottedQuad e.quad).length + 1 := by
    rw [strlen_front (noNul_mapped hmapped), List.length_append, mappedLead]
    simp only [List.length_cons, List.length_nil]
    omega
  obtain ⟨rest', hstrip⟩ := memmove_strip (show mappedLead.length = 7 from rfl) (dottedQuad e.quad) rest
  rw [hrest, hmove, hstrip]
  exact stringAt_front (noNul_dottedQuad hmapped.length_quad) rest'

/-- `socket_get_peer_name` reports the IPv6 text. -/
theorem socketGetPeerName_mapped {ntop6 : Ntop6} (h : ntop6.Lawful) (g : Garbage) (wantPort : Bool)
    (hmapped : e.IsMapped) :
    (socketGetPeerName ntop6 g true wantPort (some e)).Shows (mappedLead ++ dottedQuad e.quad) := by
  obtain ⟨rest, hrest⟩ := ipv6Block_mapped h (fun ip => ip) g hmapped
  refine ⟨_, reportName_ipv6 ntop6 _ g wantPort hmapped.1, ?_⟩
  rw [hrest]
  exact stringAt_front (noNul_mapped hmapped) rest

/-- `socket_get_name` reports the quad with the end of the old text behind it. -/
theorem socketGetName_mapped {ntop6 : Ntop6} (h : ntop6.Lawful) (g : Garbage) (wantPort : Bool)
    (hmapped : e.IsMapped) :
    (socketGetName ntop6 g true wantPort (some e)).Shows
      (dottedQuad e.quad ++ (mappedLead ++ dottedQuad e.quad).drop (dottedQuad e.quad).length) := by
  obtain ⟨rest, hrest⟩ := ipv6Block_mapped h (fun ip => memmove ip 0 7 (strlen ip - 7)) g hmapped
  refine ⟨_, reportName_ipv6 ntop6 _ g wantPort hmapped.1, ?_⟩
  have hmove : strlen (mappedLead ++ dottedQuad e.quad ++ 0 :: rest) - 7 =
      (dottedQuad e.quad).length := by
    rw [strlen_front (noNul_mapped hmapped), List.length_append, mappedLead]
    simp only [List.length_cons, List.length_nil]
    omega
  rw [hrest, hmove, memmove_unterminated rfl]
  refine stringAt_front (List.mem_append.not.2 (not_or.2 ⟨?_, ?_⟩)) rest
  · exact noNul_dottedQuad hmapped.length_quad
  · exact fun hmem => noNul_mapped hmapped (List.mem_of_mem_drop hmem)

/-! ## Agreement -/

/-- Any other address is shown alike by the three. -/
theorem reporters_agree {ntop6 : Ntop6} (h : ntop6.Lawful) (hmapped : ¬ e.IsMapped) (g₁ g₂ g₃ : Garbage)
    (p₁ p₂ : Bool) (newsock : Int) :
    ∃ text, (socketGetName ntop6 g₁ true p₁ (some e)).Shows text ∧
      (socketGetPeerName ntop6 g₂ true p₂ (some e)).Shows text ∧
      (socketAccept ntop6 g₃ (some (newsock, e))).Shows text := by
  rcases e.size with hsize | hsize
  · exact ⟨dottedQuad (sinAddr e.bytes), reportName_ipv4 ntop6 _ g₁ p₁ hsize,
      reportName_ipv4 ntop6 _ g₂ p₂ hsize, socketAccept_ipv4 ntop6 g₃ newsock hsize⟩
  · refine ⟨ntop6 (sin6Addr e.bytes), ⟨_, reportName_ipv6 ntop6 _ g₁ p₁ hsize, ?_⟩,
      ⟨_, reportName_ipv6 ntop6 _ g₂ p₂ hsize, ?_⟩, ⟨_, socketAccept_ipv6 ntop6 g₃ newsock hsize, ?_⟩⟩
    · exact stringAt_ipv6Block h _ g₁ hsize hmapped
    · exact stringAt_ipv6Block h _ g₂ hsize hmapped
    · exact stringAt_ipv6Block h _ g₃ hsize hmapped

/-- **The addresses that are reported alike**, and as the quad of an IPv4-mapped one: all but the
IPv4-mapped ones. -/
theorem reporters_agree_iff {ntop6 : Ntop6} (h : ntop6.Lawful) (e : Sockaddr) (g₁ g₂ g₃ : Garbage)
    (p₁ p₂ : Bool) (newsock : Int) :
    (∃ text, (socketGetName ntop6 g₁ true p₁ (some e)).Shows text ∧
      (socketGetPeerName ntop6 g₂ true p₂ (some e)).Shows text ∧
      (socketAccept ntop6 g₃ (some (newsock, e))).Shows text ∧
      (e.IsMapped → text = dottedQuad e.quad)) ↔ ¬ e.IsMapped := by
  constructor
  · rintro ⟨text, -, hpeer, -, hquad⟩ hmapped
    have htext := hpeer.unique (socketGetPeerName_mapped h g₂ p₂ hmapped)
    have hlength := congrArg List.length (htext.symm.trans (hquad hmapped))
    rw [List.length_append, mappedLead] at hlength
    simp only [List.length_cons, List.length_nil] at hlength
    omega
  · intro hmapped
    obtain ⟨text, hname, hpeer, haccept⟩ := reporters_agree h hmapped g₁ g₂ g₃ p₁ p₂ newsock
    exact ⟨text, hname, hpeer, haccept, fun hm => absurd hm hmapped⟩

end Reports

/-! ## An instance -/

/-- The character `:`. -/
def colon : UInt8 := 58

/-- Two bytes in hexadecimal. -/
def hexGroup (a b : UInt8) : List UInt8 := numeral 16 (256 * a.toNat + b.toNat)

/-- The groups of an address, with a colon in front of each. -/
def hexGroups : List UInt8 → List UInt8
  | a :: b :: rest => colon :: (hexGroup a b ++ hexGroups rest)
  | _ => []

/-- The text of the addresses that are mapped or have no two groups of zero in a row. -/
def groupNtop6 : Ntop6 := fun addr =>
  if isV4Mapped addr then mappedLead ++ dottedQuad (addr.drop 12) else (hexGroups addr).drop 1

/-- The groups of an address have no NUL. -/
theorem noNul_hexGroups : ∀ addr : List UInt8, 0 ∉ hexGroups addr
  | a :: b :: rest => by
      rw [hexGroups]
      refine List.not_mem_cons_of_ne_of_not_mem (by decide) (List.mem_append.not.2 (not_or.2 ⟨?_, ?_⟩))
      · exact noNul_numeral (by decide) (by decide)
      · exact noNul_hexGroups rest
  | [] => List.not_mem_nil
  | [_] => List.not_mem_nil

/-- A group has a colon and at most four digits. -/
theorem length_hexGroups_le : ∀ addr : List UInt8, 2 * (hexGroups addr).length ≤ 5 * addr.length
  | a :: b :: rest => by
      have hgroup : (hexGroup a b).length ≤ 4 := by
        have ha := a.toNat_lt
        have hb := b.toNat_lt
        rw [hexGroup, length_numeral_le_iff (by decide) (by decide)]
        omega
      have hrest := length_hexGroups_le rest
      rw [hexGroups, List.length_cons, List.length_append, List.length_cons, List.length_cons]
      omega
  | [] => Nat.zero_le _
  | [_] => Nat.zero_le _

/-- The simple `inet_ntop` keeps the laws. -/
theorem groupNtop6_lawful : groupNtop6.Lawful where
  noNul addr hlen := by
    rw [groupNtop6]
    split
    · refine List.mem_append.not.2 (not_or.2 ⟨by decide, noNul_dottedQuad ?_⟩)
      rw [List.length_drop, hlen]
    · exact fun h => noNul_hexGroups addr (List.mem_of_mem_drop h)
  short addr hlen := by
    rw [groupNtop6]
    split
    · have hfour : (addr.drop 12).length = 4 := by rw [List.length_drop, hlen]
      have hquad := length_dottedQuad_le hfour
      rw [List.length_append, mappedLead]
      simp only [List.length_cons, List.length_nil]
      omega
    · have hle := length_hexGroups_le addr
      rw [List.length_drop]
      omega
  mapped quad hlen := by
    have hmapped : isV4Mapped (mappedPrefix ++ quad) = true :=
      decide_eq_true (List.take_left' rfl)
    have hdrop : (mappedPrefix ++ quad).drop 12 = quad := List.drop_left' rfl
    rw [groupNtop6, if_pos hmapped, hdrop]

/-- Memory that is filled with `U`. -/
def filled : Garbage := ⟨fun _ => 85, fun _ => 85⟩

/-- `2001:db8:1:2:3:4:5:6`, port 6667. -/
def plainEndpoint : Sockaddr :=
  ⟨[10, 0, 26, 11, 0, 0, 0, 0, 32, 1, 13, 184, 0, 1, 0, 2, 0, 3, 0, 4, 0, 5, 0, 6, 0, 0, 0, 0], .inr rfl⟩

/-- `::ffff:1.2.3.4`, port 6667. -/
def mappedEndpoint : Sockaddr :=
  ⟨[10, 0, 26, 11, 0, 0, 0, 0, 0, 0, 0, 0, 0, 0, 0, 0, 0, 0, 255, 255, 1, 2, 3, 4, 0, 0, 0, 0], .inr rfl⟩

/-- `1.2.3.4`. -/
def quadText : List UInt8 := [49, 46, 50, 46, 51, 46, 52]

/-- An address that is not mapped. -/
theorem reporters_agree_plain :
    (∃ text, (socketGetName groupNtop6 filled true true (some plainEndpoint)).Shows text ∧
      (socketGetPeerName groupNtop6 filled true true (some plainEndpoint)).Shows text ∧
      (socketAccept groupNtop6 filled (some (5, plainEndpoint))).Shows text ∧
      (plainEndpoint.IsMapped → text = dottedQuad plainEndpoint.quad)) ↔ ¬ plainEndpoint.IsMapped :=
  reporters_agree_iff groupNtop6_lawful plainEndpoint filled filled filled true true 5

/-- `1.2.3.41.2.3.4`, `::ffff:1.2.3.4` and `1.2.3.4`. -/
theorem mapped_reported_thrice :
    mappedEndpoint.IsMapped ∧ dottedQuad mappedEndpoint.quad = quadText ∧
      (socketGetName groupNtop6 filled true true (some mappedEndpoint)).Shows (quadText ++ quadText) ∧
      (socketGetPeerName groupNtop6 filled true true (some mappedEndpoint)).Shows
        (mappedLead ++ quadText) ∧
      (socketAccept groupNtop6 filled (some (5, mappedEndpoint))).Shows quadText := by
  have hmapped : mappedEndpoint.IsMapped := ⟨rfl, by decide⟩
  have hquad : dottedQuad mappedEndpoint.quad = quadText := by decide
  have hname := socketGetName_mapped groupNtop6_lawful filled true hmapped
  have hpeer := socketGetPeerName_mapped groupNtop6_lawful filled true hmapped
  have haccept := socketAccept_mapped groupNtop6_lawful filled 5 hmapped
  rw [hquad] at hname hpeer haccept
  exact ⟨hmapped, hquad, hname, hpeer, haccept⟩

end ExamplePrograms.Onethread.Socket
