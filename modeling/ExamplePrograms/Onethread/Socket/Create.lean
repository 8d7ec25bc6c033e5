import Mathlib.Tactic.Common

/-!
# Opening a socket

`socket_create` of `socket.c` with the system calls that it makes, in their order. A missing address is
taken from the passive ones: `::` in the first attempt to open a socket and `0.0.0.0` in the second. The
family of the socket is that of the destination for a client and that of the source for a server.

`inet_pton` is a parameter; `Pton.Lawful` is what it makes of the passive addresses. What the system calls
answer is an argument. `families_agree_iff` says when the addresses given to `bind` and `connect` are of
the family of the socket.
-/

set_option autoImplicit false

namespace ExamplePrograms.Onethread.Socket

/-- An address family. -/
inductive Family where
  | inet
  | inet6
  deriving DecidableEq, Repr

/-- `inet_pton` for either family: the bytes of the address, if the string is one. -/
structure Pton where
  inet : List UInt8 → Option (List UInt8)
  inet6 : List UInt8 → Option (List UInt8)

/-- `::`. -/
def passive6 : List UInt8 := [58, 58]

/-- `0.0.0.0`. -/
def passive4 : List UInt8 := [48, 46, 48, 46, 48, 46, 48]

/-- The passive addresses are read as what they are. -/
structure Pton.Lawful (pton : Pton) : Prop where
  inet_passive6 : pton.inet passive6 = none
  inet6_passive6 : pton.inet6 passive6 = some (List.replicate 16 0)
  inet_passive4 : pton.inet passive4 = some (List.replicate 4 0)

/-- `sockname_t`: `family` is the member of that name and `saFamily` the one of the union. -/
structure SockName where
  len : Nat
  family : Family
  saFamily : Family
  port : UInt16
  addr : List UInt8
  deriving DecidableEq, Repr

/-- `htons(port)`. -/
def htons (port : Int) : UInt16 := UInt16.ofInt port

/-- `socket_name`. -/
def socketName (pton : Pton) (ipaddr : List UInt8) (port : Int) : SockName :=
  match pton.inet ipaddr with
  | some addr => ⟨16, .inet, .inet, htons port, addr⟩
  | none =>
      match pton.inet6 ipaddr with
      | some addr => ⟨28, .inet6, .inet6, htons port, addr⟩
      -- an invalid name is passive
      | none => ⟨16, .inet, .inet, htons port, List.replicate 4 0⟩

/-! ## Flags -/

/-- The flags of `socket_create`. -/
abbrev Flags := BitVec 32

/-- The socket connects. -/
def SOCKET_CLIENT : Flags := 1

/-- The socket listens. -/
def SOCKET_SERVER : Flags := 2

/-- The socket is bound. -/
def SOCKET_BIND : Flags := 4

/-- The socket is set nonblocking. -/
def SOCKET_NONBLOCK : Flags := 8

/-- The socket is one for datagrams. -/
def SOCKET_UDP : Flags := 32

/-- `flags & bits`. -/
def has (flags bits : Flags) : Bool := flags &&& bits != 0

/-! ## System calls -/

/-- The calls of `socket_create`; that of `socket` with its result. -/
inductive Call where
  | socket (family : Family) (udp : Bool) (result : Int)
  | setNonblock
  | setsockopt
  | bind (name : SockName)
  | listen
  | connect (name : SockName)
  | close
  deriving DecidableEq, Repr

/-- The answer to `connect`. -/
inductive Connected where
  | done
  | inProgress
  | failed
  deriving DecidableEq, Repr

/-- What the system calls answer: the two attempts to open a socket, `bind` and `connect`. -/
structure Answers where
  first : Int
  second : Int
  bound : Bool
  connected : Connected

/-- The arguments of `socket_create`. -/
structure Args where
  destIp : Option (List UInt8)
  destPort : Int
  srcIp : Option (List UInt8)
  srcPort : Int
  flags : Flags

/-- The result of `socket_create`, and the calls that it made. -/
structure Result where
  ret : Int
  calls : List Call
  deriving DecidableEq, Repr

/-- The loop's variables when a socket is open. -/
structure Opened where
  sock : Int
  flags : Flags
  dest : SockName
  src : SockName
  calls : List Call

/-- How the first part ends. -/
inductive Opening where
  /-- Neither a client nor a server. -/
  | unavailable (calls : List Call)
  | failed (calls : List Call)
  | opened (o : Opened)

/-- `if (src_ip || src_port) flags |= SOCKET_BIND`. -/
def Args.bindFlags (a : Args) (flags : Flags) : Flags :=
  if a.srcIp.isSome || a.srcPort != 0 then flags ||| SOCKET_BIND else flags

/-- The family of the socket, for a client or a server. -/
def pfamily (flags : Flags) (dest src : SockName) : Option Family :=
  if has flags SOCKET_CLIENT then some dest.family
  else if has flags SOCKET_SERVER then some src.family
  else none

/-- The name of the other side. -/
def Args.dest (a : Args) (pton : Pton) (passive : List UInt8) : SockName :=
  socketName pton (a.destIp.getD passive) a.destPort

/-- The name of this side. -/
def Args.src (a : Args) (pton : Pton) (passive : List UInt8) : SockName :=
  socketName pton (a.srcIp.getD passive) a.srcPort

/-- The attempts, each with its passive address and what `socket` answers. -/
def openSocket (pton : Pton) (a : Args) :
    List (List UInt8 × Int) → Flags → List Call → Opening
  | [], _, calls => .failed calls
  | (passive, sock) :: rest, flags, calls =>
      let dest := a.dest pton passive
      let src := a.src pton passive
      let flags := a.bindFlags flags
      match pfamily flags dest src with
      | none => .unavailable calls
      | some family =>
          let calls := calls ++ [.socket family (has flags SOCKET_UDP) sock]
          if 0 ≤ sock then .opened ⟨sock, flags, dest, src, calls⟩
          else openSocket pton a rest flags calls

/-- `connect`, for a client. -/
def connectPhase (k : Answers) (o : Opened) (calls : List Call) : Result :=
  if has o.flags SOCKET_CLIENT then
    let calls := calls ++ [.connect o.dest]
    if k.connected = .failed then ⟨-4, calls ++ [.close]⟩ else ⟨o.sock, calls⟩
  else ⟨o.sock, calls⟩

/-- `bind` if necessary, and what follows it. -/
def bindPhase (k : Answers) (o : Opened) (calls : List Call) : Result :=
  if has o.flags (SOCKET_SERVER ||| SOCKET_BIND) then
    let calls := calls ++ [.setsockopt, .bind o.src]
    if k.bound then
      connectPhase k o (if has o.flags SOCKET_SERVER then calls ++ [.listen] else calls)
    else ⟨-3, calls ++ [.close]⟩
  else connectPhase k o calls

/-- `socket_create`. -/
def socketCreate (pton : Pton) (a : Args) (k : Answers) : Result :=
  match openSocket pton a [(passive6, k.first), (passive4, k.second)] a.flags [] with
  | .unavailable calls => ⟨-1, calls⟩
  | .failed calls => ⟨-2, calls⟩
  | .opened o =>
      bindPhase k o (if has o.flags SOCKET_NONBLOCK then o.calls ++ [.setNonblock] else o.calls)

/-! ## Families -/

/-- A socket of this family was created. -/
def Created (calls : List Call) (family : Family) : Prop :=
  ∃ udp sock, .socket family udp sock ∈ calls ∧ 0 ≤ sock

/-- `bind` is given an address of the socket's family when there is no source address, and `connect` when
the destination is valid. -/
structure FamiliesAgree (pton : Pton) (a : Args) (calls : List Call) : Prop where
  bind : a.srcIp = none → ∀ name family, .bind name ∈ calls → Created calls family →
    name.saFamily = family
  connect : ∀ ip, a.destIp = some ip → ((pton.inet ip).isSome ∨ (pton.inet6 ip).isSome) →
    ∀ name family, .connect name ∈ calls → Created calls family → name.saFamily = family

/-- The family of the passive address in the attempt that opens a socket. -/
def Answers.passiveFamily (k : Answers) : Option Family :=
  if 0 ≤ k.first then some .inet6 else if 0 ≤ k.second then some .inet else none

/-- A client without a source address that binds, to a destination of the other family. -/
structure BindsOther (pton : Pton) (a : Args) (k : Answers) : Prop where
  noSource : a.srcIp = none
  client : has a.flags SOCKET_CLIENT = true
  binds : has a.flags (SOCKET_SERVER ||| SOCKET_BIND) = true ∨ a.srcPort ≠ 0
  dest : ∃ ip family, a.destIp = some ip ∧ k.passiveFamily = some family ∧
    (socketName pton ip a.destPort).family ≠ family

/-! ## Names and flags -/

/-- A name has the family of its address. -/
theorem socketName_saFamily (pton : Pton) (ipaddr : List UInt8) (port : Int) :
    (socketName pton ipaddr port).saFamily = (socketName pton ipaddr port).family := by
  rw [socketName]
  split
  · rfl
  split <;> rfl

section Passive

variable {pton : Pton} (h : pton.Lawful) (port : Int)

include h

/-- The wildcard `::` is an address of IPv6. -/
theorem Pton.Lawful.family_passive6 : (socketName pton passive6 port).family = .inet6 := by
  rw [socketName, h.inet_passive6]
  dsimp only
  rw [h.inet6_passive6]

/-- The wildcard `0.0.0.0` is an address of IPv4. -/
theorem Pton.Lawful.family_passive4 : (socketName pton passive4 port).family = .inet := by
  rw [socketName, h.inet_passive4]

end Passive

/-- Setting `SOCKET_BIND` sets no other bit. -/
theorem has_bindFlags (a : Args) (flags : Flags) {bits : Flags} (hbits : SOCKET_BIND &&& bits = 0#32) :
    has (a.bindFlags flags) bits = has flags bits := by
  rw [Args.bindFlags]
  split
  · rw [has, has, BitVec.and_or_distrib_right, hbits, BitVec.or_zero]
  · rfl

/-- The socket is bound when the flags say so or a source is given. -/
theorem has_server_bindFlags (a : Args) (flags : Flags) :
    has (a.bindFlags flags) (SOCKET_SERVER ||| SOCKET_BIND) = true ↔
      has flags (SOCKET_SERVER ||| SOCKET_BIND) = true ∨ a.srcIp.isSome ∨ a.srcPort ≠ 0 := by
  rw [Args.bindFlags]
  split
  · next h =>
    have hport : a.srcIp.isSome = true ∨ a.srcPort ≠ 0 := by simpa using h
    refine iff_of_true ?_ (.inr hport)
    rw [has, BitVec.and_or_distrib_right, bne_iff_ne]
    intro hzero
    exact absurd (BitVec.or_eq_zero_iff.1 hzero).2 (by decide)
  · next h =>
    have hport : ¬ (a.srcIp.isSome = true ∨ a.srcPort ≠ 0) := by simpa using h
    exact ⟨.inl, fun hor => hor.resolve_right hport⟩

/-- The flags are complete after one step. -/
theorem bindFlags_bindFlags (a : Args) (flags : Flags) :
    a.bindFlags (a.bindFlags flags) = a.bindFlags flags := by
  rw [Args.bindFlags, Args.bindFlags]
  split
  · rw [BitVec.or_assoc, BitVec.or_self]
  · rfl

/-! ## The calls -/

/-- Only failed attempts to open a socket. -/
def Unopened (calls : List Call) : Prop :=
  ∀ c ∈ calls, ∃ family udp sock, c = .socket family udp sock ∧ sock < 0

/-- How the loop is left with an open socket. -/
structure OpenedAs (pton : Pton) (a : Args) (flags : Flags) (passive : List UInt8) (o : Opened) :
    Prop where
  flags : o.flags = a.bindFlags flags
  dest : o.dest = a.dest pton passive
  src : o.src = a.src pton passive
  calls : ∃ before family udp, o.calls = before ++ [.socket family udp o.sock] ∧ Unopened before ∧
    0 ≤ o.sock ∧ pfamily o.flags o.dest o.src = some family

section Calls

variable {pton : Pton} {a : Args} {tries : List (List UInt8 × Int)} {flags : Flags}
  {calls : List Call}

/-- A client takes the family of its destination. -/
theorem pfamily_client {dest src : SockName} (h : has flags SOCKET_CLIENT = true) :
    pfamily flags dest src = some dest.family := if_pos h

/-- The attempts end with the first one that succeeds, or with none. -/
theorem openSocket_cases (pton : Pton) (a : Args) (tries : List (List UInt8 × Int)) (flags : Flags)
    (hcalls : Unopened calls) :
    (∃ passive sock o, tries.find? (fun t => 0 ≤ t.2) = some (passive, sock) ∧
      openSocket pton a tries flags calls = .opened o ∧ OpenedAs pton a flags passive o) ∨
    ((has flags SOCKET_CLIENT = true → tries.find? (fun t => 0 ≤ t.2) = none) ∧
      ∃ calls', Unopened calls' ∧
        (openSocket pton a tries flags calls = .failed calls' ∨
          openSocket pton a tries flags calls = .unavailable calls')) := by
  induction tries generalizing flags calls with
  | nil => exact .inr ⟨fun _ => rfl, calls, hcalls, .inl rfl⟩
  | cons t rest ih =>
    obtain ⟨passive, sock⟩ := t
    have hclient : has (a.bindFlags flags) SOCKET_CLIENT = has flags SOCKET_CLIENT :=
      has_bindFlags a flags (by decide)
    rw [openSocket]
    dsimp only
    cases hfamily : pfamily (a.bindFlags flags) (a.dest pton passive) (a.src pton passive) with
    | none =>
      refine .inr ⟨fun h => ?_, calls, hcalls, .inr rfl⟩
      rw [pfamily_client (hclient.trans h)] at hfamily
      cases hfamily
    | some family =>
      dsimp only
      by_cases hsock : 0 ≤ sock
      · have hfind : ((passive, sock) :: rest).find? (fun t => 0 ≤ t.2) = some (passive, sock) :=
          List.find?_cons_of_pos (decide_eq_true hsock)
        rw [if_pos hsock, hfind]
        exact .inl ⟨passive, sock, _, rfl, rfl, rfl, rfl, rfl, calls, family, _, rfl, hcalls, hsock, hfamily⟩
      · -- the next attempt
        have hfind : ((passive, sock) :: rest).find? (fun t => 0 ≤ t.2) =
            rest.find? (fun t => 0 ≤ t.2) := List.find?_cons_of_neg (by simpa using hsock)
        rw [if_neg hsock, hfind, ← hclient]
        have hmore : Unopened
            (calls ++ [.socket family (has (a.bindFlags flags) SOCKET_UDP) sock]) := fun c hc => by
          rcases List.mem_append.1 hc with hc | hc
          · exact hcalls c hc
          · exact ⟨_, _, _, List.mem_singleton.1 hc, by omega⟩
        rcases ih (a.bindFlags flags) hmore with ⟨passive', sock', o, hfind', ho, hopened⟩ | hnone
        · refine .inl ⟨passive', sock', o, hfind', ho, ?_, hopened.dest, hopened.src, hopened.calls⟩
          rw [hopened.flags, bindFlags_bindFlags]
        · exact .inr hnone

/-- `connect` is called for a client, with the destination. -/
theorem connectPhase_calls (k : Answers) (o : Opened) (calls : List Call) :
    ∃ tail, (connectPhase k o calls).calls = calls ++ tail ∧
      (∀ family udp sock, .socket family udp sock ∉ tail) ∧ (∀ name, .bind name ∉ tail) ∧
      ∀ name, .connect name ∈ tail → has o.flags SOCKET_CLIENT = true ∧ name = o.dest := by
  rw [connectPhase]
  split
  · next hclient =>
    dsimp only
    split
    · exact ⟨[.connect o.dest, .close], by simp, by simp, by simp, by simp [hclient]⟩
    · exact ⟨[.connect o.dest], rfl, by simp, by simp, by simp [hclient]⟩
  · exact ⟨[], (List.append_nil calls).symm, by simp, by simp, by simp⟩

/-- `bind` is called with the source. -/
theorem bindPhase_calls (k : Answers) (o : Opened) (calls : List Call) :
    ∃ tail, (bindPhase k o calls).calls = calls ++ tail ∧
      (∀ family udp sock, .socket family udp sock ∉ tail) ∧
      (∀ name, .bind name ∈ tail ↔
        has o.flags (SOCKET_SERVER ||| SOCKET_BIND) = true ∧ name = o.src) ∧
      ∀ name, .connect name ∈ tail → has o.flags SOCKET_CLIENT = true ∧ name = o.dest := by
  rw [bindPhase]
  split
  · next hbinds =>
    dsimp only
    split
    · obtain ⟨tail, htail, hsocket, hbind, hconnect⟩ := connectPhase_calls k o
        (if has o.flags SOCKET_SERVER then calls ++ [.setsockopt, .bind o.src] ++ [.listen]
          else calls ++ [.setsockopt, .bind o.src])
      rw [htail]
      split
      · exact ⟨[.setsockopt, .bind o.src, .listen] ++ tail, by simp, by simp [hsocket],
          by simp [hbinds, hbind], by simpa using hconnect⟩
      · exact ⟨[.setsockopt, .bind o.src] ++ tail, by simp, by simp [hsocket],
          by simp [hbinds, hbind], by simpa using hconnect⟩
    · exact ⟨[.setsockopt, .bind o.src, .close], by simp, by simp, by simp [hbinds], by simp⟩
  · next hbinds =>
    obtain ⟨tail, htail, hsocket, hbind, hconnect⟩ := connectPhase_calls k o calls
    exact ⟨tail, htail, hsocket, by simp [hbinds, hbind], hconnect⟩

/-- Calls that opened nothing created nothing. -/
theorem Unopened.created (h : Unopened calls) (family : Family) : ¬ Created calls family := by
  rintro ⟨udp, sock, hmem, hsock⟩
  obtain ⟨family', udp', sock', heq, hneg⟩ := h _ hmem
  cases heq
  omega

/-- Calls that opened nothing agree with every family. -/
theorem Unopened.families_agree (h : Unopened calls) : FamiliesAgree pton a calls :=
  ⟨fun _ _ family _ hcreated => absurd hcreated (h.created family),
    fun _ _ _ _ family _ hcreated => absurd hcreated (h.created family)⟩

/-- The calls behind an open socket. -/
theorem OpenedAs.created {passive : List UInt8} {o : Opened} (h : OpenedAs pton a flags passive o)
    {tail : List Call} (htail : ∀ family udp sock, .socket family udp sock ∉ tail) (family : Family) :
    Created (o.calls ++ tail) family ↔ pfamily o.flags o.dest o.src = some family := by
  obtain ⟨before, family', udp, hcalls, hbefore, hsock, hfamily⟩ := h.calls
  rw [hcalls, hfamily, Option.some_inj]
  constructor
  · rintro ⟨udp', sock', hmem, hsock'⟩
    rcases List.mem_append.1 hmem with hmem | hmem
    · rcases List.mem_append.1 hmem with hmem | hmem
      · exact absurd ⟨udp', sock', hmem, hsock'⟩ (hbefore.created family)
      · cases List.mem_singleton.1 hmem
        rfl
    · exact absurd hmem (htail _ _ _)
  · rintro rfl
    exact ⟨udp, o.sock, by simp, hsock⟩

/-- What is called behind the attempts to open a socket. -/
theorem opened_calls (k : Answers) (o : Opened) :
    ∃ tail, (bindPhase k o
        (if has o.flags SOCKET_NONBLOCK then o.calls ++ [.setNonblock] else o.calls)).calls =
          o.calls ++ tail ∧
      (∀ family udp sock, .socket family udp sock ∉ tail) ∧
      (∀ name, .bind name ∈ tail ↔
        has o.flags (SOCKET_SERVER ||| SOCKET_BIND) = true ∧ name = o.src) ∧
      ∀ name, .connect name ∈ tail → has o.flags SOCKET_CLIENT = true ∧ name = o.dest := by
  split
  · obtain ⟨tail, htail, hsocket, hbind, hconnect⟩ := bindPhase_calls k o (o.calls ++ [.setNonblock])
    exact ⟨.setNonblock :: tail, by simp [htail], by simp [hsocket], by simp [hbind],
      by simpa using hconnect⟩
  · exact bindPhase_calls k o o.calls

/-- Neither name is in a call before a socket is open. -/
theorem OpenedAs.notMem {passive : List UInt8} {o : Opened} (h : OpenedAs pton a flags passive o)
    {c : Call} (hc : ∀ family udp sock, c ≠ .socket family udp sock) : c ∉ o.calls := by
  obtain ⟨before, family, udp, hcalls, hbefore, -, -⟩ := h.calls
  rw [hcalls]
  intro hmem
  rcases List.mem_append.1 hmem with hmem | hmem
  · obtain ⟨family', udp', sock', heq, -⟩ := hbefore c hmem
    exact hc family' udp' sock' heq
  · exact hc family udp o.sock (List.mem_singleton.1 hmem)

/-- The calls of `socket_create` that take a family or a name. -/
theorem OpenedAs.calls_spec {passive : List UInt8} {o : Opened} (h : OpenedAs pton a flags passive o)
    (k : Answers) :
    let calls := (bindPhase k o
      (if has o.flags SOCKET_NONBLOCK then o.calls ++ [.setNonblock] else o.calls)).calls
    (∀ family, Created calls family ↔ pfamily o.flags o.dest o.src = some family) ∧
      (∀ name, .bind name ∈ calls ↔
        has o.flags (SOCKET_SERVER ||| SOCKET_BIND) = true ∧ name = o.src) ∧
      ∀ name, .connect name ∈ calls → has o.flags SOCKET_CLIENT = true ∧ name = o.dest := by
  obtain ⟨tail, htail, hsocket, hbind, hconnect⟩ := opened_calls k o
  intro calls
  rw [show calls = o.calls ++ tail from htail]
  refine ⟨h.created hsocket, fun name => ?_, fun name hmem => ?_⟩
  · rw [List.mem_append, hbind]
    exact or_iff_right (h.notMem fun _ _ _ heq => by cases heq)
  · exact hconnect name ((List.mem_append.1 hmem).resolve_left
      (h.notMem fun _ _ _ heq => by cases heq))

end Calls

/-! ## The families -/

section Families

variable {pton : Pton} (h : pton.Lawful) (a : Args) (k : Answers)

include h

/-- The attempt that opens a socket, and the family of its passive address. -/
theorem passiveFamily_cases :
    ([(passive6, k.first), (passive4, k.second)].find? (fun t => 0 ≤ t.2) = none ∧
        k.passiveFamily = none) ∨
      ∃ passive sock family,
        [(passive6, k.first), (passive4, k.second)].find? (fun t => 0 ≤ t.2) = some (passive, sock) ∧
          k.passiveFamily = some family ∧ ∀ port, (socketName pton passive port).family = family := by
  rw [Answers.passiveFamily]
  by_cases hfirst : 0 ≤ k.first
  · exact .inr ⟨passive6, k.first, .inet6, by simp [hfirst], by simp [hfirst], h.family_passive6⟩
  · by_cases hsecond : 0 ≤ k.second
    · exact .inr ⟨passive4, k.second, .inet, by simp [hfirst, hsecond], by simp [hfirst, hsecond],
        h.family_passive4⟩
    · exact .inl ⟨by simp [hfirst, hsecond], by simp [hfirst, hsecond]⟩

omit h in
/-- **The families agree** exactly when no address of the other family is bound. -/
theorem OpenedAs.agree_iff {a : Args} {passive : List UInt8} {o : Opened} {family : Family}
    (hopened : OpenedAs pton a a.flags passive o) (k : Answers) (hfamily : k.passiveFamily = some family)
    (hpassive : ∀ port, (socketName pton passive port).family = family) :
    FamiliesAgree pton a (bindPhase k o
      (if has o.flags SOCKET_NONBLOCK then o.calls ++ [.setNonblock] else o.calls)).calls ↔
        ¬ BindsOther pton a k := by
  obtain ⟨hcreated, hbind, hconnect⟩ := hopened.calls_spec k
  have hclient : has o.flags SOCKET_CLIENT = has a.flags SOCKET_CLIENT := by
    rw [hopened.flags]
    exact has_bindFlags a a.flags (by decide)
  have hbinds := has_server_bindFlags a a.flags
  rw [← hopened.flags] at hbinds
  have hsrc : a.srcIp = none → o.src.saFamily = family ∧ o.src.family = family := fun hnone => by
    rw [hopened.src, Args.src, hnone, socketName_saFamily]
    exact ⟨hpassive _, hpassive _⟩
  constructor
  · -- the passive source and the destination are of different families
    intro hagree hother
    obtain ⟨ip, family', hip, hfamily', hne⟩ := hother.dest
    rw [hfamily] at hfamily'
    cases hfamily'
    have hdest : o.dest = socketName pton ip a.destPort := by
      rw [hopened.dest, Args.dest, hip, Option.getD_some]
    have hmem := (hbind o.src).2 ⟨hbinds.2 (hother.binds.imp_right .inr), rfl⟩
    have hdomain := (hcreated o.dest.family).2 (if_pos (hclient.trans hother.client))
    have hsame := hagree.bind hother.noSource o.src o.dest.family hmem hdomain
    rw [(hsrc hother.noSource).1, hdest] at hsame
    exact hne hsame.symm
  · intro hother
    refine ⟨fun hnone name domain hmem hdomain => ?_, fun ip _ _ name domain hmem hdomain => ?_⟩
    · obtain ⟨hserver, rfl⟩ := (hbind name).1 hmem
      have hpf := (hcreated domain).1 hdomain
      rw [(hsrc hnone).1]
      by_cases hc : has o.flags SOCKET_CLIENT = true
      · rw [pfamily_client hc, Option.some_inj] at hpf
        subst hpf
        cases hip : a.destIp with
        | none =>
          -- both names are the passive one
          rw [hopened.dest, Args.dest, hip, Option.getD_none]
          exact (hpassive a.destPort).symm
        | some ip =>
          by_contra hne
          have hport := hbinds.1 hserver
          rw [hnone] at hport
          refine hother ⟨hnone, hclient ▸ hc, hport.imp_right fun h => h.resolve_left (by simp),
            ip, family, hip, hfamily, fun heq => hne ?_⟩
          rw [hopened.dest, Args.dest, hip, Option.getD_some, heq]
      · -- a server's socket has the family of the source
        rw [pfamily, if_neg hc] at hpf
        split at hpf
        · rw [← Option.some.inj hpf, (hsrc hnone).2]
        · cases hpf
    · obtain ⟨hc, rfl⟩ := hconnect name hmem
      have hpf := (hcreated domain).1 hdomain
      rw [pfamily_client hc, Option.some_inj] at hpf
      rw [hopened.dest, Args.dest, socketName_saFamily, ← hpf, hopened.dest, Args.dest]

/-- **When the families agree.** They do not exactly for a client that binds without a source address and
whose destination is not of the family of the passive address. -/
theorem families_agree_iff :
    FamiliesAgree pton a (socketCreate pton a k).calls ↔ ¬ BindsOther pton a k := by
  have hunopened : Unopened [] := fun c hc => absurd hc List.not_mem_nil
  rw [socketCreate]
  rcases openSocket_cases pton a [(passive6, k.first), (passive4, k.second)] a.flags hunopened with
    ⟨passive, sock, o, hfind, ho, hopened⟩ | ⟨hnone, calls, hcalls, hends⟩
  · rw [ho]
    rcases passiveFamily_cases h k with ⟨hfind', -⟩ | ⟨passive', sock', family, hfind', hfamily, hpassive⟩
    · rw [hfind'] at hfind
      cases hfind
    · rw [hfind'] at hfind
      cases hfind
      exact hopened.agree_iff k hfamily hpassive
  · -- no socket, so nothing is bound
    have hagree : FamiliesAgree pton a calls := hcalls.families_agree
    have hother : ¬ BindsOther pton a k := fun hbinds => by
      obtain ⟨ip, family, -, hfamily, -⟩ := hbinds.dest
      rcases passiveFamily_cases h k with ⟨-, hpassive⟩ | ⟨_, _, _, hfind, -, -⟩
      · rw [hpassive] at hfamily
        cases hfamily
      · rw [hnone hbinds.client] at hfind
        cases hfind
    rcases hends with hends | hends
    · rw [hends]
      exact iff_of_true hagree hother
    · rw [hends]
      exact iff_of_true hagree hother

end Families

/-! ## An instance -/

/-- `1.2.3.4`. -/
def quadIp : List UInt8 := [49, 46, 50, 46, 51, 46, 52]

/-- The addresses above, and no others. -/
def tablePton : Pton where
  inet s := if s = passive4 then some [0, 0, 0, 0] else if s = quadIp then some [1, 2, 3, 4] else none
  inet6 s := if s = passive6 then some (List.replicate 16 0) else none

/-- The table keeps the laws. -/
theorem tablePton_lawful : tablePton.Lawful := ⟨rfl, rfl, rfl⟩

/-- A client that binds, without a source address. -/
def bindingClient : Args := ⟨some quadIp, 6667, none, 0, SOCKET_CLIENT ||| SOCKET_BIND⟩

/-- The first attempt succeeds. -/
def firstOpens : Answers := ⟨5, 6, true, .done⟩

/-- A client without a source that is bound. -/
theorem families_agree_client :
    FamiliesAgree tablePton bindingClient (socketCreate tablePton bindingClient firstOpens).calls ↔
      ¬ BindsOther tablePton bindingClient firstOpens :=
  families_agree_iff tablePton_lawful bindingClient firstOpens

/-- A socket for IPv4 is bound to `::`. -/
theorem client_binds_other_family :
    bindingClient.srcIp = none ∧ ∃ name,
      .bind name ∈ (socketCreate tablePton bindingClient firstOpens).calls ∧
        Created (socketCreate tablePton bindingClient firstOpens).calls .inet ∧
          name.saFamily = .inet6 := by
  refine ⟨rfl, socketName tablePton passive6 0, by decide, ⟨false, 5, by decide, by decide⟩, by decide⟩

end ExamplePrograms.Onethread.Socket
