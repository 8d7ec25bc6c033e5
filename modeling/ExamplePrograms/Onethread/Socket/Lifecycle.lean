import ExamplePrograms.Lib.Descriptor
import ExamplePrograms.Onethread.Socket.Create

/-!
# Sockets are returned or closed

The system calls of `socket_create` as acts of the automaton of `Lib.Descriptor`. Whatever the arguments are
and whatever the calls answer, the calls come in order, and the socket that was opened is the result or has
been closed.
-/

set_option autoImplicit false

namespace ExamplePrograms.Onethread.Socket

open ExamplePrograms.Lib.Descriptor

/-- What a call does with the descriptor. -/
def Call.act : Call → Act
  | .socket _ _ result => .opens result
  | .setNonblock => .configures
  | .setsockopt => .configures
  | .bind _ => .binds
  | .listen => .listens
  | .connect _ => .connects
  | .close => .closes

/-- The phase that the calls reach. -/
def reached (calls : List Call) : Option Phase := follow .idle (calls.map Call.act)

/-- The phase behind further calls. -/
theorem reached_append {calls more : List Call} {p : Phase} (h : reached calls = some p) :
    reached (calls ++ more) = follow p (more.map Call.act) := by
  rw [reached, List.map_append, follow_then h]

section Create

variable {pton : Pton} {a : Args} {k : Answers} {o : Opened} {calls : List Call} {p : Phase}

/-- Nothing is opened yet. -/
theorem Unopened.reached (h : Unopened calls) : reached calls = some .idle := by
  refine follow_failed fun act hact => ?_
  obtain ⟨c, hc, rfl⟩ := List.mem_map.1 hact
  obtain ⟨family, udp, sock, rfl, hneg⟩ := h c hc
  exact ⟨sock, hneg, rfl⟩

/-- The end of `socket_create`, in a phase in which `connect` may be called. -/
theorem connectPhase_reached {fd : Int} (hp : p.next .connects = some (.connecting fd))
    (hsock : o.sock = fd) (h : reached calls = some p) :
    (has o.flags SOCKET_CLIENT = true ∧ k.connected = .failed ∧ (connectPhase k o calls).ret = -4 ∧
        reached (connectPhase k o calls).calls = some .closed) ∨
      ((has o.flags SOCKET_CLIENT = true → k.connected ≠ .failed) ∧
        (connectPhase k o calls).ret = fd ∧ reached (connectPhase k o calls).calls =
          some (if has o.flags SOCKET_CLIENT then .connecting fd else p)) := by
  rw [connectPhase]
  by_cases hclient : has o.flags SOCKET_CLIENT = true
  · rw [if_pos hclient, if_pos hclient]
    dsimp only
    have hconnect : reached (calls ++ [.connect o.dest]) = some (.connecting fd) := by
      rw [reached_append h, List.map_singleton, follow_cons, Call.act, hp]
      rfl
    by_cases hfailed : k.connected = .failed
    · rw [if_pos hfailed]
      refine Or.inl ⟨hclient, hfailed, rfl, ?_⟩
      rw [reached_append hconnect]
      rfl
    · rw [if_neg hfailed]
      exact Or.inr ⟨fun _ => hfailed, hsock, hconnect⟩
  · rw [if_neg hclient, if_neg hclient]
    exact Or.inr ⟨fun hc => absurd hc hclient, hsock, h⟩

/-- The phase of an open socket that is a server, has an address, or neither. -/
def Opened.phase (o : Opened) : Phase :=
  if has o.flags (SOCKET_SERVER ||| SOCKET_BIND) then
    if has o.flags SOCKET_SERVER then .listening o.sock else .bound o.sock
  else .opened o.sock

/-- What the last part of `socket_create` reaches, by the answers to its calls. -/
theorem bindPhase_reached (h : reached calls = some (.opened o.sock)) :
    (has o.flags (SOCKET_SERVER ||| SOCKET_BIND) = true ∧ k.bound = false ∧
        (bindPhase k o calls).ret = -3 ∧ reached (bindPhase k o calls).calls = some .closed) ∨
      (has o.flags (SOCKET_SERVER ||| SOCKET_BIND) = true → k.bound = true) ∧
        ((has o.flags SOCKET_CLIENT = true ∧ k.connected = .failed ∧ (bindPhase k o calls).ret = -4 ∧
            reached (bindPhase k o calls).calls = some .closed) ∨
          ((has o.flags SOCKET_CLIENT = true → k.connected ≠ .failed) ∧
            (bindPhase k o calls).ret = o.sock ∧ reached (bindPhase k o calls).calls =
              some (if has o.flags SOCKET_CLIENT then .connecting o.sock else o.phase))) := by
  rw [bindPhase]
  by_cases hbinds : has o.flags (SOCKET_SERVER ||| SOCKET_BIND) = true
  · rw [if_pos hbinds]
    dsimp only
    have hbind : reached (calls ++ [.setsockopt, .bind o.src]) = some (.bound o.sock) := by
      rw [reached_append h]
      rfl
    cases hbound : k.bound with
    | false =>
      rw [if_neg Bool.false_ne_true]
      refine Or.inl ⟨hbinds, rfl, rfl, ?_⟩
      rw [reached_append hbind]
      rfl
    | true =>
      rw [if_pos rfl]
      refine Or.inr ⟨fun _ => rfl, ?_⟩
      rw [Opened.phase, if_pos hbinds]
      by_cases hserver : has o.flags SOCKET_SERVER = true
      · rw [if_pos hserver, if_pos hserver]
        have hlisten : reached (calls ++ [.setsockopt, .bind o.src] ++ [.listen]) =
            some (.listening o.sock) := by
          rw [reached_append hbind]
          rfl
        exact connectPhase_reached rfl rfl hlisten
      · rw [if_neg hserver, if_neg hserver]
        exact connectPhase_reached rfl rfl hbind
  · rw [if_neg hbinds, Opened.phase, if_neg hbinds]
    exact Or.inr ⟨fun hc => absurd hc hbinds, connectPhase_reached rfl rfl h⟩

/-- The attempts of a client or a server. -/
theorem openSocket_spec (pton : Pton) (a : Args) (tries : List (List UInt8 × Int)) {flags : Flags}
    (hflags : has flags SOCKET_CLIENT = true ∨ has flags SOCKET_SERVER = true)
    (hcalls : Unopened calls) :
    (∃ o, openSocket pton a tries flags calls = .opened o ∧
        (tries.map Prod.snd).find? (fun sock => 0 ≤ sock) = some o.sock ∧ o.flags = a.bindFlags flags ∧
        reached o.calls = some (.opened o.sock)) ∨
      ((∀ sock ∈ tries.map Prod.snd, sock < 0) ∧
        ∃ calls', openSocket pton a tries flags calls = .failed calls' ∧ Unopened calls') := by
  induction tries generalizing flags calls with
  | nil => exact Or.inr ⟨fun _ h => absurd h List.not_mem_nil, calls, rfl, hcalls⟩
  | cons t rest ih =>
    obtain ⟨passive, sock⟩ := t
    have hclient := has_bindFlags a flags (show SOCKET_BIND &&& SOCKET_CLIENT = 0#32 by decide)
    have hserver := has_bindFlags a flags (show SOCKET_BIND &&& SOCKET_SERVER = 0#32 by decide)
    obtain ⟨family, hfamily⟩ : ∃ family,
        pfamily (a.bindFlags flags) (a.dest pton passive) (a.src pton passive) = some family := by
      rw [pfamily, hclient, hserver]
      rcases hflags with hc | hs
      · exact ⟨_, if_pos hc⟩
      · by_cases hc : has flags SOCKET_CLIENT = true
        · exact ⟨_, if_pos hc⟩
        · exact ⟨_, by rw [if_neg hc, if_pos hs]⟩
    rw [openSocket]
    simp only [hfamily, List.map_cons]
    by_cases hsock : 0 ≤ sock
    · have hfind : (sock :: rest.map Prod.snd).find? (fun sock => 0 ≤ sock) = some sock :=
        List.find?_cons_of_pos (decide_eq_true hsock)
      rw [if_pos hsock, hfind]
      refine Or.inl ⟨_, rfl, rfl, rfl, ?_⟩
      rw [reached_append hcalls.reached]
      simp only [List.map_singleton, Call.act, follow_cons, Phase.next, if_neg (Int.not_lt.2 hsock)]
      rfl
    · have hfind : (sock :: rest.map Prod.snd).find? (fun sock => 0 ≤ sock) =
          (rest.map Prod.snd).find? (fun sock => 0 ≤ sock) :=
        List.find?_cons_of_neg (by simpa using hsock)
      rw [if_neg hsock, hfind]
      have hmore : Unopened (calls ++ [.socket family (has (a.bindFlags flags) SOCKET_UDP) sock]) := by
        intro c hc
        rcases List.mem_append.1 hc with hc | hc
        · exact hcalls c hc
        · exact ⟨_, _, _, List.mem_singleton.1 hc, by omega⟩
      rcases ih (by rwa [hclient, hserver]) hmore with ⟨o, ho, hfind, hoflags, hreached⟩ |
        ⟨hneg, hfailed⟩
      · exact Or.inl ⟨o, ho, hfind, by rw [hoflags, bindFlags_bindFlags], hreached⟩
      · refine Or.inr ⟨fun s hs => ?_, hfailed⟩
        rcases List.mem_cons.1 hs with rfl | hs
        · omega
        · exact hneg s hs

end Create

/-- The socket that is opened, if any. -/
def Answers.sock (k : Answers) : Option Int := [k.first, k.second].find? fun sock => 0 ≤ sock

/-- A socket is bound that serves, or for which a source is given or asked for. -/
def Args.Binds (a : Args) : Prop :=
  has a.flags (SOCKET_SERVER ||| SOCKET_BIND) = true ∨ a.srcIp.isSome ∨ a.srcPort ≠ 0

/-- A flag stays in a larger set. -/
theorem has_or {flags bits bits' : Flags} (h : has flags bits = true) :
    has flags (bits ||| bits') = true := by
  rw [has, bne_iff_ne] at h ⊢
  intro hzero
  rw [BitVec.and_or_distrib_left] at hzero
  exact h (BitVec.or_eq_zero_iff.1 hzero).1

/-- What `socket_create` returns and in which phase it leaves the socket, with the reason. -/
inductive Ends (a : Args) (k : Answers) : Int → Phase → Prop
  | unavailable (hclient : has a.flags SOCKET_CLIENT = false)
      (hserver : has a.flags SOCKET_SERVER = false) : Ends a k (-1) .idle
  | unopened (hk : k.sock = none) : Ends a k (-2) .idle
  | unbound {sock : Int} (hk : k.sock = some sock) (hbinds : a.Binds) (hbound : k.bound = false) :
      Ends a k (-3) .closed
  | unconnected {sock : Int} (hk : k.sock = some sock) (hbound : a.Binds → k.bound = true)
      (hclient : has a.flags SOCKET_CLIENT = true) (hfailed : k.connected = .failed) :
      Ends a k (-4) .closed
  | client {sock : Int} (hk : k.sock = some sock) (hbound : a.Binds → k.bound = true)
      (hclient : has a.flags SOCKET_CLIENT = true) (hconnected : k.connected ≠ .failed) :
      Ends a k sock (.connecting sock)
  | server {sock : Int} (hk : k.sock = some sock) (hbound : k.bound = true)
      (hclient : has a.flags SOCKET_CLIENT = false) (hserver : has a.flags SOCKET_SERVER = true) :
      Ends a k sock (.listening sock)

/-- The descriptor is open exactly when it is returned. -/
theorem Ends.fd {a : Args} {k : Answers} {ret : Int} {p : Phase} (h : Ends a k ret p) :
    p.fd = if 0 ≤ ret then some ret else none := by
  have hnonneg : ∀ {sock : Int}, k.sock = some sock → 0 ≤ sock := fun hk => by
    simpa using List.find?_some hk
  cases h with
  | client hk => rw [if_pos (hnonneg hk), Phase.fd]
  | server hk => rw [if_pos (hnonneg hk), Phase.fd]
  | _ => rfl

/-- Behind a successful attempt. -/
theorem ends_of_opened {a : Args} {k : Answers} {o : Opened} {calls : List Call}
    (hflags : has a.flags SOCKET_CLIENT = true ∨ has a.flags SOCKET_SERVER = true)
    (hsock : k.sock = some o.sock) (hoflags : o.flags = a.bindFlags a.flags)
    (h : reached calls = some (.opened o.sock)) :
    ∃ p, reached (bindPhase k o calls).calls = some p ∧ Ends a k (bindPhase k o calls).ret p := by
  have hclient : has o.flags SOCKET_CLIENT = has a.flags SOCKET_CLIENT := by
    rw [hoflags]
    exact has_bindFlags a a.flags (by decide)
  have hserver : has o.flags SOCKET_SERVER = has a.flags SOCKET_SERVER := by
    rw [hoflags]
    exact has_bindFlags a a.flags (by decide)
  have hbinds : has o.flags (SOCKET_SERVER ||| SOCKET_BIND) = true ↔ a.Binds := by
    rw [hoflags]
    exact has_server_bindFlags a a.flags
  rcases bindPhase_reached (k := k) h with ⟨hb, hbound, hret, hend⟩ |
    ⟨hbound, ⟨hc, hfailed, hret, hend⟩ | ⟨hconnected, hret, hend⟩⟩
  · exact ⟨_, hend, hret ▸ .unbound hsock (hbinds.1 hb) hbound⟩
  · exact ⟨_, hend, hret ▸ .unconnected hsock (fun hb => hbound (hbinds.2 hb)) (hclient ▸ hc) hfailed⟩
  · rw [hret]
    cases hc : has a.flags SOCKET_CLIENT with
    | true =>
      rw [hclient, hc] at hend hconnected
      exact ⟨_, hend, .client hsock (fun hb => hbound (hbinds.2 hb)) hc (hconnected rfl)⟩
    | false =>
      -- a server, which is bound and listens
      have hs : has a.flags SOCKET_SERVER = true :=
        hflags.resolve_left (by rw [hc]; exact Bool.false_ne_true)
      have hb : has o.flags (SOCKET_SERVER ||| SOCKET_BIND) = true := hbinds.2 (Or.inl (has_or hs))
      rw [hclient, hc, Opened.phase, if_pos hb, hserver, hs] at hend
      exact ⟨_, hend, .server hsock (hbound hb) hc hs⟩

/-- **A socket is returned or closed.** Whatever `socket_create` is asked for and however the system calls
end, they come in order; the result says why it failed, or is the socket, which listens or connects as it
was asked to; and every socket that was opened has been closed but the one returned. -/
theorem socket_create_ends (pton : Pton) (a : Args) (k : Answers) :
    ∃ p, reached (socketCreate pton a k).calls = some p ∧ Ends a k (socketCreate pton a k).ret p ∧
      (openedBy ((socketCreate pton a k).calls.map Call.act)).length =
        closings ((socketCreate pton a k).calls.map Call.act) +
          (if 0 ≤ (socketCreate pton a k).ret then 1 else 0) ∧
      (0 ≤ (socketCreate pton a k).ret → (socketCreate pton a k).ret ∈
        openedBy ((socketCreate pton a k).calls.map Call.act)) := by
  have hempty : Unopened [] := fun _ hc => absurd hc List.not_mem_nil
  have hends : ∃ p, reached (socketCreate pton a k).calls = some p ∧
      Ends a k (socketCreate pton a k).ret p := by
    by_cases hflags : has a.flags SOCKET_CLIENT = true ∨ has a.flags SOCKET_SERVER = true
    · rcases openSocket_spec pton a [(passive6, k.first), (passive4, k.second)] hflags hempty with
        ⟨o, ho, hsock, hoflags, hreached⟩ | ⟨hneg, calls, hfailed, hcalls⟩
      · rw [socketCreate, ho]
        refine ends_of_opened hflags hsock hoflags ?_
        split
        · rw [reached_append hreached]
          rfl
        · exact hreached
      · rw [socketCreate, hfailed]
        refine ⟨_, hcalls.reached, .unopened ?_⟩
        rw [Answers.sock, List.find?_eq_none]
        exact fun sock hs => by simpa using hneg sock hs
    · -- the first attempt finds neither flag
      have hclient : has a.flags SOCKET_CLIENT = false := by
        simpa using fun hc => hflags (Or.inl hc)
      have hserver : has a.flags SOCKET_SERVER = false := by
        simpa using fun hs => hflags (Or.inr hs)
      have hnone : openSocket pton a [(passive6, k.first), (passive4, k.second)] a.flags [] =
          .unavailable [] := by
        have hc := has_bindFlags a a.flags (show SOCKET_BIND &&& SOCKET_CLIENT = 0#32 by decide)
        have hs := has_bindFlags a a.flags (show SOCKET_BIND &&& SOCKET_SERVER = 0#32 by decide)
        simp only [openSocket, pfamily, hc, hs, hclient, hserver, Bool.false_eq_true, if_false]
      rw [socketCreate, hnone]
      exact ⟨_, hempty.reached, .unavailable hclient hserver⟩
  obtain ⟨p, hp, hend⟩ := hends
  obtain ⟨hcount, hmem⟩ := follow_counts hp
  refine ⟨p, hp, hend, ?_, fun hret => ?_⟩
  · have hlive : p.live = if 0 ≤ (socketCreate pton a k).ret then 1 else 0 := by
      rw [Phase.live, hend.fd]
      split <;> rfl
    rw [hlive] at hcount
    simpa [Phase.live, Phase.fd] using hcount
  · have hfd := hend.fd
    rw [if_pos hret] at hfd
    exact (hmem _ hfd).resolve_left (fun hc => by cases hc)

end ExamplePrograms.Onethread.Socket
