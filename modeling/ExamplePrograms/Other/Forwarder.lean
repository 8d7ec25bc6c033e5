import Mathlib.Data.List.Basic

/-!
# The port forwarder

`udpfwd.c` forwards the datagrams that come to its socket: those from the host of the destination to the
client that sent last, all others to the destination. The loop of `main` is run here round by round, each
with any outcome of `select` and `recvfrom`. `clientsa` and `lastsa` hold anything before the first
datagram, and a `recvfrom` that fails leaves `clientsa` as it is, after which the loop goes on with the
address of an earlier datagram.

`forwards_each` gives, for every run, the datagram that is sent for each one that came.
-/

set_option autoImplicit false

namespace ExamplePrograms.Other.Forwarder

/-- `sockaddr_in`: a host and a port. -/
structure SockAddr where
  addr : BitVec 32
  port : BitVec 16
  deriving DecidableEq, Repr

/-- A datagram that comes from or goes to `peer`. -/
structure Datagram where
  peer : SockAddr
  data : List UInt8
  deriving DecidableEq, Repr

/-- What a round of the loop meets. A `select` that fails leaves the set as it is, and `recvfrom` is
called. -/
inductive Outcome where
  | timeout
  | received (d : Datagram)
  | failed
  deriving DecidableEq, Repr

/-- The addresses of `main`, and the datagrams that were sent. -/
structure State where
  clientsa : SockAddr
  lastsa : SockAddr
  sent : List Datagram

/-- The bytes that `recvfrom` takes of a datagram. -/
def buflen : Nat := 16384

/-- `sendto` with the length that `recvfrom` returned. The length -1 is refused. The program does not look
at its answer, and a datagram counts as sent when it is handed to `sendto`. -/
def sendto (s : State) (ret : Option (List UInt8)) (sa : SockAddr) : State :=
  match ret with
  | some buf => { s with sent := s.sent ++ [⟨sa, buf⟩] }
  | none => s

/-- What the loop does behind `recvfrom`. Only the hosts are compared, not the ports. -/
def forward (dstsa : SockAddr) (s : State) (ret : Option (List UInt8)) : State :=
  if s.clientsa.addr = dstsa.addr then sendto s ret s.lastsa
  else { sendto s ret dstsa with lastsa := s.clientsa }

/-- One round of the loop. -/
def round (dstsa : SockAddr) (s : State) : Outcome → State
  | .timeout => s
  | .received d => forward dstsa { s with clientsa := d.peer } (some (d.data.take buflen))
  | .failed => forward dstsa s none

/-- The rounds of the loop. -/
def run (dstsa : SockAddr) (s : State) (outcomes : List Outcome) : State :=
  outcomes.foldl (round dstsa) s

/-- The addresses are not initialised. -/
def start (clientsa lastsa : SockAddr) : State := ⟨clientsa, lastsa, []⟩

/-! ## What is forwarded -/

/-- The datagrams that came. -/
def received : List Outcome → List Datagram
  | [] => []
  | .received d :: outcomes => d :: received outcomes
  | _ :: outcomes => received outcomes

section Forward

variable (dstsa : SockAddr)

/-- The client that sent last: the source of the last datagram that is not from the destination's host. -/
def lastClient (ds : List Datagram) : Option SockAddr :=
  (ds.filter fun d => d.peer.addr ≠ dstsa.addr).getLast?.map Datagram.peer

/-- What is sent for a datagram that comes behind others. -/
structure Relays (before : List Datagram) (d out : Datagram) : Prop where
  data : out.data = d.data.take buflen
  request : d.peer.addr ≠ dstsa.addr → out.peer = dstsa
  reply : d.peer.addr = dstsa.addr → ∀ c, lastClient dstsa before = some c → out.peer = c

/-- The state behind the datagrams that came so far. -/
structure Follows (s : State) (ds : List Datagram) : Prop where
  count : s.sent.length = ds.length
  relays : ∀ k d, ds[k]? = some d → ∃ out, s.sent[k]? = some out ∧ Relays dstsa (ds.take k) d out
  clientsa : ∀ d, ds.getLast? = some d → s.clientsa = d.peer
  lastsa : ∀ c, lastClient dstsa ds = some c → s.lastsa = c

variable {dstsa} {s : State} {ds : List Datagram} {d : Datagram}

/-- A reply of the destination is no client. -/
theorem lastClient_concat_reply (h : d.peer.addr = dstsa.addr) :
    lastClient dstsa (ds ++ [d]) = lastClient dstsa ds := by
  rw [lastClient, lastClient, List.filter_append, List.filter_cons_of_neg (by simpa using h),
    List.filter_nil, List.append_nil]

/-- A request is from the last client. -/
theorem lastClient_concat_request (h : d.peer.addr ≠ dstsa.addr) :
    lastClient dstsa (ds ++ [d]) = some d.peer := by
  rw [lastClient, List.filter_append, List.filter_cons_of_pos (by simpa using h), List.filter_nil,
    List.getLast?_concat, Option.map_some]

/-- Nothing is sent before the first round. -/
theorem follows_start (dstsa clientsa lastsa : SockAddr) : Follows dstsa (start clientsa lastsa) [] where
  count := rfl
  relays := fun k d hd => by cases hd
  clientsa := fun d hd => by cases hd
  lastsa := fun c hc => by cases hc

/-- One more datagram is sent for one that came. -/
theorem Follows.relays_concat (h : Follows dstsa s ds) {out : Datagram} (hout : Relays dstsa ds d out) :
    ∀ k d', (ds ++ [d])[k]? = some d' →
      ∃ out', (s.sent ++ [out])[k]? = some out' ∧ Relays dstsa ((ds ++ [d]).take k) d' out' := by
  intro k d' hd'
  by_cases hk : k < ds.length
  · rw [List.getElem?_append_left hk] at hd'
    rw [List.getElem?_append_left (h.count ▸ hk), List.take_append_of_le_length (Nat.le_of_lt hk)]
    exact h.relays k d' hd'
  · have hlast : k = ds.length := by
      have := (List.getElem?_eq_some_iff.1 hd').1
      rw [List.length_append, List.length_singleton] at this
      omega
    subst hlast
    rw [List.getElem?_concat_length] at hd'
    cases hd'
    rw [← h.count, List.getElem?_concat_length, h.count, List.take_left]
    exact ⟨out, rfl, hout⟩

/-- **One datagram** is forwarded. -/
theorem Follows.received (h : Follows dstsa s ds) (d : Datagram) :
    Follows dstsa (round dstsa s (.received d)) (ds ++ [d]) := by
  have hcount : (s.sent.length + 1) = (ds ++ [d]).length := by
    rw [h.count, List.length_append, List.length_singleton]
  have hclientsa : ∀ d', (ds ++ [d]).getLast? = some d' → d.peer = d'.peer := by
    intro d' hd'
    rw [List.getLast?_concat] at hd'
    cases hd'
    rfl
  rw [round, forward]
  by_cases hhost : d.peer.addr = dstsa.addr
  · rw [if_pos hhost]
    exact
      { count := (List.length_append ..).trans hcount
        relays := h.relays_concat ⟨rfl, fun hne => absurd hhost hne, fun _ => h.lastsa⟩
        clientsa := hclientsa
        lastsa := fun c hc => h.lastsa c (by rwa [lastClient_concat_reply hhost] at hc) }
  · rw [if_neg hhost]
    refine
      { count := (List.length_append ..).trans hcount
        relays := h.relays_concat ⟨rfl, fun _ => rfl, fun heq => absurd heq hhost⟩
        clientsa := hclientsa
        lastsa := fun c hc => ?_ }
    rw [lastClient_concat_request hhost] at hc
    exact Option.some.inj hc

/-- The address that a failed `recvfrom` leaves is that of the last datagram, for which `lastsa` has been
set already. -/
theorem Follows.failed (h : Follows dstsa s ds) : Follows dstsa (round dstsa s .failed) ds := by
  rw [round, forward]
  by_cases hhost : s.clientsa.addr = dstsa.addr
  · rw [if_pos hhost]
    exact h
  · rw [if_neg hhost]
    refine { h with lastsa := fun c hc => ?_ }
    cases hds : ds.reverse with
    | nil => 
      rw [List.reverse_eq_nil_iff.1 hds] at hc
      cases hc
    | cons d before =>
      have hsplit : ds = before.reverse ++ [d] := by
        rw [← List.reverse_cons, ← hds, List.reverse_reverse]
      have hclient := h.clientsa d (by rw [hsplit, List.getLast?_concat])
      rw [hsplit, lastClient_concat_request (hclient ▸ hhost)] at hc
      exact hclient.trans (Option.some.inj hc)

/-- **A run** forwards the datagrams that came. -/
theorem Follows.run (h : Follows dstsa s ds) (outcomes : List Outcome) :
    Follows dstsa (run dstsa s outcomes) (ds ++ Forwarder.received outcomes) := by
  induction outcomes generalizing s ds with
  | nil =>
    rw [Forwarder.received, List.append_nil]
    exact h
  | cons o outcomes ih =>
    rw [Forwarder.run, List.foldl_cons, ← Forwarder.run]
    cases o with
    | timeout => exact ih h
    | failed => exact ih h.failed
    | received d =>
      have hnext := ih (h.received d)
      rwa [List.append_assoc, List.singleton_append] at hnext

end Forward

/-- **One datagram out for each one in.** In every run as many datagrams are sent as came, in their order
and with their first 16384 bytes. One from another host goes to the destination, and one from the host of
the destination to the client that sent last before it; what a client sends goes to no other client.
Timeouts and failures change nothing. -/
theorem forwards_each (dstsa clientsa lastsa : SockAddr) (outcomes : List Outcome) :
    (run dstsa (start clientsa lastsa) outcomes).sent.length = (received outcomes).length ∧
    ∀ k d, (received outcomes)[k]? = some d →
      ∃ out, (run dstsa (start clientsa lastsa) outcomes).sent[k]? = some out ∧
        out.data = d.data.take 16384 ∧ (d.peer.addr ≠ dstsa.addr → out.peer = dstsa) ∧
        (d.peer.addr = dstsa.addr → ∀ c, lastClient dstsa ((received outcomes).take k) = some c →
          out.peer = c) := by
  have h := (follows_start dstsa clientsa lastsa).run outcomes
  rw [List.nil_append] at h
  refine ⟨h.count, fun k d hd => ?_⟩
  obtain ⟨out, hout, hrelays⟩ := h.relays k d hd
  exact ⟨out, hout, hrelays.data, hrelays.request, hrelays.reply⟩

end ExamplePrograms.Other.Forwarder
