import ExamplePrograms.Lib.IntrusiveList
import ExamplePrograms.Lib.Runs

/-!
# A server on edge-triggered events

`pm.c`. A registered descriptor is reported when something arrives on it, and not again before something
else arrives. A step is one call that the server makes, with what the system answers, or something that
arrives. The descriptors are numbered in the order in which they are opened; the server closes none.

`Effect` is what a step can do, and `Inv` the invariant of the runs: the clients are linked newest first, and
a registration names the client of its descriptor.
-/

set_option autoImplicit false

namespace ExamplePrograms.Other.PollServer

open ExamplePrograms.Lib.Runs ExamplePrograms.Lib.IntrusiveList

/-- The two callbacks. -/
inductive Cb where
  | clientCb
  | serverCb
  deriving DecidableEq, Repr

/-- `struct client`; a pointer to one is the number of its allocation. -/
structure Client where
  fd : Nat
  cb : Cb
  prev : Place Nat
  next : Option Nat
  deriving DecidableEq, Repr

/-- What the kernel keeps of a descriptor: what waits to be read or accepted, and its registration, with
`ev.data.ptr` and whether it is to be reported. -/
structure Sock where
  listening : Bool := false
  waiting : Nat := 0
  ended : Bool := false
  interest : Option Nat := none
  ready : Bool := false
  deriving DecidableEq, Repr

/-- `EPOLLIN`. -/
def Sock.signals (k : Sock) : Bool := decide (0 < k.waiting) || k.ended

/-- Something has arrived. -/
def Sock.arrive (k : Sock) (n : Nat) (ended : Bool) : Sock :=
  { k with waiting := k.waiting + n, ended := k.ended || ended, ready := k.ready || k.interest.isSome }

/-- `poll ev`: the entries `ev[0]` to `ev[res - 1]` are left, with `ev.data.ptr`; at `poll []` the server
waits for events. -/
inductive Pc where
  | poll (ev : List Nat)
  | callback (cl : Nat) (ev : List Nat)
  | stopped
  deriving DecidableEq, Repr

/-- The descriptors, the clients that were allocated, the head of their list, and the place in the program.
-/
structure State where
  socks : List Sock := []
  heap : List Client := []
  head : Option Nat := none
  pc : Pc := .poll []
  deriving DecidableEq, Repr

/-- `EAGAIN`. -/
def eagain : Nat := 11

/-! ## The functions -/

/-- What the calls of `sockadd` answer: whether `fcntl`, `calloc` and `epoll_ctl` succeed. -/
structure Add where
  fcntl : Bool := true
  calloc : Bool := true
  ctl : Bool := true
  deriving DecidableEq, Repr

/-- Every call that `sockadd` makes succeeds. -/
def Add.ok (a : Add) : Bool := a.fcntl && a.calloc && a.ctl

/-- `clientadd`: the new client becomes the head of the list. -/
def clientadd (s : State) (fd : Nat) (cb : Cb) : State × Nat :=
  let new := s.heap.length
  let heap := match s.head with
    | some cl => s.heap.modify cl fun c => { c with prev := .next new }
    | none => s.heap
  ({ s with heap := heap ++ [⟨fd, cb, .head, s.head⟩], head := some new }, new)

/-- `sockadd(fd, cb, 0)`. -/
def sockadd (a : Add) (s : State) (fd : Nat) (cb : Cb) : State :=
  if a.fcntl && a.calloc then
    let r := clientadd s fd cb
    if a.ctl then
      { r.1 with socks := r.1.socks.modify fd fun k => { k with interest := some r.2, ready := k.signals } }
    else r.1
  else s

/-- `sockdel(fd)`; `ok` says whether `epoll_ctl` succeeds. -/
def sockdel (ok : Bool) (s : State) (fd : Nat) : State :=
  if ok then { s with socks := s.socks.modify fd fun k => { k with interest := none, ready := false } }
  else s

/-- What `ip4add` gets from the system: the results of `socket`, `bind` and `listen`, with the connections
that wait by the time of `sockadd`, and those of its calls. -/
structure Setup where
  socket : Bool := true
  bind : Bool := true
  listen : Option Nat := some 0
  add : Add := {}
  deriving DecidableEq, Repr

/-- `ip4add`, with the answers to its calls. -/
def ip4add (u : Setup) (s : State) : State :=
  let fd := s.socks.length
  if u.socket then
    match u.bind, u.listen with
    | true, some n =>
        sockadd u.add { s with socks := s.socks ++ [{ listening := true, waiting := n }] } fd .serverCb
    | _, _ => { s with socks := s.socks ++ [{}] }
  else s

/-- `main` up to its loop. -/
def main (u : Setup) : State := ip4add u {}

/-- One round of the loop of `client_cb`, with the result of `read`: `errno` or the number of bytes. -/
def clientCb (s : State) (fd : Nat) (k : Sock) (ev : List Nat) (r : Except Nat Nat) (del : Bool) :
    Option State :=
  match r with
  | .error err =>
      if err = eagain ∧ k.signals = true then none else some { s with pc := .poll ev }
  | .ok 0 =>
      if k.waiting = 0 ∧ k.ended = true then some { sockdel del s fd with pc := .poll ev } else none
  | .ok n =>
      if n ≤ k.waiting ∧ n ≤ 512 then
        some { s with socks := s.socks.modify fd fun k => { k with waiting := k.waiting - n } }
      else none

/-- One round of the loop of `server_cb`, with the result of `accept`: `errno`, or a connection on which
something may wait. -/
def serverCb (s : State) (fd : Nat) (k : Sock) (ev : List Nat) (r : Except Nat (Nat × Bool)) (a : Add) :
    Option State :=
  match r with
  | .error err =>
      if err = eagain ∧ k.signals = true then none else some { s with pc := .poll ev }
  | .ok (n, ended) =>
      if 0 < k.waiting then
        let new := s.socks.length
        let socks := s.socks.modify fd (fun k => { k with waiting := k.waiting - 1 }) ++
          [{ waiting := n, ended := ended }]
        let s := sockadd a { s with socks := socks } new .clientCb
        some (if a.ok then s else { s with pc := .poll ev })
      else none

/-- `sockpoll`: the descriptors `taken` are looked at, and those with something to read are reported. -/
def sockpoll (s : State) (taken : List Nat) : Option State :=
  let reported := taken.filter fun fd => (s.socks[fd]?.elim false Sock.signals)
  if taken.Nodup ∧ (∀ fd ∈ taken, (s.socks[fd]?.elim false Sock.ready) = true) ∧ reported.length ≤ 8 then
    some
      { s with
        socks := taken.foldl (fun socks fd => socks.modify fd fun k => { k with ready := false }) s.socks
        pc := .poll (reported.filterMap fun fd => s.socks[fd]?.bind Sock.interest) }
  else none

/-! ## The steps -/

/-- An event of the network, or a call of the server with its answer. -/
inductive Act where
  -- what arrives on a descriptor
  | arrive (fd n : Nat)
  | hangup (fd : Nat)
  -- what the server does
  | wait (taken : List Nat)
  | waitFailed
  | call
  | read (r : Except Nat Nat) (del : Bool)
  | accept (r : Except Nat (Nat × Bool)) (add : Add)

/-- One step, where it is possible. -/
def step (s : State) : Act → Option State
  | .arrive fd n =>
      if 0 < n ∧ (s.socks[fd]?.elim false fun k => !k.ended) = true then
        some { s with socks := s.socks.modify fd fun k => k.arrive n false }
      else none
  | .hangup fd =>
      if (s.socks[fd]?.elim false fun k => !k.listening && !k.ended) = true then
        some { s with socks := s.socks.modify fd fun k => k.arrive 0 true }
      else none
  | .wait taken => if s.pc = .poll [] then sockpoll s taken else none
  | .waitFailed => if s.pc = .poll [] then some { s with pc := .stopped } else none
  | .call =>
      match s.pc with
      -- `res--; cl=ev[res].data.ptr;`
      | .poll ev => ev.getLast?.map fun cl => { s with pc := .callback cl ev.dropLast }
      | _ => none
  | .read r del =>
      match s.pc with
      | .callback cl ev =>
          s.heap[cl]?.bind fun c =>
            if c.cb = .clientCb then s.socks[c.fd]?.bind fun k => clientCb s c.fd k ev r del else none
      | _ => none
  | .accept r add =>
      match s.pc with
      | .callback cl ev =>
          s.heap[cl]?.bind fun c =>
            if c.cb = .serverCb then s.socks[c.fd]?.bind fun k => serverCb s c.fd k ev r add else none
      | _ => none

/-- The clients whose callback runs or is still to be called. -/
def Pc.active : Pc → List Nat
  | .poll ev => ev
  | .callback cl ev => cl :: ev
  | .stopped => []

/-! ## The invariant -/

/-- The links of a client on the heap. -/
def State.links (s : State) (cl : Nat) : Option (Links Nat) :=
  s.heap[cl]?.map fun c => ⟨c.prev, c.next⟩

/-- What the kernel keeps of a descriptor fits the clients. -/
structure Fits (heap : List Client) (fd : Nat) (k : Sock) : Prop where
  pointer : ∀ ptr, k.interest = some ptr → ∃ c, heap[ptr]? = some c ∧ c.fd = fd ∧
    (c.cb = .serverCb ↔ k.listening = true)
  armed : k.ready = true → k.interest.isSome = true
  listener : k.listening = true → k.ended = false

/-- The registration of a descriptor names the client. -/
def Registered (s : State) (ptr : Nat) : Prop :=
  ∃ c k, s.heap[ptr]? = some c ∧ s.socks[c.fd]? = some k ∧ k.interest = some ptr

/-- The list threads all clients, the registrations point to clients, and those that `epoll_wait` gave out
are registered and named once. -/
structure Inv (s : State) : Prop where
  threaded : Threaded s.links .head s.head (List.range s.heap.length).reverse
  opened : ∀ c ∈ s.heap, c.fd < s.socks.length
  fits : ∀ (fd : Nat) (k : Sock), s.socks[fd]? = some k → Fits s.heap fd k
  active : ∀ ptr ∈ s.pc.active, Registered s ptr
  nodup : s.pc.active.Nodup

/-- The clients that are there are kept, but for their links. -/
def HeapKept (heap heap' : List Client) : Prop :=
  ∀ (ptr : Nat) (c : Client), heap[ptr]? = some c →
    ∃ c' : Client, heap'[ptr]? = some c' ∧ c'.fd = c.fd ∧ c'.cb = c.cb

/-- No client is changed. -/
theorem HeapKept.refl (heap : List Client) : HeapKept heap heap := fun _ c h => ⟨c, h, rfl, rfl⟩

/-- The registration is kept, with what depends on it. -/
theorem Fits.update {heap heap' : List Client} {fd : Nat} {k k' : Sock} (h : Fits heap fd k)
    (hheap : HeapKept heap heap') (hlistening : k'.listening = k.listening)
    (hinterest : k'.interest = k.interest) (hready : k'.ready = true → k.interest.isSome = true)
    (hended : k.listening = true → k.ended = false → k'.ended = false) : Fits heap' fd k' where
  pointer ptr hptr := by
    obtain ⟨c, hc, hfd, hcb⟩ := h.pointer ptr (hinterest ▸ hptr)
    obtain ⟨c', hc', hfd', hcb'⟩ := hheap ptr c hc
    exact ⟨c', hc', hfd'.trans hfd, by rw [hcb', hlistening, hcb]⟩
  armed hr := by
    rw [hinterest]
    exact hready hr
  listener hl := hended (hlistening ▸ hl) (h.listener (hlistening ▸ hl))

/-- A registration fits clients that are kept. -/
theorem Fits.kept {heap heap' : List Client} {fd : Nat} {k : Sock} (h : Fits heap fd k)
    (hheap : HeapKept heap heap') : Fits heap' fd k :=
  h.update hheap rfl rfl h.armed fun _ hended => hended

/-- A registration is the only one of its client. -/
theorem Inv.owner {s : State} (h : Inv s) {fd fd' ptr : Nat} {k k' : Sock} (hk : s.socks[fd]? = some k)
    (hk' : s.socks[fd']? = some k') (hptr : k.interest = some ptr) (hptr' : k'.interest = some ptr) :
    fd = fd' := by
  obtain ⟨c, hc, hfd, -⟩ := (h.fits fd k hk).pointer ptr hptr
  obtain ⟨c', hc', hfd', -⟩ := (h.fits fd' k' hk').pointer ptr hptr'
  cases hc.symm.trans hc'
  exact hfd.symm.trans hfd'

section Modify

variable {socks : List Sock} {fd fd' : Nat} {f : Sock → Sock} {k : Sock}

/-- The descriptor that is changed. -/
theorem modify_self (h : socks[fd]? = some k) : (socks.modify fd f)[fd]? = some (f k) := by
  rw [List.getElem?_modify, h]
  simp

/-- Another descriptor. -/
theorem modify_ne (h : fd ≠ fd') : (socks.modify fd f)[fd']? = socks[fd']? := by
  rw [List.getElem?_modify]
  simp [h]

/-- The descriptor that is changed, and the others. -/
theorem modify_cases {k' : Sock} (h : (socks.modify fd f)[fd']? = some k') :
    (fd' = fd ∧ ∃ k, socks[fd]? = some k ∧ k' = f k) ∨ (fd' ≠ fd ∧ socks[fd']? = some k') := by
  by_cases hfd : fd = fd'
  · subst hfd
    cases hk : socks[fd]? with
    | none =>
      rw [List.getElem?_modify, hk] at h
      cases h
    | some k =>
      rw [modify_self hk] at h
      exact Or.inl ⟨rfl, k, rfl, (Option.some.inj h).symm⟩
  · exact Or.inr ⟨Ne.symm hfd, modify_ne hfd ▸ h⟩

end Modify

/-! ## Clients -/

/-- What `sockadd` does with the descriptor `fd`, of which the kernel keeps `k`. -/
structure Adds (a : Add) (s s' : State) (fd : Nat) (cb : Cb) (k : Sock) : Prop where
  heap : HeapKept s.heap s'.heap
  threaded : Threaded s'.links .head s'.head (List.range s'.heap.length).reverse
  pc : s'.pc = s.pc
  opened : ∀ c ∈ s'.heap, c.fd = fd ∨ ∃ c0 ∈ s.heap, c.fd = c0.fd
  length : s'.socks.length = s.socks.length
  others : ∀ fd' : Nat, fd' ≠ fd → s'.socks[fd']? = s.socks[fd']?
  self : (a.ok = true ∧ s'.socks[fd]? = some { k with interest := some s.heap.length, ready := k.signals } ∧
      ∃ c, s'.heap[s.heap.length]? = some c ∧ c.fd = fd ∧ c.cb = cb) ∨
    (a.ok = false ∧ s'.socks = s.socks)

/-- A new client changes no other. -/
theorem heapKept_append (heap : List Client) (c : Client) : HeapKept heap (heap ++ [c]) := by
  intro ptr c0 hc0
  have hlt := (List.getElem?_eq_some_iff.1 hc0).1
  exact ⟨c0, by rw [List.getElem?_append_left hlt, hc0], rfl, rfl⟩

/-- A change of a link keeps the clients. -/
theorem heapKept_modify (heap : List Client) (cl : Nat) (prev : Place Nat) :
    HeapKept heap (heap.modify cl fun c => { c with prev := prev }) := by
  intro ptr c hc
  rw [List.getElem?_modify, hc]
  by_cases h : cl = ptr
  · exact ⟨{ c with prev := prev }, by simp [h], rfl, rfl⟩
  · exact ⟨c, by simp [h], rfl, rfl⟩

/-- What is kept by two changes. -/
theorem HeapKept.trans {heap heap' heap'' : List Client} (h : HeapKept heap heap')
    (h' : HeapKept heap' heap'') : HeapKept heap heap'' := by
  intro ptr c hc
  obtain ⟨c', hc', hfd, hcb⟩ := h ptr c hc
  obtain ⟨c'', hc'', hfd', hcb'⟩ := h' ptr c' hc'
  exact ⟨c'', hc'', hfd'.trans hfd, hcb'.trans hcb⟩

/-- The heap in which the first client knows about the new one. -/
def relinked (s : State) : List Client :=
  match s.head with
  | some cl => s.heap.modify cl fun c => { c with prev := .next s.heap.length }
  | none => s.heap

/-- The number of clients behind `clientadd` without the new one. -/
theorem length_relinked (s : State) : (relinked s).length = s.heap.length := by
  rw [relinked]
  cases s.head with
  | none => rfl
  | some cl => exact List.length_modify _ _ _

/-- `clientadd` as a new client behind the others. -/
theorem clientadd_eq (s : State) (fd : Nat) (cb : Cb) : clientadd s fd cb =
    ({ s with
        heap := relinked s ++ [⟨fd, cb, .head, s.head⟩]
        head := some s.heap.length }, s.heap.length) := rfl

/-- Linking a new client keeps the others. -/
theorem heapKept_relinked (s : State) : HeapKept s.heap (relinked s) := by
  rw [relinked]
  cases s.head with
  | none => exact .refl _
  | some cl => exact heapKept_modify _ _ _

/-- **`clientadd`** threads the list. -/
theorem threaded_clientadd {s : State} (fd : Nat) (cb : Cb)
    (h : Threaded s.links .head s.head (List.range s.heap.length).reverse) :
    Threaded (clientadd s fd cb).1.links .head (clientadd s fd cb).1.head
      (List.range (clientadd s fd cb).1.heap.length).reverse := by
  have hlength : (clientadd s fd cb).1.heap.length = s.heap.length + 1 := by
    rw [clientadd_eq]
    simp [length_relinked]
  have hold : ∀ b, b < s.heap.length → (clientadd s fd cb).1.links b =
      (relinked s)[b]?.map fun c => ⟨c.prev, c.next⟩ := by
    intro b hb
    rw [clientadd_eq, State.links, List.getElem?_append_left (by rwa [length_relinked])]
  have hmem : ∀ b ∈ (List.range s.heap.length).reverse, b < s.heap.length := by
    intro b hb
    exact List.mem_range.1 (List.mem_reverse.1 hb)
  rw [hlength, List.range_succ, List.reverse_append]
  refine h.push (List.nodup_reverse.2 List.nodup_range) ?_ ?_ ?_
  · rw [clientadd_eq, State.links, List.getElem?_append_right (Nat.le_of_eq (length_relinked s)),
      length_relinked, Nat.sub_self]
    rfl
  · intro b hb
    have hhead : s.head = some b := hb
    have hlt : b < s.heap.length := by
      cases hpath : (List.range s.heap.length).reverse with
      | nil =>
        rw [hpath] at h
        exact absurd (hhead.symm.trans h) (by simp)
      | cons b' path =>
        rw [hpath] at h
        have hb' : b = b' := Option.some.inj (hhead.symm.trans h.1)
        exact hmem b (by rw [hpath, hb']; exact List.mem_cons_self)
    rw [hold b hlt, relinked, hhead, State.links, List.getElem?_modify]
    simp [Function.comp_def]
  · intro b hb hne
    rw [hold b (hmem b hb), State.links, relinked]
    cases hhead : s.head with
    | none => rfl
    | some cl =>
      have hcl : cl ≠ b := fun hc => hne (by rw [hhead, hc]; rfl)
      rw [List.getElem?_modify]
      simp [hcl]

/-- **`sockadd`** adds a client and its registration, or neither. -/
theorem sockadd_spec (a : Add) {s : State} {fd : Nat} (cb : Cb) {k : Sock} (hk : s.socks[fd]? = some k)
    (h : Threaded s.links .head s.head (List.range s.heap.length).reverse) :
    Adds a s (sockadd a s fd cb) fd cb k := by
  have hthreaded := threaded_clientadd fd cb h
  have hkept : HeapKept s.heap (clientadd s fd cb).1.heap := by
    rw [clientadd_eq]
    exact (heapKept_relinked s).trans (heapKept_append _ _)
  have hnew : (clientadd s fd cb).1.heap[s.heap.length]? = some ⟨fd, cb, .head, s.head⟩ := by
    rw [clientadd_eq, List.getElem?_append_right (Nat.le_of_eq (length_relinked s)), length_relinked,
      Nat.sub_self]
    rfl
  have hopened : ∀ c ∈ (clientadd s fd cb).1.heap, c.fd = fd ∨ ∃ c0 ∈ s.heap, c.fd = c0.fd := by
    intro c hc
    rw [clientadd_eq] at hc
    rcases List.mem_append.1 hc with hc | hc
    · obtain ⟨i, hi⟩ := List.mem_iff_getElem?.1 hc
      have hlt : i < s.heap.length := by
        rw [← length_relinked s]
        exact (List.getElem?_eq_some_iff.1 hi).1
      obtain ⟨c', hc', hfd, -⟩ := heapKept_relinked s i _ (List.getElem?_eq_getElem hlt)
      cases hi.symm.trans hc'
      exact Or.inr ⟨_, List.getElem_mem hlt, hfd⟩
    · rw [List.mem_singleton.1 hc]
      exact Or.inl rfl
  rw [sockadd]
  cases hfcntl : a.fcntl <;> cases hcalloc : a.calloc <;> try
    exact ⟨.refl _, h, rfl, fun c hc => Or.inr ⟨c, hc, rfl⟩, rfl, fun _ _ => rfl,
      Or.inr ⟨by simp [Add.ok, hfcntl, hcalloc], rfl⟩⟩
  cases hctl : a.ctl with
  | false =>
    exact ⟨hkept, hthreaded, rfl, hopened, rfl, fun _ _ => rfl,
      Or.inr ⟨by simp [Add.ok, hctl], rfl⟩⟩
  | true =>
    refine ⟨hkept, hthreaded, rfl, hopened, List.length_modify _ _ _, fun fd' hfd' =>
      modify_ne (Ne.symm hfd'), Or.inl ⟨by simp [Add.ok, hfcntl, hcalloc, hctl], modify_self hk, ?_⟩⟩
    exact ⟨_, hnew, rfl, rfl⟩

/-! ## What a step can do -/

/-- The callback of the client `c` runs on its descriptor. -/
structure Calling (s : State) (cl : Nat) (ev : List Nat) (c : Client) (k : Sock) : Prop where
  pc : s.pc = .callback cl ev
  client : s.heap[cl]? = some c
  sock : s.socks[c.fd]? = some k

/-- The descriptors that are reported of those that are looked at. -/
def reported (s : State) (taken : List Nat) : List Nat :=
  taken.filter fun fd => s.socks[fd]?.elim false Sock.signals

/-- The state behind an `epoll_wait`. -/
def polled (s : State) (taken : List Nat) : State :=
  { s with
    socks := taken.foldl (fun socks fd => socks.modify fd fun k => { k with ready := false }) s.socks
    pc := .poll ((reported s taken).filterMap fun fd => s.socks[fd]?.bind Sock.interest) }

/-- The state in which the connection on which `n` and `ended` wait is accepted but not yet added. -/
def accepting (s : State) (fd n : Nat) (ended : Bool) : State :=
  { s with
    socks := s.socks.modify fd (fun k => { k with waiting := k.waiting - 1 }) ++
      [{ waiting := n, ended := ended }] }

/-- The descriptor of the accepted connection is the last one. -/
theorem getElem?_accepting (s : State) (fd n : Nat) (ended : Bool) :
    (accepting s fd n ended).socks[s.socks.length]? = some { waiting := n, ended := ended } := by
  rw [accepting, List.getElem?_append_right (Nat.le_of_eq (List.length_modify _ _ _)),
    List.length_modify, Nat.sub_self]
  rfl

/-- What one step can do, with the conditions under which it does. -/
inductive Effect (s : State) : Act → State → Prop
  | arrive {fd n : Nat} {k : Sock} (hk : s.socks[fd]? = some k) (hended : k.ended = false) :
      Effect s (.arrive fd n) { s with socks := s.socks.modify fd fun k => k.arrive n false }
  | hangup {fd : Nat} {k : Sock} (hk : s.socks[fd]? = some k) (hlistening : k.listening = false) :
      Effect s (.hangup fd) { s with socks := s.socks.modify fd fun k => k.arrive 0 true }
  | wait {taken : List Nat} (hpc : s.pc = .poll []) (hnodup : taken.Nodup)
      (hready : ∀ fd ∈ taken, ∃ k, s.socks[fd]? = some k ∧ k.ready = true) :
      Effect s (.wait taken) (polled s taken)
  | waitFailed (hpc : s.pc = .poll []) : Effect s .waitFailed { s with pc := .stopped }
  | call {ev : List Nat} {cl : Nat} (hpc : s.pc = .poll (ev ++ [cl])) :
      Effect s .call { s with pc := .callback cl ev }
  | readFailed {cl : Nat} {ev : List Nat} {c : Client} {k : Sock} {err : Nat} {del : Bool}
      (hc : Calling s cl ev c k) (hcb : c.cb = .clientCb) (herr : err = eagain → k.signals = false) :
      Effect s (.read (.error err) del) { s with pc := .poll ev }
  | readEnd {cl : Nat} {ev : List Nat} {c : Client} {k : Sock} {del : Bool}
      (hc : Calling s cl ev c k) (hcb : c.cb = .clientCb) (hwaiting : k.waiting = 0)
      (hended : k.ended = true) :
      Effect s (.read (.ok 0) del) { sockdel del s c.fd with pc := .poll ev }
  | readData {cl : Nat} {ev : List Nat} {c : Client} {k : Sock} {n : Nat} {del : Bool}
      (hc : Calling s cl ev c k) (hcb : c.cb = .clientCb) (hn : n + 1 ≤ k.waiting ∧ n + 1 ≤ 512) :
      Effect s (.read (.ok (n + 1)) del)
        { s with socks := s.socks.modify c.fd fun k => { k with waiting := k.waiting - (n + 1) } }
  | acceptFailed {cl : Nat} {ev : List Nat} {c : Client} {k : Sock} {err : Nat} {a : Add}
      (hc : Calling s cl ev c k) (hcb : c.cb = .serverCb) (herr : err = eagain → k.signals = false) :
      Effect s (.accept (.error err) a) { s with pc := .poll ev }
  | accepted {cl : Nat} {ev : List Nat} {c : Client} {k : Sock} {n : Nat} {ended : Bool} {a : Add}
      (hc : Calling s cl ev c k) (hcb : c.cb = .serverCb) (hwaiting : 0 < k.waiting)
      (hok : a.ok = true) :
      Effect s (.accept (.ok (n, ended)) a)
        (sockadd a (accepting s c.fd n ended) s.socks.length .clientCb)
  | acceptLost {cl : Nat} {ev : List Nat} {c : Client} {k : Sock} {n : Nat} {ended : Bool} {a : Add}
      (hc : Calling s cl ev c k) (hcb : c.cb = .serverCb) (hwaiting : 0 < k.waiting)
      (hok : a.ok = false) :
      Effect s (.accept (.ok (n, ended)) a)
        { sockadd a (accepting s c.fd n ended) s.socks.length .clientCb with pc := .poll ev }

/-- A test on a descriptor that is there. -/
theorem elim_true {f : Sock → Bool} {o : Option Sock} (h : o.elim false f = true) :
    ∃ k, o = some k ∧ f k = true := by
  cases o with
  | none => cases h
  | some k => exact ⟨k, rfl, h⟩

/-- Nothing waits where `EAGAIN` is the truth. -/
theorem error_signals {err : Nat} {k : Sock} (h : ¬ (err = eagain ∧ k.signals = true)) :
    err = eagain → k.signals = false := fun herr =>
  Bool.eq_false_iff.2 fun hk => h ⟨herr, hk⟩

/-- **Steps are effects.** -/
theorem Effect.of_step {s s' : State} {x : Act} (h : step s x = some s') : Effect s x s' := by
  cases x with
  | arrive fd n =>
    rw [step] at h
    split at h
    · next hguard =>
      cases h
      obtain ⟨k, hk, hended⟩ := elim_true hguard.2
      exact .arrive hk (by simpa using hended)
    · cases h
  | hangup fd =>
    rw [step] at h
    split at h
    · next hguard =>
      cases h
      obtain ⟨k, hk, hboth⟩ := elim_true hguard
      exact .hangup hk (by simp at hboth; exact hboth.1)
    · cases h
  | wait taken =>
    rw [step] at h
    split at h
    · next hpc =>
      rw [sockpoll] at h
      split at h
      · next hguard =>
        cases h
        exact .wait hpc hguard.1 fun fd hfd => elim_true (hguard.2.1 fd hfd)
      · cases h
    · cases h
  | waitFailed =>
    rw [step] at h
    split at h
    · next hpc =>
      cases h
      exact .waitFailed hpc
    · cases h
  | call =>
    rw [step] at h
    split at h
    · next ev hpc =>
      obtain ⟨cl, hlast, rfl⟩ := Option.map_eq_some_iff.1 h
      exact .call (hpc.trans (by rw [List.dropLast_append_getLast? cl hlast]))
    · cases h
  | read r del =>
    rw [step] at h
    split at h
    · next cl ev hpc =>
      obtain ⟨c, hc, h⟩ := Option.bind_eq_some_iff.1 h
      split at h
      · next hcb =>
        obtain ⟨k, hk, h⟩ := Option.bind_eq_some_iff.1 h
        have hcalling : Calling s cl ev c k := ⟨hpc, hc, hk⟩
        cases r with
        | error err =>
          rw [clientCb] at h
          split at h
          · cases h
          · next hguard =>
            cases h
            exact .readFailed hcalling hcb (error_signals hguard)
        | ok n =>
          cases n with
          | zero =>
            rw [clientCb] at h
            split at h
            · next hguard =>
              cases h
              exact .readEnd hcalling hcb hguard.1 hguard.2
            · cases h
          | succ n =>
            simp only [clientCb] at h
            split at h
            · next hguard =>
              cases h
              exact .readData hcalling hcb hguard
            · cases h
      · cases h
    · cases h
  | accept r a =>
    rw [step] at h
    split at h
    · next cl ev hpc =>
      obtain ⟨c, hc, h⟩ := Option.bind_eq_some_iff.1 h
      split at h
      · next hcb =>
        obtain ⟨k, hk, h⟩ := Option.bind_eq_some_iff.1 h
        have hcalling : Calling s cl ev c k := ⟨hpc, hc, hk⟩
        cases r with
        | error err =>
          rw [serverCb] at h
          split at h
          · cases h
          · next hguard =>
            cases h
            exact .acceptFailed hcalling hcb (error_signals hguard)
        | ok r =>
          rw [serverCb] at h
          dsimp only at h
          split at h
          · next hwaiting =>
            cases hok : a.ok with
            | true =>
              rw [hok] at h
              cases h
              exact .accepted hcalling hcb hwaiting hok
            | false =>
              rw [hok] at h
              cases h
              exact .acceptLost hcalling hcb hwaiting hok
          · cases h
      · cases h
    · cases h

/-! ## The steps keep the invariant -/

section Kept

variable {s s' : State}

/-- A client stays registered. -/
theorem Registered.congr {ptr : Nat} (h : Registered s ptr) (hheap : HeapKept s.heap s'.heap)
    (hsocks : ∀ (fd : Nat) (k : Sock), s.socks[fd]? = some k → k.interest = some ptr →
      ∃ k' : Sock, s'.socks[fd]? = some k' ∧ k'.interest = some ptr) : Registered s' ptr := by
  obtain ⟨c, k, hc, hk, hptr⟩ := h
  obtain ⟨c', hc', hfd, -⟩ := hheap ptr c hc
  obtain ⟨k', hk', hptr'⟩ := hsocks c.fd k hk hptr
  exact ⟨c', k', hc', hfd ▸ hk', hptr'⟩

/-- A descriptor is changed, and its registration is not. -/
theorem Inv.modify (h : Inv s) (fd : Nat) {f : Sock → Sock}
    (hf : ∀ k, s.socks[fd]? = some k → Fits s.heap fd (f k) ∧ (f k).interest = k.interest) :
    Inv { s with socks := s.socks.modify fd f } where
  threaded := h.threaded
  opened c hc := by
    rw [List.length_modify]
    exact h.opened c hc
  fits fd' k' hk' := by
    rcases modify_cases hk' with ⟨rfl, k, hk, rfl⟩ | ⟨-, hk⟩
    · exact (hf k hk).1
    · exact h.fits fd' k' hk
  active ptr hptr := by
    refine (h.active ptr hptr).congr (.refl _) fun fd' k hk hinterest => ?_
    by_cases hfd : fd = fd'
    · subst hfd
      exact ⟨f k, modify_self hk, (hf k hk).2.trans hinterest⟩
    · exact ⟨k, (modify_ne hfd).trans hk, hinterest⟩
  nodup := h.nodup

/-- Another place in the program. -/
theorem Inv.setPc (h : Inv s) {pc : Pc} (hactive : ∀ ptr ∈ pc.active, ptr ∈ s.pc.active)
    (hnodup : pc.active.Nodup) : Inv { s with pc := pc } where
  threaded := h.threaded
  opened := h.opened
  fits := h.fits
  active ptr hptr := h.active ptr (hactive ptr hptr)
  nodup := hnodup

/-- The callback that runs returns. -/
theorem Inv.return (h : Inv s) {cl : Nat} {ev : List Nat} (hpc : s.pc = .callback cl ev) :
    Inv { s with pc := .poll ev } := by
  have hactive : s.pc.active = cl :: ev := by rw [hpc]; rfl
  refine h.setPc (fun ptr hptr => ?_) ?_
  · rw [hactive]
    exact List.mem_cons_of_mem _ hptr
  · have hnodup := h.nodup
    rw [hactive] at hnodup
    exact (List.nodup_cons.1 hnodup).2

/-- A new descriptor, which is not registered. -/
theorem Inv.open (h : Inv s) {k : Sock} (hinterest : k.interest = none) (hready : k.ready = false)
    (hlistener : k.listening = true → k.ended = false) :
    Inv { s with socks := s.socks ++ [k] } where
  threaded := h.threaded
  opened c hc := by
    rw [List.length_append]
    exact Nat.lt_of_lt_of_le (h.opened c hc) (Nat.le_add_right _ _)
  fits fd k' hk' := by
    rcases List.mem_append.1 (List.mem_of_getElem? hk') with hmem | hmem
    · rw [List.getElem?_append] at hk'
      split at hk'
      · exact h.fits fd k' hk'
      · obtain rfl := List.mem_singleton.1 (List.mem_of_getElem? hk')
        exact ⟨by simp [hinterest], by simp [hready], hlistener⟩
    · rw [List.getElem?_append] at hk'
      split at hk'
      · exact h.fits fd k' hk'
      · obtain rfl := List.mem_singleton.1 (List.mem_of_getElem? hk')
        exact ⟨by simp [hinterest], by simp [hready], hlistener⟩
  active ptr hptr := (h.active ptr hptr).congr (.refl _) fun fd k' hk' hptr' =>
    ⟨k', by rw [List.getElem?_append_left (List.getElem?_eq_some_iff.1 hk').1, hk'], hptr'⟩
  nodup := h.nodup

/-- A descriptor that is not registered is added. -/
theorem Inv.add (h : Inv s) {a : Add} {fd : Nat} {cb : Cb} {k : Sock} (hk : s.socks[fd]? = some k)
    (hinterest : k.interest = none) (hcb : cb = .serverCb ↔ k.listening = true)
    (ha : Adds a s s' fd cb k) : Inv s' where
  threaded := ha.threaded
  opened c hc := by
    rw [ha.length]
    rcases ha.opened c hc with hfd | ⟨c0, hc0, hfd⟩
    · rw [hfd]
      exact (List.getElem?_eq_some_iff.1 hk).1
    · rw [hfd]
      exact h.opened c0 hc0
  fits fd' k' hk' := by
    by_cases hfd : fd' = fd
    · subst hfd
      rcases ha.self with ⟨-, hself, c, hc, hcfd, hccb⟩ | ⟨-, hsocks⟩
      · cases hself.symm.trans hk'
        refine ⟨fun ptr hptr => ?_, fun _ => rfl, (h.fits _ k hk).listener⟩
        cases hptr
        exact ⟨c, hc, hcfd, by rw [hccb, hcb]⟩
      · rw [hsocks] at hk'
        exact (h.fits _ k' hk').kept ha.heap
    · rw [ha.others fd' hfd] at hk'
      exact (h.fits fd' k' hk').kept ha.heap
  active ptr hptr := by
    rw [ha.pc] at hptr
    refine (h.active ptr hptr).congr ha.heap fun fd' k' hk' hptr' => ?_
    have hfd : fd' ≠ fd := by
      rintro rfl
      cases hk.symm.trans hk'
      rw [hinterest] at hptr'
      cases hptr'
    exact ⟨k', (ha.others fd' hfd).trans hk', hptr'⟩
  nodup := by
    rw [ha.pc]
    exact h.nodup

/-- The reports of an `epoll_wait` are taken. -/
theorem getElem?_taken {socks : List Sock} {taken : List Nat} {fd : Nat} {k : Sock}
    (hk : socks[fd]? = some k) :
    (taken.foldl (fun socks fd => socks.modify fd fun k => { k with ready := false }) socks)[fd]? =
      some (if fd ∈ taken then { k with ready := false } else k) := by
  induction taken generalizing socks k with
  | nil => simpa using hk
  | cons fd' taken ih =>
    rw [List.foldl_cons]
    by_cases hfd : fd' = fd
    · subst hfd
      rw [ih (modify_self hk)]
      simp
    · rw [ih ((modify_ne hfd).trans hk)]
      simp [Ne.symm hfd]

/-- Taking descriptors off the ready list adds none. -/
theorem length_taken (socks : List Sock) (taken : List Nat) :
    (taken.foldl (fun socks fd => socks.modify fd fun k => { k with ready := false }) socks).length =
      socks.length := by
  induction taken generalizing socks with
  | nil => rfl
  | cons fd taken ih => rw [List.foldl_cons, ih, List.length_modify]

/-- A descriptor behind `epoll_wait`. -/
theorem polled_sock {taken : List Nat} {fd : Nat} {k' : Sock} (h : (polled s taken).socks[fd]? = some k') :
    ∃ k, s.socks[fd]? = some k ∧ k' = if fd ∈ taken then { k with ready := false } else k := by
  have hlt := (List.getElem?_eq_some_iff.1 h).1
  rw [polled, length_taken] at hlt
  have hk := List.getElem?_eq_getElem hlt
  exact ⟨_, hk, Option.some.inj (h.symm.trans (getElem?_taken hk))⟩

/-- The reported descriptors have something to read, and are reported with their clients. -/
theorem mem_reported {taken : List Nat} {fd : Nat} :
    fd ∈ reported s taken ↔ fd ∈ taken ∧ ∃ k, s.socks[fd]? = some k ∧ k.signals = true := by
  rw [reported, List.mem_filter]
  refine and_congr_right fun _ => ⟨elim_true, ?_⟩
  rintro ⟨k, hk, hsignals⟩
  rw [hk]
  exact hsignals

/-- `epoll_wait` keeps the invariant. -/
theorem Inv.polled (h : Inv s) {taken : List Nat} (hnodup : taken.Nodup) : Inv (polled s taken) where
  threaded := h.threaded
  opened c hc := by
    rw [PollServer.polled, length_taken]
    exact h.opened c hc
  fits fd k' hk' := by
    obtain ⟨k, hk, rfl⟩ := polled_sock hk'
    have hfits := h.fits fd k hk
    split
    · exact hfits.update (.refl _) rfl rfl (by simp) fun _ hended => hended
    · exact hfits
  active ptr hptr := by
    obtain ⟨fd, hfd, hptr⟩ := List.mem_filterMap.1 hptr
    obtain ⟨k, hk, hinterest⟩ := Option.bind_eq_some_iff.1 hptr
    obtain ⟨c, hc, hcfd, -⟩ := (h.fits fd k hk).pointer ptr hinterest
    refine ⟨c, if fd ∈ taken then { k with ready := false } else k, hc, ?_, ?_⟩
    · rw [hcfd]
      exact getElem?_taken hk
    · split <;> exact hinterest
  nodup := by
    refine List.Nodup.filterMap (fun fd fd' ptr hptr hptr' => ?_) (hnodup.filter _)
    obtain ⟨k, hk, hinterest⟩ := Option.bind_eq_some_iff.1 hptr
    obtain ⟨k', hk', hinterest'⟩ := Option.bind_eq_some_iff.1 hptr'
    exact h.owner hk hk' hinterest hinterest'

/-- The client whose callback runs is the one that its descriptor is registered with. -/
theorem Inv.calling (h : Inv s) {cl : Nat} {ev : List Nat} {c : Client} {k : Sock}
    (hc : Calling s cl ev c k) : k.interest = some cl := by
  obtain ⟨c', k', hc', hk', hinterest⟩ := h.active cl (by rw [hc.pc]; exact List.mem_cons_self)
  cases hc.client.symm.trans hc'
  cases hc.sock.symm.trans hk'
  exact hinterest

/-- The end of a connection is read: its descriptor is removed, and its client is not called again. -/
theorem Inv.readEnd (h : Inv s) {cl : Nat} {ev : List Nat} {c : Client} {k : Sock}
    (hc : Calling s cl ev c k) (del : Bool) : Inv { sockdel del s c.fd with pc := .poll ev } := by
  cases del with
  | false => exact h.return hc.pc
  | true =>
    have hreturn := h.return hc.pc
    have hnodup := h.nodup
    rw [hc.pc] at hnodup
    refine ⟨h.threaded, fun c' hc' => ?_, fun fd k' hk' => ?_, fun ptr hptr => ?_, hreturn.nodup⟩
    · show c'.fd < (s.socks.modify c.fd _).length
      rw [List.length_modify]
      exact h.opened c' hc'
    · rcases modify_cases hk' with ⟨rfl, k0, hk0, rfl⟩ | ⟨-, hk0⟩
      · exact ⟨by simp, by simp, (h.fits c.fd k0 hk0).listener⟩
      · exact h.fits fd k' hk0
    · refine (hreturn.active ptr hptr).congr (.refl _) fun fd k' hk' hptr' => ?_
      -- another client is registered with another descriptor
      have hfd : c.fd ≠ fd := by
        rintro rfl
        cases hc.sock.symm.trans hk'
        cases (h.calling hc).symm.trans hptr'
        exact (List.nodup_cons.1 hnodup).1 hptr
      exact ⟨k', (modify_ne hfd).trans hk', hptr'⟩

/-- **One step** keeps the invariant. -/
theorem Inv.step (h : Inv s) {x : Act} (hs : step s x = some s') : Inv s' := by
  have harrive : ∀ {fd n ended} {k : Sock}, s.socks[fd]? = some k →
      (k.listening = true → ended = false) → Fits s.heap fd (k.arrive n ended) := by
    intro fd n ended k hk hlistening
    refine (h.fits fd k hk).update (.refl _) rfl rfl ?_ ?_
    · intro hready
      rcases Bool.or_eq_true_iff.1 hready with hready | hinterest
      · exact (h.fits fd k hk).armed hready
      · exact hinterest
    · intro hl hended
      rw [Sock.arrive, hended, hlistening hl]
      rfl
  have hless : ∀ {fd n} {k : Sock}, s.socks[fd]? = some k →
      Fits s.heap fd { k with waiting := k.waiting - n } := fun hk =>
    (h.fits _ _ hk).update (.refl _) rfl rfl (h.fits _ _ hk).armed fun _ hended => hended
  -- an accepted connection, behind `sockadd`
  have haccept : ∀ {cl ev c k n ended} {a : Add}, Calling s cl ev c k →
      Inv (sockadd a (accepting s c.fd n ended) s.socks.length .clientCb) := by
    intro cl ev c k n ended a hc
    have hopen : Inv (accepting s c.fd n ended) :=
      (h.modify c.fd fun k hk => ⟨hless hk, rfl⟩).open rfl rfl (by simp)
    have hnew := getElem?_accepting s c.fd n ended
    exact hopen.add hnew rfl (by simp) (sockadd_spec a .clientCb hnew hopen.threaded)
  cases Effect.of_step hs with
  | arrive hk hended => exact h.modify _ fun k' hk' => ⟨harrive hk' fun _ => rfl, rfl⟩
  | hangup hk hlistening =>
    refine h.modify _ fun k' hk' => ⟨harrive hk' fun hl => ?_, rfl⟩
    cases hk.symm.trans hk'
    rw [hlistening] at hl
    cases hl
  | wait hpc hnodup hready => exact h.polled hnodup
  | waitFailed hpc => exact h.setPc (fun ptr hptr => absurd hptr List.not_mem_nil) List.nodup_nil
  | call hpc =>
    have hnodup := h.nodup
    rw [hpc] at hnodup
    refine h.setPc (fun ptr hptr => ?_) (List.nodup_append_comm.1 hnodup)
    rw [hpc]
    rcases List.mem_cons.1 hptr with rfl | hptr
    · exact List.mem_append_right _ List.mem_cons_self
    · exact List.mem_append_left _ hptr
  | readFailed hc hcb herr => exact h.return hc.pc
  | readEnd hc hcb hwaiting hended => exact h.readEnd hc _
  | readData hc hcb hn => exact h.modify _ fun k hk => ⟨hless hk, rfl⟩
  | acceptFailed hc hcb herr => exact h.return hc.pc
  | accepted hc hcb hwaiting hok => exact haccept hc
  | @acceptLost cl ev c k n ended a hc hcb hwaiting hok =>
    have hpc : (sockadd a (accepting s c.fd n ended) s.socks.length .clientCb).pc = .callback cl ev := by
      rw [← hc.pc, sockadd]
      split
      · split <;> rfl
      · rfl
    exact (haccept hc).return hpc

/-- The state in which the loop of `main` starts. -/
theorem inv_main (u : Setup) : Inv (main u) := by
  have hempty : Inv {} :=
    ⟨rfl, fun _ hc => absurd hc List.not_mem_nil, fun _ _ hk => by simp at hk,
      fun _ hptr => absurd hptr List.not_mem_nil, List.nodup_nil⟩
  rw [main, ip4add]
  split
  · split
    · next n _ _ =>
      have hopen : Inv { socks := [{ listening := true, waiting := n }] } :=
        hempty.open rfl rfl fun _ => rfl
      exact hopen.add rfl rfl (by simp) (sockadd_spec u.add .serverCb rfl hopen.threaded)
    · exact hempty.open (k := {}) rfl rfl fun _ => rfl
  · exact hempty

end Kept

/-- The process runs `main`, whatever arrives and whatever its calls answer. -/
def Reached (s : State) : Prop := ∃ u, Run step (fun _ _ => True) (main u) s

/-- **The invariant** holds of every state reached. -/
theorem Reached.inv {s : State} (h : Reached s) : Inv s := by
  obtain ⟨u, hrun⟩ := h
  exact hrun.invariant (fun _ _ _ hI _ hs => hI.step hs) (inv_main u)

/-! ## What is never freed -/

/-- The clients and descriptors are kept, and those that are not registered stay so. -/
structure Grown (s s' : State) : Prop where
  heap : HeapKept s.heap s'.heap
  socks : s.socks.length ≤ s'.socks.length
  removed : ∀ (fd : Nat) (k : Sock), s.socks[fd]? = some k → k.interest = none →
    ∃ k' : Sock, s'.socks[fd]? = some k' ∧ k'.interest = none

namespace Grown

variable {s s' s'' : State}

/-- Nothing has happened. -/
theorem refl (s : State) : Grown s s := ⟨.refl _, Nat.le_refl _, fun _ k hk hnone => ⟨k, hk, hnone⟩⟩

/-- Two steps, one behind the other. -/
theorem trans (h : Grown s s') (h' : Grown s' s'') : Grown s s'' := by
  refine ⟨h.heap.trans h'.heap, Nat.le_trans h.socks h'.socks, fun fd k hk hnone => ?_⟩
  obtain ⟨k', hk', hnone'⟩ := h.removed fd k hk hnone
  exact h'.removed fd k' hk' hnone'

/-- The place in the program is no part of it. -/
theorem setPc (h : Grown s s') (pc : Pc) : Grown s { s' with pc := pc } := ⟨h.heap, h.socks, h.removed⟩

/-- A change of a descriptor that registers nothing. -/
theorem modify (s : State) (fd : Nat) {f : Sock → Sock}
    (hf : ∀ k : Sock, k.interest = none → (f k).interest = none) :
    Grown s { s with socks := s.socks.modify fd f } := by
  refine ⟨.refl _, Nat.le_of_eq (List.length_modify _ _ _).symm, fun fd' k hk hnone => ?_⟩
  by_cases hfd : fd = fd'
  · subst hfd
    exact ⟨f k, modify_self hk, hf k hnone⟩
  · exact ⟨k, (modify_ne hfd).trans hk, hnone⟩

/-- An accepted connection is a new descriptor. -/
theorem accept (s : State) (fd n : Nat) (ended : Bool) : Grown s (accepting s fd n ended) := by
  have hmodify := modify s fd (f := fun k => { k with waiting := k.waiting - 1 }) fun _ hnone => hnone
  refine hmodify.trans ⟨.refl _, ?_, fun fd' k hk hnone => ⟨k, ?_, hnone⟩⟩
  · exact (List.sublist_append_left _ _).length_le
  · exact (List.getElem?_append_left (List.getElem?_eq_some_iff.1 hk).1).trans hk

/-- A descriptor that was not there before is added. -/
theorem add {a : Add} {fd : Nat} {cb : Cb} {k : Sock} (h : Grown s s') (ha : Adds a s' s'' fd cb k)
    (hfd : s.socks.length ≤ fd) : Grown s s'' := by
  refine ⟨h.heap.trans ha.heap, Nat.le_trans h.socks (Nat.le_of_eq ha.length.symm), fun fd' k' hk' hnone => ?_⟩
  obtain ⟨k'', hk'', hnone'⟩ := h.removed fd' k' hk' hnone
  have hlt := (List.getElem?_eq_some_iff.1 hk').1
  exact ⟨k'', (ha.others fd' (by omega)).trans hk'', hnone'⟩

end Grown

/-- **One step** frees no client and registers no descriptor again. -/
theorem Inv.grown {s s' : State} (h : Inv s) {x : Act} (hs : PollServer.step s x = some s') :
    Grown s s' := by
  have haccept : ∀ {cl ev c k n ended} {a : Add}, Calling s cl ev c k →
      Grown s (sockadd a (accepting s c.fd n ended) s.socks.length .clientCb) := by
    intro cl ev c k n ended a hc
    have hnew := getElem?_accepting s c.fd n ended
    exact (Grown.accept s c.fd n ended).add (sockadd_spec a .clientCb hnew h.threaded) (Nat.le_refl _)
  cases Effect.of_step hs with
  | arrive hk hended => exact .modify s _ fun _ hnone => hnone
  | hangup hk hlistening => exact .modify s _ fun _ hnone => hnone
  | @wait taken hpc hnodup hready =>
    refine ⟨.refl _, Nat.le_of_eq (length_taken _ _).symm, fun fd k hk hnone => ?_⟩
    refine ⟨_, getElem?_taken hk, ?_⟩
    split <;> exact hnone
  | waitFailed hpc => exact (Grown.refl s).setPc _
  | call hpc => exact (Grown.refl s).setPc _
  | readFailed hc hcb herr => exact (Grown.refl s).setPc _
  | @readEnd cl ev c k del hc hcb hwaiting hended =>
    cases del with
    | false => exact (Grown.refl s).setPc _
    | true => exact (Grown.modify s c.fd fun _ _ => rfl).setPc _
  | readData hc hcb hn => exact .modify s _ fun _ hnone => hnone
  | acceptFailed hc hcb herr => exact (Grown.refl s).setPc _
  | accepted hc hcb hwaiting hok => exact haccept hc
  | acceptLost hc hcb hwaiting hok => exact (haccept hc).setPc _

/-- Behind a callback that has read the end of its connection, and whose `sockdel` succeeded, the descriptor
is not registered. -/
theorem unregistered_of_readEnd {s t : State} {cl : Nat} {ev : List Nat} {c : Client}
    (hpc : s.pc = .callback cl ev) (hc : s.heap[cl]? = some c)
    (hend : step s (.read (.ok 0) true) = some t) :
    ∃ k : Sock, t.socks[c.fd]? = some k ∧ k.interest = none := by
  cases Effect.of_step hend with
  | @readEnd _ _ c' k _ hcalling hcb hwaiting hended =>
    obtain ⟨rfl, -⟩ := Pc.callback.inj (hpc.symm.trans hcalling.pc)
    cases hc.symm.trans hcalling.client
    exact ⟨{ k with interest := none, ready := false }, modify_self hcalling.sock, rfl⟩

/-- The client of a descriptor that is not registered is not called and not to be called. -/
theorem Inv.not_active {s : State} (h : Inv s) {fd : Nat} {k : Sock} (hk : s.socks[fd]? = some k)
    (hnone : k.interest = none) {ptr : Nat} (hptr : ptr ∈ s.pc.active) {c : Client}
    (hc : s.heap[ptr]? = some c) : c.fd ≠ fd := by
  rintro rfl
  obtain ⟨c', k', hc', hk', hinterest⟩ := h.active ptr hptr
  cases hc.symm.trans hc'
  cases hk.symm.trans hk'
  rw [hnone] at hinterest
  cases hinterest

/-- **No client is freed, and none is called behind the end of its connection.** The list has all clients
that were ever added, newest first and linked both ways, and a client or descriptor that is there stays.
When `s` is the state behind a callback that has read the end of its connection and whose `sockdel`
succeeded, its descriptor is not registered and its client not called in any state that follows. -/
theorem pm_never_frees {s s' : State} (h : Reached s) (hrun : Run step (fun _ _ => True) s s') :
    Threaded s'.links .head s'.head (List.range s'.heap.length).reverse ∧
      walk s'.links s'.heap.length s'.head = (List.range s'.heap.length).reverse ∧
      HeapKept s.heap s'.heap ∧ s.socks.length ≤ s'.socks.length ∧
      ∀ (t : State) (cl : Nat) (ev : List Nat) (c : Client), t.pc = .callback cl ev →
        t.heap[cl]? = some c → step t (.read (.ok 0) true) = some s →
          (∃ k : Sock, s'.socks[c.fd]? = some k ∧ k.interest = none) ∧
            ∀ ptr ∈ s'.pc.active, ∀ c' : Client, s'.heap[ptr]? = some c' → c'.fd ≠ c.fd := by
  obtain ⟨hinv, hgrown⟩ := hrun.invariant (I := fun t => Inv t ∧ Grown s t)
    (fun _ _ _ hI _ hs => ⟨hI.1.step hs, hI.2.trans (hI.1.grown hs)⟩) ⟨h.inv, .refl s⟩
  have hwalk := hinv.threaded.walk_eq
  rw [List.length_reverse, List.length_range] at hwalk
  refine ⟨hinv.threaded, hwalk, hgrown.heap, hgrown.socks, fun t cl ev c hpc hc hend => ?_⟩
  obtain ⟨k, hk, hnone⟩ := unregistered_of_readEnd hpc hc hend
  obtain ⟨k', hk', hnone'⟩ := hgrown.removed c.fd k hk hnone
  exact ⟨⟨k', hk', hnone'⟩, fun ptr hptr c' hc' => hinv.not_active hk' hnone' hptr hc'⟩

/-- A client connects, sends nothing, and goes: up to the `read` of its end. -/
def visit : List Act :=
  [.arrive 0 1, .wait [0], .call, .accept (.ok (0, true)) {}, .accept (.error eagain) {}, .wait [1], .call]

/-- The state at that `read`. -/
def visitState : State where
  socks := [{ listening := true, interest := some 0 }, { ended := true, interest := some 1 }]
  heap := [⟨0, .serverCb, .next 1, none⟩, ⟨1, .clientCb, .head, some 0⟩]
  head := some 1
  pc := .callback 1 []

/-- The state behind it. -/
def leftState : State :=
  { visitState with
    socks := [{ listening := true, interest := some 0 }, { ended := true }]
    pc := .poll [] }

/-- The next client connects. -/
def nextVisit : List Act := [.arrive 0 1, .wait [0], .call, .accept (.ok (3, false)) {}]

/-- The end of the first connection was read, and the second one is accepted. -/
theorem pm_never_frees_visit : ∃ s', execute step (fun _ _ => True) (main {}) (visit ++ [.read (.ok 0) true]) =
      some leftState ∧ execute step (fun _ _ => True) leftState nextVisit = some s' ∧
    walk s'.links s'.heap.length s'.head = [2, 1, 0] ∧
      (∃ k : Sock, s'.socks[1]? = some k ∧ k.interest = none) ∧
      ∀ ptr ∈ s'.pc.active, ∀ c : Client, s'.heap[ptr]? = some c → c.fd ≠ 1 := by
  have hreached : execute step (fun _ _ => True) (main {}) (visit ++ [.read (.ok 0) true]) =
      some leftState := rfl
  obtain ⟨-, hwalk, -, -, hleft⟩ := pm_never_frees ⟨{}, run_of_execute _ hreached⟩
    (run_of_execute nextVisit (show execute step (fun _ _ => True) leftState nextVisit = some _ from rfl))
  exact ⟨_, hreached, rfl, hwalk, hleft visitState 1 [] _ rfl rfl rfl⟩

end ExamplePrograms.Other.PollServer
