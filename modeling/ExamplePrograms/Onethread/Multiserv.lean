import Mathlib.Logic.Function.Basic
import ExamplePrograms.Onethread.Sockbuf.Program

/-!
# Three services in one thread

`multiserv.c`. Each service has a listening sockbuf and a handler; a connection gets the handler of its
listener. The handlers share one `multidata_t`, whose `last` names the service that was used last by
any connection.

The three handlers define the same callbacks and differ in the name that they print. Which of them a
sockbuf has is kept in the data of the program, since a handler record here does not have an address.
-/

set_option autoImplicit false

namespace ExamplePrograms.Onethread.Multiserv

open ExamplePrograms.Lib.Runs ExamplePrograms.Onethread.Sockbuf ExamplePrograms.Onethread.Sockbuf.State

/-- `servone_handler`, `servtwo_handler` and `servthr_handler`. -/
inductive Service where
  | one
  | two
  | thr
  deriving DecidableEq, Repr

/-- The name that a service prints. -/
def Service.name : Service → String
  | .one => "ONE"
  | .two => "two"
  | .thr => "(3)"

/-- The callbacks that each of the three handlers defines. -/
def handler : SockbufHandler := { onEof := true, onNewclient := true, onRead := true }

/-- A line that is printed: its service, and the values in it. -/
inductive Line where
  | accepted (service : Service) (sock : Int) (peerIp : Option String) (peerPort : Int)
  | closed (service : Service) (sock : Int) (err : Nat)
  | received (service : Service) (len : Nat) (data : List UInt8) (last : String)
  deriving DecidableEq, Repr

/-- `multidata_t`, with the handler of each sockbuf and the lines printed so far. -/
structure Multidata where
  last : String := "NONE"
  handlers : Nat → Service := fun _ => .one
  printed : List Line := []

/-- A line that is printed. -/
def Multidata.print (d : Multidata) (line : Line) : Multidata :=
  { d with printed := d.printed ++ [line] }

/-- `sockbuf_set_handler` with the handler of `service`, as far as it is not in the record. -/
def Multidata.setHandler (d : Multidata) (s : State) (idx : Nat) (service : Service) : Multidata :=
  if sockbufIsvalid s idx then { d with handlers := Function.update d.handlers idx service } else d

/-- The `on_newclient` of a service. -/
def onConnect (service : Service) (d : Multidata) (s : State) (clientData newidx : Nat)
    (peerIp : Option String) (peerPort : Int) : Served Multidata where
  data :=
    (d.print (.accepted service (sockbufGetSock s newidx) peerIp peerPort)).setHandler s newidx service
  st := sockbufSetHandler s newidx handler clientData

/-- The `on_eof` of a service. -/
def onEof (service : Service) (d : Multidata) (s : State) (idx err : Nat) : Served Multidata where
  data := d.print (.closed service (sockbufGetSock s idx) err)
  st := s

/-- The `on_read` of a service. -/
def onRead (service : Service) (d : Multidata) (s : State) (data : List UInt8) :
    Served Multidata where
  data := { d.print (.received service data.length data d.last) with last := service.name }
  st := s

/-- `servone_on_connect`. -/
def servoneOnConnect := onConnect .one

/-- `servone_on_eof`. -/
def servoneOnEof := onEof .one

/-- `servone_on_read`. -/
def servoneOnRead := onRead .one

/-- `servtwo_on_connect`. -/
def servtwoOnConnect := onConnect .two

/-- `servtwo_on_eof`. -/
def servtwoOnEof := onEof .two

/-- `servtwo_on_read`. -/
def servtwoOnRead := onRead .two

/-- `servthr_on_connect`. -/
def servthrOnConnect := onConnect .thr

/-- `servthr_on_eof`. -/
def servthrOnEof := onEof .thr

/-- `servthr_on_read`. -/
def servthrOnRead := onRead .thr

/-- The callbacks of the handler of the sockbuf. -/
def serve (_ : Unit) (d : Multidata) (s : State) (cb : Callback) : Option (Served Multidata) :=
  match d.handlers cb.idx, cb.call with
  | .one, .newclient newidx ip port => some (servoneOnConnect d s cb.clientData newidx ip port)
  | .one, .eof err => some (servoneOnEof d s cb.idx err)
  | .one, .read data => some (servoneOnRead d s data)
  | .two, .newclient newidx ip port => some (servtwoOnConnect d s cb.clientData newidx ip port)
  | .two, .eof err => some (servtwoOnEof d s cb.idx err)
  | .two, .read data => some (servtwoOnRead d s data)
  | .thr, .newclient newidx ip port => some (servthrOnConnect d s cb.clientData newidx ip port)
  | .thr, .eof err => some (servthrOnEof d s cb.idx err)
  | .thr, .read data => some (servthrOnRead d s data)
  | _, _ => none

/-- The program: what it does in each of the callbacks of the module. -/
def program : Program Multidata Unit := ⟨serve⟩

/-- One of the three parts of `main`: a sockbuf for the listening socket `sock`. The program ends when
there is no socket. -/
def addService (k : Kernel) (sock : Int) (service : Service) (c : Process Multidata) :
    Option (Process Multidata) :=
  if sock < 0 then none
  else
    let sbuf := (sockbufNew c.config.st).2
    let s := sockbufSetSock k (sockbufNew c.config.st).1 sbuf sock { server := true }
    some
      { config :=
          { st := sockbufSetHandler s sbuf handler 0
            trace := c.config.trace ++
              (.created sbuf :: attachEvents (sockbufNew c.config.st).1 sbuf sock) }
        data := c.data.setHandler s sbuf service }

/-- `main` up to its loop, with the results of its three `socket_create` calls. -/
def main (k : Service → Kernel) (sock : Service → Int) : Option (Process Multidata) :=
  ((addService (k .one) (sock .one) .one ⟨start, {}⟩).bind
    (addService (k .two) (sock .two) .two)).bind (addService (k .thr) (sock .thr) .thr)

/-! ## The callbacks -/

/-- What the program does in a callback. -/
theorem serve_eq (e : Unit) (d : Multidata) (s : State) (cb : Callback) :
    serve e d s cb =
      match cb.call with
      | .newclient newidx ip port =>
          some (onConnect (d.handlers cb.idx) d s cb.clientData newidx ip port)
      | .eof err => some (onEof (d.handlers cb.idx) d s cb.idx err)
      | .read data => some (onRead (d.handlers cb.idx) d s data)
      | _ => none := by
  rw [serve]
  cases d.handlers cb.idx <;> cases cb.call <;> rfl

/-- The callbacks of the program only call the module. -/
theorem faithful : program.Faithful := by
  intro e d s cb r h
  have hserve : serve e d s cb = some r := h
  have hset := fun newidx => Calls.call (f := .setHandler newidx handler cb.clientData) (k := {})
    (s := s) trivial rfl rfl
  rw [serve_eq] at hserve
  split at hserve
  · next newidx ip port hcall =>
    cases hserve
    exact ⟨by simp [hcall], hset newidx⟩
  · next err hcall =>
    cases hserve
    exact ⟨by simp [hcall], .refl s⟩
  · next data hcall =>
    cases hserve
    exact ⟨by simp [hcall], .refl s⟩
  · cases hserve

/-! ## The invariant -/

/-- The record of slot `j`. -/
structure Slot (j : Nat) (sb : SockbufT) : Prop where
  nfilters : sb.nfilters = 0
  handler : sb.handler = some handler
  stats : sb.stats.isSome = true
  connecting : sb.flags.connecting = false
  server : sb.flags.server = true → j < 3

/-- No filter is attached to a slot. -/
theorem Slot.filterAbove {j : Nat} {sb : SockbufT} (h : Slot j sb) (level : Int)
    (defines : SockbufFilter → Bool) : sb.filterAbove level defines = none := by
  rw [SockbufT.filterAbove, SockbufT.chain, h.nfilters]
  rfl

/-- The module keeps the slots of the program. -/
theorem calm : Calm 3 Slot where
  keeps j sb sb' hk h :=
    ⟨hk.nfilters.trans h.nfilters, hk.handler.trans h.handler, hk.stats.trans h.stats,
      Bool.eq_false_iff.2 fun hc => absurd (hk.connecting hc) (by rw [h.connecting]; exact Bool.false_ne_true),
      fun hs => h.server (hk.server hs)⟩
  connecting _ _ h := h.connecting
  server _ _ h := h.server

/-- The lines about received data: the service, the data and the service named last. -/
def Line.reception : Line → Option (Service × List UInt8 × String)
  | .received service _ data last => some (service, data, last)
  | _ => none

/-- The reads that were printed: the service, the data, and the name of the service before it. -/
def Multidata.receptions (d : Multidata) : List (Service × List UInt8 × String) :=
  d.printed.filterMap Line.reception

/-- The number of slots in use. -/
def slots (tr : List Event) : Nat := 3 + (clients tr).length

/-- The run of the module is clean, its slots are those of the program, and the printed lines say what each
service heard. -/
structure Inv (c : Process Multidata) : Prop where
  run : Run Sockbuf.step (Clean anySock) start c.config
  inUse : InUse Slot (slots c.config.trace) c.config.st
  stack : ∀ t ∈ c.config.stack, t.Polled 3 (slots c.config.trace)
  consecutive : (clients c.config.trace).map Prod.snd = List.range' 3 (clients c.config.trace).length
  listeners : c.data.handlers 0 = .one ∧ c.data.handlers 1 = .two ∧ c.data.handlers 2 = .thr
  services : ∀ e ∈ clients c.config.trace, e.1 < 3 ∧ c.data.handlers e.2 = c.data.handlers e.1
  heard : ∀ e ∈ heard c.config.trace, e.1 < slots c.config.trace
  lines : c.data.receptions.map (fun r => (r.1, r.2.1)) =
    (Sockbuf.heard c.config.trace).map fun e => (c.data.handlers e.1, e.2)
  last : c.data.receptions.map (fun r => r.2.2) ++ [c.data.last] =
    "NONE" :: c.data.receptions.map fun r => r.1.name

/-- What the data of the program say after a callback, apart from an accepted connection: the read
`r` of it, if any, is one more line. -/
structure Prints (d : Multidata) (r : Option (Nat × List UInt8)) (d' : Multidata) : Prop where
  handlers : d'.handlers = d.handlers
  receptions : d'.receptions =
    d.receptions ++ r.toList.map fun e => (d.handlers e.1, e.2, d.last)
  last : d'.last = match r with
    | some e => (d.handlers e.1).name
    | none => d.last

/-- Nothing is printed. -/
theorem Prints.refl (d : Multidata) : Prints d none d := ⟨rfl, (List.append_nil _).symm, rfl⟩

/-- A step without a new connection keeps the invariant. -/
theorem Inv.next {c : Process Multidata} (h : Inv c) {st : State} {stack : List Task}
    {es : List Event} {r : Option (Nat × List UInt8)} {d : Multidata}
    (hrun : Run Sockbuf.step (Clean anySock) start ⟨st, stack, c.config.trace ++ es⟩)
    (hslots : InUse Slot (slots c.config.trace) st)
    (hstack : ∀ t ∈ stack, t.Polled 3 (slots c.config.trace)) (hclients : clients es = [])
    (hheard : Sockbuf.heard es = r.toList) (hr : ∀ e ∈ r, e.1 < slots c.config.trace)
    (hd : Prints c.data r d) : Inv ⟨⟨st, stack, c.config.trace ++ es⟩, d⟩ := by
  have hc : clients (c.config.trace ++ es) = clients c.config.trace := by
    rw [clients_append, hclients, List.append_nil]
  have hs : slots (c.config.trace ++ es) = slots c.config.trace := by rw [slots, hc, slots]
  have hh : Sockbuf.heard (c.config.trace ++ es) = Sockbuf.heard c.config.trace ++ r.toList := by
    rw [heard_append, hheard]
  refine ⟨hrun, ?_, ?_, ?_, ?_, ?_, ?_, ?_, ?_⟩
  · show InUse Slot (slots (c.config.trace ++ es)) st
    rw [hs]
    exact hslots
  · show ∀ t ∈ stack, t.Polled 3 (slots (c.config.trace ++ es))
    rw [hs]
    exact hstack
  · show (clients (c.config.trace ++ es)).map Prod.snd = _
    simp only [hc]
    exact h.consecutive
  · show d.handlers 0 = _ ∧ _
    rw [hd.handlers]
    exact h.listeners
  · show ∀ e ∈ clients (c.config.trace ++ es), _ ∧ d.handlers e.2 = d.handlers e.1
    rw [hc, hd.handlers]
    exact h.services
  · show ∀ e ∈ Sockbuf.heard (c.config.trace ++ es), e.1 < slots (c.config.trace ++ es)
    rw [hs, hh]
    intro e he
    rcases List.mem_append.1 he with he | he
    · exact h.heard e he
    · exact hr e (Option.mem_toList.1 he)
  · show d.receptions.map _ = (Sockbuf.heard (c.config.trace ++ es)).map _
    rw [hh, hd.receptions, hd.handlers, List.map_append, List.map_append, h.lines, List.map_map]
    rfl
  · show d.receptions.map _ ++ [d.last] = _
    have hlast := h.last
    rw [hd.receptions, hd.last, List.map_append, List.map_append, List.map_map, List.map_map]
    cases r with
    | none => simpa using hlast
    | some e =>
      rw [← List.cons_append, ← hlast]
      simp

/-! ## The steps -/

section Steps

variable {c : Process Multidata}

/-- The reads that were printed, one line further. -/
theorem receptions_print (d : Multidata) (line : Line) :
    (d.print line).receptions = d.receptions ++ line.reception.toList := by
  rw [Multidata.receptions, Multidata.print, List.filterMap_append, Multidata.receptions]
  cases line <;> rfl

/-- The end of a connection is no read. -/
theorem prints_onEof (service : Service) (d : Multidata) (s : State) (idx err : Nat) :
    Prints d none (onEof service d s idx err).data :=
  ⟨rfl, receptions_print d _, rfl⟩

/-- A read is printed with the service before it. -/
theorem prints_onRead (d : Multidata) (s : State) (idx : Nat) (data : List UInt8) :
    Prints d (some (idx, data)) (onRead (d.handlers idx) d s data).data :=
  ⟨rfl, receptions_print d _, rfl⟩

/-- The table of a state between two tasks of a pass. -/
theorem Inv.table (h : Inv c) : TableInv none c.config.st := by
  have hclean := (cleanInvariant_tableJ (G := anySock) fun _ _ => trivial).settled .init h.run
    fun t ht => (h.stack t ht).ordinary
  exact hclean.1

/-- Work on the sockbuf `j` that calls nobody, or the handler with eof or with data. -/
theorem Inv.work (h : Inv c) {x : Move Unit} {k : Kernel} {e : Unit} {t : Task} {rest : List Task}
    {o : Outcome} {c' : Process Multidata} (hs : program.step c x = some c')
    (hx : x = .run k e) (hstack : c.config.stack = t :: rest) (ho : t.exec k c.config.st = some o)
    {j : Nat} (hj : j < slots c.config.trace) (hw : Within j c.config.st o.events o.st)
    {cbs : List Callback} (hasks : o.Asks cbs)
    (hcbs : cbs = [] ∨ (∃ cd err, cbs = [⟨none, cd, j, .eof err⟩]) ∨
      ∃ cd data, cbs = [⟨none, cd, j, .read data⟩]) : Inv c' := by
  have hrun := h.run.trans (faithful.step hs)
  have hrest : ∀ u ∈ rest, u.Polled 3 (slots c.config.trace) := fun u hu =>
    h.stack u (by rw [hstack]; exact List.mem_cons_of_mem _ hu)
  have hslots := h.inUse.within calm.keeps hw
  subst hx
  rcases hcbs with rfl | ⟨cd, err, rfl⟩ | ⟨cd, data, rfl⟩
  · cases Program.step_none hs hstack ho hasks
    refine h.next (r := none) hrun hslots hrest ?_ ?_ (fun _ he => by cases he) (.refl _)
    · rw [clients, hasks.events]
      rfl
    · rw [Sockbuf.heard, hasks.events]
      rfl
  · obtain ⟨r, hserve, rfl⟩ := Program.step_one hs hstack ho hasks
    cases (serve_eq () _ _ _).symm.trans hserve
    have hes : o.events ++ (onEof (c.data.handlers j) c.data o.st j err).events = o.events :=
      List.append_nil _
    simp only [hes] at hrun ⊢
    refine h.next (r := none) hrun hslots hrest ?_ ?_ (fun _ he => by cases he)
      (prints_onEof _ _ _ _ _)
    · rw [clients, hasks.events]
      rfl
    · rw [Sockbuf.heard, hasks.events]
      rfl
  · obtain ⟨r, hserve, rfl⟩ := Program.step_one hs hstack ho hasks
    cases (serve_eq () _ _ _).symm.trans hserve
    have hes : o.events ++ (onRead (c.data.handlers j) c.data o.st data).events = o.events :=
      List.append_nil _
    simp only [hes] at hrun ⊢
    refine h.next (r := some (j, data)) hrun hslots hrest ?_ ?_ ?_ (prints_onRead _ _ _ _)
    · rw [clients, hasks.events]
      rfl
    · rw [Sockbuf.heard, hasks.events]
      rfl
    · intro e he
      cases he
      exact hj

/-- An accepted connection takes the next slot and the handler of its listener. -/
theorem Inv.accept (h : Inv c) {i : Nat} (hi : i < 3) {k : Kernel} {sock : Int} {o : Outcome}
    {rest : List Task} (hrest : ∀ t ∈ rest, t.Polled 3 (slots c.config.trace)) {m : Nat}
    (hm : slots c.config.trace = m) (ho : Accepted k c.config.st i m sock o) {cd : Nat}
    {ip : Option String} {port : Int} {es : List Event}
    (hcb : callbacks es = [⟨none, cd, i, .newclient m ip port⟩])
    {r : Served Multidata} (hr : r = onConnect (c.data.handlers i) c.data o.st cd m ip port)
    (hrun : Run Sockbuf.step (Clean anySock) start ⟨r.st, rest, c.config.trace ++ es⟩) :
    Inv ⟨⟨r.st, rest, c.config.trace ++ es⟩, r.data⟩ := by
  have hinUse : InUse Slot m c.config.st := hm ▸ h.inUse
  have hvalid := ho.valid hinUse
  have hlt := (sockbufIsvalid_iff.1 hvalid).1
  have hc : clients (c.config.trace ++ es) = clients c.config.trace ++ [(i, m)] := by
    rw [clients_append]
    congr 1
    rw [clients, hcb]
    rfl
  have hheard : Sockbuf.heard (c.config.trace ++ es) = Sockbuf.heard c.config.trace := by
    rw [heard_append, Sockbuf.heard, Sockbuf.heard, hcb]
    exact List.append_nil _
  have hslots : slots (c.config.trace ++ es) = m + 1 := by
    rw [slots, hc, List.length_append, ← hm, slots]
    rfl
  have hst : r.st =
      o.st.update m fun sb => { sb with handler := some handler, clientData := cd } := by
    rw [hr, onConnect, sockbufSetHandler, if_pos hvalid]
  have hdata : r.data = { c.data.print (.accepted (c.data.handlers i) (sockbufGetSock o.st m) ip port)
      with handlers := Function.update c.data.handlers m (c.data.handlers i) } := by
    rw [hr, onConnect, Multidata.setHandler, if_pos hvalid]
    rfl
  have hhandlers : r.data.handlers = Function.update c.data.handlers m (c.data.handlers i) := by
    rw [hdata]
  -- the slots in use before keep their handlers
  have hold : ∀ j < m, Function.update c.data.handlers m (c.data.handlers i) j = c.data.handlers j :=
    fun j hj => Function.update_of_ne (by omega) _ _
  have hreceptions : r.data.receptions = c.data.receptions := by
    rw [hdata]
    exact (receptions_print c.data _).trans (List.append_nil _)
  have hlast : r.data.last = c.data.last := by
    rw [hdata]
    rfl
  have hthree : 3 ≤ m := by
    rw [← hm, slots]
    omega
  have hclient : ∀ e ∈ clients c.config.trace, e.2 < m := by
    intro e he
    have hmem := List.mem_map_of_mem (f := Prod.snd) he
    rw [h.consecutive, List.mem_range'_1] at hmem
    rw [← hm, slots]
    exact hmem.2
  refine ⟨hrun, ?_, ?_, ?_, ?_, ?_, ?_, ?_, ?_⟩
  · show InUse Slot (slots (c.config.trace ++ es)) r.st
    rw [hslots, hst]
    refine hinUse.push ?_ (fun j hj => ?_) ho.ndeleted ?_
    · rw [update_nsockbufs, ho.nsockbufs]
    · rw [sbuf_update_ne _ _ _ (Ne.symm hj), ho.others j hj]
    · rw [sbuf_update_self _ _ _ hlt, ho.last]
      exact ⟨rfl, rfl, rfl, rfl, rfl, rfl, fun hs => by cases hs⟩
  · show ∀ t ∈ rest, t.Polled 3 (slots (c.config.trace ++ es))
    rw [hslots]
    exact fun t ht => (hm ▸ hrest t ht).mono (Nat.le_succ m)
  · show (clients (c.config.trace ++ es)).map Prod.snd =
      List.range' 3 (clients (c.config.trace ++ es)).length
    rw [hc, List.map_append, h.consecutive, List.length_append, List.length_singleton,
      List.range'_concat, Nat.one_mul, ← hm, slots]
    rfl
  · show r.data.handlers 0 = _ ∧ r.data.handlers 1 = _ ∧ r.data.handlers 2 = _
    rw [hhandlers, hold 0 (by omega), hold 1 (by omega), hold 2 (by omega)]
    exact h.listeners
  · show ∀ e ∈ clients (c.config.trace ++ es), e.1 < 3 ∧ r.data.handlers e.2 = r.data.handlers e.1
    rw [hc, hhandlers]
    intro e he
    rcases List.mem_append.1 he with he | he
    · obtain ⟨hlt3, hservice⟩ := h.services e he
      rw [hold e.1 (by omega), hold e.2 (hclient e he)]
      exact ⟨hlt3, hservice⟩
    · cases List.mem_singleton.1 he
      rw [Function.update_self, hold i (by omega)]
      exact ⟨hi, rfl⟩
  · show ∀ e ∈ Sockbuf.heard (c.config.trace ++ es), e.1 < slots (c.config.trace ++ es)
    rw [hheard, hslots]
    exact fun e he => Nat.lt_succ_of_lt (hm ▸ h.heard e he)
  · show r.data.receptions.map _ = (Sockbuf.heard (c.config.trace ++ es)).map _
    rw [hheard, hreceptions, hhandlers, h.lines]
    exact List.map_congr_left fun e he => by rw [hold e.1 (hm ▸ h.heard e he)]
  · show r.data.receptions.map _ ++ [r.data.last] = _ :: r.data.receptions.map _
    rw [hreceptions, hlast]
    exact h.last

/-- **One step** keeps the invariant. -/
theorem Inv.step (h : Inv c) {x : Move Unit} {c' : Process Multidata}
    (hs : program.step c x = some c') : Inv c' := by
  have hrun := h.run.trans (faithful.step hs)
  have hnone : ∀ e ∈ (none : Option (Nat × List UInt8)), e.1 < slots c.config.trace :=
    fun _ he => by cases he
  rcases Program.step_cases hs with ⟨k, -, hstack, rfl⟩ | ⟨k, e, t, rest, o, rfl, hstack, ho, hend⟩
  -- a pass begins
  · obtain ⟨hslots, -, htasks⟩ := updateAll_spec (L := 3) h.inUse k
    have hcbs : callbacks (sockbufUpdateAll k c.config.st).events = [] := by
      rw [sockbufUpdateAll]
      split <;> rfl
    refine h.next (r := none) hrun hslots (by simpa using htasks) ?_ ?_ hnone (.refl _)
    · rw [clients, hcbs]
      rfl
    · rw [Sockbuf.heard, hcbs]
      rfl
  have ht : t.Polled 3 (slots c.config.trace) := h.stack t (by rw [hstack]; exact List.mem_cons_self)
  have hrest : ∀ u ∈ rest, u.Polled 3 (slots c.config.trace) := fun u hu =>
    h.stack u (by rw [hstack]; exact List.mem_cons_of_mem _ hu)
  have hslot : ∀ j < slots c.config.trace, Slot j (c.config.st.sbuf j) := fun j hj =>
    (h.inUse.used j hj).2.2
  cases t with
  | scan i n =>
    cases ho
    obtain ⟨hslots, -, htasks, hevents⟩ := scan_spec calm h.inUse h.table i n
    have hcbs : callbacks (updateScan c.config.st i n).events = [] := by
      rcases hevents with he | he <;> rw [he] <;> rfl
    rcases hend with ⟨-, rfl⟩ | ⟨cb, ts, r, hts, -⟩
    · refine h.next (r := none) hrun hslots (fun u hu => ?_) ?_ ?_ hnone (.refl _)
      · exact (List.mem_append.1 hu).elim (htasks u) (hrest u)
      · rw [clients, hcbs]
        rfl
      · rw [Sockbuf.heard, hcbs]
        rfl
    · -- the loop itself calls nobody
      exact absurd (htasks (.external cb) (by rw [hts]; exact List.mem_cons_self)) id
  | writable j connecting =>
    obtain ⟨hj, rfl⟩ := ht
    have hsl := hslot j hj
    have hw := (Within.gotWritable k c.config.st j).event (e := .dispatched j .writable) rfl
    cases ho
    rcases asks_gotWritable k (hsl.filterAbove _ _) (hsl.filterAbove _ _) hsl.handler rfl rfl with
      hasks | ⟨err, hasks⟩
    · exact h.work hs rfl hstack rfl hj hw (hasks.log rfl) (Or.inl rfl)
    · exact h.work hs rfl hstack rfl hj hw (hasks.log rfl) (Or.inr (Or.inl ⟨_, _, rfl⟩))
  | hangup j =>
    have hsl := hslot j ht
    have hw := (Within.gotEof k c.config.st j 0).event (e := .dispatched j .hangup) rfl
    cases ho
    obtain ⟨err, hasks⟩ := asks_gotEof k 0 (hsl.filterAbove _ _) hsl.handler rfl
    exact h.work hs rfl hstack rfl ht hw (hasks.log rfl) (Or.inr (Or.inl ⟨_, _, rfl⟩))
  | readable j server =>
    have hsl := hslot j ht.1
    cases server with
    | false =>
      have hw := (Within.gotReadable k c.config.st j).event (e := .dispatched j .readable) rfl
      cases ho
      obtain ⟨call, hasks, hcall⟩ := asks_gotReadable k (hsl.filterAbove _ _) (hsl.filterAbove _ _)
        hsl.stats hsl.handler rfl rfl
      refine h.work hs rfl hstack rfl ht.1 hw (hasks.log rfl) (Or.inr ?_)
      rcases hcall with ⟨err, rfl⟩ | ⟨data, rfl⟩
      · exact Or.inl ⟨_, _, rfl⟩
      · exact Or.inr ⟨_, _, rfl⟩
    | true =>
      cases ho
      rcases accept_cases h.inUse ht.1 k (hsl.filterAbove _ _) hsl.handler rfl with
        hidle | ⟨sock, -, hacc⟩
      · -- nobody was waiting
        have hw : Within j c.config.st [.dispatched j .readable] c.config.st :=
          (Within.refl j _).event rfl
        have hex : Task.exec k c.config.st (.readable j true) =
            some (({ st := c.config.st } : Outcome).log [.dispatched j .readable]) := by
          rw [Task.exec, if_pos rfl, hidle]
        exact h.work hs rfl hstack hex ht.1 hw ((asks_none _).log rfl) (Or.inl rfl)
      · have hasks := hacc.asks.log (e := .dispatched j .readable) rfl
        obtain ⟨r, hserve, rfl⟩ := Program.step_one hs hstack rfl hasks
        cases (serve_eq () _ _ _).symm.trans hserve
        have hes : ∀ es : List Event, es ++ (onConnect (c.data.handlers j) c.data
            (sockbufGotReadableServer k c.config.st j).st (c.config.st.sbuf j).clientData
            (slots c.config.trace) k.acceptPeer.1 k.acceptPeer.2).events = es :=
          fun es => List.append_nil es
        simp only [if_true, Outcome.log_st, hes] at hrun ⊢
        exact h.accept (ht.2 rfl) hrest rfl hacc hasks.events rfl hrun
  | external cb => exact absurd ht id
  | delete j i => exact absurd ht id
  | deleteFinish j => exact absurd ht id
  | shutdown i => exact absurd ht id
  | crash => exact absurd ht id

/-- The callback that a task of a pass ends in is one that the program defines. -/
theorem Inv.asks (h : Inv c) {t : Task} {rest : List Task} (hstack : c.config.stack = t :: rest)
    (k : Kernel) : ∃ o, t.exec k c.config.st = some o ∧
      ∀ cb ts, o.tasks = .external cb :: ts → (∃ err, cb.call = .eof err) ∨
        (∃ data, cb.call = .read data) ∨ ∃ newidx ip port, cb.call = .newclient newidx ip port := by
  have ht : t.Polled 3 (slots c.config.trace) := h.stack t (by rw [hstack]; exact List.mem_cons_self)
  have hslot : ∀ j < slots c.config.trace, Slot j (c.config.st.sbuf j) := fun j hj =>
    (h.inUse.used j hj).2.2
  -- an outcome that asks for nothing, and one that asks for the callback `cb`
  have hnothing : ∀ o : Outcome, o.Asks [] → ∀ cb ts, o.tasks ≠ .external cb :: ts := by
    intro o ho cb ts hts
    rw [ho.tasks] at hts
    cases hts
  have hone : ∀ (o : Outcome) (cb : Callback), o.Asks [cb] → ∀ cb' ts,
      o.tasks = .external cb' :: ts → cb' = cb := by
    intro o cb ho cb' ts hts
    rw [ho.tasks] at hts
    cases hts
    rfl
  cases t with
  | scan i n =>
    obtain ⟨-, -, htasks, -⟩ := scan_spec calm h.inUse h.table i n
    exact ⟨_, rfl, fun cb ts hts =>
      absurd (htasks (.external cb) (by rw [hts]; exact List.mem_cons_self)) id⟩
  | writable j connecting =>
    obtain ⟨hj, rfl⟩ := ht
    have hsl := hslot j hj
    refine ⟨_, rfl, fun cb ts hts => ?_⟩
    rcases asks_gotWritable k (hsl.filterAbove _ _) (hsl.filterAbove _ _) hsl.handler rfl rfl with
      hasks | ⟨err, hasks⟩
    · exact absurd hts (hnothing _ (hasks.log rfl) cb ts)
    · rw [hone _ _ (hasks.log (e := .dispatched j .writable) rfl) cb ts hts]
      exact Or.inl ⟨err, rfl⟩
  | hangup j =>
    have hsl := hslot j ht
    obtain ⟨err, hasks⟩ := asks_gotEof k 0 (hsl.filterAbove _ _) hsl.handler rfl
    refine ⟨_, rfl, fun cb ts hts => ?_⟩
    rw [hone _ _ (hasks.log (e := .dispatched j .hangup) rfl) cb ts hts]
    exact Or.inl ⟨err, rfl⟩
  | readable j server =>
    have hsl := hslot j ht.1
    refine ⟨_, rfl, fun cb ts hts => ?_⟩
    cases server with
    | false =>
      obtain ⟨call, hasks, hcall⟩ := asks_gotReadable k (hsl.filterAbove _ _) (hsl.filterAbove _ _)
        hsl.stats hsl.handler rfl rfl
      rw [hone _ _ (hasks.log (e := .dispatched j .readable) rfl) cb ts hts]
      rcases hcall with ⟨err, rfl⟩ | ⟨data, rfl⟩
      · exact Or.inl ⟨err, rfl⟩
      · exact Or.inr (Or.inl ⟨data, rfl⟩)
    | true =>
      rcases accept_cases h.inUse ht.1 k (hsl.filterAbove _ _) hsl.handler rfl with
        hidle | ⟨sock, -, hacc⟩
      · rw [if_pos rfl, hidle] at hts
        exact absurd hts (hnothing _ ((asks_none _).log rfl) cb ts)
      · rw [hone _ _ (hacc.asks.log (e := .dispatched j .readable) rfl) cb ts hts]
        exact Or.inr (Or.inr ⟨_, _, _, rfl⟩)
  | external cb => exact absurd ht id
  | delete j i => exact absurd ht id
  | deleteFinish j => exact absurd ht id
  | shutdown i => exact absurd ht id
  | crash => exact absurd ht id

/-- The program always goes on. -/
theorem Inv.goes_on (h : Inv c) (k : Kernel) :
    ∃ x c', program.step c x = some c' ∧ (x = .pass k ∨ x = .run k ()) := by
  cases hstack : c.config.stack with
  | nil => exact ⟨.pass k, _, by rw [Program.step, hstack], Or.inl rfl⟩
  | cons t rest =>
    obtain ⟨o, ho, hcalls⟩ := h.asks hstack k
    refine ⟨.run k (), ?_⟩
    rw [Program.step, hstack]
    simp only [ho, Option.bind_some, Program.settle]
    split
    · next cb ts hts =>
      have hserve : ∃ r, program.serve () c.data o.st cb = some r := by
        show ∃ r, serve () c.data o.st cb = some r
        rw [serve_eq]
        rcases hcalls cb ts hts with ⟨err, he⟩ | ⟨data, he⟩ | ⟨newidx, ip, port, he⟩ <;> rw [he] <;>
          exact ⟨_, rfl⟩
      obtain ⟨r, hr⟩ := hserve
      rw [hr]
      exact ⟨_, rfl, Or.inr trivial⟩
    · exact ⟨_, rfl, Or.inr trivial⟩

end Steps

/-! ## The start -/

/-- `main` with the first `m` services added. -/
structure Ready (m : Nat) (c : Process Multidata) : Prop where
  run : Run Sockbuf.step (Clean anySock) start c.config
  inUse : InUse Slot m c.config.st
  stack : c.config.stack = []
  callbacks : callbacks c.config.trace = []
  receptions : c.data.receptions = []
  last : c.data.last = "NONE"

/-- The program before its first service. -/
theorem ready_start : Ready 0 ⟨start, {}⟩ where
  run := .refl _
  inUse := ⟨Nat.le_refl _, fun j hj => absurd hj (Nat.not_lt_zero j),
    fun j _ hlt => absurd hlt (Nat.not_lt_zero j), rfl⟩
  stack := rfl
  callbacks := rfl
  receptions := rfl
  last := rfl

/-- A service is added in the next slot. -/
theorem Ready.addService {m : Nat} {c c' : Process Multidata} (h : Ready m c) (hm : m < 3)
    {k : Kernel} {sock : Int} {service : Service} (hc : addService k sock service c = some c') :
    Ready (m + 1) c' ∧ c'.data.handlers = Function.update c.data.handlers m service := by
  rw [Multiserv.addService] at hc
  split at hc
  · cases hc
  · next hsock =>
    have hidx : (sockbufNew c.config.st).2 = m := h.inUse.firstAvail_eq
    have hnew : sockbufIsvalid (sockbufNew c.config.st).1 m = true :=
      hidx ▸ sockbufIsvalid_sockbufNew _
    have hself : (sockbufNew c.config.st).1.sbuf m = newSlot :=
      h.inUse.firstAvail_eq ▸ sbuf_sockbufNew_self _
    have hvalid : sockbufIsvalid (sockbufSetSock k (sockbufNew c.config.st).1 m sock
        { server := true }) m = true := by
      rw [isvalid_sockbufSetSock ⟨rfl, rfl⟩ hnew]
      exact hnew
    simp only [hidx, Multidata.setHandler, hvalid, if_true, Option.some.injEq] at hc
    subst hc
    generalize hs : sockbufSetSock k (sockbufNew c.config.st).1 m sock { server := true } = s at hvalid
    have hset : sockbufSetHandler s m handler 0 =
        s.update m fun sb => { sb with handler := some handler, clientData := 0 } := by
      rw [sockbufSetHandler, if_pos hvalid]
    refine ⟨⟨?_, ?_, rfl, ?_, h.receptions, h.last⟩, rfl⟩
    -- the three calls of `main`
    · have hcalls : Run Sockbuf.step (Clean anySock) c.config
          ⟨sockbufSetHandler s m handler 0, [], c.config.trace ++
            (.created m :: attachEvents (sockbufNew c.config.st).1 m sock)⟩ := by
        refine Run.head (x := .call .new {}) ⟨by rw [h.stack]; rfl, trivial⟩
          (b := ⟨(sockbufNew c.config.st).1, [], c.config.trace ++ [.created m]⟩) ?_ ?_
        · simp only [Sockbuf.step, h.stack, externalControl, if_true, Api.apply, Option.map_some,
            Config.after, hidx, List.append_nil]
        · refine Run.head (x := .call (.setSock m sock { server := true }) k)
            ⟨rfl, ⟨rfl, rfl⟩, trivial⟩ (b := ⟨s, [], c.config.trace ++ [.created m] ++
              attachEvents (sockbufNew c.config.st).1 m sock⟩) ?_ ?_
          · simp only [Sockbuf.step, externalControl, if_true, Api.apply, Option.map_some,
              Config.after, List.append_nil, hs]
          · refine Run.head (x := .call (.setHandler m handler 0) k) ⟨rfl, trivial⟩ ?_ (.refl _)
            simp [Sockbuf.step, externalControl, Api.apply, Config.after]
      exact h.run.trans hcalls
    · show InUse Slot (m + 1) (sockbufSetHandler s m handler 0)
      rw [hset]
      have hns : s.nsockbufs = (sockbufNew c.config.st).1.nsockbufs := by
        rw [← hs, nsockbufs_sockbufSetSock k _ hnew]
      refine h.inUse.push (by rw [update_nsockbufs, hns]) (fun j hj => ?_) ?_ ?_
      · rw [sbuf_update_ne _ _ _ (Ne.symm hj), ← hs, sbuf_sockbufSetSock_ne hnew sock hj]
      · show s.ndeletedSockbufs = _
        rw [← hs, sockbufSetSock_ndeletedSockbufs k _ hnew]
        rfl
      · rw [sbuf_update_self _ _ _ (sockbufIsvalid_iff.1 hvalid).1, ← hs,
          sbuf_sockbufSetSock_self hnew, hself]
        exact ⟨rfl, rfl, rfl, rfl, rfl, rfl, fun _ => hm⟩
    · show Sockbuf.callbacks (_ ++ _) = []
      rw [callbacks_append, h.callbacks, attachEvents]
      split <;> rfl

/-- The state in which the loop of `main` starts. -/
theorem inv_main {k : Service → Kernel} {sock : Service → Int} {c : Process Multidata}
    (h : main k sock = some c) : Inv c := by
  obtain ⟨c2, h2, h3⟩ := Option.bind_eq_some_iff.1 h
  obtain ⟨c1, h1, h2⟩ := Option.bind_eq_some_iff.1 h2
  obtain ⟨hr1, hh1⟩ := ready_start.addService (by omega) h1
  obtain ⟨hr2, hh2⟩ := hr1.addService (by omega) h2
  obtain ⟨hr3, hh3⟩ := hr2.addService (by omega) h3
  have hclients : clients c.config.trace = [] := by
    rw [clients, hr3.callbacks]
    rfl
  have hheard : Sockbuf.heard c.config.trace = [] := by
    rw [Sockbuf.heard, hr3.callbacks]
    rfl
  have hslots : slots c.config.trace = 3 := by rw [slots, hclients]; rfl
  refine ⟨hr3.run, hslots ▸ hr3.inUse, ?_, ?_, ?_, ?_, ?_, ?_, ?_⟩
  · rw [hr3.stack]
    exact fun t ht => absurd ht List.not_mem_nil
  · rw [hclients]
    rfl
  · rw [hh3, hh2, hh1]
    exact ⟨rfl, rfl, rfl⟩
  · rw [hclients]
    exact fun e he => absurd he List.not_mem_nil
  · rw [hheard]
    exact fun e he => absurd he List.not_mem_nil
  · rw [hr3.receptions, hheard]
    rfl
  · rw [hr3.receptions, hr3.last]
    rfl

/-- The process runs `main` and then serves, whatever the kernel answers. -/
def Reached (k : Service → Kernel) (sock : Service → Int) (c : Process Multidata) : Prop :=
  ∃ c0, main k sock = some c0 ∧ Run program.step (fun _ _ => True) c0 c

/-- **The invariant** holds of every state reached. -/
theorem Reached.inv {k : Service → Kernel} {sock : Service → Int} {c : Process Multidata}
    (h : Reached k sock c) : Inv c := by
  obtain ⟨c0, hmain, hrun⟩ := h
  exact hrun.invariant (fun _ _ _ hc _ hs => hc.step hs) (inv_main hmain)

/-- A list of moves that executes reaches its state. -/
theorem reached_of_execute {k : Service → Kernel} {sock : Service → Int} (xs : List (Move Unit))
    {c : Process Multidata}
    (h : (main k sock).bind (execute program.step (fun _ _ => True) · xs) = some c) :
    Reached k sock c := by
  obtain ⟨c0, hmain, hrun⟩ := Option.bind_eq_some_iff.1 h
  exact ⟨c0, hmain, run_of_execute xs hrun⟩

/-- A connection to the second service, and two bytes from it. -/
def session : List (Move Unit) :=
  [.pass { poll := some [{}, { pollin := true }] }, .run {} (), .run {} (), .run { accept := 9 } (),
    .run {} (), .pass { poll := some [{}, {}, {}, { pollin := true }] }, .run {} (), .run {} (),
    .run {} (), .run {} (), .run { read := .ok [104, 105] } (), .run {} ()]

/-- The sockets 5, 6 and 7. -/
def sockets : Service → Int
  | .one => 5
  | .two => 6
  | .thr => 7

/-- **The server goes on and forgets no slot.** In every state that is reached a next step is possible,
whatever the kernel answers, and what was done so far is a clean run of the module; the `n`-th accepted
connection has slot `3 + n`, and every slot that was handed out is still valid. -/
theorem multiserv_goes_on {k : Service → Kernel} {sock : Service → Int} {c : Process Multidata}
    (h : Reached k sock c) :
    (∀ k', ∃ x c', program.step c x = some c' ∧ (x = .pass k' ∨ x = .run k' ())) ∧
      Run Sockbuf.step (Clean anySock) start c.config ∧
      (clients c.config.trace).map Prod.snd = List.range' 3 (clients c.config.trace).length ∧
      ∀ idx, sockbufIsvalid c.config.st idx = true ↔ idx < 3 + (clients c.config.trace).length :=
  ⟨h.inv.goes_on, h.inv.run, h.inv.consecutive, h.inv.inUse.valid_iff⟩

/-- A connection to the second service. -/
theorem multiserv_goes_on_session : ∃ c, Reached (fun _ => {}) sockets c ∧
    clients c.config.trace = [(1, 3)] ∧
    (∀ k', ∃ x c', program.step c x = some c' ∧ (x = .pass k' ∨ x = .run k' ())) ∧
      Run Sockbuf.step (Clean anySock) start c.config ∧
      (clients c.config.trace).map Prod.snd = List.range' 3 (clients c.config.trace).length ∧
      ∀ idx, sockbufIsvalid c.config.st idx = true ↔ idx < 3 + (clients c.config.trace).length :=
  ⟨_, reached_of_execute session rfl, rfl,
    multiserv_goes_on (reached_of_execute session rfl : Reached (fun _ => {}) sockets _)⟩

/-- **The services are kept apart, but for the name of the last one.** A connection keeps the service of
the listener that accepted it; the lines about received data are the reads of all connections in order,
each with the service of its connection; and each of them names the service of the line before it, of
whatever connection that was. -/
theorem multiserv_services {k : Service → Kernel} {sock : Service → Int} {c : Process Multidata}
    (h : Reached k sock c) :
    (∀ e ∈ clients c.config.trace, e.1 < 3 ∧ c.data.handlers e.2 = c.data.handlers e.1) ∧
      c.data.receptions.map (fun r => (r.1, r.2.1)) =
        (heard c.config.trace).map (fun e => (c.data.handlers e.1, e.2)) ∧
      c.data.receptions.map (fun r => r.2.2) ++ [c.data.last] =
        "NONE" :: c.data.receptions.map fun r => r.1.name :=
  ⟨h.inv.services, h.inv.lines, h.inv.last⟩

/-- A connection to the second service, which sends two bytes. -/
theorem multiserv_services_session : ∃ c, Reached (fun _ => {}) sockets c ∧
    c.data.printed = [.accepted .two 9 none 0, .received .two 2 [104, 105] "NONE"] ∧
    (∀ e ∈ clients c.config.trace, e.1 < 3 ∧ c.data.handlers e.2 = c.data.handlers e.1) ∧
      c.data.receptions.map (fun r => (r.1, r.2.1)) =
        (heard c.config.trace).map (fun e => (c.data.handlers e.1, e.2)) ∧
      c.data.receptions.map (fun r => r.2.2) ++ [c.data.last] =
        "NONE" :: c.data.receptions.map fun r => r.1.name :=
  ⟨_, reached_of_execute session rfl, rfl,
    multiserv_services (reached_of_execute session rfl : Reached (fun _ => {}) sockets _)⟩

end ExamplePrograms.Onethread.Multiserv
