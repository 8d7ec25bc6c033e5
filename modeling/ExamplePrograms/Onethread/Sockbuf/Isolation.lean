import ExamplePrograms.Onethread.Sockbuf.Monitoring
import ExamplePrograms.Onethread.Sockbuf.Output

/-!
# Work on one sockbuf

What the event loop and the output path do with a sockbuf stays within it: no other record changes, nor
does what `poll` is asked for another sockbuf (`SameEntry`); every event names it; and its own record keeps
its filters, its handler and its marks (`Keeps`). `Within` says so of a state and the events on the way,
and composes.

`State.bare` forgets the filters and the statistics of a sockbuf. The writes to the socket look at
neither, so that what is known of the output of a sockbuf without filters (`Sound`) holds behind its
filters, too.
-/

set_option autoImplicit false

namespace ExamplePrograms.Onethread.Sockbuf

open ExamplePrograms.Lib.Memory State

/-- The event is about the sockbuf, and neither creates, attaches nor deletes one. -/
def Event.On (idx : Nat) : Event → Prop
  | .callback cb => cb.idx = idx
  | .submitted j _ => j = idx
  | .wrote j _ => j = idx
  | .writeFailed j _ => j = idx
  | .dispatched j _ => j = idx
  | _ => False

/-- An event about a sockbuf is about no other one. -/
theorem on_unique {e : Event} {i j : Nat} (hi : e.On i) (hj : e.On j) : j = i := by
  cases e <;> first | exact hj.symm.trans hi | exact absurd hj id

/-- What no function that is called with a sockbuf in use changes of its record. -/
structure Keeps (sb sb' : SockbufT) : Prop where
  filters : sb'.filters = sb.filters
  filterClientData : sb'.filterClientData = sb.filterClientData
  nfilters : sb'.nfilters = sb.nfilters
  handler : sb'.handler = sb.handler
  clientData : sb'.clientData = sb.clientData
  stats : sb'.stats.isSome = sb.stats.isSome
  avail : sb'.flags.avail = sb.flags.avail
  deleted : sb'.flags.deleted = sb.flags.deleted
  server : sb'.flags.server = true → sb.flags.server = true
  connecting : sb'.flags.connecting = true → sb.flags.connecting = true

namespace Keeps

theorem refl (sb : SockbufT) : Keeps sb sb := ⟨rfl, rfl, rfl, rfl, rfl, rfl, rfl, rfl, id, id⟩

variable {sb sb' sb'' : SockbufT}

theorem trans (h : Keeps sb sb') (h' : Keeps sb' sb'') : Keeps sb sb'' where
  filters := h'.filters.trans h.filters
  filterClientData := h'.filterClientData.trans h.filterClientData
  nfilters := h'.nfilters.trans h.nfilters
  handler := h'.handler.trans h.handler
  clientData := h'.clientData.trans h.clientData
  stats := h'.stats.trans h.stats
  avail := h'.avail.trans h.avail
  deleted := h'.deleted.trans h.deleted
  server hs := h.server (h'.server hs)
  connecting hs := h.connecting (h'.connecting hs)

/-- The chain is kept. -/
theorem chain (h : Keeps sb sb') : sb'.chain = sb.chain := by
  rw [SockbufT.chain, h.filters, h.filterClientData, h.nfilters, SockbufT.chain]

/-- The filter that takes a callback on its way up is kept. -/
theorem filterAbove (h : Keeps sb sb') (level : Int) (defines : SockbufFilter → Bool) :
    sb'.filterAbove level defines = sb.filterAbove level defines := by
  rw [SockbufT.filterAbove, h.chain, SockbufT.filterAbove]

/-- The filter that takes a callback on its way down is kept. -/
theorem filterBelow (h : Keeps sb sb') (level : Int) (defines : SockbufFilter → Bool) :
    sb'.filterBelow level defines = sb.filterBelow level defines := by
  rw [SockbufT.filterBelow, h.chain, SockbufT.filterBelow]

/-- New statistics. -/
theorem mapStats (sb : SockbufT) (f : SockbufStats → SockbufStats) :
    Keeps sb { sb with stats := sb.stats.map f } :=
  ⟨rfl, rfl, rfl, rfl, rfl, Option.isSome_map, rfl, rfl, id, id⟩

theorem setBlock (sb : SockbufT) (block : Bool) :
    Keeps sb { sb with flags := { sb.flags with block := block } } :=
  ⟨rfl, rfl, rfl, rfl, rfl, rfl, rfl, rfl, id, id⟩

theorem append (sb : SockbufT) (data : List UInt8) : Keeps sb (sb.append data) :=
  ⟨rfl, rfl, rfl, rfl, rfl, rfl, rfl, rfl, id, id⟩

theorem drain (sb : SockbufT) (nbytes : Nat) : Keeps sb (sb.drain nbytes) :=
  ⟨rfl, rfl, rfl, rfl, rfl, Option.isSome_map, rfl, rfl, id, id⟩

/-- The socket goes away. -/
theorem close (k : Kernel) (sb : SockbufT) : Keeps sb (sb.setSock k (-1) {}) := by
  rw [SockbufT.setSock]
  have hserver : (sb.flags.reconnect {}).server = false := rfl
  have hconnecting : (sb.flags.reconnect {}).connecting = false := rfl
  simp only [hserver, Bool.false_eq_true, if_false]
  exact ⟨rfl, rfl, rfl, rfl, rfl, rfl, Bool.or_false _, Bool.or_false _,
    fun hc => absurd (hserver.symm.trans hc) Bool.false_ne_true,
    fun hc => absurd (hconnecting.symm.trans hc) Bool.false_ne_true⟩

end Keeps

/-! ## Entries of other sockbufs -/

/-- `poll` is asked for `events` on the descriptor `fd` of the sockbuf. -/
def Listed (s : State) (idx : Nat) (fd : Int) (events : Events) : Prop :=
  ∃ i p, EntryAt s i idx p ∧ p.fd = fd ∧ p.events = events

/-- `poll` is asked the same for the sockbuf in both states, wherever its entry stands. -/
structure SameEntry (j : Nat) (s s' : State) : Prop where
  bounds : TableBounds s → TableBounds s'
  entry : TableBounds s → ∀ fd events, Listed s' j fd events ↔ Listed s j fd events

namespace SameEntry

variable {j idx : Nat} {s s' s'' : State}

theorem refl (j : Nat) (s : State) : SameEntry j s s := ⟨id, fun _ _ _ => Iff.rfl⟩

theorem trans (h : SameEntry j s s') (h' : SameEntry j s' s'') : SameEntry j s s'' where
  bounds hb := h'.bounds (h.bounds hb)
  entry hb fd events := (h'.entry (h.bounds hb) fd events).trans (h.entry hb fd events)

/-- The same table. -/
theorem of_table (hb : TableBounds s → TableBounds s') (hidxs : s'.idxs = s.idxs)
    (hfds : TableBounds s → s'.fds = s.fds) : SameEntry j s s' := by
  refine ⟨hb, fun hs fd events => ⟨?_, ?_⟩⟩
  · rintro ⟨i, p, he, hp⟩
    exact ⟨i, p, he.congr hidxs (hfds hs), hp⟩
  · rintro ⟨i, p, he, hp⟩
    exact ⟨i, p, he.of_same hidxs (hfds hs), hp⟩

theorem update (s : State) (idx : Nat) (f : SockbufT → SockbufT) : SameEntry j s (s.update idx f) :=
  .of_table (fun hb => ⟨hb.idxArray, hb.pollfds⟩) rfl fun _ => rfl

/-- The cell of another sockbuf changed. -/
theorem of_modify (hne : j ≠ idx) {f : Pollfd → Pollfd} (hb : TableBounds s → TableBounds s')
    (hidxs : s'.idxs = s.idxs) (hfds : s'.fds = s.fds.modify (s.findEntry idx) f) :
    SameEntry j s s' := by
  refine ⟨hb, fun _ fd events => ⟨?_, ?_⟩⟩
  · rintro ⟨i, p, he, hp⟩
    rcases he.of_modify hidxs hfds with ⟨-, he'⟩ | ⟨rfl, q, he', -⟩
    · exact ⟨i, p, he', hp⟩
    · exact absurd he'.eq_of_findEntry hne
  · rintro ⟨i, p, he, hp⟩
    have hi : i ≠ s.findEntry idx := by
      rintro rfl
      exact hne he.eq_of_findEntry
    have he' := he.modify hidxs hfds
    rw [if_neg hi] at he'
    exact ⟨i, p, he', hp⟩

theorem updateEntry (s : State) (hne : j ≠ idx) (f : Pollfd → Pollfd) :
    SameEntry j s (s.updateEntry idx f) := by
  refine .of_modify hne (fun hb => ?_) ?_ (fds_updateEntry s idx f)
  · rw [State.updateEntry]
    split
    · exact bounds_modify _ f hb
    · exact hb
  · rw [State.updateEntry]
    split <;> rfl

/-- Another sockbuf got an entry behind the others. -/
theorem of_append (hne : j ≠ idx) {q : Pollfd} (hs : TableBounds s) (hb : TableBounds s')
    (hidxs : s'.idxs = s.idxs ++ [idx]) (hfds : s'.fds = s.fds ++ [q]) : SameEntry j s s' := by
  refine ⟨fun _ => hb, fun _ fd events => ⟨?_, ?_⟩⟩
  · rintro ⟨i, p, he, hp⟩
    rcases he.of_append hs hidxs hfds with he' | ⟨-, hj, -⟩
    · exact ⟨i, p, he', hp⟩
    · exact absurd hj hne
  · rintro ⟨i, p, he, hp⟩
    exact ⟨i, p, he.append hidxs hfds, hp⟩

/-- An entry stays, or moves down by one, when that of another sockbuf is dropped. -/
theorem entryAt_of_drop (hd : DropsEntry s idx s') (hne : j ≠ idx) {i : Nat} {p : Pollfd}
    (he : EntryAt s i j p) : ∃ i', EntryAt s' i' j p := by
  rcases Nat.lt_trichotomy i (s.findEntry idx) with hi | hi | hi
  · refine ⟨i, ?_, ?_⟩
    · rw [hd.idxs, List.getElem?_eraseIdx_of_lt hi, he.idx]
    · rw [hd.fds, List.getElem?_eraseIdx_of_lt hi, he.cell]
  · exact absurd (hi ▸ he).eq_of_findEntry hne
  · obtain ⟨i', rfl⟩ : ∃ i', i = i' + 1 := ⟨i - 1, by omega⟩
    have hle : s.findEntry idx ≤ i' := by omega
    refine ⟨i', ?_, ?_⟩
    · rw [hd.idxs, List.getElem?_eraseIdx_of_ge hle, he.idx]
    · rw [hd.fds, List.getElem?_eraseIdx_of_ge hle, he.cell]

/-- Another sockbuf lost its entry, and those behind it moved. -/
theorem of_drop (hne : j ≠ idx) (hd : TableBounds s → DropsEntry s idx s') : SameEntry j s s' := by
  refine ⟨fun hb => (hd hb).bounds, fun hb fd events => ⟨?_, ?_⟩⟩
  · rintro ⟨i, p, he, hp⟩
    rcases (hd hb).entryAt he with ⟨-, he'⟩ | ⟨-, he'⟩
    · exact ⟨i, p, he', hp⟩
    · exact ⟨i + 1, p, he', hp⟩
  · rintro ⟨i, p, he, hp⟩
    obtain ⟨i', he'⟩ := entryAt_of_drop (hd hb) hne he
    exact ⟨i', p, he', hp⟩

theorem setSock (k : Kernel) (hv : sockbufIsvalid s idx = true) (hne : j ≠ idx) (sock : Int)
    (flags : Flags) : SameEntry j s (sockbufSetSock k s idx sock flags) := by
  by_cases hsock : sock = -1
  · subst hsock
    exact .of_drop hne fun hb => dropsEntry_sockbufSetSock k flags hv hb
  · have hcases : TableBounds s → SameEntry j s (sockbufSetSock k s idx sock flags) := by
      intro hb
      by_cases hm : idx ∈ s.idxs
      · obtain ⟨hb', hidxs, hfds, -⟩ := table_sockbufSetSock_mem k flags hv hsock hb hm
        exact .of_modify hne (fun _ => hb') hidxs hfds
      · obtain ⟨hb', hidxs, hfds, -⟩ := table_sockbufSetSock_not_mem k flags hv hsock hb hm
        exact .of_append hne hb hb' hidxs hfds
    exact ⟨fun hb => (hcases hb).bounds hb, fun hb => (hcases hb).entry hb⟩

end SameEntry

/-- The state `s'` after the events `es`, all of them about `idx`. -/
structure Within (idx : Nat) (s : State) (es : List Event) (s' : State) : Prop where
  nsockbufs : s'.nsockbufs = s.nsockbufs
  ndeleted : s'.ndeletedSockbufs = s.ndeletedSockbufs
  others : ∀ j, j ≠ idx → s'.sbuf j = s.sbuf j
  entries : ∀ j, j ≠ idx → SameEntry j s s'
  self : Keeps (s.sbuf idx) (s'.sbuf idx)
  events : ∀ e ∈ es, e.On idx

namespace Within

variable {idx : Nat} {s s' s'' : State} {es es' : List Event}

theorem refl (idx : Nat) (s : State) : Within idx s [] s :=
  ⟨rfl, rfl, fun _ _ => rfl, fun j _ => .refl j s, .refl _, fun _ he => absurd he List.not_mem_nil⟩

theorem trans (h : Within idx s es s') (h' : Within idx s' es' s'') :
    Within idx s (es ++ es') s'' where
  nsockbufs := h'.nsockbufs.trans h.nsockbufs
  ndeleted := h'.ndeleted.trans h.ndeleted
  others j hj := (h'.others j hj).trans (h.others j hj)
  entries j hj := (h.entries j hj).trans (h'.entries j hj)
  self := h.self.trans h'.self
  events e he := (List.mem_append.1 he).elim (h.events e) (h'.events e)

/-- Events before the others. -/
theorem log (hes : ∀ e ∈ es, e.On idx) (h : Within idx s es' s') :
    Within idx s (es ++ es') s' where
  nsockbufs := h.nsockbufs
  ndeleted := h.ndeleted
  others := h.others
  entries := h.entries
  self := h.self
  events e he := (List.mem_append.1 he).elim (hes e) (h.events e)

theorem event {e : Event} (he : e.On idx) (h : Within idx s es' s') :
    Within idx s ([e] ++ es') s' :=
  h.log fun e' he' => by rwa [List.mem_singleton.1 he']

/-- A change of the record of the sockbuf. -/
theorem update (s : State) (idx : Nat) {f : SockbufT → SockbufT} (hf : ∀ sb, Keeps sb (f sb)) :
    Within idx s [] (s.update idx f) := by
  refine ⟨update_nsockbufs s idx f, rfl, fun j hj => sbuf_update_ne s idx f (Ne.symm hj),
    fun j _ => .update s idx f, ?_, fun _ he => absurd he List.not_mem_nil⟩
  rw [sbuf_update]
  split
  · exact hf _
  · exact .refl _

theorem updateEntry (s : State) (idx : Nat) (f : Pollfd → Pollfd) :
    Within idx s [] (s.updateEntry idx f) := by
  refine ⟨updateEntry_nsockbufs s idx f, updateEntry_ndeletedSockbufs s idx f,
    fun j _ => updateEntry_sbuf s idx f j, fun j hj => .updateEntry s hj f, ?_,
    fun _ he => absurd he List.not_mem_nil⟩
  rw [updateEntry_sbuf]
  exact .refl _

theorem block (s : State) (idx : Nat) : Within idx s [] (sockbufBlock s idx) :=
  (update s idx fun sb => .setBlock sb true).trans (updateEntry _ idx _)

theorem unblock (s : State) (idx : Nat) : Within idx s [] (sockbufUnblock s idx) :=
  (update s idx fun sb => .setBlock sb false).trans (updateEntry _ idx _)

/-- `sockbuf_close` works within its sockbuf. -/
theorem close (k : Kernel) (s : State) (idx : Nat) : Within idx s [] (sockbufClose k s idx) := by
  rw [sockbufClose]
  split
  · next h =>
    refine ⟨nsockbufs_sockbufSetSock k {} h.1 (-1), sockbufSetSock_ndeletedSockbufs k {} h.1 (-1),
      fun j hj => sbuf_sockbufSetSock_ne h.1 (-1) hj, fun j hj => .setSock k h.1 hj (-1) {}, ?_,
      fun _ he => absurd he List.not_mem_nil⟩
    rw [sbuf_sockbufSetSock_self h.1]
    exact .close k _
  · exact .refl idx s

theorem countWrite (s : State) (idx nbytes : Nat) : Within idx s [] (countWrite s idx nbytes) := by
  rw [Sockbuf.countWrite]
  split
  · exact update s idx fun sb => .mapStats sb _
  · exact .refl idx s

theorem countSubmit (s : State) (idx len : Nat) : Within idx s [] (countSubmit s idx len) :=
  update s idx fun sb => .mapStats sb _

theorem writeRest (s : State) (idx : Nat) (data : List UInt8) (nbytes : Nat) :
    Within idx s [] (writeRest s idx data nbytes) := by
  rw [Sockbuf.writeRest]
  split
  · exact .refl idx s
  · exact (block s idx).trans (update _ idx fun sb => .append sb _)

theorem drainOutput (s : State) (idx nbytes : Nat) : Within idx s [] (drainOutput s idx nbytes) := by
  have hdrain := update s idx (f := fun sb => sb.drain nbytes) fun sb => .drain sb nbytes
  unfold Sockbuf.drainOutput
  dsimp only
  split
  · exact hdrain.trans (unblock _ idx)
  · exact hdrain.trans (update _ idx fun sb => ⟨rfl, rfl, rfl, rfl, rfl, rfl, rfl, rfl, id, id⟩)

/-! ### Callbacks -/

theorem callFilter (s : State) (idx : Nat) (e : SockbufFilter × Nat) (call : Call) :
    Within idx s (callFilter s idx e call).events (callFilter s idx e call).st :=
  ⟨rfl, rfl, fun _ _ => rfl, fun j _ => .refl j s, .refl _,
    by simp [Sockbuf.callFilter, Outcome.invoke, Event.On]⟩

theorem callHandler (s : State) (idx : Nat) (defines : SockbufHandler → Bool) (call : Call) :
    Within idx s (callHandler s idx defines call).events (callHandler s idx defines call).st := by
  rw [Sockbuf.callHandler]
  split
  · exact .refl idx s
  · split
    · exact ⟨rfl, rfl, fun _ _ => rfl, fun j _ => .refl j s, .refl _,
        by simp [Outcome.invoke, Event.On]⟩
    · exact .refl idx s

theorem onEof (s : State) (idx : Nat) (level : Int) (err : Nat) :
    Within idx s (sockbufOnEof s idx level err).events (sockbufOnEof s idx level err).st := by
  rw [sockbufOnEof]
  split
  · exact callFilter s idx _ _
  · exact callHandler s idx _ _

theorem onRead (s : State) (idx : Nat) (level : Int) (data : List UInt8) :
    Within idx s (sockbufOnRead s idx level data).events (sockbufOnRead s idx level data).st := by
  rw [sockbufOnRead]
  split
  · exact callFilter s idx _ _
  · split
    · exact .refl idx s
    · next stats hstats =>
      -- the new statistics are those of a record that had some
      have hself : Within idx s [] (s.update idx fun sb =>
          { sb with stats := some { stats with bytesIn := stats.bytesIn + UInt64.ofNat data.length } }) := by
        refine ⟨update_nsockbufs s idx _, rfl, fun j hj => sbuf_update_ne s idx _ (Ne.symm hj),
          fun j _ => .update s idx _, ?_, fun _ he => absurd he List.not_mem_nil⟩
        rw [sbuf_update]
        split
        · exact ⟨rfl, rfl, rfl, rfl, rfl, by rw [hstats]; rfl, rfl, rfl, id, id⟩
        · exact .refl _
      exact hself.trans (callHandler _ idx _ _)

theorem onWritten (s : State) (idx : Nat) (level : Int) (len remaining : Nat) :
    Within idx s (sockbufOnWritten s idx level len remaining).events
      (sockbufOnWritten s idx level len remaining).st := by
  rw [sockbufOnWritten]
  split
  · exact callFilter s idx _ _
  · exact callHandler s idx _ _

theorem gotEof (k : Kernel) (s : State) (idx err : Nat) :
    Within idx s (sockbufGotEof k s idx err).events (sockbufGotEof k s idx err).st :=
  (close k s idx).trans (onEof _ idx _ _)

/-! ### Reading and writing -/

/-- A write to the socket works within its sockbuf. -/
theorem realWrite (k : Kernel) (s : State) (idx : Nat) (data : List UInt8) :
    Within idx s (sockbufRealWrite k s idx data).events (sockbufRealWrite k s idx data).st := by
  rw [sockbufRealWrite]
  split
  · exact update s idx fun sb => .append sb data
  · split
    · split
      · exact (writeRest s idx data 0).event rfl
      · exact (gotEof k s idx _).log (by simp [Event.On])
    · exact ((countWrite s idx _).trans (writeRest _ idx data _)).event rfl

theorem onWrite (k : Kernel) (s : State) (idx : Nat) (level : Int) (data : List UInt8) :
    Within idx s (sockbufOnWrite k s idx level data).events
      (sockbufOnWrite k s idx level data).st := by
  rw [sockbufOnWrite]
  split
  · exact callFilter s idx _ _
  · exact realWrite k s idx data

/-- `sockbuf_write` works within its sockbuf. -/
theorem write (k : Kernel) (s : State) (idx : Nat) (data : List UInt8) (len : Int) :
    Within idx s (sockbufWrite k s idx data len).events (sockbufWrite k s idx data len).st := by
  rw [sockbufWrite]
  split
  · exact ((countSubmit s idx _).trans (onWrite k _ idx _ _)).log (by simp [Event.On])
  · exact .refl idx s

/-- The test for writing works within its sockbuf. -/
theorem gotWritable (k : Kernel) (s : State) (idx : Nat) :
    Within idx s (sockbufGotWritable k s idx).events (sockbufGotWritable k s idx).st := by
  rw [sockbufGotWritable]
  split
  · exact (gotEof k s idx _).log (by simp [Event.On])
  · split
    · exact ((drainOutput s idx _).trans (onWritten _ idx _ _ _)).log (by simp [Event.On])
    · exact .refl idx s

/-- The test for reading works within its sockbuf. -/
theorem gotReadable (k : Kernel) (s : State) (idx : Nat) :
    Within idx s (sockbufGotReadable k s idx).events (sockbufGotReadable k s idx).st := by
  rw [sockbufGotReadable]
  split
  · exact gotEof k s idx _
  · exact gotEof k s idx 0
  · exact (update s idx fun sb => .mapStats sb _).trans (onRead _ idx _ _)

end Within

/-! ## Output behind filters -/

/-- The record without its filters and its statistics. -/
def SockbufT.bare (sb : SockbufT) : SockbufT := { sb with nfilters := 0, stats := none }

/-- The state with the bare record of `idx`. -/
def State.bare (s : State) (idx : Nat) : State := s.update idx SockbufT.bare

section Bare

variable (k : Kernel) (s : State) (idx : Nat)

/-- A change of the record, seen by itself. -/
theorem bare_update {f : SockbufT → SockbufT} (hf : ∀ sb, (f sb).bare = f sb.bare) :
    (s.update idx f).bare idx = (s.bare idx).update idx f := by
  have hcomp : SockbufT.bare ∘ f = f ∘ SockbufT.bare := funext hf
  simp only [State.bare, State.update, List.modify_modify_eq, hcomp]

/-- A change of the statistics only is not seen. -/
theorem bare_update_stats {f : SockbufT → SockbufT} (hf : ∀ sb, (f sb).bare = sb.bare) :
    (s.update idx f).bare idx = s.bare idx := by
  have hcomp : SockbufT.bare ∘ f = SockbufT.bare := funext hf
  simp only [State.bare, State.update, List.modify_modify_eq, hcomp]

theorem bare_updateEntry (f : Pollfd → Pollfd) :
    (s.updateEntry idx f).bare idx = (s.bare idx).updateEntry idx f := by
  by_cases h : s.findEntry idx < s.npollfds
  · simp only [State.bare, State.updateEntry, update_findEntry, update_npollfds, h, if_true]
    rfl
  · simp only [State.bare, State.updateEntry, update_findEntry, update_npollfds, h, if_false]

theorem bare_block : (sockbufBlock s idx).bare idx = sockbufBlock (s.bare idx) idx :=
  (bare_updateEntry _ idx _).trans
    (congrArg (State.updateEntry · idx _) (bare_update s idx fun _ => rfl))

theorem bare_unblock : (sockbufUnblock s idx).bare idx = sockbufUnblock (s.bare idx) idx :=
  (bare_updateEntry _ idx _).trans
    (congrArg (State.updateEntry · idx _) (bare_update s idx fun _ => rfl))

/-- The output path reads of the record what is left of it. -/
theorem bare_reads {β : Type} (g : SockbufT → β) (hg : ∀ sb, g sb.bare = g sb) :
    g ((s.bare idx).sbuf idx) = g (s.sbuf idx) :=
  sbuf_update_keeps s idx SockbufT.bare g (hg _) idx

/-- A sockbuf is valid by itself. -/
theorem isvalid_bare : sockbufIsvalid (s.bare idx) idx = sockbufIsvalid s idx := by
  rw [sockbufIsvalid, sockbufIsvalid, State.bare, update_nsockbufs]
  rw [← State.bare, bare_reads s idx (fun sb => sb.flags) fun _ => rfl]

theorem bare_setSock (sb : SockbufT) : (sb.setSock k (-1) {}).bare = sb.bare.setSock k (-1) {} := by
  have hserver : (sb.flags.reconnect {}).server = false := rfl
  have hbare : (sb.bare.flags.reconnect {}).server = false := rfl
  simp only [SockbufT.setSock, hserver, hbare, Bool.false_eq_true, if_false]
  rfl

theorem bare_close : (sockbufClose k s idx).bare idx = sockbufClose k (s.bare idx) idx := by
  have hsock := bare_reads s idx SockbufT.sock fun _ => rfl
  have hset : sockbufIsvalid s idx = true →
      (sockbufSetSock k s idx (-1) {}).bare idx = sockbufSetSock k (s.bare idx) idx (-1) {} := by
    intro hv
    have hvalid : sockbufIsvalid (s.bare idx) idx = true := (isvalid_bare s idx).trans hv
    have hrecord := bare_update s idx (bare_setSock k)
    simp only [sockbufSetSock, hv, hvalid, Bool.true_eq_false, if_false, if_true, ← hrecord]
    by_cases h : s.findEntry idx = s.npollfds
    · simp only [State.bare, update_findEntry, update_npollfds, h, if_true]
    · simp only [State.bare, update_findEntry, update_npollfds, h, if_false]
      rfl
  rw [sockbufClose, sockbufClose, isvalid_bare, hsock]
  split
  · next h => exact hset h.1
  · rfl

/-- An end that is found, seen by itself. -/
theorem bare_gotEof (err : Nat) :
    (sockbufGotEof k s idx err).st.bare idx = (sockbufGotEof k (s.bare idx) idx err).st := by
  have hst : ∀ (t : State) (e : Nat), (sockbufOnEof t idx sockbufLevelInternal e).st = t := by
    intro t e
    rw [sockbufOnEof]
    split
    · rfl
    · rw [callHandler]
      split
      · rfl
      · split <;> rfl
  rw [sockbufGotEof, sockbufGotEof, hst, hst, bare_close]

theorem bare_writeRest (data : List UInt8) (nbytes : Nat) :
    (writeRest s idx data nbytes).bare idx = writeRest (s.bare idx) idx data nbytes := by
  rw [writeRest, writeRest]
  split
  · rfl
  · rw [← bare_block]
    exact bare_update _ idx fun _ => rfl

theorem bare_countWrite (nbytes : Nat) :
    (countWrite s idx nbytes).bare idx = countWrite (s.bare idx) idx nbytes := by
  rw [countWrite, countWrite]
  split
  · exact bare_update s idx fun _ => rfl
  · rfl

/-- The events of two outcomes say the same of the output of `idx`. -/
structure SameOutput (idx : Nat) (es es' : List Event) : Prop where
  accepted : accepted idx es = accepted idx es'
  submitted : submitted idx es = submitted idx es'
  hard : HardError idx es ↔ HardError idx es'

theorem SameOutput.refl (es : List Event) : SameOutput idx es es := ⟨rfl, rfl, Iff.rfl⟩

theorem SameOutput.append {es fs es' fs' : List Event} (h : SameOutput idx es es')
    (h' : SameOutput idx fs fs') : SameOutput idx (es ++ fs) (es' ++ fs') :=
  ⟨by rw [accepted_append, accepted_append, h.accepted, h'.accepted],
    by rw [submitted_append, submitted_append, h.submitted, h'.submitted],
    by rw [hardError_append, hardError_append, h.hard, h'.hard]⟩

/-- Outcomes without output. -/
theorem SameOutput.mild {s s' : State} {o o' : Outcome} (h : Mild (· ≠ idx) s o)
    (h' : Mild (· ≠ idx) s' o') : SameOutput idx o.events o'.events := by
  obtain ⟨hacc, hsub, hhard⟩ := quiet_elsewhere h
  obtain ⟨hacc', hsub', hhard'⟩ := quiet_elsewhere h'
  exact ⟨hacc.trans hacc'.symm, hsub.trans hsub'.symm, iff_of_false hhard hhard'⟩

theorem SameOutput.gotEof (err : Nat) : SameOutput idx (sockbufGotEof k s idx err).events
    (sockbufGotEof k (s.bare idx) idx err).events :=
  .mild idx (mild_sockbufGotEof s idx k err) (mild_sockbufGotEof (s.bare idx) idx k err)

/-- A write to the socket depends on the sockbuf alone. -/
theorem bare_realWrite (data : List UInt8) :
    (sockbufRealWrite k s idx data).st.bare idx = (sockbufRealWrite k (s.bare idx) idx data).st ∧
      SameOutput idx (sockbufRealWrite k s idx data).events
        (sockbufRealWrite k (s.bare idx) idx data).events := by
  have hsock := bare_reads s idx SockbufT.sock fun _ => rfl
  have hblock := bare_reads s idx (fun sb => sb.flags.block) fun _ => rfl
  rw [sockbufRealWrite, sockbufRealWrite, hsock, hblock]
  split
  · exact ⟨bare_update s idx fun _ => rfl, .refl idx _⟩
  · split
    · split
      · exact ⟨bare_writeRest s idx data 0, .refl idx _⟩
      · exact ⟨bare_gotEof k s idx _, (SameOutput.refl idx _).append idx (.gotEof k s idx _)⟩
    · exact ⟨by rw [bare_writeRest, bare_countWrite], .refl idx _⟩

theorem bare_drainOutput (nbytes : Nat) :
    (drainOutput s idx nbytes).bare idx = drainOutput (s.bare idx) idx nbytes := by
  have hdrain := bare_update s idx (f := fun sb => sb.drain nbytes) fun _ => rfl
  have hlen := bare_reads (s.update idx fun sb => sb.drain nbytes) idx SockbufT.len fun _ => rfl
  unfold drainOutput
  dsimp only
  rw [← hdrain, hlen]
  split
  · rw [bare_unblock]
  · exact bare_update _ idx fun _ => rfl

/-- The test for writing depends on the sockbuf alone. -/
theorem bare_gotWritable :
    (sockbufGotWritable k s idx).st.bare idx = (sockbufGotWritable k (s.bare idx) idx).st ∧
      SameOutput idx (sockbufGotWritable k s idx).events
        (sockbufGotWritable k (s.bare idx) idx).events := by
  have hst : ∀ (t : State) (n m : Nat), (sockbufOnWritten t idx sockbufLevelInternal n m).st = t := by
    intro t n m
    rw [sockbufOnWritten]
    split
    · rfl
    · rw [callHandler]
      split
      · rfl
      · split <;> rfl
  have hsock := bare_reads s idx SockbufT.sock fun _ => rfl
  have hbuf := bare_reads s idx SockbufT.buffered fun _ => rfl
  rw [sockbufGotWritable, sockbufGotWritable, hsock, hbuf]
  split
  · exact ⟨bare_gotEof k s idx _, (SameOutput.refl idx _).append idx (.gotEof k s idx _)⟩
  · split
    · refine ⟨?_, (SameOutput.refl idx _).append idx (.mild idx (mild_sockbufOnWritten _ idx _ _ _)
        (mild_sockbufOnWritten _ idx _ _ _))⟩
      rw [Outcome.log_st, Outcome.log_st, hst, hst, bare_drainOutput]
    · exact ⟨rfl, .refl idx _⟩

end Bare

/-! ## The bytes handed to a socket -/

/-- `text` is what was handed to the socket of `idx` in the events `es`, whatever its filters did
before: the kernel accepted a prefix of it, and the rest waits in the buffer. -/
def Handed (idx : Nat) (s : State) (es : List Event) (text : List UInt8) : Prop :=
  Sound none idx 0 (s.bare idx) (accepted idx es) text (HardError idx es)

/-- Events about other sockbufs. -/
theorem Event.On.elsewhere {i idx : Nat} (h : i ≠ idx) {e : Event} (he : e.On i) :
    e.Elsewhere idx := by
  cases e <;> first | trivial | exact fun hc => h (he.symm.trans hc)

namespace Handed

variable {idx : Nat} {s s' : State} {es es' : List Event} {text : List UInt8}

/-- The same record behind events that are not about its output. -/
theorem quiet (h : Handed idx s es text) (hes : ∀ e ∈ es', e.Elsewhere idx)
    (hs : s'.bare idx = s.bare idx) : Handed idx s' (es ++ es') text := by
  obtain ⟨hacc, -, hhard⟩ := elsewhere_bytes hes
  rw [Handed, hs, accepted_append, hacc, List.append_nil, hardError_append,
    or_iff_left_of_imp fun hc => absurd hc hhard]
  exact h

/-- The same record in a larger table. -/
theorem keep (h : Handed idx s es text) (hes : ∀ e ∈ es', e.Elsewhere idx)
    (hns : s.nsockbufs ≤ s'.nsockbufs) (hsbuf : s'.sbuf idx = s.sbuf idx) :
    Handed idx s' (es ++ es') text := by
  obtain ⟨hacc, -, hhard⟩ := elsewhere_bytes hes
  rw [Handed, accepted_append, hacc, List.append_nil, hardError_append,
    or_iff_left_of_imp fun hc => absurd hc hhard]
  have hlt : idx < s.nsockbufs := (sockbufIsvalid_iff.1 ((isvalid_bare s idx).symm.trans h.valid)).1
  refine Sound.frame h ?_ ?_
  · rw [State.bare, State.bare, update_nsockbufs, update_nsockbufs]
    exact hns
  · rw [State.bare, State.bare, sbuf_update_self _ _ _ hlt,
      sbuf_update_self _ _ _ (Nat.lt_of_lt_of_le hlt hns), hsbuf]

/-- Work on another sockbuf. -/
theorem frame (h : Handed idx s es text) {i : Nat} (hi : i ≠ idx) (hw : Within i s es' s') :
    Handed idx s' (es ++ es') text :=
  h.keep (fun e he => (hw.events e he).elsewhere hi) (Nat.le_of_eq hw.nsockbufs.symm)
    (hw.others idx (Ne.symm hi))

/-- An outcome of the output path, seen without the filters. -/
theorem of_passes {data : List UInt8} {o o' : Outcome} (hst : o.st.bare idx = o'.st)
    (hout : SameOutput idx o.events o'.events)
    (ho : Passes none idx 0 (accepted idx es) text (HardError idx es) data o') :
    Handed idx o.st (es ++ o.events) (text ++ data) := by
  rw [Handed, hst, accepted_append, hout.accepted, hardError_append, hout.hard]
  exact ho.1

/-- Data handed to the socket are written or buffered. -/
theorem realWrite (h : Handed idx s es text) (k : Kernel) (data : List UInt8) :
    Handed idx (sockbufRealWrite k s idx data).st (es ++ (sockbufRealWrite k s idx data).events)
      (text ++ data) :=
  .of_passes (bare_realWrite k s idx data).1 (bare_realWrite k s idx data).2 (Sound.realWrite h k data)

/-- The test for writing hands out nothing new. -/
theorem gotWritable (h : Handed idx s es text) (k : Kernel) :
    Handed idx (sockbufGotWritable k s idx).st (es ++ (sockbufGotWritable k s idx).events) text := by
  have hpasses := of_passes (bare_gotWritable k s idx).1 (bare_gotWritable k s idx).2
    (Sound.gotWritable h k)
  rwa [List.append_nil] at hpasses

theorem gotEof (h : Handed idx s es text) (k : Kernel) (err : Nat) :
    Handed idx (sockbufGotEof k s idx err).st (es ++ (sockbufGotEof k s idx err).events) text := by
  have hmild := mild_sockbufGotEof (T := (· ≠ idx)) (s.bare idx) idx k err
  obtain ⟨hacc, -, hhard⟩ := quiet_elsewhere (mild_sockbufGotEof (T := (· ≠ idx)) s idx k err)
  rw [Handed, bare_gotEof, accepted_append, hacc, List.append_nil, hardError_append,
    or_iff_left_of_imp fun hc => absurd hc hhard]
  exact Sound.mild h hmild

/-- What the kernel has and what waits. -/
theorem stream (h : Handed idx s es text) : accepted idx es <+: text ∧
    (¬ HardError idx es → accepted idx es ++ (s.sbuf idx).buffered = text) := by
  refine ⟨h.flow.begins, fun hhard => ?_⟩
  rw [← bare_reads s idx SockbufT.buffered fun _ => rfl]
  exact h.flow.whole hhard

/-- A valid sockbuf that was handed nothing. -/
theorem init (hv : sockbufIsvalid s idx = true) (hlen : (s.sbuf idx).len = 0)
    (hacc : accepted idx es = []) (hhard : ¬ HardError idx es) : Handed idx s es [] := by
  have hself : (s.bare idx).sbuf idx = (s.sbuf idx).bare :=
    sbuf_update_self s idx _ (sockbufIsvalid_iff.1 hv).1
  refine ⟨(isvalid_bare s idx).trans hv, ?_⟩
  rw [hself, hacc]
  refine ⟨fun f hf => ?_, rfl, ?_, List.prefix_rfl, fun _ => ?_, fun hh => absurd hh hhard,
    fun _ hl => ?_⟩
  · rw [show (s.sbuf idx).bare.nfilters = 0 from rfl, List.take_zero] at hf
    cases hf
  · show (s.sbuf idx).len ≤ _
    rw [hlen]
    exact Nat.zero_le _
  · show [] ++ (s.sbuf idx).buffered = []
    rw [SockbufT.buffered, hlen, List.take_zero]
    rfl
  · have hl' : 0 < (s.sbuf idx).len := hl
    omega

end Handed

end ExamplePrograms.Onethread.Sockbuf
