import ExamplePrograms.Onethread.Sockbuf.Isolation

/-!
# Sockbufs do not interfere

A call that does not name a sockbuf in use leaves it alone, and so does a task that belongs to another
one: its record, what `poll` is asked for it and what `sockbuf_list` says of it stay as they are, and no
event is about it (`Spares`). This holds whatever slots are handed out, deleted or reclaimed meanwhile,
and wherever the entry of the sockbuf moves in the poll table.
-/

set_option autoImplicit false

namespace ExamplePrograms.Onethread.Sockbuf

open ExamplePrograms.Lib.Runs State

/-- The event is about the sockbuf. -/
def Event.About (j : Nat) : Event → Prop
  | .created idx => idx = j
  | .attached idx _ => idx = j
  | .deleted idx => idx = j
  | e => e.On j

/-- The call has the sockbuf among its arguments. `sockbuf_shutdown` is about all of them. -/
def Api.Names (j : Nat) : Api → Prop
  | .setSock idx _ _ => idx = j
  | .close idx => idx = j
  | .delete idx => idx = j
  | .write idx _ _ => idx = j
  | .read idx => idx = j
  | .noread idx => idx = j
  | .setHandler idx _ _ => idx = j
  | .attachFilter idx _ _ => idx = j
  | .detachFilter idx _ => idx = j
  | .on idx _ (.newclient newidx _ _) => idx = j ∨ newidx = j
  | .on idx _ _ => idx = j
  | .shutdown => True
  | _ => False

/-- The task is part of an event or of the deletion of the sockbuf. -/
def Task.Names (j : Nat) : Task → Prop
  | .writable idx _ => idx = j
  | .readable idx _ => idx = j
  | .hangup idx => idx = j
  | .delete idx _ => idx = j
  | .deleteFinish idx => idx = j
  | .shutdown _ => True
  | _ => False

/-- The step is not about the sockbuf. -/
def Apart (j : Nat) (c : Config) : Action → Prop
  | .call f _ => ¬ f.Names j
  | .ret => True
  | .run _ => ∀ t ∈ c.stack.head?, ¬ t.Names j

instance (j : Nat) : (f : Api) → Decidable (f.Names j)
  | .setSock idx _ _ => inferInstanceAs (Decidable (idx = j))
  | .close idx => inferInstanceAs (Decidable (idx = j))
  | .delete idx => inferInstanceAs (Decidable (idx = j))
  | .write idx _ _ => inferInstanceAs (Decidable (idx = j))
  | .read idx => inferInstanceAs (Decidable (idx = j))
  | .noread idx => inferInstanceAs (Decidable (idx = j))
  | .setHandler idx _ _ => inferInstanceAs (Decidable (idx = j))
  | .attachFilter idx _ _ => inferInstanceAs (Decidable (idx = j))
  | .detachFilter idx _ => inferInstanceAs (Decidable (idx = j))
  | .on idx _ (.newclient newidx _ _) => inferInstanceAs (Decidable (idx = j ∨ newidx = j))
  | .on idx _ (.connect _ _) | .on idx _ (.eof _) | .on idx _ (.read _) | .on idx _ (.written _ _)
  | .on idx _ (.write _) | .on idx _ .delete => inferInstanceAs (Decidable (idx = j))
  | .shutdown => .isTrue trivial
  | .new | .attachListener _ | .detachListener _ | .updateAll => .isFalse id

instance (j : Nat) : (t : Task) → Decidable (t.Names j)
  | .writable idx _ => inferInstanceAs (Decidable (idx = j))
  | .readable idx _ => inferInstanceAs (Decidable (idx = j))
  | .hangup idx => inferInstanceAs (Decidable (idx = j))
  | .delete idx _ => inferInstanceAs (Decidable (idx = j))
  | .deleteFinish idx => inferInstanceAs (Decidable (idx = j))
  | .shutdown _ => .isTrue trivial
  | .scan _ _ | .crash | .external _ => .isFalse id

instance (j : Nat) (c : Config) : (a : Action) → Decidable (Apart j c a)
  | .call f _ => inferInstanceAs (Decidable (¬ f.Names j))
  | .ret => instDecidableTrue
  | .run _ => inferInstanceAs (Decidable (∀ t ∈ c.stack.head?, ¬ t.Names j))

/-- Nothing of the sockbuf changed from `s` to `s'`, and none of the events on the way is about it. -/
structure Spares (j : Nat) (s : State) (es : List Event) (s' : State) : Prop where
  slots : s.nsockbufs ≤ s'.nsockbufs
  record : s'.sbuf j = s.sbuf j
  entry : SameEntry j s s'
  events : ∀ e ∈ es, ¬ e.About j

namespace Spares

variable {j idx : Nat} {s s' s'' : State} {es es' : List Event}

theorem refl (j : Nat) (s : State) : Spares j s [] s :=
  ⟨Nat.le_refl _, rfl, .refl j s, fun _ he => absurd he List.not_mem_nil⟩

theorem trans (h : Spares j s es s') (h' : Spares j s' es' s'') : Spares j s (es ++ es') s'' where
  slots := Nat.le_trans h.slots h'.slots
  record := h'.record.trans h.record
  entry := h.entry.trans h'.entry
  events e he := (List.mem_append.1 he).elim (h.events e) (h'.events e)

/-- The events `es'` before the others. -/
theorem log (hes : ∀ e ∈ es', ¬ e.About j) (h : Spares j s es s') : Spares j s (es' ++ es) s' where
  slots := h.slots
  record := h.record
  entry := h.entry
  events e he := (List.mem_append.1 he).elim (hes e) (h.events e)

/-- A sockbuf that is spared stays valid. -/
theorem valid (h : Spares j s es s') (hv : sockbufIsvalid s j = true) : sockbufIsvalid s' j = true := by
  obtain ⟨hlt, havail, hdel⟩ := sockbufIsvalid_iff.1 hv
  rw [← h.record] at havail hdel
  exact sockbufIsvalid_iff.2 ⟨Nat.lt_of_lt_of_le hlt h.slots, havail, hdel⟩

/-- An event about one sockbuf is not about another. -/
theorem not_about {e : Event} (he : e.On idx) (hne : idx ≠ j) : ¬ e.About j := by
  have hon : ¬ e.On j := fun hj => hne (on_unique hj he)
  cases e with
  | created i => exact absurd he id
  | attached i sock => exact absurd he id
  | deleted i => exact absurd he id
  | _ => exact hon

/-- Work within one sockbuf spares the others. -/
theorem of_within (hne : idx ≠ j) (hw : Within idx s es s') : Spares j s es s' where
  slots := Nat.le_of_eq hw.nsockbufs.symm
  record := hw.others j (Ne.symm hne)
  entry := hw.entries j (Ne.symm hne)
  events e he := not_about (hw.events e he) hne

/-- The records stay, and the entries of all sockbufs. -/
theorem of_table (hslots : s'.sockbufs = s.sockbufs) (hb : TableBounds s → TableBounds s')
    (hidxs : s'.idxs = s.idxs) (hfds : TableBounds s → s'.fds = s.fds) (hes : ∀ e ∈ es, ¬ e.About j) :
    Spares j s es s' where
  slots := Nat.le_of_eq (by rw [nsockbufs, nsockbufs, hslots])
  record := by rw [sbuf, sbuf, hslots]
  entry := .of_table hb hidxs hfds
  events := hes

/-- Another record changed. -/
theorem update (s : State) (hne : idx ≠ j) (f : SockbufT → SockbufT) :
    Spares j s [] (s.update idx f) where
  slots := Nat.le_of_eq (update_nsockbufs s idx f).symm
  record := sbuf_update_ne s idx f hne
  entry := .update s idx f
  events _ he := absurd he List.not_mem_nil

/-- A change of another entry spares the sockbuf. -/
theorem updateEntry (s : State) (hne : idx ≠ j) (f : Pollfd → Pollfd) :
    Spares j s [] (s.updateEntry idx f) where
  slots := Nat.le_of_eq (updateEntry_nsockbufs s idx f).symm
  record := updateEntry_sbuf s idx f j
  entry := .updateEntry s (Ne.symm hne) f
  events _ he := absurd he List.not_mem_nil

/-! ### Slots -/

/-- A new sockbuf spares the valid ones. -/
theorem create (hv : sockbufIsvalid s j = true) :
    Spares j s [.created (sockbufNew s).2] (sockbufNew s).1 where
  slots := nsockbufs_le_sockbufNew s
  record := sbuf_sockbufNew_old (ne_firstAvail hv) (sockbufIsvalid_iff.1 hv).1
  entry := .of_table (fun hb => ⟨hb.idxArray, hb.pollfds⟩) rfl fun _ => rfl
  events e he := by
    rw [List.mem_singleton.1 he]
    exact Ne.symm (ne_firstAvail hv)

/-- A socket of another sockbuf spares this one. -/
theorem setSock (k : Kernel) (s : State) (hne : idx ≠ j) (sock : Int) (flags : Flags) :
    Spares j s (attachEvents s idx sock) (sockbufSetSock k s idx sock flags) := by
  have hes : ∀ e ∈ attachEvents s idx sock, ¬ e.About j := by
    intro e he
    rw [attachEvents] at he
    split at he
    · rw [List.mem_singleton.1 he]
      exact hne
    · cases he
  cases hv : sockbufIsvalid s idx with
  | true =>
    exact ⟨Nat.le_of_eq (nsockbufs_sockbufSetSock k flags hv sock).symm,
      sbuf_sockbufSetSock_ne hv sock (Ne.symm hne), .setSock k hv (Ne.symm hne) sock flags, hes⟩
  | false =>
    rw [sockbufSetSock, if_pos hv]
    exact ⟨Nat.le_refl _, rfl, .refl j s, hes⟩

/-- A deletion of another sockbuf spares this one. -/
theorem deleteFinish (s : State) (hne : idx ≠ j) : Spares j s [] (sockbufDeleteFinish s idx) where
  slots := Nat.le_of_eq (sockbufDeleteFinish_nsockbufs s idx).symm
  record := by rw [sbuf_sockbufDeleteFinish, if_neg fun hc => hne hc.1]
  entry := .of_drop (Ne.symm hne) fun hb => dropsEntry_sockbufDeleteFinish hb idx
  events _ he := absurd he List.not_mem_nil

/-- Only deleted slots become available at the end of a pass. -/
theorem finish (hv : sockbufIsvalid s j = true) :
    Spares j s (updateFinish s).events (updateFinish s).st where
  slots := Nat.le_of_eq (nsockbufs_updateFinish s).symm
  record := by
    rcases sbuf_updateFinish s j with hsame | ⟨hdel, -⟩
    · exact hsame
    · rw [(sockbufIsvalid_iff.1 hv).2.2] at hdel
      cases hdel
  entry := by
    rcases (updateFinish_cases s).2.2 with h | h
    · rw [h]
      exact .of_table (fun hb => ⟨hb.idxArray, hb.pollfds⟩) rfl fun _ => rfl
    · rw [h]
      exact .of_table (fun hb => ⟨hb.idxArray, hb.pollfds⟩) rfl fun _ => rfl
  events e he := by
    rw [(updateFinish_cases s).1] at he
    rw [List.mem_singleton.1 he]
    exact id

/-! ### Callbacks -/

theorem invoke (s : State) {cb : Callback} (hne : cb.idx ≠ j) :
    Spares j s (Outcome.invoke s cb).events (Outcome.invoke s cb).st := by
  refine ⟨Nat.le_refl _, rfl, .refl j s, fun e he => ?_⟩
  rw [List.mem_singleton.1 he]
  exact not_about (e := .callback cb) rfl hne

theorem callHandler (s : State) (hne : idx ≠ j) (defines : SockbufHandler → Bool) (call : Call) :
    Spares j s (callHandler s idx defines call).events (callHandler s idx defines call).st :=
  .of_within hne (Within.callHandler s idx defines call)

theorem onConnect (k : Kernel) (s : State) (hne : idx ≠ j) (level : Int) (peerIp : Option String)
    (peerPort : Int) : Spares j s (sockbufOnConnect k s idx level peerIp peerPort).events
      (sockbufOnConnect k s idx level peerIp peerPort).st := by
  rw [sockbufOnConnect]
  split
  · exact invoke s hne
  · exact (update s hne _).trans (callHandler _ hne _ _)

theorem onNewclient (k : Kernel) (s : State) (hne : idx ≠ j) (level : Int) {newidx : Nat}
    (hnew : newidx ≠ j) (peerIp : Option String) (peerPort : Int) :
    Spares j s (sockbufOnNewclient k s idx level newidx peerIp peerPort).events
      (sockbufOnNewclient k s idx level newidx peerIp peerPort).st := by
  rw [sockbufOnNewclient]
  split
  · split
    · exact invoke s hne
    · exact .refl j s
  · exact (update s hnew _).trans (callHandler _ hne _ _)

/-! ### Connections -/

theorem gotWritableClient (k : Kernel) (s : State) (hne : idx ≠ j) :
    Spares j s (sockbufGotWritableClient k s idx).events (sockbufGotWritableClient k s idx).st := by
  rw [sockbufGotWritableClient]
  split
  · exact .of_within hne (Within.gotEof k s idx _)
  · have hconnected := update s hne fun sb =>
      { sb with flags := { sb.flags with connecting := false } }
    refine hconnected.trans ?_
    dsimp only
    split
    · exact (of_within hne (Within.unblock _ idx)).trans (onConnect k _ hne _ _ _)
    · exact onConnect k _ hne _ _ _

/-- A connection accepted by another sockbuf spares this one. -/
theorem gotReadableServer (k : Kernel) (hv : sockbufIsvalid s j = true) (hne : idx ≠ j) :
    Spares j s (sockbufGotReadableServer k s idx).events (sockbufGotReadableServer k s idx).st := by
  rw [sockbufGotReadableServer]
  dsimp only
  split
  · exact .refl j s
  · next hsock =>
    generalize k.sysAccept (s.sbuf idx).sock = sock at hsock ⊢
    have hnew : (sockbufNew s).2 ≠ j := Ne.symm (ne_firstAvail hv)
    have hset := setSock k (sockbufNew s).1 hnew sock { inbound := true }
    rw [attachEvents, if_pos ⟨sockbufIsvalid_sockbufNew s, by omega⟩] at hset
    exact (create hv).trans (hset.trans (onNewclient k _ hne _ hnew _ _))

/-! ### Passes and deletions -/

theorem delete (s : State) (hne : idx ≠ j) :
    Spares j s (sockbufDelete s idx).events (sockbufDelete s idx).st := by
  rw [sockbufDelete]
  split
  · refine ⟨Nat.le_of_eq (update_nsockbufs s idx _).symm, sbuf_update_ne s idx _ hne,
      .update s idx _, fun e he => ?_⟩
    rw [List.mem_singleton.1 he]
    exact hne
  · exact .refl j s

/-- The callbacks of another deletion spare the sockbuf. -/
theorem deleteCallbacks (s : State) (hne : idx ≠ j) (i : Nat) :
    Spares j s (sockbufDeleteCallbacks s idx i).events (sockbufDeleteCallbacks s idx i).st := by
  rw [sockbufDeleteCallbacks]
  split
  · split
    · exact .refl j s
    · split
      · exact invoke s hne
      · exact .refl j s
  · exact callHandler s hne _ _

/-- A `poll` writes the `revents` of all entries, and nothing else. -/
theorem updateAll (k : Kernel) (s : State) (j : Nat) :
    Spares j s (sockbufUpdateAll k s).events (sockbufUpdateAll k s).st := by
  have hes : ∀ e ∈ (sockbufUpdateAll k s).events, ¬ e.About j := by
    intro e he
    rcases mem_events_sockbufUpdateAll he with rfl | rfl | ⟨reports, rfl⟩
    · exact id
    · exact id
    · exact id
  rw [sockbufUpdateAll] at hes ⊢
  split at hes
  · exact .of_table rfl (fun hb => ⟨hb.idxArray, hb.pollfds⟩) rfl (fun _ => rfl) hes
  · next words _ =>
    refine ⟨Nat.le_refl _, rfl, ⟨fun hb => bounds_writeRevents hb words _, fun _ fd events => ?_⟩, hes⟩
    have hfds := fds_writeRevents s words (s.depth + 1)
    constructor
    · rintro ⟨i, p, he, hfd, hev⟩
      have hcell := he.cell
      rw [hfds, List.getElem?_mapIdx] at hcell
      obtain ⟨q, hq, rfl⟩ := Option.map_eq_some_iff.1 hcell
      exact ⟨i, q, ⟨he.idx, hq⟩, hfd, hev⟩
    · rintro ⟨i, p, he, hfd, hev⟩
      refine ⟨i, { p with revents := words.getD i {} }, ⟨he.idx, ?_⟩, hfd, hev⟩
      rw [hfds, List.getElem?_mapIdx, he.cell]
      rfl

/-- The head of the loop spares the sockbuf. -/
theorem scan (hv : sockbufIsvalid s j = true) (i n : Nat) :
    Spares j s (updateScan s i n).events (updateScan s i n).st := by
  rw [updateScan]
  dsimp only
  split
  · split
    · exact .refl j s
    · exact .refl j s
  · exact finish hv

end Spares

/-! ## Steps -/

section Steps

variable {j : Nat} {s : State} {k : Kernel} {o : Outcome}

theorem spares_on {idx : Nat} (hne : idx ≠ j) (level : Int) {call : Call}
    (hcall : ¬ (Api.on idx level call).Names j) (h : sockbufOn k s idx level call = some o) :
    Spares j s o.events o.st := by
  cases call with
  | connect peerIp peerPort => cases h; exact .onConnect k s hne level peerIp peerPort
  | eof err => cases h; exact .of_within hne (Within.onEof s idx level err)
  | newclient newidx peerIp peerPort =>
    cases h
    exact .onNewclient k s hne level (fun hnew => hcall (Or.inr hnew)) peerIp peerPort
  | read data => cases h; exact .of_within hne (Within.onRead s idx level data)
  | write data => cases h; exact .of_within hne (Within.onWrite k s idx level data)
  | written len remaining => cases h; exact .of_within hne (Within.onWritten s idx level len remaining)
  | delete => cases h

/-- **A call that does not name the sockbuf** spares it. -/
theorem spares_apply {f : Api} (hv : sockbufIsvalid s j = true) (hf : ¬ f.Names j)
    (h : f.apply k s = some o) : Spares j s o.events o.st := by
  cases f with
  | new => cases h; exact .create hv
  | setSock idx sock flags => cases h; exact .setSock k s hf sock flags
  | close idx => cases h; exact .of_within hf (Within.close k s idx)
  | delete idx => cases h; exact .delete s hf
  | write idx data len => cases h; exact .of_within hf (Within.write k s idx data len)
  | read idx =>
    cases h
    rw [sockbufRead]
    split
    · exact .updateEntry s hf _
    · exact .refl j s
  | noread idx =>
    cases h
    rw [sockbufNoread]
    split
    · exact .updateEntry s hf _
    · exact .refl j s
  | attachListener fd =>
    cases h
    refine .of_table rfl (fun hb => bounds_sockbufAttachListener hb k fd) rfl
      (fun hb => fds_sockbufAttachListener hb k fd) fun e he => ?_
    rw [List.mem_singleton.1 he]
    exact id
  | detachListener fd =>
    cases h
    have hrest : (sockbufDetachListener s fd).sockbufs = s.sockbufs ∧
        (sockbufDetachListener s fd).idxs = s.idxs := by
      rw [sockbufDetachListener]
      split <;> exact ⟨rfl, rfl⟩
    refine .of_table hrest.1 (fun hb => (table_sockbufDetachListener hb fd).1) hrest.2
      (fun hb => (table_sockbufDetachListener hb fd).2.1) fun e he => ?_
    rw [List.mem_singleton.1 he]
    exact id
  | setHandler idx handler clientData =>
    cases h
    rw [sockbufSetHandler]
    split
    · exact .update s hf _
    · exact .refl j s
  | attachFilter idx filter clientData =>
    cases h
    rw [sockbufAttachFilter]
    split
    · exact .update s hf _
    · exact .refl j s
  | detachFilter idx filter =>
    cases h
    rw [sockbufDetachFilter]
    split
    · exact .update s hf _
    · exact .refl j s
  | on idx level call =>
    refine spares_on (fun hne => hf ?_) level hf h
    cases call with
    | newclient newidx peerIp peerPort => exact Or.inl hne
    | _ => exact hne
  | updateAll => cases h; exact .updateAll k s j
  | shutdown => exact absurd trivial hf

/-- **A task that does not name the sockbuf** spares it. -/
theorem spares_exec {t : Task} (hv : sockbufIsvalid s j = true) (ht : ¬ t.Names j)
    (h : t.exec k s = some o) : Spares j s o.events o.st := by
  have hdispatch : ∀ {idx : Nat} {kind : EventKind}, idx ≠ j →
      ∀ e ∈ [Event.dispatched idx kind], ¬ e.About j := fun hne e he => by
    rw [List.mem_singleton.1 he]
    exact hne
  cases t with
  | external cb => cases h
  | crash => cases h
  | shutdown i => exact absurd trivial ht
  | writable idx connecting =>
    cases h
    refine Spares.log (hdispatch ht) ?_
    split
    · exact .gotWritableClient k s ht
    · exact .of_within ht (Within.gotWritable k s idx)
  | readable idx server =>
    cases h
    refine Spares.log (hdispatch ht) ?_
    split
    · exact .gotReadableServer k hv ht
    · exact .of_within ht (Within.gotReadable k s idx)
  | hangup idx => cases h; exact Spares.log (hdispatch ht) (.of_within ht (Within.gotEof k s idx 0))
  | scan i n => cases h; exact .scan hv i n
  | delete idx i => cases h; exact .deleteCallbacks s ht i
  | deleteFinish idx => cases h; exact .deleteFinish s ht

end Steps

/-- A step that is not about a sockbuf in use spares it. -/
theorem step_spares {j : Nat} {c c' : Config} {a : Action} (hv : sockbufIsvalid c.st j = true)
    (ha : Apart j c a) (h : step c a = some c') :
    ∃ es, Spares j c.st es c'.st ∧ c'.trace = c.trace ++ es := by
  rcases step_cases h with ⟨f, k, o, rfl, -, ho, rfl⟩ | ⟨cb, rest, rfl, -, rfl⟩ |
    ⟨k, t, rest, o, rfl, hs, ho, rfl⟩
  · exact ⟨o.events, spares_apply hv ha ho, rfl⟩
  · exact ⟨[], .refl j c.st, (List.append_nil _).symm⟩
  · have ht : ¬ t.Names j := ha t (by rw [hs]; rfl)
    exact ⟨o.events, spares_exec hv ht ho, rfl⟩

/-- The steps between two states spare the sockbuf. -/
theorem run_spares {j : Nat} {c c' : Config} (hv : sockbufIsvalid c.st j = true)
    (h : Run step (Apart j) c c') :
    ∃ es, Spares j c.st es c'.st ∧ c'.trace = c.trace ++ es := by
  induction h with
  | refl => exact ⟨[], .refl j c.st, (List.append_nil _).symm⟩
  | snoc _ ha hs ih =>
    obtain ⟨es, hes, htrace⟩ := ih
    obtain ⟨es', hes', htrace'⟩ := step_spares (hes.valid hv) ha hs
    exact ⟨es ++ es', hes.trans hes', by rw [htrace', htrace, List.append_assoc]⟩

/-- What `sockbuf_get_sock` and `sockbuf_list` say of a sockbuf depends on its record only. -/
theorem Spares.asked {j : Nat} {s s' : State} {es : List Event} (h : Spares j s es s')
    (hv : sockbufIsvalid s j = true) : sockbufGetSock s' j = sockbufGetSock s j ∧
      ∀ flags, j ∈ sockbufList s' flags ↔ j ∈ sockbufList s flags := by
  have hlt := (sockbufIsvalid_iff.1 hv).1
  constructor
  · rw [sockbufGetSock, sockbufGetSock, hv, h.valid hv, h.record]
  · intro flags
    have hrange : j ∈ List.range s'.nsockbufs ↔ j ∈ List.range s.nsockbufs := by
      rw [List.mem_range, List.mem_range]
      exact iff_of_true (Nat.lt_of_lt_of_le hlt h.slots) hlt
    rw [sockbufList, sockbufList, List.mem_filter, List.mem_filter, hrange, h.record]

/-- **Sockbufs do not interfere.** While a run goes on without a call or a task that names a sockbuf in
use, nothing of it changes: its record stays with all its buffers and filters, `poll` is asked the same
for it although entries are added, removed and moved in the table, it is listed the same, and no event is
about it. -/
theorem sockbuf_untouched {c c' : Config} {j : Nat} (hc : Run step NoShutdown start c)
    (hv : sockbufIsvalid c.st j = true) (h : Run step (Apart j) c c') :
    sockbufIsvalid c'.st j = true ∧ c'.st.sbuf j = c.st.sbuf j ∧
      (∀ fd events, Listed c'.st j fd events ↔ Listed c.st j fd events) ∧
      sockbufGetSock c'.st j = sockbufGetSock c.st j ∧
      (∀ flags, j ∈ sockbufList c'.st flags ↔ j ∈ sockbufList c.st flags) ∧
      ∃ es, c'.trace = c.trace ++ es ∧ ∀ e ∈ es, ¬ e.About j := by
  obtain ⟨es, hes, htrace⟩ := run_spares hv h
  obtain ⟨hsock, hlist⟩ := hes.asked hv
  have hbounds : TableBounds c.st := (monitored_run hc).1.bounds
  exact ⟨hes.valid hv, hes.record, hes.entry.entry hbounds, hsock, hlist, es, htrace, hes.events⟩

/-- Two connections. -/
def twoSocks : List Action :=
  [.call .new {}, .call (.setSock 0 5 {}) {}, .call .new {}, .call (.setSock 1 6 {}) {}]

/-- The first one is deleted, and its slot is handed out again. -/
def reuse : List Action :=
  [.call (.delete 0) {}, .run {}, .run {}, .call .updateAll {}, .run {}, .call .new {},
    .call (.setSock 0 7 {}) {}]

/-- The entry of the second one moves to the front. -/
theorem sockbuf_untouched_reuse : ∃ c c', Run step NoShutdown start c ∧ Run step (Apart 1) c c' ∧
    c.st.findEntry 1 = 1 ∧ c'.st.findEntry 1 = 0 ∧
    sockbufIsvalid c'.st 1 = true ∧ c'.st.sbuf 1 = c.st.sbuf 1 ∧
      (∀ fd events, Listed c'.st 1 fd events ↔ Listed c.st 1 fd events) ∧
      sockbufGetSock c'.st 1 = sockbufGetSock c.st 1 ∧
      (∀ flags, 1 ∈ sockbufList c'.st flags ↔ 1 ∈ sockbufList c.st flags) ∧
      ∃ es, c'.trace = c.trace ++ es ∧ ∀ e ∈ es, ¬ e.About 1 := by
  refine ⟨_, _, run_of_execute twoSocks rfl, run_of_execute reuse rfl, rfl, rfl, ?_⟩
  exact sockbuf_untouched (run_of_execute twoSocks rfl) rfl (run_of_execute reuse rfl)

end ExamplePrograms.Onethread.Sockbuf
