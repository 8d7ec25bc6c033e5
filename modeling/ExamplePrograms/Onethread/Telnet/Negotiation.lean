import ExamplePrograms.Onethread.Telnet.Decoding

/-!
# Option negotiation

Every command in the data has one round of the loop, and `Element.answers` is what is sent in it. A round
is negotiated per option when only `TELNET_ECHO` and `TELNET_SUPRESS_GA` are accepted, every other option
is refused, and the echo changes for its own option only. `telnet_filter_read` tests the bits of an option
and keeps one flag for two of them, so that this holds for the requests that `Element.Apart` describes
(`perOption_iff`).
-/

set_option autoImplicit false

namespace ExamplePrograms.Onethread.Telnet

open ExamplePrograms.Lib.Loops

/-! ## Requests and answers -/

namespace Element

/-- The element is the command `cmd` with the option `what`. -/
def asks (cmd what : UInt8) : Element → Bool
  | option type arg _ => type == cmd && arg == what
  | _ => false

/-- What is sent for an element. -/
def answers (s : TelnetT) : Element → List Output
  | option type arg _ => optionAnswers s type arg
  | command type _ _ => if type = telnetAyt then [.write telnetYes] else []
  | _ => []

/-- The echo as its own option decides it. -/
def echoAfter (echo : Bool) (e : Element) : Bool :=
  if e.asks telnetDo telnetEcho then true
  else if e.asks telnetDont telnetEcho then false
  else echo

/-- The bit test does not take a `TELNET_DO` for one of another option. For `TELNET_SUPRESS_GA` this
needs the echo to be on. -/
def Apart (echo : Bool) : Element → Prop
  | option type arg _ => type = telnetDo →
      arg &&& (telnetEcho ||| telnetSupressGa) = 0 ∨ arg = telnetEcho ∨
        arg = telnetSupressGa ∧ echo = true
  | _ => True

end Element

/-- The elements that are commands. -/
def commands (es : List Element) : List Element := es.filter fun e => !e.isByte

/-- All requests are apart, each at the echo that the requests before it have decided. -/
def Apart : Bool → List Element → Prop
  | _, [] => True
  | echo, e :: es => e.Apart echo ∧ Apart (e.echoAfter echo) es

/-- What an output says about the echo. -/
def saidEcho (echo : Bool) : Output → Bool
  | .mode cmd what =>
      if what = telnetEcho then
        if cmd = telnetWill then true else if cmd = telnetWont then false else echo
      else echo
  | _ => echo

/-- What was last said about the echo, or `echo` when nothing was. -/
def lastSaid (echo : Bool) (out : List Output) : Bool := out.foldl saidEcho echo

/-! ## The rounds of a chunk -/

/-- The state before the first round. -/
def Chunk.begin (c : Chunk) (session : TelnetT) : ReadState := ⟨c.buf, 0, c.data.length, session, []⟩

/-- The states behind the rounds, whether or not the loop is left behind the last one. -/
def Chunk.rounds (c : Chunk) (session : TelnetT) : List ReadState :=
  states readRound (c.data.length + 1) (c.begin session)

/-- Every command has one round, in its order, and `P` holds of it. -/
def EachCommand (P : Element → ReadState → ReadState → Prop) : ReadState → List Element →
    List ReadState → Prop
  | _, [], [] => True
  | s, e :: es, s' :: ss => P e s s' ∧ EachCommand P s' es ss
  | _, _, _ => False

/-- What a round does about its command. -/
structure Handled (e : Element) (s s' : ReadState) : Prop where
  session : s'.session = e.session s.session
  out : s'.out = s.out ++ e.answers s.session

/-- A round that negotiates about its option only. -/
structure Answered (e : Element) (s s' : ReadState) : Prop where
  accepted : ∀ what, .mode telnetWill what ∈ s'.out.drop s.out.length →
    e.asks telnetDo what = true ∧ (what = telnetEcho ∨ what = telnetSupressGa)
  refused : ∀ what, e.asks telnetDo what = true → what ≠ telnetEcho → what ≠ telnetSupressGa →
    s'.out = s.out ++ [.mode telnetWont what]
  echo : s'.session.echo ≠ s.session.echo →
    e.asks telnetDo telnetEcho = true ∨ e.asks telnetDont telnetEcho = true

/-! ## Every command has its round -/

/-- A plain part has no commands. -/
theorem commands_plain {es : List Element} (h : es.all Element.isByte = true) : commands es = [] := by
  rw [commands, List.filter_eq_nil_iff]
  intro e he
  rw [List.all_eq_true.1 h e he]
  exact Bool.false_ne_true

/-- The commands, from the first one. -/
theorem commands_append {plain es : List Element} {e : Element} (hplain : plain.all Element.isByte = true)
    (hbyte : e.isByte = false) : commands (plain ++ e :: es) = e :: commands es := by
  rw [commands, List.filter_append, ← commands, commands_plain hplain, List.nil_append, List.filter_cons,
    hbyte]
  rfl

/-- The round of a command. Of `TELNET_AYT` a byte stays in the data. -/
theorem Element.round {e : Element} (hbyte : e.isByte = false) {pre : List UInt8} (hpre : telnetCmd ∉ pre)
    (es : List Element) (front stale : List UInt8) (session : TelnetT) (out : List Output) :
    ∃ front' es' stale', commands es' = commands es ∧
      (stream es').length < (e.bytes ++ stream es).length ∧
      readRound (loopState front (pre ++ (e.bytes ++ stream es)) stale session out) =
        .again (loopState front' (stream es') stale' (e.session session) (out ++ e.answers session)) := by
  cases e with
  | byte => exact absurd hbyte.symm Bool.false_ne_true
  | literal =>
    refine ⟨_, es, _, rfl, ?_, (Takes.literal (stream es)).round hpre front stale session out⟩
    rw [List.length_append]
    exact Nat.lt_add_of_pos_left (Nat.succ_pos 1)
  | option type arg h =>
    refine ⟨_, es, _, rfl, ?_, (Takes.option h arg (stream es)).round hpre front stale session out⟩
    rw [List.length_append]
    exact Nat.lt_add_of_pos_left (Nat.succ_pos 2)
  | command type hcmd h =>
    by_cases hayt : type = telnetAyt
    · subst hayt
      refine ⟨_, .byte telnetAyt hcmd :: es, _, rfl, ?_,
        (Takes.ayt (stream es)).round hpre front stale session out⟩
      simp [stream_cons, Element.bytes]
    · have hanswers : (Element.command type hcmd h).answers session = [] := if_neg hayt
      rw [hanswers]
      refine ⟨_, es, _, rfl, ?_, (Takes.other hayt hcmd h (stream es)).round hpre front stale session out⟩
      rw [List.length_append]
      exact Nat.lt_add_of_pos_left (Nat.succ_pos 1)

/-- From any state of the loop, with enough rounds. -/
theorem eachCommand_handled {es : List Element} {n : Nat} (hn : (stream es).length < n)
    (front stale : List UInt8) (session : TelnetT) (out : List Output) :
    EachCommand Handled (loopState front (stream es) stale session out) (commands es)
      (states readRound n (loopState front (stream es) stale session out)) := by
  induction n generalizing es front stale session out with
  | zero => exact absurd hn (Nat.not_lt_zero _)
  | succ n ih =>
    rcases split_elements es with hplain | ⟨plain, e, es', rfl, hplain, hbyte⟩
    · have hlast : ∀ s', readRound (loopState front (stream es) stale session out) ≠ .again s' := by
        intro s' hs
        rcases readRound_last (plain_elements hplain).1 front stale session out with
          ⟨-, hround⟩ | ⟨-, hround⟩
        · rw [hround] at hs
          cases hs
        · rw [hround] at hs
          cases hs
      rw [commands_plain hplain, states_last hlast]
      trivial
    · obtain ⟨front', es'', stale', hcommands, hlen, hround⟩ :=
        Element.round hbyte (plain_elements hplain).1 es' front stale session out
      rw [stream_append, stream_cons] at hn ⊢
      rw [List.length_append] at hn
      rw [commands_append hplain hbyte, states_again hround, ← hcommands]
      exact ⟨⟨rfl, rfl⟩, ih (by omega) front' stale' _ _⟩

/-! ## When a command is answered for its own option -/

/-- A request of another type does not ask for it. -/
theorem not_asks_of_ne {cmd type : UInt8} (hne : type ≠ cmd) (arg what : UInt8)
    (h : takesOption type = true) : (Element.option type arg h).asks cmd what = false := by
  rw [Element.asks, beq_false_of_ne hne, Bool.false_and]

/-- A request asks for its argument. -/
theorem asks_iff {cmd arg what : UInt8} {h : takesOption cmd = true} :
    (Element.option cmd arg h).asks cmd what = true ↔ what = arg := by
  rw [Element.asks, beq_self_eq_true, Bool.true_and, beq_iff_eq]
  exact eq_comm

section

variable {e : Element} {s s' : ReadState}

/-- A command that asks for nothing is neither answered nor does it change the session. -/
theorem answered_of_quiet (h : Handled e s s') (hasks : ∀ what, e.asks telnetDo what = false)
    (hsession : e.session s.session = s.session)
    (hanswers : ∀ what, .mode telnetWill what ∉ e.answers s.session) : Answered e s s' := by
  refine ⟨?_, ?_, ?_⟩
  · intro what hmem
    rw [h.out, List.drop_left] at hmem
    exact absurd hmem (hanswers what)
  · intro what hask
    exact absurd (hasks what) (by rw [hask]; decide)
  · intro hne
    exact absurd (congrArg TelnetT.echo (h.session.trans hsession)) hne

/-- The echo was on, and there is no answer. -/
theorem answered_silent {arg : UInt8} {hopt : takesOption telnetDo = true} (hout : s'.out = s.out)
    (hsession : s'.session = s.session) :
    Answered (.option telnetDo arg hopt) s s' ↔ arg = telnetEcho ∨ arg = telnetSupressGa := by
  constructor
  · intro h
    by_contra hother
    rw [not_or] at hother
    have hrefused := h.refused arg (asks_iff.2 rfl) hother.1 hother.2
    rw [hout] at hrefused
    exact absurd hrefused (by simp)
  · intro harg
    refine ⟨?_, ?_, ?_⟩
    · intro what hmem
      rw [hout, List.drop_length] at hmem
      exact absurd hmem List.not_mem_nil
    · intro what hask hecho hga
      rw [asks_iff.1 hask] at hecho hga
      exact absurd harg (by tauto)
    · intro hne
      exact absurd (congrArg TelnetT.echo hsession) hne

/-- The echo was off, and it is turned on. -/
theorem answered_accepted {arg : UInt8} {hopt : takesOption telnetDo = true}
    (hout : s'.out = s.out ++ [.mode telnetWill arg])
    (hsession : s'.session = { s.session with echo := true }) (hoff : s.session.echo = false) :
    Answered (.option telnetDo arg hopt) s s' ↔ arg = telnetEcho := by
  constructor
  · intro h
    have hne : s'.session.echo ≠ s.session.echo := by
      rw [hsession, hoff]
      exact fun h => Bool.false_ne_true h.symm
    rcases h.echo hne with hask | hask
    · exact (asks_iff.1 hask).symm
    · rw [not_asks_of_ne (by decide)] at hask
      exact absurd hask Bool.false_ne_true
  · rintro rfl
    refine ⟨?_, ?_, ?_⟩
    · intro what hmem
      rw [hout, List.drop_left, List.mem_singleton] at hmem
      cases hmem
      exact ⟨asks_iff.2 rfl, Or.inl rfl⟩
    · intro what hask hecho
      exact absurd (asks_iff.1 hask) hecho
    · exact fun _ => Or.inl (asks_iff.2 rfl)

/-- A refusal is an answer. -/
theorem answered_refused {arg : UInt8} {hopt : takesOption telnetDo = true}
    (hout : s'.out = s.out ++ [.mode telnetWont arg]) (hsession : s'.session = s.session) :
    Answered (.option telnetDo arg hopt) s s' := by
  refine ⟨?_, ?_, ?_⟩
  · intro what hmem
    rw [hout, List.drop_left, List.mem_singleton] at hmem
    cases hmem
  · intro what hask _ _
    rw [asks_iff.1 hask]
    exact hout
  · intro hne
    exact absurd (congrArg TelnetT.echo hsession) hne

/-- `TELNET_DO` is answered exactly when the bit test does not confuse its option. -/
theorem answered_do_iff {arg : UInt8} {hopt : takesOption telnetDo = true}
    (h : Handled (.option telnetDo arg hopt) s s') :
    Answered (.option telnetDo arg hopt) s s' ↔
      (Element.option telnetDo arg hopt).Apart s.session.echo := by
  have hout : s'.out = s.out ++ (telnetOnDo s.session arg).2 := h.out
  have hsession : s'.session = (telnetOnDo s.session arg).1 := h.session
  by_cases hbits : arg &&& (telnetEcho ||| telnetSupressGa) = 0
  · rw [telnetOnDo_refused hbits] at hout hsession
    exact iff_of_true (answered_refused hout hsession) fun _ => Or.inl hbits
  cases hecho : s.session.echo with
  | true =>
    rw [telnetOnDo_silent hbits hecho] at hout hsession
    rw [List.append_nil] at hout
    rw [answered_silent hout hsession]
    simp [Element.Apart, hbits]
  | false =>
    rw [telnetOnDo_accepted hbits hecho] at hout hsession
    rw [answered_accepted hout hsession hecho]
    simp [Element.Apart, hbits]

/-- `TELNET_DONT` is always answered. -/
theorem answered_dont {arg : UInt8} {hopt : takesOption telnetDont = true}
    (h : Handled (.option telnetDont arg hopt) s s') : Answered (.option telnetDont arg hopt) s s' := by
  have hasks : ∀ what, (Element.option telnetDont arg hopt).asks telnetDo what = false :=
    fun what => not_asks_of_ne (by decide) arg what hopt
  by_cases hecho : arg = telnetEcho ∧ s.session.echo = true
  · have hout : s'.out = s.out ++ [.mode telnetWont arg] :=
      h.out.trans (congrArg (fun r => s.out ++ Prod.snd r) (telnetOnDont_off hecho))
    refine ⟨?_, ?_, ?_⟩
    · intro what hmem
      rw [hout, List.drop_left, List.mem_singleton] at hmem
      cases hmem
    · intro what hask
      rw [hasks what] at hask
      exact absurd hask Bool.false_ne_true
    · exact fun _ => Or.inr (asks_iff.2 hecho.1.symm)
  · have hdont := telnetOnDont_silent hecho
    refine answered_of_quiet h hasks (congrArg Prod.fst hdont) fun what hmem => ?_
    have hanswers : (Element.option telnetDont arg hopt).answers s.session = [] :=
      congrArg Prod.snd hdont
    rw [hanswers] at hmem
    exact absurd hmem List.not_mem_nil

/-- **One command** is answered for its own option when the bit test keeps it apart. -/
theorem answered_iff (h : Handled e s s') : Answered e s s' ↔ e.Apart s.session.echo := by
  cases e with
  | byte =>
    refine iff_of_true (answered_of_quiet h (fun _ => rfl) rfl fun what => ?_) trivial
    exact List.not_mem_nil
  | literal =>
    refine iff_of_true (answered_of_quiet h (fun _ => rfl) rfl fun what => ?_) trivial
    exact List.not_mem_nil
  | command type hcmd hopt =>
    refine iff_of_true (answered_of_quiet h (fun _ => rfl) rfl fun what hmem => ?_) trivial
    rw [Element.answers] at hmem
    split at hmem
    · cases List.mem_singleton.1 hmem
    · exact absurd hmem List.not_mem_nil
  | option type arg hopt =>
    rcases takesOption_iff.1 hopt with rfl | rfl | rfl | rfl
    · refine iff_of_true (answered_of_quiet h (fun what => ?_) rfl fun what => ?_) ?_
      · exact not_asks_of_ne (by decide) arg what hopt
      · exact List.not_mem_nil
      · exact fun hdo => absurd hdo (by decide)
    · refine iff_of_true (answered_of_quiet h (fun what => ?_) rfl fun what => ?_) ?_
      · exact not_asks_of_ne (by decide) arg what hopt
      · exact List.not_mem_nil
      · exact fun hdo => absurd hdo (by decide)
    · exact answered_do_iff h
    · exact iff_of_true (answered_dont h) fun hdo => absurd hdo (by decide)

end

/-! ## The echo -/

/-- What was said last, of two lists of outputs. -/
theorem lastSaid_append (echo : Bool) (out out' : List Output) :
    lastSaid echo (out ++ out') = lastSaid (lastSaid echo out) out' := List.foldl_append

/-- An option that has neither bit is not `TELNET_ECHO`. -/
theorem ne_telnetEcho_of_bits {arg : UInt8} (h : arg &&& (telnetEcho ||| telnetSupressGa) = 0) :
    arg ≠ telnetEcho := by
  rintro rfl
  exact absurd h (by decide)

/-- A command that does not ask for the echo leaves it. -/
theorem Element.echoAfter_of_not_asks {e : Element} (hdo : e.asks telnetDo telnetEcho = false)
    (hdont : e.asks telnetDont telnetEcho = false) (echo : Bool) : e.echoAfter echo = echo := by
  rw [Element.echoAfter, hdo, hdont]
  rfl

/-- A request for another option leaves the echo alone. -/
theorem Element.echoAfter_of_ne {type arg : UInt8} {hopt : takesOption type = true} (hne : arg ≠ telnetEcho)
    (echo : Bool) : (Element.option type arg hopt).echoAfter echo = echo := by
  have hasks : ∀ cmd, (Element.option type arg hopt).asks cmd telnetEcho = false := by
    intro cmd
    rw [Element.asks, beq_false_of_ne hne, Bool.and_false]
  exact Element.echoAfter_of_not_asks (hasks telnetDo) (hasks telnetDont) echo

/-- What is said about the echo at a request that is apart is what becomes of it. -/
theorem Element.Apart.echo {e : Element} {session : TelnetT} (h : e.Apart session.echo) :
    (e.session session).echo = e.echoAfter session.echo ∧
      lastSaid session.echo (e.answers session) = (e.session session).echo := by
  cases e with
  | byte => exact ⟨rfl, rfl⟩
  | literal => exact ⟨rfl, rfl⟩
  | command type hcmd hopt =>
    refine ⟨rfl, ?_⟩
    rw [Element.answers]
    split <;> rfl
  | option type arg hopt =>
    rcases takesOption_iff.1 hopt with rfl | rfl | rfl | rfl
    · exact ⟨rfl, rfl⟩
    · exact ⟨rfl, rfl⟩
    · have hsession : (Element.option telnetDo arg hopt).session session = (telnetOnDo session arg).1 := rfl
      have hanswers : (Element.option telnetDo arg hopt).answers session = (telnetOnDo session arg).2 := rfl
      rcases h rfl with hbits | rfl | ⟨rfl, hecho⟩
      · have hne := ne_telnetEcho_of_bits hbits
        rw [hsession, hanswers, telnetOnDo_refused hbits, Element.echoAfter_of_ne hne]
        exact ⟨rfl, if_neg hne⟩
      · cases hecho : session.echo with
        | false =>
          rw [hsession, hanswers, telnetOnDo_accepted (by decide) hecho]
          exact ⟨rfl, rfl⟩
        | true =>
          rw [hsession, hanswers, telnetOnDo_silent (by decide) hecho, hecho]
          exact ⟨rfl, rfl⟩
      · rw [hsession, hanswers, telnetOnDo_silent (by decide) hecho,
          Element.echoAfter_of_ne (by decide)]
        exact ⟨rfl, rfl⟩
    · have hsession : (Element.option telnetDont arg hopt).session session =
          (telnetOnDont session arg).1 := rfl
      have hanswers : (Element.option telnetDont arg hopt).answers session =
          (telnetOnDont session arg).2 := rfl
      by_cases harg : arg = telnetEcho
      · subst harg
        cases hecho : session.echo with
        | false =>
          have hoff : ¬(telnetEcho = telnetEcho ∧ session.echo = true) := by simp [hecho]
          rw [hsession, hanswers, telnetOnDont_silent hoff, hecho]
          exact ⟨rfl, rfl⟩
        | true =>
          rw [hsession, hanswers, telnetOnDont_off ⟨rfl, hecho⟩]
          exact ⟨rfl, rfl⟩
      · rw [hsession, hanswers, telnetOnDont_silent fun hoff => harg hoff.1,
          Element.echoAfter_of_ne harg]
        exact ⟨rfl, rfl⟩

/-- The echo behind all elements as its own option decides it. -/
def echoDecided (echo : Bool) (es : List Element) : Bool := es.foldl Element.echoAfter echo

/-- The condition on two lists of elements, one behind the other. -/
theorem apart_append (echo : Bool) (es es' : List Element) :
    Apart echo (es ++ es') ↔ Apart echo es ∧ Apart (echoDecided echo es) es' := by
  induction es generalizing echo with
  | nil => exact (iff_of_eq (true_and _)).symm
  | cons e es ih =>
    rw [List.cons_append, Apart, Apart, ih, and_assoc]
    rfl

/-- A data byte is no request. -/
theorem apart_commands (echo : Bool) (es : List Element) :
    (Apart echo (commands es) ↔ Apart echo es) ∧ echoDecided echo (commands es) = echoDecided echo es := by
  induction es generalizing echo with
  | nil => exact ⟨Iff.rfl, rfl⟩
  | cons e es ih =>
    cases hbyte : e.isByte with
    | true =>
      obtain ⟨c, hc, rfl⟩ := Element.eq_byte hbyte
      exact ⟨(ih echo).1.trans (iff_of_eq (true_and _)).symm, (ih echo).2⟩
    | false =>
      have hnil : [].all Element.isByte = true := rfl
      have hkeep : commands (e :: es) = e :: commands es := commands_append hnil hbyte
      rw [hkeep]
      exact ⟨and_congr_right fun _ => (ih _).1, (ih _).2⟩

/-! ## Whole chunks -/

section

variable {s : ReadState} {es : List Element} {ss : List ReadState}

/-- All commands are answered for their own options when they are apart. -/
theorem eachCommand_answered_iff (h : EachCommand Handled s es ss) :
    EachCommand Answered s es ss ↔ Apart s.session.echo es := by
  induction es generalizing s ss with
  | nil =>
    cases ss with
    | nil => exact Iff.rfl
    | cons => exact h.elim
  | cons e es ih =>
    cases ss with
    | nil => exact h.elim
    | cons s' ss =>
      rw [EachCommand, Apart, answered_iff h.1, ih h.2]
      refine and_congr_right fun hapart => ?_
      rw [h.1.session, hapart.echo.1]

/-- Behind every round the echo is what was last said about it. -/
theorem agrees_of_apart (h : EachCommand Handled s es ss) (hapart : Apart s.session.echo es) {echo : Bool}
    {said : List Output} (hs : s.session.echo = lastSaid echo (said ++ s.out)) :
    ∀ s' ∈ s :: ss, s'.session.echo = lastSaid echo (said ++ s'.out) := by
  induction es generalizing s ss with
  | nil =>
    cases ss with
    | nil => exact List.forall_mem_singleton.2 hs
    | cons => exact h.elim
  | cons e es ih =>
    cases ss with
    | nil => exact h.elim
    | cons s' ss =>
      obtain ⟨he, hes⟩ := hapart
      have hsession := congrArg TelnetT.echo h.1.session
      refine List.forall_mem_cons.2 ⟨hs, ih h.2 ?_ ?_⟩
      · rw [hsession, he.echo.1]
        exact hes
      · rw [h.1.out, ← List.append_assoc, lastSaid_append, ← hs, hsession]
        exact he.echo.2.symm

/-- The echo behind the commands is what they have decided. -/
theorem echo_getLast (h : EachCommand Handled s es ss) (hapart : Apart s.session.echo es) {r : ReadState}
    (hr : (s :: ss).getLast? = some r) : r.session.echo = echoDecided s.session.echo es := by
  induction es generalizing s ss with
  | nil =>
    cases ss with
    | nil =>
      cases hr
      rfl
    | cons => exact h.elim
  | cons e es ih =>
    cases ss with
    | nil => exact h.elim
    | cons s' ss =>
      obtain ⟨he, hes⟩ := hapart
      have hecho : s'.session.echo = e.echoAfter s.session.echo := by
        rw [h.1.session, he.echo.1]
      rw [List.getLast?_cons_cons] at hr
      rw [ih h.2 (hecho ▸ hes) hr, hecho]
      rfl

end

/-! ## Whole streams -/

/-- Behind the loop no answer is sent. -/
theorem passOn_said {s : ReadState} {r : TelnetT × List Output} (h : passOn s = some r) :
    r.1 = s.session ∧ ∀ echo, lastSaid echo r.2 = lastSaid echo s.out := by
  rw [passOn] at h
  split at h
  · cases h
    exact ⟨rfl, fun _ => rfl⟩
  split at h
  · obtain ⟨line, -, rfl⟩ := Option.map_eq_some_iff.1 h
    refine ⟨rfl, fun echo => ?_⟩
    rw [lastSaid_append, lastSaid_append]
    split <;> rfl
  · cases h
    refine ⟨rfl, fun echo => ?_⟩
    rw [lastSaid_append]
    rfl

/-- A chunk of complete elements. -/
structure Delivery where
  chunk : Chunk
  elements : List Element
  data_eq : chunk.data = stream elements

/-- A delivery of elements that fit into a chunk. -/
def Delivery.padded (es : List Element) (hne : stream es ≠ []) (hlen : (stream es).length ≤ 4096) :
    Delivery where
  chunk := Telnet.padded (stream es) hne hlen
  elements := es
  data_eq := rfl

/-- Every command is answered for its own option, in every chunk that is reached. -/
def AnsweredAll : TelnetT → List Delivery → Prop
  | _, [] => True
  | session, d :: ds =>
      EachCommand Answered (d.chunk.begin session) (commands d.elements) (d.chunk.rounds session) ∧
        ∀ r, telnetFilterRead d.chunk.buf d.chunk.data.length session = some r → AnsweredAll r.1 ds

/-- The calls on `ds` have returned with the session `session'` and the output `said`, and the last call is
that on `d`. -/
structure PerOption (session : TelnetT) (ds : List Delivery) (session' : TelnetT) (said : List Output)
    (d : Delivery) : Prop where
  answered : AnsweredAll session (ds ++ [d])
  agrees : ∀ s ∈ d.chunk.begin session' :: d.chunk.rounds session',
    s.session.echo = lastSaid session.echo (said ++ s.out)
  returned : ∀ r, telnetFilterRead d.chunk.buf d.chunk.data.length session' = some r →
    r.1.echo = lastSaid session.echo (said ++ r.2)

/-- The rounds of the loop handle the commands one by one. -/
theorem Delivery.handled (d : Delivery) (session : TelnetT) :
    EachCommand Handled (d.chunk.begin session) (commands d.elements) (d.chunk.rounds session) := by
  rw [Chunk.rounds, Chunk.begin, d.chunk.loopState_eq, d.data_eq]
  exact eachCommand_handled (Nat.lt_succ_self _) [] d.chunk.behind session []

/-- **Each command is answered** just when the options are apart. -/
theorem Delivery.answered_iff (d : Delivery) (session : TelnetT) :
    EachCommand Answered (d.chunk.begin session) (commands d.elements) (d.chunk.rounds session) ↔
      Apart session.echo d.elements :=
  (eachCommand_answered_iff (d.handled session)).trans (apart_commands session.echo d.elements).1

/-- The state in which the call returns. -/
theorem Delivery.returned (d : Delivery) {session : TelnetT} {r : TelnetT × List Output}
    (h : telnetFilterRead d.chunk.buf d.chunk.data.length session = some r) :
    ∃ s, (d.chunk.begin session :: d.chunk.rounds session).getLast? = some s ∧ r.1 = s.session ∧
      ∀ echo, lastSaid echo r.2 = lastSaid echo s.out := by
  obtain ⟨s, hs, hpass⟩ := Option.bind_eq_some_iff.1 h
  obtain ⟨hsession, hsaid⟩ := passOn_said hpass
  exact ⟨s, iterate_getLast_states (fun _ _ => readRound_exit) hs, hsession, hsaid⟩

/-- What a call that returns has made of the echo. -/
theorem Delivery.echo_of_apart (d : Delivery) {session : TelnetT} {r : TelnetT × List Output}
    (hapart : Apart session.echo d.elements)
    (h : telnetFilterRead d.chunk.buf d.chunk.data.length session = some r) :
    r.1.echo = echoDecided session.echo d.elements := by
  obtain ⟨s, hlast, hsession, -⟩ := d.returned h
  obtain ⟨hiff, hdecided⟩ := apart_commands session.echo d.elements
  rw [hsession, ← hdecided]
  exact echo_getLast (d.handled session) (hiff.2 hapart) hlast

/-- The echo is what was last said about it, in the call and behind it. -/
theorem Delivery.agrees (d : Delivery) {session : TelnetT} {echo : Bool} {said : List Output}
    (hapart : Apart session.echo d.elements) (hsaid : session.echo = lastSaid echo said) :
    (∀ s ∈ d.chunk.begin session :: d.chunk.rounds session,
      s.session.echo = lastSaid echo (said ++ s.out)) ∧
    ∀ r, telnetFilterRead d.chunk.buf d.chunk.data.length session = some r →
      r.1.echo = lastSaid echo (said ++ r.2) := by
  have hbegin : (d.chunk.begin session).session.echo =
      lastSaid echo (said ++ (d.chunk.begin session).out) := by
    rw [Chunk.begin, List.append_nil]
    exact hsaid
  have hstates := agrees_of_apart (d.handled session) ((apart_commands _ _).1.2 hapart) hbegin
  refine ⟨hstates, fun r hr => ?_⟩
  obtain ⟨s, hlast, hsession, hout⟩ := d.returned hr
  rw [lastSaid_append, hout, ← lastSaid_append, hsession]
  exact hstates s (List.mem_of_getLast? hlast)

/-- The commands of all chunks are answered when they are apart, and the echo agrees behind them. -/
theorem answeredAll_iff {ds : List Delivery} {session session' : TelnetT} {out : List Output}
    (h : readChunks session (ds.map Delivery.chunk) = some (session', out)) (d : Delivery) :
    (AnsweredAll session (ds ++ [d]) ↔
      Apart session.echo ((ds ++ [d]).flatMap Delivery.elements)) ∧
    (Apart session.echo ((ds ++ [d]).flatMap Delivery.elements) → ∀ (echo : Bool) (said : List Output),
      session.echo = lastSaid echo said →
        session'.echo = lastSaid echo (said ++ out) ∧ Apart session'.echo d.elements) := by
  induction ds generalizing session out with
  | nil =>
    cases h
    rw [List.nil_append, List.flatMap_singleton]
    refine ⟨(and_iff_left fun _ _ => trivial).trans (d.answered_iff _), ?_⟩
    intro hapart echo said hsaid
    rw [List.append_nil]
    exact ⟨hsaid, hapart⟩
  | cons d₀ ds ih =>
    rw [List.map_cons, readChunks] at h
    obtain ⟨r, hread, hrest⟩ := Option.bind_eq_some_iff.1 h
    obtain ⟨r', hr', heq⟩ := Option.map_eq_some_iff.1 hrest
    obtain ⟨rfl, rfl⟩ := Prod.mk.inj heq
    obtain ⟨hiff, hagrees⟩ := ih hr'
    have hall : AnsweredAll session (d₀ :: (ds ++ [d])) ↔
        EachCommand Answered (d₀.chunk.begin session) (commands d₀.elements) (d₀.chunk.rounds session) ∧
          AnsweredAll r.1 (ds ++ [d]) := by
      refine and_congr_right fun _ => ⟨fun hr => hr r hread, ?_⟩
      intro hr r₁ hr₁
      rw [hread] at hr₁
      cases hr₁
      exact hr
    rw [List.cons_append, List.flatMap_cons, apart_append]
    constructor
    · rw [hall, d₀.answered_iff]
      refine and_congr_right fun hapart => ?_
      rw [hiff, d₀.echo_of_apart hapart hread]
    · rintro ⟨hapart, hrestapart⟩ echo said hsaid
      rw [← d₀.echo_of_apart hapart hread] at hrestapart
      have hnext := hagrees hrestapart echo (said ++ r.2) ((d₀.agrees hapart hsaid).2 r hread)
      rwa [List.append_assoc] at hnext

/-- **Option negotiation is per option** for the streams whose requests are apart, and for no other: every
command of the stream has its answer, and the echo is what was last said about it. The call on the last
chunk does not have to return. -/
theorem perOption_iff {session session' : TelnetT} {ds : List Delivery} {said : List Output}
    (h : readChunks session (ds.map Delivery.chunk) = some (session', said)) (d : Delivery) :
    PerOption session ds session' said d ↔
      Apart session.echo ((ds ++ [d]).flatMap Delivery.elements) := by
  obtain ⟨hiff, hagrees⟩ := answeredAll_iff h d
  constructor
  · exact fun hper => hiff.1 hper.answered
  · intro hapart
    obtain ⟨hecho, hlast⟩ := hagrees hapart session.echo [] rfl
    obtain ⟨hstates, hreturned⟩ := d.agrees hlast hecho
    exact ⟨hiff.2 hapart, hstates, hreturned⟩

/-- Behind a chunk of text: the refusal of a terminal type, then both options that are accepted. -/
theorem perOption_behind_text : ∃ said, PerOption {}
    [.padded [.byte 97 (by decide)] (by decide) (by decide)] {} said
    (.padded [.option telnetDo 24 (by decide), .option telnetDo telnetEcho (by decide),
      .option telnetDo telnetSupressGa (by decide)] (by decide) (by decide)) := by
  have hplain : Plain {} (joined
      ([.padded [.byte 97 (by decide)] (by decide) (by decide)].map Delivery.chunk)) :=
    ⟨by decide, fun hecho => absurd hecho (by decide)⟩
  obtain ⟨said, hread, -, -⟩ := readChunks_plain hplain
  refine ⟨said, (perOption_iff hread _).2 ?_⟩
  exact ⟨trivial, fun _ => Or.inl rfl, fun _ => Or.inr (Or.inl rfl),
    fun _ => Or.inr (Or.inr ⟨rfl, rfl⟩), trivial⟩

/-- A request for the option `STATUS` is accepted. -/
theorem status_accepted : ¬ PerOption {} [] {} []
    (.padded [.option telnetDo 5 (by decide)] (by decide) (by decide)) := by
  intro h
  have hanswered := h.answered
  rw [List.nil_append, AnsweredAll, Delivery.answered_iff] at hanswered
  obtain ⟨hapart, -⟩ := hanswered.1
  rcases hapart rfl with hbits | hecho | ⟨hga, -⟩
  · exact absurd hbits (by decide)
  · exact absurd hecho (by decide)
  · exact absurd hga (by decide)

end ExamplePrograms.Onethread.Telnet
