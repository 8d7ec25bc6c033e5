import ExamplePrograms.Lib.CString
import ExamplePrograms.Lib.Loops

/-!
# The command shell

`readline.c`: a table of commands, a prompt, and a loop that reads a line, cuts it into a command word and
the rest, and calls the command. The completion generator keeps its position in the table in static
variables from one call to the next.

`Turn` is what the loop leaves behind a line: it goes on, the program has exited, or it has passed a NULL
pointer to `strncasecmp`. The results of the callbacks, which `main` drops, are left out.
-/

set_option autoImplicit false

namespace ExamplePrograms.Other.Shell

open ExamplePrograms.Lib.CString ExamplePrograms.Lib.Loops

/-- The functions that the table names. -/
inductive CmdCallback where
  | help
  | shell
  | exit
  deriving DecidableEq, Repr

/-- An entry of the table. -/
structure CmdT where
  cmd : List UInt8
  callback : CmdCallback
  usage : List UInt8
  deriving DecidableEq, Repr

/-- The table, up to its NULL entry. -/
def cmdList : List CmdT :=
  [⟨"help".toUTF8.data.toList, .help, "help [command]: display help".toUTF8.data.toList⟩,
    ⟨"shell".toUTF8.data.toList, .shell, "shell <server>: change shell server".toUTF8.data.toList⟩,
    ⟨"exit".toUTF8.data.toList, .exit, "exit: exit shutils".toUTF8.data.toList⟩,
    ⟨"quit".toUTF8.data.toList, .exit, "quit: exit shutils".toUTF8.data.toList⟩]

/-- `blocks` counts the blocks of the heap that the program has not freed. -/
structure Shutils where
  prompt : Option (List UInt8) := none
  history : List (List UInt8) := []
  printed : List UInt8 := []
  blocks : Nat := 0
  deriving DecidableEq, Repr

/-- The first entry whose name begins the word. -/
def cmdFind (cmd : List UInt8) : Option CmdT := cmdList.find? fun e => sameCase cmd e.cmd e.cmd.length

/-- The test of `cmd_help` and of the generator: the text begins the name. -/
def CmdT.begins (text : List UInt8) (e : CmdT) : Bool := sameCase text e.cmd text.length

/-- `cmd_help`: the usage of every entry, or of those that begin with the argument. -/
def cmdHelp (s : Shutils) (args : Option (List UInt8)) : Shutils :=
  cmdList.foldl (fun s e =>
    if args.all fun text => e.begins text then { s with printed := s.printed ++ (e.usage ++ [10]) }
    else s) s

/-- The string that `snprintf(dest, n, ..)` leaves, for a text without NUL. -/
def snprintf (n : Nat) (text : List UInt8) : List UInt8 := text.take (n - 1)

/-- `"shutils:"` -/
def promptHead : List UInt8 := "shutils:".toUTF8.data.toList

/-- `"# "` -/
def promptTail : List UInt8 := "# ".toUTF8.data.toList

/-- `cmd_shell`. Without an argument it prints its own usage. -/
def cmdShell (s : Shutils) (args : Option (List UInt8)) : Shutils :=
  match args with
  | none => cmdHelp s (some "shell".toUTF8.data.toList)
  | some args =>
      -- the old prompt is freed before the new one is allocated
      let blocks := if s.prompt.isSome then s.blocks - 1 else s.blocks
      { s with
        prompt := some (snprintf (11 + args.length) (promptHead ++ args ++ promptTail))
        blocks := blocks + 1 }

/-! ## The loop -/

/-- How a line ends the program. -/
inductive Stop where
  | exited
  | crashed
  deriving DecidableEq, Repr

/-- The shell behind a line, and whether it has ended. -/
structure Turn where
  shell : Shutils
  stop : Option Stop := none
  deriving DecidableEq, Repr

/-- `" \t"` -/
def blanks : List UInt8 := [32, 9]

/-- `"exit"`, in the test of `main`. -/
def exitWord : List UInt8 := "exit".toUTF8.data.toList

/-- The call of a function of the table. -/
def CmdCallback.call (s : Shutils) (args : Option (List UInt8)) : CmdCallback → Turn
  | .help => { shell := cmdHelp s args }
  | .shell => { shell := cmdShell s args }
  | .exit => { shell := s, stop := some .exited }

/-- `free(line); free(tokline)`, where the loop goes on. -/
def Turn.freeLine (t : Turn) : Turn :=
  match t.stop with
  | none => { t with shell := { t.shell with blocks := t.shell.blocks - 2 } }
  | some _ => t

/-- The loop of `main` with a line that `readline` returned. -/
def serve (s : Shutils) (line : List UInt8) : Turn :=
  let s := { s with blocks := s.blocks + 2 }
  let first := strtokR (line ++ [0]) 0 blanks
  let second := strtokR first.buf first.save []
  let args := second.token.map (cstr second.buf)
  match first.token.map (cstr second.buf) with
  | none => { shell := s, stop := some .crashed }
  | some cmd =>
      if sameCase exitWord cmd 4 then { shell := s, stop := some .exited }
      else
        match cmdFind cmd with
        | none => Turn.freeLine { shell := s }
        | some e => (e.callback.call { s with history := s.history ++ [line] } args).freeLine

/-- The loop of `main`, up to the end of the input. -/
def serveAll : Shutils → List (List UInt8) → Turn
  | s, [] => { shell := s }
  | s, line :: lines =>
      match serve s line with
      | ⟨s', none⟩ => serveAll s' lines
      | t => t

/-- `main` on the lines that are entered. -/
def main (lines : List (List UInt8)) : Turn :=
  serveAll (cmdShell {} (some "local".toUTF8.data.toList)) lines

/-! ## What the commands do -/

/-- The usage of the entries that the argument of `help` begins. -/
def usages (args : Option (List UInt8)) : List UInt8 :=
  (cmdList.filter fun e => args.all fun text => e.begins text).flatMap fun e => e.usage ++ [10]

/-- `cmd_help` only prints. -/
theorem cmdHelp_eq (s : Shutils) (args : Option (List UInt8)) :
    cmdHelp s args = { s with printed := s.printed ++ usages args } := by
  rw [cmdHelp, usages]
  generalize cmdList = es
  induction es generalizing s with
  | nil => simp
  | cons e es ih =>
    rw [List.foldl_cons, ih]
    by_cases he : (args.all fun text => e.begins text) = true
    · simp [he]
    · simp [he]

/-- The prompt for a server. -/
def promptFor (server : List UInt8) : List UInt8 := promptHead ++ server ++ promptTail

/-- The block of the prompt is as long as its text with the NUL. -/
theorem snprintf_prompt (server : List UInt8) :
    snprintf (11 + server.length) (promptHead ++ server ++ promptTail) = promptFor server := by
  have hhead : promptHead.length = 8 := by decide
  have htail : promptTail.length = 2 := by decide
  rw [snprintf, promptFor, List.take_of_length_le]
  rw [List.length_append, List.length_append, hhead, htail]
  omega

/-! ## Sessions -/

/-- A character that ends a word. -/
def isBlank (c : UInt8) : Bool := blanks.contains c

/-- The first word of a line. -/
def word (line : List UInt8) : List UInt8 := (line.dropWhile isBlank).takeWhile fun c => !isBlank c

/-- What stands behind the first word and one blank, unless that is nothing. -/
def args (line : List UInt8) : Option (List UInt8) :=
  match ((line.dropWhile isBlank).dropWhile fun c => !isBlank c).tail with
  | [] => none
  | rest => some rest

/-- A line is blanks, its first word, and nothing or a blank with more behind it. -/
theorem line_split (line : List UInt8) : ∃ sp rest, line = sp ++ (word line ++ rest) ∧
    (∀ x ∈ sp, x ∈ blanks) ∧ (∀ x ∈ word line, x ∉ blanks) ∧ (word line = [] → rest = []) ∧
    (rest = [] ∧ args line = none ∨
      ∃ c more, rest = c :: more ∧ c ∈ blanks ∧ args line = if more = [] then none else some more) := by
  refine ⟨line.takeWhile isBlank, (line.dropWhile isBlank).dropWhile fun c => !isBlank c, ?_,
    fun x hx => ?_, fun x hx => ?_, fun hw => ?_, ?_⟩
  · rw [word, List.takeWhile_append_dropWhile, List.takeWhile_append_dropWhile]
  · simpa [isBlank] using List.mem_takeWhile_imp hx
  · simpa [isBlank] using List.mem_takeWhile_imp hx
  · cases hd : line.dropWhile isBlank with
    | nil => rfl
    | cons c more =>
      -- what follows the blanks is not one
      have hne : line.dropWhile isBlank ≠ [] := by rw [hd]; exact List.cons_ne_nil _ _
      have hhead := List.head_dropWhile_not isBlank hne
      simp only [hd, List.head_cons] at hhead
      rw [word, hd, List.takeWhile_cons, hhead] at hw
      cases hw
  · rw [args]
    cases hd : (line.dropWhile isBlank).dropWhile fun c => !isBlank c with
    | nil => exact Or.inl ⟨rfl, rfl⟩
    | cons c more =>
      have hne : ((line.dropWhile isBlank).dropWhile fun c => !isBlank c) ≠ [] := by
        rw [hd]
        exact List.cons_ne_nil _ _
      have hhead := List.head_dropWhile_not (fun c => !isBlank c) hne
      simp only [hd, List.head_cons] at hhead
      refine Or.inr ⟨c, more, rfl, by simpa [isBlank] using hhead, ?_⟩
      cases more <;> rfl

/-- `strtok(tokline, " \t")` and `strtok(NULL, "\0")`. -/
theorem strtok_line {line : List UInt8} (hnul : 0 ∉ line) :
    let first := strtokR (line ++ [0]) 0 blanks
    let second := strtokR first.buf first.save []
    first.token.map (cstr second.buf) = (if word line = [] then none else some (word line)) ∧
      second.token.map (cstr second.buf) = args line := by
  obtain ⟨sp, rest, hline, hsp, hword, hempty, hargs⟩ := line_split line
  generalize word line = w at hline hword hempty ⊢
  generalize args line = more at hargs ⊢
  subst hline
  simp only [List.mem_append, not_or] at hnul
  have hskip : strtokR (sp ++ (w ++ rest) ++ [0]) 0 blanks =
      strtokR (sp ++ (w ++ (rest ++ [0]))) sp.length blanks := by
    have h := strtokR_skip (a := []) (b := w ++ (rest ++ [0])) hnul.1 hsp
    simpa using h
  dsimp only
  rw [hskip]
  by_cases hw : w = []
  · -- nothing but blanks
    obtain rfl := hempty hw
    subst hw
    have hend := strtokR_end (a := sp) (b := []) blanks
    have hend' := strtokR_end (a := sp) (b := []) []
    obtain ⟨-, rfl⟩ | ⟨c, _, hc, -⟩ := hargs
    · simp only [List.nil_append, hend, hend', Option.map_none, if_true, and_self]
    · cases hc
  · rw [if_neg hw]
    rcases hargs with ⟨rfl, rfl⟩ | ⟨c, r, rfl, hc, rfl⟩
    · -- the word ends with the line
      have hlast := strtokR_last (a := sp) (b := []) hw hnul.2.1 hword
      have hend := strtokR_end (a := sp ++ w) (b := []) []
      rw [List.length_append, List.append_assoc] at hend
      simp only [List.nil_append, hlast, hend, Option.map_none, Option.map_some,
        cstr_append hnul.2.1, and_self]
    · have hc0 : c ≠ 0 := by
        rintro rfl
        exact hnul.2.2 List.mem_cons_self
      have hdelim := strtokR_delim (a := sp) (b := r ++ [0]) hw hnul.2.1 hword hc0 hc
      have hmore : 0 ∉ r := fun h => hnul.2.2 (List.mem_cons_of_mem _ h)
      have hsave : sp.length + w.length + 1 = (sp ++ w ++ [0]).length := by simp [Nat.add_assoc]
      have hcut : sp ++ (w ++ 0 :: (r ++ [0])) = sp ++ w ++ [0] ++ (r ++ [0]) := by simp
      have hcmd : cstr (sp ++ (w ++ 0 :: (r ++ [0]))) sp.length = w := cstr_append hnul.2.1
      simp only [List.cons_append, hdelim]
      by_cases hr : r = []
      · subst hr
        have hend := strtokR_end (a := sp ++ w ++ [0]) (b := []) []
        rw [List.nil_append] at hcut hcmd
        rw [if_pos rfl, hsave, List.nil_append, hcut, hend, ← hcut]
        exact ⟨congrArg some hcmd, rfl⟩
      · have hlast := strtokR_last (a := sp ++ w ++ [0]) (b := []) hr hmore
          fun _ _ => List.not_mem_nil
        rw [if_neg hr, hsave, hcut, hlast, ← hcut]
        refine ⟨congrArg some hcmd, congrArg some ?_⟩
        rw [hcut]
        exact cstr_append hmore

/-- `main` exits at the word before it looks into the table. -/
def asksExit (line : List UInt8) : Bool := sameCase exitWord (word line) 4

/-- The command that a line is dispatched to. -/
def command (line : List UInt8) : Option CmdT :=
  if word line = [] ∨ asksExit line then none else cmdFind (word line)

/-- The loop goes on behind the line. -/
def goesOn (line : List UInt8) : Bool :=
  word line ≠ [] && !asksExit line && (command line).all fun e => e.callback ≠ .exit

/-- The server that a line changes to. -/
def server (line : List UInt8) : Option (List UInt8) :=
  match command line with
  | some ⟨_, .shell, _⟩ => args line
  | _ => none

/-- What a line prints. -/
def shown (line : List UInt8) : List UInt8 :=
  match command line, args line with
  | some ⟨_, .help, _⟩, args => usages args
  | some ⟨_, .shell, _⟩, none => usages (some "shell".toUTF8.data.toList)
  | _, _ => []

/-- What a line does, by its first word. -/
theorem serve_eq (s : Shutils) {line : List UInt8} (hnul : 0 ∉ line) :
    serve s line =
      if word line = [] then { shell := { s with blocks := s.blocks + 2 }, stop := some .crashed }
      else if asksExit line then { shell := { s with blocks := s.blocks + 2 }, stop := some .exited }
      else
        match command line with
        | none => { shell := s }
        | some e =>
            (e.callback.call { s with
              history := s.history ++ [line], blocks := s.blocks + 2 } (args line)).freeLine := by
  obtain ⟨hcmd, hargs⟩ := strtok_line hnul
  rw [serve]
  dsimp only
  rw [hcmd, hargs]
  by_cases hw : word line = []
  · rw [if_pos hw, if_pos hw]
  · rw [if_neg hw, if_neg hw]
    change (if asksExit line = true then _ else _) = _
    by_cases hx : asksExit line = true
    · rw [if_pos hx, if_pos hx]
    · have hcommand : command line = cmdFind (word line) := by rw [command, if_neg (not_or.2 ⟨hw, hx⟩)]
      rw [if_neg hx, if_neg hx, hcommand]
      cases cmdFind (word line) with
      | none => rfl
      | some e => rfl

/-- A line behind which the loop goes on. Blocks of the line are freed, and one is the prompt. -/
theorem serve_goesOn {s : Shutils} {line : List UInt8} (hnul : 0 ∉ line) (hs : s.prompt.isSome = true)
    (hb : s.blocks = 1) (h : goesOn line = true) :
    serve s line =
      { shell :=
          { prompt := ((server line).map promptFor).or s.prompt
            history := s.history ++ [line].filter fun line => (command line).isSome
            printed := s.printed ++ shown line
            blocks := 1 } } := by
  simp only [goesOn, ne_eq, decide_not, Bool.and_eq_true, Bool.not_eq_eq_eq_not, Bool.not_true,
    decide_eq_false_iff_not] at h
  obtain ⟨⟨hw, hx⟩, hall⟩ := h
  obtain ⟨prompt, history, printed, blocks⟩ := s
  subst hb
  obtain ⟨p, rfl⟩ := Option.isSome_iff_exists.1 hs
  rw [serve_eq _ hnul, if_neg hw, hx, if_neg Bool.false_ne_true]
  cases hc : command line with
  | none => simp [server, shown, hc]
  | some e =>
    obtain ⟨cmd, callback, usage⟩ := e
    cases callback with
    | help =>
      simp only [CmdCallback.call, cmdHelp_eq, Turn.freeLine, server, shown, hc]
      simp [hc]
    | shell =>
      cases ha : args line with
      | none =>
        simp only [CmdCallback.call, cmdShell, cmdHelp_eq, Turn.freeLine, server, shown, hc, ha]
        simp [hc]
      | some text =>
        simp only [CmdCallback.call, cmdShell, snprintf_prompt, Turn.freeLine, server, shown, hc, ha]
        simp [hc]
    | exit =>
      rw [hc] at hall
      simp at hall

/-- A line that ends the program: the line and its copy are not freed. -/
theorem serve_stops {s : Shutils} {line : List UInt8} (hnul : 0 ∉ line) (h : goesOn line = false) :
    serve s line =
      { shell := { s with
          history := s.history ++ [line].filter fun line => (command line).isSome
          blocks := s.blocks + 2 }
        stop := some (if word line = [] then .crashed else .exited) } := by
  rw [serve_eq _ hnul]
  by_cases hw : word line = []
  · have hc : command line = none := by rw [command, if_pos (Or.inl hw)]
    simp [hw, hc]
  · rw [if_neg hw, if_neg hw]
    by_cases hx : asksExit line = true
    · have hc : command line = none := by rw [command, if_pos (Or.inr hx)]
      simp [hx, hc]
    · rw [if_neg hx]
      simp only [goesOn, ne_eq, decide_not, hw, decide_false, Bool.not_false, hx, Bool.true_and] at h
      cases hc : command line with
      | none => simp [hc] at h
      | some e =>
        obtain ⟨cmd, callback, usage⟩ := e
        cases callback with
        | help => simp [hc] at h
        | shell => simp [hc] at h
        | exit => simp [CmdCallback.call, Turn.freeLine, hc]

/-- The state behind the lines, from one with the prompt for `current`. -/
def after (s : Shutils) (current : List UInt8) (lines : List (List UInt8)) : Turn :=
  let served := lines.takeWhile goesOn
  let rest := lines.dropWhile goesOn
  { shell :=
      { prompt := some (promptFor ((served.filterMap server).getLastD current))
        history := s.history ++ (served ++ rest.take 1).filter fun line => (command line).isSome
        printed := s.printed ++ served.flatMap shown
        blocks := if rest = [] then 1 else 3 }
    stop := rest.head?.map fun line => if word line = [] then .crashed else .exited }

/-- **A session** over any lines, from any prompt. -/
theorem serveAll_eq {s : Shutils} {current : List UInt8} {lines : List (List UInt8)}
    (hnul : ∀ line ∈ lines, 0 ∉ line) (hs : s.prompt = some (promptFor current)) (hb : s.blocks = 1) :
    serveAll s lines = after s current lines := by
  induction lines generalizing s current with
  | nil =>
    obtain ⟨prompt, history, printed, blocks⟩ := s
    subst hs hb
    simp [serveAll, after]
  | cons line lines ih =>
    have hline := hnul line List.mem_cons_self
    have hlines : ∀ l ∈ lines, 0 ∉ l := fun l hl => hnul l (List.mem_cons_of_mem _ hl)
    rw [serveAll]
    cases h : goesOn line with
    | true =>
      rw [serve_goesOn hline (by rw [hs]; rfl) hb h]
      -- the prompt is the new one, or still the old one
      have hprompt : ((server line).map promptFor).or s.prompt =
          some (promptFor ((server line).getD current)) := by
        rw [hs]
        cases server line <;> rfl
      simp only [hprompt]
      rw [ih hlines rfl rfl]
      have hlast : ∀ served : List (List UInt8),
          ((line :: served).filterMap server).getLastD current =
            (served.filterMap server).getLastD ((server line).getD current) := fun served => by
        cases hserver : server line with
        | none => rw [List.filterMap_cons_none hserver]; rfl
        | some text => rw [List.filterMap_cons_some hserver, List.getLastD_cons]; rfl
      have hkeep : ∀ p (ls : List (List UInt8)), [line].filter p ++ ls.filter p =
          (line :: ls).filter p := fun p ls => by
        rw [← List.filter_append, List.singleton_append]
      simp only [after, List.takeWhile_cons_of_pos h, List.dropWhile_cons_of_pos h, hlast,
        List.flatMap_cons, List.append_assoc, List.cons_append, hkeep]
    | false =>
      rw [serve_stops hline h]
      simp [after, h, hs, hb]

/-- **A session.** However many lines are entered, the prompt names the argument of the last `shell` line
in full, the history has the lines that were dispatched, those of a `quit` included, what was printed is
what each line prints, and one block is allocated between two lines. A session ends at the first line that
asks to exit, and crashes at the first that is blank. -/
theorem shell_session {lines : List (List UInt8)} (hnul : ∀ line ∈ lines, 0 ∉ line) :
    main lines = after {} "local".toUTF8.data.toList lines := by
  have hstart : cmdShell {} (some "local".toUTF8.data.toList) =
      { prompt := some (promptFor "local".toUTF8.data.toList), blocks := 1 } := by decide
  rw [main, hstart]
  exact serveAll_eq hnul rfl rfl

/-- `shell isua`, `he`, ` QUIT now` and a line that is not read. -/
def entered : List (List UInt8) :=
  ["shell isua", "he", " QUIT now", "help"].map fun line => line.toUTF8.data.toList

/-- A session that ends with `quit`. -/
theorem shell_session_quit : (main entered).stop = some .exited ∧
    (main entered).shell.prompt = some "shutils:isua# ".toUTF8.data.toList ∧
    main entered = after {} "local".toUTF8.data.toList entered :=
  ⟨by decide, by decide, shell_session (by decide)⟩

/-! ## Completion -/

/-- The static variables of the generator. -/
structure Statics where
  i : Nat := 0
  len : Nat := 0
  deriving DecidableEq, Repr

/-- The loop of the generator from entry `i` on, with the entries `rest` in front of the NULL entry. -/
def generatorLoop (cmd : List UInt8) (len : Nat) : Nat → List CmdT → Nat × Option (List UInt8)
  | i, [] => (i, none)
  | i, e :: rest =>
      if sameCase cmd e.cmd len then (i + 1, some e.cmd) else generatorLoop cmd len (i + 1) rest

/-- A first call starts at the front. -/
def Statics.entering (st : Statics) (cmd : List UInt8) (state : Nat) : Statics :=
  if state = 0 then ⟨0, cmd.length⟩ else st

/-- `cmd_list_generator`: the next name that the text begins. -/
def cmdListGenerator (st : Statics) (cmd : List UInt8) (state : Nat) :
    Statics × Option (List UInt8) :=
  let st := st.entering cmd state
  let r := generatorLoop cmd st.len st.i (cmdList.drop st.i)
  ({ st with i := r.1 }, r.2)

/-- A generator: what it leaves in its static variables, and its result for a text and a state. -/
abbrev Generator := Statics → List UInt8 → Nat → Statics × Option (List UInt8)

/-- The names that a generator returns up to NULL, when it is called with `state` and behind that with
states that are not zero. -/
inductive Generates (gen : Generator) (text : List UInt8) :
    Nat → Statics → List (List UInt8) → Statics → Prop
  | last {state : Nat} {st st' : Statics} (h : gen st text state = (st', none)) :
      Generates gen text state st [] st'
  | name {state state' : Nat} {st st' st'' : Statics} {name : List UInt8} {names : List (List UInt8)}
      (h : gen st text state = (st', some name)) (hstate : state' ≠ 0)
      (hrest : Generates gen text state' st' names st'') :
      Generates gen text state st (name :: names) st''

/-- The generator returns these names, whatever its further states are. -/
structure GeneratesOnly (gen : Generator) (text : List UInt8) (st : Statics) (names : List (List UInt8))
    (st' : Statics) : Prop where
  generates : Generates gen text 0 st names st'
  only : ∀ names₁ st₁, Generates gen text 0 st names₁ st₁ → names₁ = names ∧ st₁ = st'

/-- What the program uses of readline: `rl_completion_matches`, with the static variables of the generator.
It returns an array of strings, or NULL. -/
structure Readline where
  rlCompletionMatches : Generator → Statics → List UInt8 → Statics × Option (List (List UInt8))

/-- The completions in an array of `rl_completion_matches`. What the text is replaced by stands in front of
them, and alone when there is one completion. -/
def completions : List (List UInt8) → List (List UInt8)
  | [entry] => [entry]
  | entries => entries.tail

/-- `rl_completion_matches` calls the generator until it returns NULL, the first time with the state zero.
If there are no names then it returns NULL, and otherwise an array of them in some order. -/
structure Readline.Lawful (rl : Readline) : Prop where
  null : ∀ gen text st st', GeneratesOnly gen text st [] st' →
    rl.rlCompletionMatches gen st text = (st', none)
  array : ∀ gen text st names st', GeneratesOnly gen text st names st' → names ≠ [] →
    ∃ entries, rl.rlCompletionMatches gen st text = (st', some entries) ∧
      ∀ name, name ∈ completions entries ↔ name ∈ names

/-- `shutils_completor`. Behind a NULL readline completes the names of files. -/
def shutilsCompletor (rl : Readline) (st : Statics) (cmd : List UInt8) (start : Nat) :
    Statics × Option (List (List UInt8)) :=
  if start = 0 then rl.rlCompletionMatches cmdListGenerator st cmd else (st, none)

section Completion

variable (text : List UInt8)

/-- The loop returns the next entry that the text begins, and stops behind it. -/
theorem generatorLoop_spec (rest : List CmdT) (i : Nat) (hrest : cmdList.drop i = rest)
    (hi : i ≤ cmdList.length) :
    match rest.filter (CmdT.begins text) with
    | [] => generatorLoop text text.length i rest = (cmdList.length, none)
    | e :: es => ∃ i', generatorLoop text text.length i rest = (i', some e.cmd) ∧
        (cmdList.drop i').filter (CmdT.begins text) = es ∧ i' ≤ cmdList.length := by
  induction rest generalizing i with
  | nil =>
    have hend : i = cmdList.length := Nat.le_antisymm hi (List.drop_eq_nil_iff.1 hrest)
    rw [hend]
    rfl
  | cons e rest ih =>
    have hnext : cmdList.drop (i + 1) = rest := by
      rw [← List.tail_drop, hrest, List.tail_cons]
    have hlt : i + 1 ≤ cmdList.length := by
      by_contra hge
      rw [List.drop_eq_nil_of_le (by omega)] at hrest
      cases hrest
    rw [generatorLoop, ← CmdT.begins]
    by_cases he : e.begins text = true
    · rw [List.filter_cons_of_pos he, if_pos he]
      exact ⟨i + 1, rfl, by rw [hnext], hlt⟩
    · rw [List.filter_cons_of_neg he, if_neg he]
      exact ih (i + 1) hnext hlt

/-- The entries that calls of the generator have not returned yet. -/
def remaining (st : Statics) : List CmdT :=
  (cmdList.drop st.i).filter (CmdT.begins text)

/-- The generator returns what it has not returned yet, and then NULL, whatever its further states are. -/
theorem generates_remaining (es : List CmdT) (st : Statics) (state : Nat)
    (hlen : (st.entering text state).len = text.length)
    (hi : (st.entering text state).i ≤ cmdList.length)
    (hes : remaining text (st.entering text state) = es) :
    Generates cmdListGenerator text state st (es.map CmdT.cmd) ⟨cmdList.length, text.length⟩ ∧
      ∀ names₁ st₁, Generates cmdListGenerator text state st names₁ st₁ →
        names₁ = es.map CmdT.cmd ∧ st₁ = ⟨cmdList.length, text.length⟩ := by
  induction es generalizing st state with
  | nil =>
    have hloop := generatorLoop_spec text _ (st.entering text state).i rfl hi
    rw [← remaining, hes] at hloop
    have hcall : cmdListGenerator st text state = (⟨cmdList.length, text.length⟩, none) := by
      simp only [cmdListGenerator, hlen, hloop]
    refine ⟨.last hcall, fun names₁ st₁ h => ?_⟩
    cases h with
    | last h =>
      rw [hcall] at h
      cases h
      exact ⟨rfl, rfl⟩
    | name h =>
      rw [hcall] at h
      cases h
  | cons e es ih =>
    have hloop := generatorLoop_spec text _ (st.entering text state).i rfl hi
    rw [← remaining, hes] at hloop
    obtain ⟨i', hreturn, hrest, hi'⟩ := hloop
    have hcall : cmdListGenerator st text state = (⟨i', text.length⟩, some e.cmd) := by
      simp only [cmdListGenerator, hlen, hreturn]
    -- a further call goes on behind the entry
    have hnext : ∀ state' : Nat, state' ≠ 0 →
        (⟨i', text.length⟩ : Statics).entering text state' = ⟨i', text.length⟩ := fun state' h => if_neg h
    have hleft : ∀ state' : Nat, state' ≠ 0 →
        Generates cmdListGenerator text state' ⟨i', text.length⟩ (es.map CmdT.cmd)
            ⟨cmdList.length, text.length⟩ ∧
          ∀ names₁ st₁, Generates cmdListGenerator text state' ⟨i', text.length⟩ names₁ st₁ →
            names₁ = es.map CmdT.cmd ∧ st₁ = ⟨cmdList.length, text.length⟩ := by
      intro state' h
      apply ih
      · rw [hnext state' h]
      · rw [hnext state' h]
        exact hi'
      · rw [hnext state' h]
        exact hrest
    refine ⟨.name hcall Nat.one_ne_zero (hleft 1 Nat.one_ne_zero).1, fun names₁ st₁ h => ?_⟩
    cases h with
    | last h =>
      rw [hcall] at h
      cases h
    | name h hstate hmore =>
      rw [hcall] at h
      cases h
      obtain ⟨rfl, rfl⟩ := (hleft _ hstate).2 _ _ hmore
      exact ⟨rfl, rfl⟩

/-- A first call makes the generator return all names that the text begins. -/
theorem cmdListGenerator_generates (st : Statics) :
    GeneratesOnly cmdListGenerator text st ((cmdList.filter (CmdT.begins text)).map CmdT.cmd)
      ⟨cmdList.length, text.length⟩ := by
  obtain ⟨hnames, honly⟩ := generates_remaining text _ st 0 rfl (Nat.zero_le _) rfl
  exact ⟨hnames, honly⟩

end Completion

/-- A line whose first word is the name of an entry runs the entry. The word of the test of `main` exits
before the entry is looked up. -/
theorem serve_entry (s : Shutils) {e : CmdT} (he : e ∈ cmdList) {line : List UInt8} (hnul : 0 ∉ line)
    (hword : word line = e.cmd) :
    serve s line =
      if e.cmd = exitWord then { shell := { s with blocks := s.blocks + 2 }, stop := some .exited }
      else (e.callback.call { s with
        history := s.history ++ [line], blocks := s.blocks + 2 } (args line)).freeLine := by
  have hname : ∀ e ∈ cmdList, e.cmd ≠ [] ∧ cmdFind e.cmd = some e ∧
      sameCase exitWord e.cmd 4 = decide (e.cmd = exitWord) := by decide
  obtain ⟨hne, hfind, hexit⟩ := hname e he
  have hasks : asksExit line = decide (e.cmd = exitWord) := by rw [asksExit, hword, hexit]
  rw [serve_eq s hnul, hasks, if_neg (by rw [hword]; exact hne)]
  by_cases hx : e.cmd = exitWord
  · rw [if_pos (decide_eq_true hx), if_pos hx]
  · have hcommand : command line = some e := by
      rw [command, if_neg, hword, hfind]
      rw [hword, hasks]
      simp [hne, hx]
    rw [if_neg (by simp [hx]), if_neg hx, hcommand]

/-- **The three users of the table agree.** `es` are the entries whose names the text begins, in the order
of the table. Whatever the static variables hold, the generator returns their names, each of them once, and
then NULL; readline has these names to offer at the start of the line, and NULL if there are none; `help`
with the text prints the usage of these entries; and a line that has one of the names as its first word
runs that entry. -/
theorem completions_agree {rl : Readline} (hrl : rl.Lawful) (st : Statics) (text : List UInt8) :
    ∃ es, es = cmdList.filter (CmdT.begins text) ∧
      (∃ st', GeneratesOnly cmdListGenerator text st (es.map CmdT.cmd) st') ∧
      ((shutilsCompletor rl st text 0).2 = none ↔ es = []) ∧
      (∀ entries, (shutilsCompletor rl st text 0).2 = some entries →
        ∀ name, name ∈ completions entries ↔ ∃ e ∈ es, e.cmd = name) ∧
      (∀ s, cmdHelp s (some text) =
        { s with printed := s.printed ++ es.flatMap fun e => e.usage ++ [10] }) ∧
      ∀ e ∈ es, ∀ s line, 0 ∉ line → word line = e.cmd → serve s line =
        if e.cmd = exitWord then { shell := { s with blocks := s.blocks + 2 }, stop := some .exited }
        else (e.callback.call { s with
          history := s.history ++ [line], blocks := s.blocks + 2 } (args line)).freeLine := by
  have hgen := cmdListGenerator_generates text st
  have hstart : shutilsCompletor rl st text 0 = rl.rlCompletionMatches cmdListGenerator st text :=
    if_pos rfl
  refine ⟨_, rfl, ⟨_, hgen⟩, ?_, ?_, fun s => cmdHelp_eq s (some text), fun e he s line hnul hword =>
    serve_entry s (List.mem_of_mem_filter he) hnul hword⟩
  · rw [hstart]
    constructor
    · intro hnull
      by_contra hes
      obtain ⟨entries, harray, -⟩ := hrl.array _ _ _ _ _ hgen fun h => hes (List.map_eq_nil_iff.1 h)
      rw [harray] at hnull
      cases hnull
    · intro hes
      rw [hes] at hgen
      rw [hrl.null _ _ _ _ hgen]
  · intro entries harray name
    rw [hstart] at harray
    by_cases hes : cmdList.filter (CmdT.begins text) = []
    · rw [hes] at hgen
      rw [hrl.null _ _ _ _ hgen] at harray
      cases harray
    · obtain ⟨entries', harray', hentries⟩ :=
        hrl.array _ _ _ _ _ hgen fun h => hes (List.map_eq_nil_iff.1 h)
      rw [harray'] at harray
      cases harray
      rw [hentries, List.mem_map]

/-! ## A readline -/

/-- What two names have in common at their front. -/
def commonPrefix : List UInt8 → List UInt8 → List UInt8
  | c :: cs, d :: ds => if c = d then c :: commonPrefix cs ds else []
  | _, _ => []

/-- The array for the names of a generator, in their order. -/
def arrayOf : List (List UInt8) → Option (List (List UInt8))
  | [] => none
  | [name] => some [name]
  | name :: names => some (names.foldl commonPrefix name :: name :: names)

/-- The array of the matches, with the names that are offered. -/
theorem arrayOf_spec {names : List (List UInt8)} (h : names ≠ []) :
    ∃ entries, arrayOf names = some entries ∧ completions entries = names :=
  match names with
  | [] => absurd rfl h
  | [_] => ⟨_, rfl, rfl⟩
  | _ :: _ :: _ => ⟨_, rfl, rfl⟩

/-- A generator gives one list of names. -/
theorem GeneratesOnly.unique {gen : Generator} {text : List UInt8} {st : Statics}
    {r r' : List (List UInt8) × Statics} (h : GeneratesOnly gen text st r.1 r.2)
    (h' : GeneratesOnly gen text st r'.1 r'.2) : r' = r :=
  Prod.ext (h.only _ _ h'.generates).1 (h.only _ _ h'.generates).2

open Classical in
/-- A readline that keeps the names in the order of the generator. -/
noncomputable def plainReadline : Readline where
  rlCompletionMatches gen st text :=
    if h : ∃ r : List (List UInt8) × Statics, GeneratesOnly gen text st r.1 r.2 then
      (h.choose.2, arrayOf h.choose.1)
    else (st, none)

/-- The matches of the simple readline. -/
theorem plainReadline_eq {gen : Generator} {text : List UInt8} {st st' : Statics}
    {names : List (List UInt8)} (h : GeneratesOnly gen text st names st') :
    plainReadline.rlCompletionMatches gen st text = (st', arrayOf names) := by
  have hex : ∃ r : List (List UInt8) × Statics, GeneratesOnly gen text st r.1 r.2 := ⟨(names, st'), h⟩
  have hchoose : hex.choose = (names, st') := GeneratesOnly.unique h hex.choose_spec
  simp only [plainReadline, dif_pos hex, hchoose]

/-- The simple readline keeps the laws. -/
theorem plainReadline_lawful : plainReadline.Lawful where
  null gen text st st' h := plainReadline_eq h
  array gen text st names st' h hne := by
    obtain ⟨entries, harray, hentries⟩ := arrayOf_spec hne
    refine ⟨entries, ?_, fun name => by rw [hentries]⟩
    rw [plainReadline_eq h, harray]

/-- `S` is completed to `shell`, whose line changes the server. -/
theorem completions_agree_shell : ∃ entries, (shutilsCompletor plainReadline {} [83] 0).2 = some entries ∧
    (∀ name, name ∈ completions entries ↔ name = "shell".toUTF8.data.toList) ∧
    (serve {} "shell isua".toUTF8.data.toList).shell.prompt = some "shutils:isua# ".toUTF8.data.toList := by
  obtain ⟨es, rfl, -, hnull, hentries, -, hserve⟩ := completions_agree plainReadline_lawful {} [83]
  have hes : cmdList.filter (CmdT.begins [83]) =
      [⟨"shell".toUTF8.data.toList, .shell, "shell <server>: change shell server".toUTF8.data.toList⟩] := by
    decide
  rw [hes] at hnull hentries hserve
  cases harray : (shutilsCompletor plainReadline {} [83] 0).2 with
  | none => exact absurd (hnull.1 harray) (List.cons_ne_nil _ _)
  | some entries =>
    refine ⟨entries, rfl, fun name => ?_, ?_⟩
    · rw [hentries entries harray, List.exists_mem_cons_iff]
      simp [eq_comm]
    · rw [hserve _ List.mem_cons_self _ _ (by decide) (by decide)]
      decide

end ExamplePrograms.Other.Shell
