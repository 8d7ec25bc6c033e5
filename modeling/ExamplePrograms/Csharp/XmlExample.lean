import ExamplePrograms.Lib.KeyedQueue
import ExamplePrograms.Lib.Loops

/-!
# The record keeper

`XmlExample` keeps records with a title, a sender and a message in an XML document, and lets the user add,
remove and print them from a menu. The document is a list of records here, in the order of the elements
below the root; the console is the lines that the user enters, after which `ReadLine` returns null, and
what the program writes.

`session_records` says what the document holds at any time and when the menu is left.
-/

set_option autoImplicit false

namespace ExamplePrograms.Csharp

open ExamplePrograms.Lib.KeyedQueue
open ExamplePrograms.Lib.Loops

/-- The code units of a string. -/
abbrev Text := List UInt16

/-! ## `XmlHandler` -/

/-- A `Singleton` element: the inner texts of its attribute and of its children. -/
structure Record where
  title : Text
  sender : Text
  message : Text
  deriving DecidableEq, Repr

/-- The inner text of a node whose inner text is set to a string that may be null. -/
def innerText (s : Option Text) : Text := s.getD []

/-- `AddRecord`: the record goes behind the last one. -/
def addRecord (t s m : Option Text) (root : List Record) : List Record :=
  root ++ [⟨innerText t, innerText s, innerText m⟩]

/-- The loop of `RemoveRecord` from the child `i` on. -/
def removeLoop (t : Option Text) (root : List Record) : Nat → List Record → List Record
  | _, [] => root
  | i, child :: children =>
      if some child.title = t then root.eraseIdx i else removeLoop t root (i + 1) children

/-- `RemoveRecord`: the first record with the title, if there is one. -/
def removeRecord (t : Option Text) (root : List Record) : List Record := removeLoop t root 0 root

/-! ## `Loader` -/

/-- What is written to the console. -/
inductive Output where
  | write (s : String)
  | writeLine (s : String)
  | document (root : List Record)
  deriving DecidableEq, Repr

/-- A call of the handler. -/
inductive Call where
  | addRecord (t s m : Option Text)
  | removeRecord (t : Option Text)
  | printDocument
  deriving DecidableEq, Repr

/-- The session: the lines that have not been read, the document, what was written, and the calls of the
handler so far. -/
structure Session where
  input : List Text
  root : List Record
  console : List Output
  calls : List Call

/-- A session with the lines of its input, over an empty document. -/
def start (input : List Text) : Session := ⟨input, [], [], []⟩

namespace Session

/-- Text written to the console. -/
def print (out : List Output) (s : Session) : Session := { s with console := s.console ++ out }

/-- `Console.ReadLine`. -/
def readLine (s : Session) : Option Text × Session := (s.input.head?, { s with input := s.input.tail })

/-- A call of the handler, which is logged. -/
def call (c : Call) (s : Session) : Session :=
  match c with
  | .addRecord t snder mess =>
      { s with root := addRecord t snder mess s.root, calls := s.calls ++ [c] }
  | .removeRecord t => { s with root := removeRecord t s.root, calls := s.calls ++ [c] }
  | .printDocument =>
      { s with console := s.console ++ [.document s.root, .writeLine ""], calls := s.calls ++ [c] }

end Session

/-- `char.IsWhiteSpace`, in the ASCII range. -/
def isWhite (c : UInt16) : Bool := c == 32 || (9 ≤ c && c ≤ 13)

/-- An ASCII digit. -/
def isDigit (c : UInt16) : Bool := 48 ≤ c && c ≤ 57

/-- The number that the digits stand for. -/
def value (digits : Text) : Int := digits.foldl (fun n c => 10 * n + (c.toNat - 48)) 0

/-- `Int32.Parse`, undefined where it throws: white space, a sign, digits, white space, and nothing behind
them but NULs. -/
def int32Parse (s : Text) : Option Int :=
  let s := s.dropWhile isWhite
  let (negative, s) :=
    match s with
    | 45 :: rest => (true, rest)
    | 43 :: rest => (false, rest)
    | _ => (false, s)
  let digits := s.takeWhile isDigit
  let rest := (s.dropWhile isDigit).dropWhile isWhite
  if digits = [] ∨ rest.any (· != 0) then none
  else
    let n := if negative then -value digits else value digits
    if -2147483648 ≤ n ∧ n ≤ 2147483647 then some n else none

/-- The line of `=` signs. -/
def ruler : Output := .writeLine "========================================"

/-- The text of the menu. -/
def menu : List Output :=
  [ruler, .writeLine "1: Add Record", .writeLine "2: Remove Record", .writeLine "3: Print XML Document",
    .writeLine "4: Exit"]

/-- The cases of the `switch` but the exit; for any other number nothing is done. -/
def switch (choice : Int) (s : Session) : Session :=
  if choice = 1 then
    let (title, s) := (s.print [.write "Title : "]).readLine
    let (snder, s) := (s.print [.write "Sender : "]).readLine
    let (mess, s) := (s.print [.write "Message : "]).readLine
    s.call (.addRecord title snder mess)
  else if choice = 2 then
    let (title, s) := (s.print [.write "Title to Delete : "]).readLine
    s.call (.removeRecord title)
  else if choice = 3 then s.call .printDocument
  else s

/-- A round of the loop in `Main`. -/
def mainRound (s : Session) : Round Session :=
  let (iput, s) := (s.print menu).readLine
  match iput.bind int32Parse with
  | none => .again (s.print [.writeLine "Pick 1 - 4"])
  | some choice =>
      let s := s.print [ruler]
      if choice = 4 then .exit s else .again (switch choice s)

/-! ## The document as queues -/

/-- What a call does to the queues of the titles. Nothing has the title null. -/
def Call.ops : Call → List (Op Record (Option Text))
  | .addRecord t s m => [.push ⟨innerText t, innerText s, innerText m⟩]
  | .removeRecord t => [.pop t]
  | .printDocument => []

/-- The title of a record, as the argument of `RemoveRecord` compares with it. -/
def Record.key (r : Record) : Option Text := some r.title

/-- The loop takes out the first child with the title. -/
theorem removeLoop_eq (t : Option Text) (before rest : List Record) :
    removeLoop t (before ++ rest) before.length rest =
      before ++ rest.eraseP fun r => r.key = t := by
  induction rest generalizing before with
  | nil => rfl
  | cons r rest ih =>
    rw [removeLoop]
    by_cases hr : r.key = t
    · rw [if_pos (show some r.title = t from hr), List.eraseP_cons_of_pos (by simpa using hr),
        List.eraseIdx_append_of_length_le (Nat.le_refl _), Nat.sub_self, List.eraseIdx_cons_zero]
    · have hnext := ih (before ++ [r])
      rw [List.append_assoc, List.singleton_append, List.length_append, List.length_singleton] at hnext
      rw [if_neg (show ¬ some r.title = t from hr), List.eraseP_cons_of_neg (by simpa using hr), hnext,
        List.append_assoc, List.singleton_append]

/-- `RemoveRecord` takes away the first record with the title. -/
theorem removeRecord_eq (t : Option Text) (root : List Record) :
    removeRecord t root = root.eraseP fun r => r.key = t := removeLoop_eq t [] root

/-- The document is what the calls made of it. -/
def Session.Replays (s : Session) : Prop := s.root = run Record.key (s.calls.flatMap Call.ops) []

/-- A call keeps the document that of the calls so far. -/
theorem Session.Replays.call {s : Session} (h : s.Replays) (c : Call) : (s.call c).Replays := by
  have hsplit : (s.call c).calls.flatMap Call.ops = s.calls.flatMap Call.ops ++ c.ops := by
    cases c <;> simp [Session.call]
  rw [Session.Replays, hsplit, run_append, ← show s.root = _ from h]
  cases c with
  | addRecord t snder mess => rfl
  | removeRecord t => exact removeRecord_eq t s.root
  | printDocument => rfl

/-- Prompts and lines that are read do not matter for it. -/
theorem Session.Replays.of_eq {s s' : Session} (h : s.Replays) (hroot : s'.root = s.root)
    (hcalls : s'.calls = s.calls) : s'.Replays := by
  rw [Session.Replays, hroot, hcalls]
  exact h

/-- The switch keeps the document that of the calls so far. -/
theorem switch_replays (choice : Int) {s : Session} (h : s.Replays) : (switch choice s).Replays := by
  rw [switch]
  split
  · refine Session.Replays.call ?_ _
    exact h.of_eq rfl rfl
  · split
    · refine Session.Replays.call ?_ _
      exact h.of_eq rfl rfl
    · split
      · exact h.call _
      · exact h

/-- The switch reads no more input than there is. -/
theorem switch_input (choice : Int) (s : Session) : (switch choice s).input.length ≤ s.input.length := by
  rw [switch]
  split
  · simp only [Session.call, Session.readLine, Session.print, List.length_tail]
    omega
  · split
    · simp only [Session.call, Session.readLine, Session.print, List.length_tail]
      omega
    · split
      · exact Nat.le_refl _
      · exact Nat.le_refl _

section Rounds

variable {s : Session} {choice : Int}

/-- A choice that is no number. -/
theorem mainRound_none (h : s.input.head?.bind int32Parse = none) : mainRound s = .again
    ⟨s.input.tail, s.root, s.console ++ menu ++ [.writeLine "Pick 1 - 4"], s.calls⟩ := by
  simp only [mainRound, Session.readLine, Session.print, h]

/-- A choice that is a number. -/
theorem mainRound_some (h : s.input.head?.bind int32Parse = some choice) : mainRound s =
    if choice = 4 then .exit ⟨s.input.tail, s.root, s.console ++ menu ++ [ruler], s.calls⟩
    else .again (switch choice ⟨s.input.tail, s.root, s.console ++ menu ++ [ruler], s.calls⟩) := by
  simp only [mainRound, Session.readLine, Session.print, h]

/-- The line that is read next is the choice to exit. -/
def Session.Leaves (s : Session) : Prop := s.input.head?.bind int32Parse = some 4

/-- A round leaves the loop on the choice to exit only, and reads a line if there is one. -/
theorem mainRound_cases (s : Session) :
    s.Leaves ∧ (∃ r, mainRound s = .exit r ∧ r.root = s.root ∧ r.calls = s.calls) ∨
      ¬ s.Leaves ∧ ∃ s', mainRound s = .again s' ∧ s'.input.length ≤ s.input.length - 1 ∧
        (s.Replays → s'.Replays) := by
  have htail : s.input.tail.length ≤ s.input.length - 1 := Nat.le_of_eq List.length_tail
  cases hparse : s.input.head?.bind int32Parse with
  | none =>
    have hstays : ¬ s.Leaves := by
      rw [Session.Leaves, hparse]
      exact Option.some_ne_none 4 ∘ Eq.symm
    exact Or.inr ⟨hstays, _, mainRound_none hparse, htail, fun h => h.of_eq rfl rfl⟩
  | some choice =>
    have hround := mainRound_some hparse
    by_cases hexit : choice = 4
    · rw [if_pos hexit] at hround
      subst hexit
      exact Or.inl ⟨hparse, _, hround, rfl, rfl⟩
    · rw [if_neg hexit] at hround
      have hstays : ¬ s.Leaves := by
        rw [Session.Leaves, hparse]
        exact hexit ∘ Option.some.inj
      refine Or.inr ⟨hstays, _, hround, Nat.le_trans (switch_input choice _) htail, fun h => ?_⟩
      exact switch_replays choice (h.of_eq rfl rfl)

end Rounds

/-- `ReadLine` returns null behind the last line, which `Int32.Parse` refuses. -/
theorem main_ended {s : Session} (h : s.input = []) :
    (∀ s', Visits mainRound s s' → ¬ s'.Leaves) ∧ ∀ n, iterate mainRound n s = none := by
  have hparse : ∀ s : Session, s.input = [] → s.input.head?.bind int32Parse = none := by
    intro s hs
    rw [hs]
    rfl
  have hround : ∀ s : Session, s.input = [] → ∃ s', mainRound s = .again s' ∧ s'.input = [] :=
    fun s hs => ⟨_, mainRound_none (hparse s hs), by rw [hs]; rfl⟩
  refine ⟨fun s' hs' hleaves => ?_, iterate_never hround h⟩
  have hinput : s'.input = [] := by
    refine Visits.invariant (P := fun s => s.input = []) (fun s s' hs hagain => ?_) hs' h
    obtain ⟨s'', hs'', hinput⟩ := hround s hs
    rw [hagain] at hs''
    cases hs''
    exact hinput
  rw [Session.Leaves, hparse s' hinput] at hleaves
  cases hleaves

/-- `Main` returns exactly when the choice to exit is read, after a round a line at most. -/
theorem main_leaves {n : Nat} {s : Session} (h : s.input.length ≤ n) :
    (∃ s' r, Visits mainRound s s' ∧ s'.Leaves ∧ iterate mainRound (n + 1) s = some r ∧
        r.root = s'.root ∧ r.calls = s'.calls) ∨
      (∀ s', Visits mainRound s s' → ¬ s'.Leaves) ∧ ∀ k, iterate mainRound k s = none := by
  induction n generalizing s with
  | zero => exact Or.inr (main_ended (List.length_eq_zero_iff.1 (Nat.le_zero.1 h)))
  | succ n ih =>
    rcases mainRound_cases s with ⟨hleaves, r, hr, hroot, hcalls⟩ | ⟨hstays, s', hs', hlen, -⟩
    · exact Or.inl ⟨s, r, .start s, hleaves, iterate_exit hr _, hroot, hcalls⟩
    · rcases ih (show s'.input.length ≤ n by omega) with ⟨s'', r, hvisits, hleaves, hr, hend⟩ |
        ⟨hnever, hforever⟩
      · exact Or.inl ⟨s'', r, .next hs' hvisits, hleaves, (iterate_again hs' _).trans hr, hend⟩
      · refine Or.inr ⟨(forall_visits_again hs').2 ⟨hstays, hnever⟩, fun k => ?_⟩
        cases k with
        | zero => rfl
        | succ k => rw [iterate_again hs', hforever]

/-- **A queue for every title.** At any time the document holds, under every title, what a queue holds that
is served by the calls so far: records come out in the order in which they went in, and a removal without
a title takes out none. `Main` returns when the choice to exit is read, which does not change the document
any more, and otherwise it never returns, also when the lines have ended. -/
theorem session_records (input : List Text) :
    (∀ s, Visits mainRound (start input) s →
      (∀ title : Text, s.root.filter (fun r => r.title = title) =
        (s.calls.flatMap Call.ops).foldl (serve Record.key (some title)) []) ∧
      List.Sublist s.root (pushed (s.calls.flatMap Call.ops))) ∧
    ((∃ s r, Visits mainRound (start input) s ∧ s.Leaves ∧
        iterate mainRound (input.length + 1) (start input) = some r ∧ r.root = s.root) ∨
      (∀ s, Visits mainRound (start input) s → ¬ s.Leaves) ∧
        ∀ n, iterate mainRound n (start input) = none) := by
  refine ⟨fun s hs => ?_, ?_⟩
  · have hreplays : s.Replays := by
      refine hs.invariant (fun s s' h hagain => ?_) (show (start input).Replays from rfl)
      rcases mainRound_cases s with ⟨-, r, hr, -⟩ | ⟨-, s'', hs'', -, hkeeps⟩
      · rw [hagain] at hr
        cases hr
      · rw [hagain] at hs''
        cases hs''
        exact hkeeps h
    constructor
    · intro title
      have hkey : (fun r : Record => decide (r.key = some title)) = fun r => decide (r.title = title) :=
        funext fun r => decide_eq_decide.2 (Option.some_inj)
      have hqueue := queue_run Record.key (some title) [] (s.calls.flatMap Call.ops)
      rw [queue, queue, hkey, ← hreplays] at hqueue
      exact hqueue
    · have hsub := run_sublist Record.key [] (s.calls.flatMap Call.ops)
      rwa [← hreplays] at hsub
  · rcases main_leaves (Nat.le_refl (start input).input.length) with
      ⟨s, r, hs, hleaves, hr, hroot, -⟩ | hnever
    · exact Or.inl ⟨s, r, hs, hleaves, hr, hroot⟩
    · exact Or.inr hnever

end ExamplePrograms.Csharp
