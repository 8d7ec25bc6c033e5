import ExamplePrograms.Lib.SortedMap
import Mathlib.Data.List.Induction

/-!
# The command tree

`larne-tree_example.cc` keeps commands of several words in a tree of `std::map`s. `add` makes the nodes
on the path of a command and writes its callback; `find` goes down the path and takes, where a word is
not there, an entry `!R` for the rest of the line, an entry `!S` for one word, or a command that the word
abbreviates.

What a tree is for is `meaning`: the callback and the description of every path. `add` is an update of
it at one path. `args[0]` of an empty vector is undefined, there the functions have no result.
-/

set_option autoImplicit false

namespace ExamplePrograms.Other.CommandTree

open Lib
open scoped SortedMap

universe u

/-- A `std::string`; `operator<` compares the bytes as `unsigned char`. -/
abbrev Str := List UInt8

/-- `Cmd`: the entries below, the function and the description. -/
inductive Cmd (F : Type u) where
  | mk (subCmds : List (Str × Cmd F)) (f : Option F) (desc : Str)

section

variable {F : Type u}

/-- `sub_cmds_`, in the order of the map. -/
def Cmd.subCmds : Cmd F → List (Str × Cmd F)
  | mk subCmds _ _ => subCmds

/-- `f_`, which may be empty. -/
def Cmd.f : Cmd F → Option F
  | mk _ f _ => f

/-- `desc_`. -/
def Cmd.desc : Cmd F → Str
  | mk _ _ desc => desc

/-- `cmd()`. -/
def Cmd.empty : Cmd F := ⟨[], none, []⟩

/-- `sub_cmds[s]` becomes `sub`. -/
def Cmd.setSub (c : Cmd F) (s : Str) (sub : Cmd F) : Cmd F :=
  ⟨SortedMap.upsert s (fun _ => sub) c.subCmds, c.f, c.desc⟩

/-- The value of `sub_cmds[s]`, which is made when it is not there. -/
def Cmd.sub (c : Cmd F) (s : Str) : Cmd F := (SortedMap.find s c.subCmds).getD .empty

/-- `Cmd::add`. The first argument names the entry that the rest is added to. -/
def Cmd.add (c : Cmd F) (args : List Str) (f : Option F) (desc : Str) : Option (Cmd F) :=
  match args with
  | [] => none
  | [s] => some (c.setSub s ⟨(c.sub s).subCmds, f, desc⟩)
  | s :: arg :: args => ((c.sub s).add (arg :: args) f desc).map (c.setSub s)

/-- The entry for the rest of the line. -/
def restOfLine : Str := "!R".toUTF8.data.toList

/-- The entry for a single word of any kind. -/
def singleWord : Str := "!S".toUTF8.data.toList

/-- The words, a space behind each. -/
def joined (cmds : List Str) : Str := cmds.flatMap fun s => s ++ [32]

/-- The first command not below the word, when it is also the first one above and starts with it. The
iterators are compared by how many entries are left. -/
def Cmd.abbreviated (c : Cmd F) (s : Str) : Option (Cmd F) :=
  let lowIt := SortedMap.atLeast s c.subCmds
  let highIt := c.subCmds.dropWhile fun e => e.1 ≤ s
  match lowIt with
  | (key, sub) :: _ =>
      if lowIt.length = highIt.length ∧ key.take s.length = s then some sub else none
  | [] => none

/-- Where a step of `find` has arrived: the entry, and the vectors as they are then. -/
structure Selected (F : Type u) where
  it : Cmd F
  argret : List Str
  cmds : List Str

/-- The entry for the first word, in the order in which `find` looks for it. -/
def Cmd.select (c : Cmd F) (argret : List Str) (s : Str) (rest : List Str) : Option (Selected F) :=
  match SortedMap.find s c.subCmds with
  | some it => some ⟨it, argret, s :: rest⟩
  | none =>
      match SortedMap.find restOfLine c.subCmds with
      | some it => some ⟨it, argret ++ [joined (s :: rest)], [joined (s :: rest)]⟩
      | none =>
          match SortedMap.find singleWord c.subCmds with
          | some it => some ⟨it, argret ++ [s], s :: rest⟩
          | none => (c.abbreviated s).map fun it => ⟨it, argret, s :: rest⟩

/-- A step leaves at least one word and adds none. -/
theorem Cmd.select_cmds {c : Cmd F} {argret : List Str} {s : Str} {rest : List Str} {sel : Selected F}
    (h : c.select argret s rest = some sel) : sel.cmds ≠ [] ∧ sel.cmds.length ≤ rest.length + 1 := by
  rw [select] at h
  split at h
  · cases h
    exact ⟨List.cons_ne_nil s rest, le_refl _⟩
  · split at h
    · cases h
      exact ⟨List.cons_ne_nil _ _, Nat.le_add_left 1 rest.length⟩
    · split at h
      · cases h
        exact ⟨List.cons_ne_nil s rest, le_refl _⟩
      · obtain ⟨it, -, rfl⟩ := Option.map_eq_some_iff.1 h
        exact ⟨List.cons_ne_nil s rest, le_refl _⟩

/-- What `find` leaves: its result, `ret` and the vectors. -/
structure Found (F : Type u) where
  found : Bool
  ret : Cmd F
  argret : List Str
  cmds : List Str

/-- `Cmd::find`. An empty vector has no first word. -/
def Cmd.find (c ret : Cmd F) (argret cmds : List Str) (incomp : Bool) : Option (Found F) :=
  match cmds with
  | [] => none
  | s :: rest =>
      match _hsel : c.select argret s rest with
      | none => some ⟨false, ret, argret, s :: rest⟩
      | some sel =>
          if sel.cmds.length ≠ 1 then
            sel.it.find ret sel.argret sel.cmds.tail incomp
          else if sel.it.f.isNone ∧ incomp = false then
            some ⟨false, ret, sel.argret, sel.cmds⟩
          else
            some ⟨true, sel.it, sel.argret, sel.cmds⟩
termination_by cmds.length
decreasing_by
  have hlength := (select_cmds _hsel).2
  rw [List.length_tail, List.length_cons]
  omega

/-- One step of `find`. -/
theorem Cmd.find_cons {c : Cmd F} {argret : List Str} {s : Str} {rest : List Str} {sel : Selected F}
    (h : c.select argret s rest = some sel) (ret : Cmd F) (incomp : Bool) :
    c.find ret argret (s :: rest) incomp =
      if sel.cmds.length ≠ 1 then
        sel.it.find ret sel.argret sel.cmds.tail incomp
      else if sel.it.f.isNone ∧ incomp = false then
        some ⟨false, ret, sel.argret, sel.cmds⟩
      else
        some ⟨true, sel.it, sel.argret, sel.cmds⟩ := by
  rw [find]
  split
  · next hnone =>
    rw [h] at hnone
    cases hnone
  · next sel' hsel =>
    rw [h] at hsel
    cases hsel
    rfl

/-- `find` ends on every vector that has a word. -/
theorem Cmd.find_isSome (c ret : Cmd F) (argret : List Str) {cmds : List Str} (h : cmds ≠ [])
    (incomp : Bool) : (c.find ret argret cmds incomp).isSome := by
  induction hn : cmds.length using Nat.strong_induction_on generalizing c argret cmds with
  | _ n ih =>
    obtain ⟨s, rest, rfl⟩ := List.exists_cons_of_ne_nil h
    cases hsel : c.select argret s rest with
    | none =>
      rw [find]
      split
      · rfl
      · next sel hsome =>
        rw [hsel] at hsome
        cases hsome
    | some sel =>
      obtain ⟨hne, hle⟩ := select_cmds hsel
      rw [find_cons hsel]
      split
      · next hlength =>
        -- at least two words are left, so the erased vector is shorter and not empty
        have hpos := List.length_pos_iff.2 hne
        apply ih sel.cmds.tail.length
        · rw [← hn, List.length_tail, List.length_cons]
          omega
        · intro hnil
          have hzero := congrArg List.length hnil
          rw [List.length_tail, List.length_nil] at hzero
          omega
        · rfl
      · split <;> rfl

/-! ## What a tree means -/

/-- The callback and the description of a path; a node that is not there has neither. -/
def Cmd.meaning : Cmd F → List Str → Option F × Str
  | c, [] => (c.f, c.desc)
  | c, s :: p => (c.sub s).meaning p

/-- All maps of the tree are in order. -/
inductive Cmd.Ordered : Cmd F → Prop where
  | mk {subCmds : List (Str × Cmd F)} {f : Option F} {desc : Str} (sorted : SortedMap.Sorted subCmds)
      (entries : ∀ e ∈ subCmds, e.2.Ordered) : Cmd.Ordered ⟨subCmds, f, desc⟩

/-- The entries of an ordered tree are in order. -/
theorem Cmd.Ordered.sorted {c : Cmd F} (h : c.Ordered) : SortedMap.Sorted c.subCmds := by
  cases h with
  | mk sorted entries => exact sorted

/-- The entries of an ordered tree are ordered trees. -/
theorem Cmd.Ordered.of_mem {c : Cmd F} (h : c.Ordered) : ∀ e ∈ c.subCmds, e.2.Ordered := by
  cases h with
  | mk sorted entries => exact entries

/-- The tree without entries is ordered. -/
theorem Cmd.Ordered.empty : (Cmd.empty : Cmd F).Ordered :=
  ⟨SortedMap.sorted_nil, fun _ he => absurd he List.not_mem_nil⟩

/-- The entry for a word is ordered. -/
theorem Cmd.Ordered.sub {c : Cmd F} (h : c.Ordered) (s : Str) : (c.sub s).Ordered := by
  rw [Cmd.sub]
  cases hfind : SortedMap.find s c.subCmds with
  | none => exact Cmd.Ordered.empty
  | some it => exact h.of_mem (s, it) ((SortedMap.find_eq_some_iff h.sorted).1 hfind)

/-- Replacing an entry keeps the order. -/
theorem Cmd.Ordered.setSub {c sub : Cmd F} (h : c.Ordered) (s : Str) (hsub : sub.Ordered) :
    (c.setSub s sub).Ordered := by
  refine ⟨h.sorted.upsert s _, ?_⟩
  intro e he
  rcases SortedMap.mem_upsert he with ⟨_, rfl⟩ | he
  · exact hsub
  · exact h.of_mem e he

/-- The entry that was replaced. -/
theorem Cmd.sub_setSub_self {c : Cmd F} (h : c.Ordered) (s : Str) (sub : Cmd F) :
    (c.setSub s sub).sub s = sub := by
  rw [Cmd.sub, setSub, subCmds, SortedMap.find_upsert_self h.sorted, Option.getD_some]

/-- Replacing an entry leaves the others alone. -/
theorem Cmd.sub_setSub_of_ne (c : Cmd F) {s s' : Str} (hne : s' ≠ s) (sub : Cmd F) :
    (c.setSub s sub).sub s' = c.sub s' := by
  rw [Cmd.sub, setSub, subCmds, SortedMap.find_upsert_of_ne _ hne, ← Cmd.sub]

/-- Replacing an entry changes the meaning of the paths through it. -/
theorem Cmd.meaning_setSub {c : Cmd F} (h : c.Ordered) (s : Str) (sub : Cmd F) (p : List Str)
    (d : Option F × Str) (hsub : sub.meaning = Function.update (c.sub s).meaning p d) :
    (c.setSub s sub).meaning = Function.update c.meaning (s :: p) d := by
  funext q
  cases q with
  | nil => exact (Function.update_of_ne (List.cons_ne_nil s p).symm d c.meaning).symm
  | cons s' q =>
    rw [meaning]
    by_cases hs : s' = s
    · subst hs
      rw [sub_setSub_self h, hsub]
      by_cases hq : q = p
      · rw [hq, Function.update_self, Function.update_self]
      · rw [Function.update_of_ne hq, Function.update_of_ne fun heq => hq (List.cons.inj heq).2, meaning]
    · rw [sub_setSub_of_ne c hs, Function.update_of_ne fun heq => hs (List.cons.inj heq).1, meaning]

/-- `add` gives one path its callback and its description and leaves all others alone. -/
theorem Cmd.add_spec (f : Option F) (desc : Str) {p : List Str} (hp : p ≠ []) {c : Cmd F}
    (h : c.Ordered) :
    ∃ c', c.add p f desc = some c' ∧ c'.Ordered ∧
      c'.meaning = Function.update c.meaning p (f, desc) := by
  induction p generalizing c with
  | nil => exact absurd rfl hp
  | cons s args ih =>
    cases args with
    | nil =>
      -- the node keeps what is below it
      let sub : Cmd F := ⟨(c.sub s).subCmds, f, desc⟩
      have hsub : sub.Ordered := ⟨(h.sub s).sorted, (h.sub s).of_mem⟩
      refine ⟨c.setSub s sub, rfl, h.setSub s hsub, ?_⟩
      apply meaning_setSub h
      funext q
      cases q with
      | nil => rfl
      | cons s' q => rfl
    | cons arg args =>
      obtain ⟨sub, hadd, hsub, hmeaning⟩ := ih (List.cons_ne_nil arg args) (h.sub s)
      refine ⟨c.setSub s sub, ?_, h.setSub s hsub, meaning_setSub h s sub _ _ hmeaning⟩
      rw [add, hadd, Option.map_some]

/-! ## Looking up a path -/

/-- The word of an entry selects it, whatever else is there. -/
theorem Cmd.select_of_sub {c : Cmd F} {s : Str} {it : Cmd F} (h : SortedMap.find s c.subCmds = some it)
    (argret : List Str) (rest : List Str) :
    c.select argret s rest = some ⟨it, argret, s :: rest⟩ := by
  rw [select, h]

/-- The tree without entries means nothing. -/
theorem Cmd.meaning_empty (p : List Str) : (Cmd.empty : Cmd F).meaning p = (none, []) := by
  induction p with
  | nil => rfl
  | cons s p ih => exact ih

/-- A path with a callback is found word by word. -/
theorem Cmd.find_of_meaning (ret : Cmd F) (argret : List Str) {p : List Str} (hp : p ≠ [])
    {c : Cmd F} {f : F} {desc : Str} (h : c.meaning p = (some f, desc)) :
    ∃ r, c.find ret argret p false = some r ∧ r.found = true ∧ r.ret.f = some f ∧
      r.ret.desc = desc ∧ r.argret = argret := by
  induction p generalizing c with
  | nil => exact absurd rfl hp
  | cons s rest ih =>
    rw [meaning, Cmd.sub] at h
    cases hfind : SortedMap.find s c.subCmds with
    | none =>
      rw [hfind, Option.getD_none, meaning_empty] at h
      cases h
    | some it =>
      rw [hfind, Option.getD_some] at h
      rw [find_cons (select_of_sub hfind argret rest)]
      cases rest with
      | nil =>
        obtain ⟨hf, hdesc⟩ := Prod.mk.inj h
        have hcallback : ¬(it.f.isNone = true ∧ false = false) := by
          rw [hf]
          exact fun hnone => nomatch hnone.1
        refine ⟨⟨true, it, argret, [s]⟩, ?_, rfl, hf, hdesc, rfl⟩
        exact (if_neg (not_not.2 rfl)).trans (if_neg hcallback)
      | cons s' rest =>
        have hlength : (s :: s' :: rest).length ≠ 1 := fun heq => Nat.succ_ne_zero _ (Nat.succ.inj heq)
        rw [if_pos hlength]
        exact ih (List.cons_ne_nil s' rest) h

/-! ## A sequence of `add` calls -/

/-- A call of `add` with a path and a callback. -/
structure AddCall (F : Type u) where
  args : List Str
  f : F
  desc : Str
  args_ne_nil : args ≠ []

/-- The tree after a sequence of calls. -/
def added (calls : List (AddCall F)) : Option (Cmd F) :=
  calls.foldlM (fun c call => c.add call.args (some call.f) call.desc) Cmd.empty

/-- The last call for exactly a path. -/
def lastAdd (calls : List (AddCall F)) (p : List Str) : Option (AddCall F) :=
  (calls.filter fun call => call.args = p).getLast?

/-- The last addition to a path, one call further. -/
theorem lastAdd_concat (calls : List (AddCall F)) (call : AddCall F) (p : List Str) :
    lastAdd (calls ++ [call]) p = if call.args = p then some call else lastAdd calls p := by
  rw [lastAdd, List.filter_append, List.filter_cons, List.filter_nil]
  split
  · next h =>
    rw [if_pos (of_decide_eq_true h), List.getLast?_concat]
  · next h =>
    rw [if_neg fun heq => h (decide_eq_true heq), List.append_nil, lastAdd]

/-- **The tree behind any additions** means the last one of each path. -/
theorem added_spec (calls : List (AddCall F)) :
    ∃ c, added calls = some c ∧ c.Ordered ∧
      ∀ p call, lastAdd calls p = some call → c.meaning p = (some call.f, call.desc) := by
  induction calls using List.reverseRecOn with
  | nil => exact ⟨Cmd.empty, rfl, Cmd.Ordered.empty, fun p call h => nomatch h⟩
  | append_singleton calls call ih =>
    obtain ⟨c, hadded, hordered, hmeaning⟩ := ih
    obtain ⟨c', hadd, hordered', hupdate⟩ :=
      Cmd.add_spec (some call.f) call.desc call.args_ne_nil hordered
    refine ⟨c', ?_, hordered', ?_⟩
    · rw [added, List.foldlM_append, ← added, hadded, Option.bind_eq_bind, Option.bind_some,
        List.foldlM_cons, hadd]
      rfl
    · intro p last hlast
      rw [lastAdd_concat] at hlast
      rw [hupdate]
      split at hlast
      · next hp =>
        cases hlast
        rw [← hp, Function.update_self]
      · next hp =>
        rw [Function.update_of_ne (Ne.symm hp), hmeaning p last hlast]

/-- After any calls of `add`, `find` on a path that was added gives the last callback and description
it was added with and no arguments, and on any vector that has a word it ends. -/
theorem find_added (calls : List (AddCall F)) :
    ∃ c, added calls = some c ∧
      (∀ call ∈ calls, ∃ last, lastAdd calls call.args = some last ∧
        ∀ ret, ∃ r, c.find ret [] call.args false = some r ∧ r.found = true ∧
          r.ret.f = some last.f ∧ r.ret.desc = last.desc ∧ r.argret = []) ∧
      ∀ ret argret cmds incomp, cmds ≠ [] → (c.find ret argret cmds incomp).isSome := by
  obtain ⟨c, hadded, -, hmeaning⟩ := added_spec calls
  refine ⟨c, hadded, ?_, fun ret argret _ incomp h => c.find_isSome ret argret h incomp⟩
  intro call hcall
  have hne : calls.filter (fun call' => call'.args = call.args) ≠ [] :=
    List.ne_nil_of_mem (List.mem_filter.2 ⟨hcall, decide_eq_true rfl⟩)
  have hlast := List.getLast?_eq_some_getLast hne
  refine ⟨_, hlast, ?_⟩
  intro ret
  exact Cmd.find_of_meaning ret [] call.args_ne_nil (hmeaning call.args _ hlast)

end

/-- A command of two words that is added twice, beside an entry for the rest of the line. -/
def calls : List (AddCall Nat) :=
  [⟨[[119], [104]], 1, [], List.cons_ne_nil _ _⟩, ⟨[restOfLine], 2, [], List.cons_ne_nil _ _⟩,
    ⟨[[119], [104]], 3, [100], List.cons_ne_nil _ _⟩]

/-- A command that was added twice, found by its words. -/
theorem find_added_of_calls :
    ∃ c, added calls = some c ∧ ∀ ret, ∃ r, c.find ret [] [[119], [104]] false = some r ∧
      r.ret.f = some 3 ∧ r.ret.desc = [100] := by
  obtain ⟨c, hadded, hfind, -⟩ := find_added calls
  refine ⟨c, hadded, ?_⟩
  obtain ⟨last, hlast, hret⟩ := hfind ⟨[[119], [104]], 1, [], List.cons_ne_nil _ _⟩ List.mem_cons_self
  have hcall : last.f = 3 ∧ last.desc = [100] := by
    cases hlast
    exact ⟨rfl, rfl⟩
  intro ret
  obtain ⟨r, hr, -, hf, hdesc, -⟩ := hret ret
  exact ⟨r, hr, hf.trans (congrArg some hcall.1), hdesc.trans hcall.2⟩

end ExamplePrograms.Other.CommandTree
