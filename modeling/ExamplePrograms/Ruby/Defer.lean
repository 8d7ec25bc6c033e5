import ExamplePrograms.Lib.Lifo

/-!
# Deferred blocks

`DeferBlock` of `defer.rb` evaluates a block in an object whose `defer` puts blocks in front of an
array, and calls the blocks of the array behind it. The blocks here are made of plain statements,
exceptions, `defer` and `with_defer` (or `Defer.run`); a deferred block is a closure of the object it is
deferred in, so a `defer` in it goes to the same array.

The array is walked with `each`, by an index that is compared with the length as it is then. A block
that defers another while it is called moves itself to the next index. Evaluation has a number of steps
as an argument, because such a walk need not end.

`deferred_once_iff` says for which blocks the deferred blocks run exactly once, last first, before
control leaves.
-/

set_option autoImplicit false

namespace ExamplePrograms.Ruby

open ExamplePrograms.Lib.Lifo

/-- The statements of a block. -/
inductive Block where
  | done
  | plain (rest : Block)
  | raise (rest : Block)
  | defer (blk rest : Block)
  | withDefer (blk rest : Block)
  deriving DecidableEq, Repr

/-- The object: its array, and a log of the blocks that were deferred and called, by the number of their
registration. -/
structure DeferBlock where
  stack : List Block := []
  log : List (Op Nat) := []

/-- `__stack.unshift block`. -/
def DeferBlock.defer (d : DeferBlock) (blk : Block) : DeferBlock :=
  { stack := blk :: d.stack, log := d.log ++ [.push d.stack.length] }

/-- The block at an index is called. The array holds the blocks in reverse order of registration. -/
def DeferBlock.called (d : DeferBlock) (i : Nat) : DeferBlock :=
  { d with log := d.log ++ [.pop (d.stack.length - 1 - i)] }

/-- How a block or a program ends. -/
inductive Outcome where
  | finished
  | raised
  | outOfFuel
  deriving DecidableEq, Repr

/-- What a `DeferBlock.run` did with its deferred blocks, and whether control left it. -/
structure Report where
  log : List (Op Nat)
  left : Bool
  deriving DecidableEq, Repr

/-- What is left when a block has run: its end, its `DeferBlock`, and the reports so far. -/
structure Result where
  outcome : Outcome
  d : DeferBlock
  reports : List Report

/-- The report of a `DeferBlock.run` that ended so. -/
def Report.of (outcome : Outcome) (d : DeferBlock) : Report := ⟨d.log, outcome ≠ .outOfFuel⟩

/-- `__cleanup` from index `i` on, for at most `n` blocks; `exec` evaluates a block. -/
def cleanup (exec : Block → DeferBlock → Result) : Nat → Nat → DeferBlock → Result
  | 0, _, d => ⟨.outOfFuel, d, []⟩
  | n + 1, i, d =>
      match d.stack[i]? with
      | none => ⟨.finished, d, []⟩
      | some blk =>
          let r := exec blk (d.called i)
          match r.outcome with
          | .finished =>
              let rest := cleanup exec n (i + 1) r.d
              ⟨rest.outcome, rest.d, r.reports ++ rest.reports⟩
          -- the blocks at the indices behind are never called
          | _ => r

/-- `DeferBlock.run`: the block is evaluated in a new object and its deferred blocks are called. An
exception goes past `__cleanup`. -/
def run (exec : Block → DeferBlock → Result) (n : Nat) (blk : Block) : Outcome × List Report :=
  let body := exec blk {}
  match body.outcome with
  | .finished =>
      let r := cleanup exec n 0 body.d
      (r.outcome, body.reports ++ r.reports ++ [Report.of r.outcome r.d])
  | outcome => (outcome, body.reports ++ [Report.of outcome body.d])

/-- The statements of a block, evaluated in the object `d`. -/
def exec : Nat → Block → DeferBlock → Result
  | 0, _, d => ⟨.outOfFuel, d, []⟩
  | _ + 1, .done, d => ⟨.finished, d, []⟩
  | n + 1, .plain rest, d => exec n rest d
  | _ + 1, .raise _, d => ⟨.raised, d, []⟩
  | n + 1, .defer blk rest, d => exec n rest (d.defer blk)
  | n + 1, .withDefer blk rest, d =>
      -- the inner block has an object of its own, and its exception leaves these statements too
      let inner := run (exec n) n blk
      match inner.1 with
      | .finished =>
          let r := exec n rest d
          { r with reports := inner.2 ++ r.reports }
      | outcome => ⟨outcome, d, inner.2⟩

/-! ## The law and the condition -/

/-- Each call is that of the block that was deferred last and not called yet, and by the time control
has left every deferred block has been called once, in reverse order. -/
structure Report.Ok (r : Report) : Prop where
  lastFirst : ∃ pending, replay [] r.log = some pending
  all : r.left = true → popped r.log = (pushed r.log).reverse

mutual

/-- An exception leaves the statements of the block. -/
def raises : Block → Bool
  | .done => false
  | .plain rest => raises rest
  | .raise _ => true
  | .defer _ rest => raises rest
  | .withDefer blk rest => raises blk || deferredRaises blk || raises rest

/-- An exception leaves a block that these statements defer. -/
def deferredRaises : Block → Bool
  | .done => false
  | .plain rest => deferredRaises rest
  | .raise _ => false
  | .defer blk rest => raises blk || deferredRaises rest
  | .withDefer blk rest => !(raises blk || deferredRaises blk) && deferredRaises rest

end

/-- An exception leaves a `with_defer` of the block. -/
def runRaises (blk : Block) : Bool := raises blk || deferredRaises blk

/-- The blocks that these statements defer, first to last. -/
def deferred : Block → List Block
  | .done => []
  | .plain rest => deferred rest
  | .raise _ => []
  | .defer blk rest => blk :: deferred rest
  | .withDefer blk rest => if runRaises blk then [] else deferred rest

/-- Blocks in the order in which they are called defer nothing themselves, and none but the last one
raises. -/
def Cleans : List Block → Prop
  | [] => True
  | blk :: blks => deferred blk = [] ∧ (raises blk = true → blks = []) ∧ Cleans blks

/-- No exception leaves the statements behind a `defer`, and the deferred blocks clean up. -/
structure Guarded (blk : Block) : Prop where
  body : raises blk = true → deferred blk = []
  cleans : Cleans (deferred blk).reverse

/-- Every `with_defer` that these statements come to is guarded, in its block and in the blocks deferred
in it. -/
inductive Orderly : Block → Prop
  | done : Orderly .done
  | plain {rest : Block} : Orderly rest → Orderly (.plain rest)
  | raise {rest : Block} : Orderly (.raise rest)
  | defer {blk rest : Block} : Orderly rest → Orderly (.defer blk rest)
  | withDefer {blk rest : Block} : Orderly blk → Guarded blk →
      (∀ c ∈ deferred blk, Orderly c) → (runRaises blk = false → Orderly rest) →
      Orderly (.withDefer blk rest)

/-- The deferred blocks raise when one of them does. -/
theorem deferredRaises_eq (blk : Block) : deferredRaises blk = (deferred blk).any raises := by
  induction blk with
  | done => rfl
  | plain rest ih => exact ih
  | raise rest _ => rfl
  | defer blk rest _ ih => rw [deferredRaises, deferred, List.any_cons, ih]
  | withDefer blk rest _ ih =>
    rw [deferredRaises, deferred, ← runRaises]
    cases runRaises blk with
    | true => rfl
    | false => exact ih

/-! ## Orderly blocks -/

/-- An object in which some blocks were deferred. -/
def DeferBlock.deferAll (d : DeferBlock) (blks : List Block) : DeferBlock :=
  blks.foldl DeferBlock.defer d

/-- Deferred blocks stand in the array in reverse order. -/
theorem deferAll_stack (blks : List Block) (d : DeferBlock) :
    (d.deferAll blks).stack = blks.reverse ++ d.stack := by
  induction blks generalizing d with
  | nil => rfl
  | cons blk blks ih =>
    rw [DeferBlock.deferAll, List.foldl_cons, ← DeferBlock.deferAll, ih, List.reverse_cons,
      List.append_assoc]
    rfl

/-- Deferred blocks are pushed in their order. -/
theorem deferAll_log (blks : List Block) (d : DeferBlock) :
    (d.deferAll blks).log =
      d.log ++ (List.range' d.stack.length blks.length).map Op.push := by
  induction blks generalizing d with
  | nil => exact (List.append_nil _).symm
  | cons blk blks ih =>
    rw [DeferBlock.deferAll, List.foldl_cons, ← DeferBlock.deferAll, ih, List.length_cons,
      List.range'_succ, List.map_cons]
    exact List.append_assoc _ _ _

/-- The numbers below `k`, from the last one. -/
def downFrom (k : Nat) : List Nat := (List.range k).reverse

theorem downFrom_succ (k : Nat) : downFrom (k + 1) = k :: downFrom k := by
  rw [downFrom, List.range_succ, List.reverse_append]
  rfl

/-- The indices of the array, from the last one. -/
theorem length_downFrom (k : Nat) : (downFrom k).length = k := by
  rw [downFrom, List.length_reverse, List.length_range]

/-- Only an array without blocks has no indices. -/
theorem eq_nil_of_downFrom_length {blks : List Block} (h : downFrom blks.length = []) : blks = [] := by
  have hlength := congrArg List.length h
  rw [length_downFrom] at hlength
  exact List.eq_nil_of_length_eq_zero hlength

/-- Enough steps for a statement and what is behind it. -/
theorem exists_fuel_pred {N n : Nat} (h : N + 1 ≤ n) : ∃ n', n = n' + 1 ∧ N ≤ n' :=
  ⟨n - 1, by omega, by omega⟩

/-- A report of a block that control has left as it should. -/
structure Report.Good (r : Report) : Prop where
  left : r.left = true
  ok : r.Ok

/-- The blocks that were pushed. -/
theorem pushed_log (k : Nat) :
    pushed ((List.range k).map Op.push ++ (downFrom k).map Op.pop) = List.range k := by
  have hpops : ∀ as : List Nat, pushed (as.map Op.pop) = [] := by
    intro as
    induction as with
    | nil => rfl
    | cons a as ih => exact ih
  have hpushes : ∀ as : List Nat, pushed (as.map Op.push ++ (downFrom k).map Op.pop) = as := by
    intro as
    induction as with
    | nil => exact hpops _
    | cons a as ih => exact congrArg (a :: ·) ih
  exact hpushes _

/-- The blocks that were called. -/
theorem popped_log (k : Nat) :
    popped ((List.range k).map Op.push ++ (downFrom k).map Op.pop) = downFrom k := by
  have hpops : ∀ as : List Nat, popped (as.map Op.pop) = as := by
    intro as
    induction as with
    | nil => rfl
    | cons a as ih => exact congrArg (a :: ·) ih
  have hpushes : ∀ as : List Nat,
      popped (as.map Op.push ++ (downFrom k).map Op.pop) = downFrom k := by
    intro as
    induction as with
    | nil => exact hpops _
    | cons a as ih => exact ih
  exact hpushes _

/-- The report of a block that defers `k` blocks and calls them all. -/
theorem report_good (k : Nat) :
    (Report.mk ((List.range k).map Op.push ++ (downFrom k).map Op.pop) true).Good := by
  refine ⟨rfl, ⟨[], ?_⟩, ?_⟩
  · rw [replay_append, replay_pushes]
    exact replay_pops (downFrom k) []
  · intro _
    rw [pushed_log, popped_log]
    rfl

/-- The block is evaluated to its end, or to its exception, whatever the object is. -/
def Evaluates (blk : Block) : Prop :=
  ∃ N rs, (∀ r ∈ rs, Report.Good r) ∧ ∀ n, N ≤ n → ∀ d : DeferBlock,
    exec n blk d = ⟨if raises blk then .raised else .finished, d.deferAll (deferred blk), rs⟩

/-- What is left of the array from an index on, from the block at that index. -/
theorem at_of_drop {d : DeferBlock} {i : Nat} {c : Block} {blks : List Block}
    (h : d.stack.drop i = c :: blks) :
    d.stack[i]? = some c ∧ (d.called i).stack.drop (i + 1) = blks ∧
      (d.called i).log = d.log ++ [.pop blks.length] := by
  have hlength := congrArg List.length h
  rw [List.length_drop, List.length_cons] at hlength
  have hnumber : d.stack.length - 1 - i = blks.length := by omega
  refine ⟨?_, ?_, ?_⟩
  · rw [← List.head?_drop, h, List.head?_cons]
  · change d.stack.drop (i + 1) = blks
    rw [← List.tail_drop, h, List.tail_cons]
  · rw [DeferBlock.called, hnumber]

/-- The walk over blocks that clean up calls each of them once. -/
theorem cleanup_orderly {blks : List Block} (heval : ∀ c ∈ blks, Evaluates c) (h : Cleans blks) :
    ∃ N rs, (∀ r ∈ rs, Report.Good r) ∧ ∀ n m, N ≤ n → N ≤ m → ∀ (d : DeferBlock) (i : Nat),
      d.stack.drop i = blks →
        cleanup (exec n) m i d = ⟨if blks.any raises then .raised else .finished,
          { d with log := d.log ++ (downFrom blks.length).map Op.pop }, rs⟩ := by
  induction blks with
  | nil =>
    refine ⟨1, [], (fun r hr => nomatch hr), ?_⟩
    intro n m _ hm d i hdrop
    obtain ⟨m, rfl, hle⟩ := exists_fuel_pred hm
    rw [cleanup, List.getElem?_eq_none (List.drop_eq_nil_iff.1 hdrop)]
    simp [downFrom]
  | cons c blks ih =>
    obtain ⟨hsilent, hlast, hrest⟩ := h
    obtain ⟨Nc, rsc, hgood, hc⟩ := heval c List.mem_cons_self
    cases hr : raises c with
    | true =>
      -- the exception comes from the last block
      obtain rfl := hlast hr
      refine ⟨Nc + 1, rsc, hgood, ?_⟩
      intro n m hn hm d i hdrop
      obtain ⟨m, rfl, hle⟩ := exists_fuel_pred hm
      obtain ⟨hat, -, hlog⟩ := at_of_drop hdrop
      rw [cleanup, hat]
      dsimp only
      rw [hc n (by omega), hsilent, hr, if_pos rfl, List.any_cons, hr, Bool.true_or, if_pos rfl]
      exact congrArg (fun log => Result.mk .raised ⟨d.stack, log⟩ rsc) hlog
    | false =>
      obtain ⟨N, rs, hgoods, hblks⟩ := ih (fun c' hc' => heval c' (List.mem_cons_of_mem c hc')) hrest
      refine ⟨max Nc N + 1, rsc ++ rs, ?_, ?_⟩
      · exact List.forall_mem_append.2 ⟨hgood, hgoods⟩
      · intro n m hn hm d i hdrop
        obtain ⟨m, rfl, hle⟩ := exists_fuel_pred hm
        obtain ⟨hat, hnext, hlog⟩ := at_of_drop hdrop
        rw [cleanup, hat]
        dsimp only
        rw [hc n (by omega), hsilent, hr, if_neg Bool.false_ne_true]
        dsimp only [DeferBlock.deferAll, List.foldl_nil]
        -- the call has put nothing in the array, so the next index is the next block
        rw [hblks n m (by omega) (by omega) (d.called i) (i + 1) hnext, hlog, List.any_cons, hr,
          Bool.false_or, List.length_cons, downFrom_succ, List.map_cons, List.append_assoc]
        rfl

/-- A guarded run leaves its block with a good report. -/
theorem run_orderly {blk : Block} (hbody : Evaluates blk) (h : Guarded blk)
    (hdeferred : ∀ c ∈ deferred blk, Evaluates c) :
    ∃ N rs, (∀ r ∈ rs, Report.Good r) ∧ ∀ n, N ≤ n →
      run (exec n) n blk = (if runRaises blk then .raised else .finished, rs) := by
  obtain ⟨Nb, rsb, hgood, hb⟩ := hbody
  cases hr : raises blk with
  | true =>
    refine ⟨Nb, rsb ++ [Report.of .raised {}], ?_, ?_⟩
    · exact List.forall_mem_append.2 ⟨hgood, List.forall_mem_singleton.2 (report_good 0)⟩
    · intro n hn
      rw [run]
      dsimp only
      rw [hb n hn, hr, if_pos rfl, h.body hr, runRaises, hr, Bool.true_or, if_pos rfl]
      rfl
  | false =>
    obtain ⟨N, rs, hgoods, hclean⟩ :=
      cleanup_orderly (fun c hc => hdeferred c (List.mem_reverse.1 hc)) h.cleans
    let k := (deferred blk).length
    -- registered first to last and called last to first
    let log := (List.range k).map Op.push ++ (downFrom k).map Op.pop
    refine ⟨max Nb N, rsb ++ rs ++ [⟨log, true⟩], ?_, ?_⟩
    · have hcalled := List.forall_mem_append.2 ⟨hgood, hgoods⟩
      exact List.forall_mem_append.2 ⟨hcalled, List.forall_mem_singleton.2 (report_good k)⟩
    · intro n hn
      have hstack : (DeferBlock.deferAll {} (deferred blk)).stack.drop 0 = (deferred blk).reverse := by
        rw [List.drop_zero, deferAll_stack, List.append_nil]
      have hlog : (DeferBlock.deferAll {} (deferred blk)).log = (List.range k).map Op.push := by
        rw [deferAll_log, List.range_eq_range']
        rfl
      rw [run]
      dsimp only
      rw [hb n (by omega), hr, if_neg Bool.false_ne_true]
      dsimp only
      rw [hclean n n (by omega) (by omega) _ 0 hstack, hlog, List.any_reverse, ← deferredRaises_eq,
        List.length_reverse, runRaises, hr, Bool.false_or]
      cases deferredRaises blk with
      | true => rfl
      | false => rfl

/-- Statements all of whose runs are guarded are evaluated to their end or their exception, with good
reports. -/
theorem exec_orderly {blk : Block} (h : Orderly blk) : Evaluates blk := by
  induction h with
  | done =>
    refine ⟨1, [], (fun r hr => nomatch hr), ?_⟩
    intro n hn d
    obtain ⟨n, rfl, -⟩ := exists_fuel_pred hn
    rfl
  | raise =>
    refine ⟨1, [], (fun r hr => nomatch hr), ?_⟩
    intro n hn d
    obtain ⟨n, rfl, -⟩ := exists_fuel_pred hn
    rfl
  | plain _ ih =>
    obtain ⟨N, rs, hgood, hexec⟩ := ih
    refine ⟨N + 1, rs, hgood, ?_⟩
    intro n hn d
    obtain ⟨n, rfl, hle⟩ := exists_fuel_pred hn
    exact hexec n hle d
  | @defer blk _ _ ih =>
    obtain ⟨N, rs, hgood, hexec⟩ := ih
    refine ⟨N + 1, rs, hgood, ?_⟩
    intro n hn d
    obtain ⟨n, rfl, hle⟩ := exists_fuel_pred hn
    exact hexec n hle (d.defer blk)
  | @withDefer blk rest _ hg _ _ ihb ihcs ihrest =>
    obtain ⟨Nr, rsr, hgoodr, hrun⟩ := run_orderly ihb hg ihcs
    cases hr : runRaises blk with
    | true =>
      refine ⟨Nr + 1, rsr, hgoodr, ?_⟩
      intro n hn d
      obtain ⟨n, rfl, hle⟩ := exists_fuel_pred hn
      rw [exec, hrun n hle, raises, ← runRaises, deferred, hr]
      rfl
    | false =>
      obtain ⟨N, rs, hgood, hexec⟩ := ihrest hr
      refine ⟨max Nr N + 1, rsr ++ rs, ?_, ?_⟩
      · exact List.forall_mem_append.2 ⟨hgoodr, hgood⟩
      · intro n hn d
        obtain ⟨n, rfl, hle⟩ := exists_fuel_pred hn
        rw [exec, hrun n (by omega), raises, ← runRaises, deferred, hr, if_neg Bool.false_ne_true]
        dsimp only
        rw [hexec n (by omega) d, Bool.false_or, if_neg Bool.false_ne_true]

/-! ## Other blocks -/

/-- Some run among the reports broke the law. -/
def Broken (rs : List Report) : Prop := ∃ r ∈ rs, ¬ r.Ok

/-- A report that is broken stays so before others. -/
theorem Broken.append_left {rs : List Report} (h : Broken rs) (rs' : List Report) :
    Broken (rs ++ rs') := by
  obtain ⟨r, hr, hbad⟩ := h
  exact ⟨r, List.mem_append_left rs' hr, hbad⟩

/-- A report that is broken stays so behind others. -/
theorem Broken.append_right {rs : List Report} (h : Broken rs) (rs' : List Report) :
    Broken (rs' ++ rs) := by
  obtain ⟨r, hr, hbad⟩ := h
  exact ⟨r, List.mem_append_right rs' hr, hbad⟩

/-- With enough steps the evaluation breaks the law, whatever the object is. -/
def Breaks (blk : Block) : Prop := ∃ N, ∀ n, N ≤ n → ∀ d : DeferBlock, Broken (exec n blk d).reports

/-- A log that broke the order is not mended by what follows. -/
theorem not_ok_of_replay_none {outcome : Outcome} {d : DeferBlock} {log ops : List (Op Nat)}
    (hlog : d.log = log ++ ops) (h : replay [] log = none) : ¬ (Report.of outcome d).Ok := by
  rintro ⟨⟨pending, hreplay⟩, -⟩
  change replay [] d.log = some pending at hreplay
  rw [hlog, replay_append, h] at hreplay
  cases hreplay

/-- Control left with a block that was not called. -/
theorem not_ok_of_raised {d : DeferBlock} {pending : List Nat} (h : replay [] d.log = some pending)
    (hne : pending ≠ []) : ¬ (Report.of .raised d).Ok := by
  rintro ⟨-, hall⟩
  have hreversed : popped d.log = (pushed d.log).reverse := hall rfl
  -- what was deferred is called or pending
  have hlength := (replay_perm d.log h).length_eq
  rw [List.nil_append, List.length_append, hreversed, List.length_reverse] at hlength
  have hpos := List.length_pos_of_ne_nil hne
  omega

/-- Evaluation only adds to the log. -/
theorem exec_log (n : Nat) (blk : Block) (d : DeferBlock) :
    ∃ ops, (exec n blk d).d.log = d.log ++ ops := by
  induction n generalizing blk d with
  | zero => exact ⟨[], (List.append_nil _).symm⟩
  | succ n ih =>
    cases blk with
    | done => exact ⟨[], (List.append_nil _).symm⟩
    | raise rest => exact ⟨[], (List.append_nil _).symm⟩
    | plain rest => exact ih rest d
    | defer blk rest =>
      obtain ⟨ops, hops⟩ := ih rest (d.defer blk)
      exact ⟨_ :: ops, hops.trans (List.append_assoc _ [_] _)⟩
    | withDefer blk rest =>
      rw [exec]
      dsimp only
      split
      · exact ih rest d
      · exact ⟨[], (List.append_nil _).symm⟩

/-- The walk only adds to the log, the call of the block at its index first. -/
theorem cleanup_log (n m i : Nat) (d : DeferBlock) :
    (∃ ops, (cleanup (exec n) m i d).d.log = d.log ++ ops) ∧
      (0 < m → i < d.stack.length →
        ∃ ops, (cleanup (exec n) m i d).d.log = (d.called i).log ++ ops) := by
  induction m generalizing i d with
  | zero => exact ⟨⟨[], (List.append_nil _).symm⟩, fun hpos => absurd hpos (Nat.lt_irrefl 0)⟩
  | succ m ih =>
    rw [cleanup]
    cases hat : d.stack[i]? with
    | none =>
      refine ⟨⟨[], (List.append_nil _).symm⟩, ?_⟩
      intro _ hlt
      exact absurd hlt (Nat.not_lt.2 (List.getElem?_eq_none_iff.1 hat))
    | some blk =>
      have hcalled : ∃ ops, (cleanup (exec n) (m + 1) i d).d.log = (d.called i).log ++ ops := by
        obtain ⟨ops, hops⟩ := exec_log n blk (d.called i)
        rw [cleanup, hat]
        dsimp only
        split
        · obtain ⟨⟨ops', hops'⟩, -⟩ := ih (i + 1) (exec n blk (d.called i)).d
          refine ⟨ops ++ ops', hops'.trans ?_⟩
          rw [hops, List.append_assoc]
        · exact ⟨ops, hops⟩
      rw [cleanup, hat] at hcalled
      refine ⟨?_, fun _ _ => hcalled⟩
      obtain ⟨ops, hops⟩ := hcalled
      exact ⟨[.pop (d.stack.length - 1 - i)] ++ ops, hops.trans (List.append_assoc _ _ _)⟩

/-- The call of a block in its turn. -/
theorem replay_called {d : DeferBlock} {i : Nat} {c : Block} {blks : List Block}
    (hdrop : d.stack.drop i = c :: blks)
    (h : replay [] d.log = some (downFrom (c :: blks).length)) :
    replay [] (d.called i).log = some (downFrom blks.length) := by
  obtain ⟨-, -, hlog⟩ := at_of_drop hdrop
  rw [hlog, replay_append, h, List.length_cons, downFrom_succ]
  exact if_pos rfl

/-- A run breaks the law in a block it comes to, or with what it does itself. -/
def BreaksWith (r : Result) : Prop := Broken r.reports ∨ ¬ (Report.of r.outcome r.d).Ok

/-- The call of a block that defers others: an exception leaves without them, and otherwise the next
call is not that of the block deferred last. -/
theorem call_deferring_breaks {c : Block} (blks : List Block) (hc : Evaluates c)
    (hdefers : deferred c ≠ []) :
    ∃ N, ∀ n m, N ≤ n → N ≤ m → ∀ (d : DeferBlock) (i : Nat), d.stack.drop i = c :: blks →
      replay [] d.log = some (downFrom (c :: blks).length) →
        BreaksWith (cleanup (exec n) m i d) := by
  obtain ⟨N, rs, -, hexec⟩ := hc
  refine ⟨N + 2, ?_⟩
  intro n m hn hm d i hdrop hreplay
  obtain ⟨m, rfl⟩ : ∃ m', m = m' + 1 + 1 := ⟨m - 2, by omega⟩
  obtain ⟨hat, -, -⟩ := at_of_drop hdrop
  have hcall : exec n c (d.called i) = _ := hexec n (by omega) (d.called i)
  -- the blocks that are pending behind the call
  have hpending : replay [] ((d.called i).deferAll (deferred c)).log =
      some ((List.range' d.stack.length (deferred c).length).reverse ++ downFrom blks.length) := by
    rw [deferAll_log, replay_append, replay_called hdrop hreplay]
    exact replay_pushes _ _
  rw [cleanup, hat]
  dsimp only
  rw [hcall]
  have hk : 0 < (deferred c).length := List.length_pos_of_ne_nil hdefers
  right
  cases hr : raises c with
  -- the blocks it deferred are still pending when the exception leaves
  | true =>
    apply not_ok_of_raised hpending
    intro hnil
    have hlength := congrArg List.length hnil
    rw [List.length_append, List.length_reverse, List.length_range', List.length_nil] at hlength
    omega
  | false =>
    -- the next index is not the front of the array
    have hlt : i < d.stack.length := (List.getElem?_eq_some_iff.1 hat).1
    have hstack := congrArg List.length (deferAll_stack (deferred c) (d.called i))
    rw [List.length_append, List.length_reverse] at hstack
    change _ = (deferred c).length + d.stack.length at hstack
    obtain ⟨ops, hops⟩ := (cleanup_log n (m + 1) (i + 1) ((d.called i).deferAll (deferred c))).2
      (Nat.succ_pos m) (by omega)
    rw [if_neg Bool.false_ne_true]
    apply not_ok_of_replay_none hops
    obtain ⟨k, hkeq⟩ : ∃ k, (deferred c).length = k + 1 := ⟨(deferred c).length - 1, by omega⟩
    have hfront : (List.range' d.stack.length (k + 1)).reverse =
        (d.stack.length + k) :: (List.range' d.stack.length k).reverse := by
      rw [List.range'_1_concat, List.reverse_append]
      rfl
    rw [DeferBlock.called, replay_append, hpending, hstack, hkeq, hfront]
    exact if_neg (by omega)

/-- The walk over blocks that do not clean up, or come to a run that is not guarded. -/
theorem cleanup_breaks {blks : List Block} (hih : ∀ c ∈ blks, ¬ Orderly c → Breaks c)
    (h : ¬ (Cleans blks ∧ ∀ c ∈ blks, Orderly c)) :
    ∃ N, ∀ n m, N ≤ n → N ≤ m → ∀ (d : DeferBlock) (i : Nat), d.stack.drop i = blks →
      replay [] d.log = some (downFrom blks.length) → BreaksWith (cleanup (exec n) m i d) := by
  induction blks with
  | nil => exact absurd ⟨trivial, fun c hc => nomatch hc⟩ h
  | cons c blks ih =>
    by_cases hc : Orderly c
    · by_cases hdefers : deferred c = []
      · obtain ⟨Nc, rs, -, hexec⟩ := exec_orderly hc
        cases hr : raises c with
        | true =>
          -- an exception leaves the walk before the other blocks are called
          have hne : blks ≠ [] := by
            rintro rfl
            apply h
            refine ⟨⟨hdefers, fun _ => rfl, trivial⟩, ?_⟩
            intro c' hc'
            rw [List.mem_singleton.1 hc']
            exact hc
          refine ⟨Nc + 1, ?_⟩
          intro n m hn hm d i hdrop hreplay
          obtain ⟨m, rfl, hle⟩ := exists_fuel_pred hm
          obtain ⟨hat, -, -⟩ := at_of_drop hdrop
          right
          rw [cleanup, hat]
          dsimp only
          rw [hexec n (by omega), hr, if_pos rfl, hdefers]
          apply not_ok_of_raised (replay_called hdrop hreplay)
          exact fun hnil => hne (eq_nil_of_downFrom_length hnil)
        | false =>
          have hrest : ¬ (Cleans blks ∧ ∀ c ∈ blks, Orderly c) := by
            rintro ⟨hclean, horderly⟩
            apply h
            refine ⟨⟨hdefers, (fun hraises => nomatch hr.symm.trans hraises), hclean⟩, ?_⟩
            exact List.forall_mem_cons.2 ⟨hc, horderly⟩
          obtain ⟨N, hblks⟩ := ih (fun c' hc' => hih c' (List.mem_cons_of_mem c hc')) hrest
          refine ⟨max Nc N + 1, ?_⟩
          intro n m hn hm d i hdrop hreplay
          obtain ⟨m, rfl, hle⟩ := exists_fuel_pred hm
          obtain ⟨hat, hnext, -⟩ := at_of_drop hdrop
          have hwalk := hblks n m (by omega) (by omega) (d.called i) (i + 1) hnext
            (replay_called hdrop hreplay)
          rw [cleanup, hat]
          dsimp only
          rw [hexec n (by omega), hr, if_neg Bool.false_ne_true, hdefers]
          exact Or.imp (fun hbroken => hbroken.append_right rs) id hwalk
      · obtain ⟨N, hbreaks⟩ := call_deferring_breaks blks (exec_orderly hc) hdefers
        exact ⟨N, hbreaks⟩
    -- the first call itself comes to a run that is not guarded
    · obtain ⟨Nc, hbreaks⟩ := hih c List.mem_cons_self hc
      refine ⟨Nc + 1, ?_⟩
      intro n m hn hm d i hdrop hreplay
      obtain ⟨m, rfl, hle⟩ := exists_fuel_pred hm
      obtain ⟨hat, -, -⟩ := at_of_drop hdrop
      have hbroken := hbreaks n (by omega) (d.called i)
      left
      rw [cleanup, hat]
      dsimp only
      split
      · exact hbroken.append_left _
      · exact hbroken

/-- A block that is not orderly, with all that it defers, breaks a report. -/
theorem run_breaks {blk : Block} (hbody : ¬ Orderly blk → Breaks blk)
    (hdeferred : ∀ c ∈ deferred blk, ¬ Orderly c → Breaks c)
    (h : ¬ (Orderly blk ∧ Guarded blk ∧ ∀ c ∈ deferred blk, Orderly c)) :
    ∃ N, ∀ n, N ≤ n → Broken (run (exec n) n blk).2 := by
  by_cases horderly : Orderly blk
  · obtain ⟨Nb, rs, -, hexec⟩ := exec_orderly horderly
    have hstack : (DeferBlock.deferAll {} (deferred blk)).stack.drop 0 = (deferred blk).reverse := by
      rw [List.drop_zero, deferAll_stack, List.append_nil]
    have hreplay : replay [] (DeferBlock.deferAll {} (deferred blk)).log =
        some (downFrom (deferred blk).reverse.length) := by
      rw [deferAll_log, List.length_reverse, downFrom, List.range_eq_range']
      exact (replay_pushes _ _).trans (congrArg some (List.append_nil _))
    cases hr : raises blk with
    | true =>
      by_cases hnone : deferred blk = []
      · -- nothing was deferred, so nothing is left to be called
        apply absurd ?_ h
        refine ⟨horderly, ⟨fun _ => hnone, ?_⟩, ?_⟩
        · rw [hnone]
          trivial
        · rw [hnone]
          exact fun c hc => nomatch hc
      · refine ⟨Nb, ?_⟩
        intro n hn
        rw [run]
        dsimp only
        rw [hexec n hn, hr, if_pos rfl]
        apply Broken.append_right
        refine ⟨_, List.mem_singleton_self _, not_ok_of_raised hreplay ?_⟩
        exact fun hnil => hnone (List.reverse_eq_nil_iff.1 (eq_nil_of_downFrom_length hnil))
    | false =>
      have hclean : ¬ (Cleans (deferred blk).reverse ∧ ∀ c ∈ (deferred blk).reverse, Orderly c) := by
        rintro ⟨hclean, hall⟩
        apply h
        refine ⟨horderly, ⟨(fun hraises => nomatch hr.symm.trans hraises), hclean⟩, ?_⟩
        exact fun c hc => hall c (List.mem_reverse.2 hc)
      obtain ⟨N, hwalk⟩ :=
        cleanup_breaks (fun c hc => hdeferred c (List.mem_reverse.1 hc)) hclean
      refine ⟨max Nb N, ?_⟩
      intro n hn
      rw [run]
      dsimp only
      rw [hexec n (by omega), hr, if_neg Bool.false_ne_true]
      dsimp only
      rcases hwalk n n (by omega) (by omega) _ 0 hstack hreplay with hbroken | hbad
      · exact (hbroken.append_right rs).append_left _
      · exact Broken.append_right ⟨_, List.mem_singleton_self _, hbad⟩ _
  -- the statements of the block come to such a run
  · obtain ⟨N, hbreaks⟩ := hbody horderly
    refine ⟨N, ?_⟩
    intro n hn
    have hbroken := hbreaks n hn {}
    rw [run]
    dsimp only
    split
    · exact (hbroken.append_left _).append_left _
    · exact hbroken.append_left _

/-- A block that is deferred is a part of the block that defers it. -/
theorem sizeOf_deferred {blk c : Block} (h : c ∈ deferred blk) : sizeOf c < sizeOf blk := by
  induction blk with
  | done => cases h
  | raise rest _ => cases h
  | plain rest ih =>
    have hlt := ih h
    rw [Block.plain.sizeOf_spec]
    omega
  | defer blk rest _ ih =>
    rw [Block.defer.sizeOf_spec]
    rcases List.mem_cons.1 h with rfl | h
    · omega
    · have hlt := ih h
      omega
  | withDefer blk rest _ ih =>
    rw [Block.withDefer.sizeOf_spec]
    rw [deferred] at h
    split at h
    · cases h
    · have hlt := ih h
      omega

/-- Statements that come to a run that is not guarded break the law. -/
theorem exec_breaks (size : Nat) : ∀ blk : Block, sizeOf blk = size → ¬ Orderly blk → Breaks blk := by
  induction size using Nat.strongRecOn with
  | _ size ih =>
    rintro blk rfl h
    cases blk with
    | done => exact absurd .done h
    | raise rest => exact absurd .raise h
    | plain rest =>
      obtain ⟨N, hbreaks⟩ := ih (sizeOf rest) (by rw [Block.plain.sizeOf_spec]; omega) rest rfl
        (fun horderly => h (.plain horderly))
      refine ⟨N + 1, ?_⟩
      intro n hn d
      obtain ⟨n, rfl, hle⟩ := exists_fuel_pred hn
      exact hbreaks n hle d
    | defer blk rest =>
      obtain ⟨N, hbreaks⟩ := ih (sizeOf rest) (by rw [Block.defer.sizeOf_spec]; omega) rest rfl
        (fun horderly => h (.defer horderly))
      refine ⟨N + 1, ?_⟩
      intro n hn d
      obtain ⟨n, rfl, hle⟩ := exists_fuel_pred hn
      exact hbreaks n hle (d.defer blk)
    | withDefer blk rest =>
      have hblk : sizeOf blk < sizeOf (Block.withDefer blk rest) := by
        rw [Block.withDefer.sizeOf_spec]
        omega
      have hrest : sizeOf rest < sizeOf (Block.withDefer blk rest) := by
        rw [Block.withDefer.sizeOf_spec]
        omega
      by_cases hinner : Orderly blk ∧ Guarded blk ∧ ∀ c ∈ deferred blk, Orderly c
      · -- the run is left as it should be, so what breaks the law is behind it
        obtain ⟨hb, hg, hcs⟩ := hinner
        obtain ⟨Nr, rs, -, hrun⟩ :=
          run_orderly (exec_orderly hb) hg (fun c hc => exec_orderly (hcs c hc))
        cases hr : runRaises blk with
        | true => exact absurd (.withDefer hb hg hcs (fun hfalse => nomatch hr.symm.trans hfalse)) h
        | false =>
          obtain ⟨N, hbreaks⟩ := ih (sizeOf rest) hrest rest rfl
            (fun horderly => h (.withDefer hb hg hcs fun _ => horderly))
          refine ⟨max Nr N + 1, ?_⟩
          intro n hn d
          obtain ⟨n, rfl, hle⟩ := exists_fuel_pred hn
          rw [exec, hrun n (by omega), hr, if_neg Bool.false_ne_true]
          exact (hbreaks n (by omega) d).append_right rs
      · obtain ⟨N, hbroken⟩ := run_breaks (ih (sizeOf blk) hblk blk rfl)
          (fun c hc => ih (sizeOf c) (Nat.lt_trans (sizeOf_deferred hc) hblk) c rfl) hinner
        refine ⟨N + 1, ?_⟩
        intro n hn d
        obtain ⟨n, rfl, hle⟩ := exists_fuel_pred hn
        rw [exec]
        dsimp only
        split
        · exact (hbroken n hle).append_left _
        · exact hbroken n hle

/-- All runs of `with_defer` and `Defer.run` that the statements come to call each deferred block once,
last first, before control leaves them, exactly when each of these runs is guarded. Then the evaluation
of the statements ends, and control has left every run it came to. -/
theorem deferred_once_iff (program : Block) :
    ((∃ N, ∀ n, N ≤ n → ∀ r ∈ (exec n program {}).reports, r.Ok) ↔ Orderly program) ∧
    (Orderly program → ∃ N, ∀ n, N ≤ n → (exec n program {}).outcome ≠ .outOfFuel ∧
      ∀ r ∈ (exec n program {}).reports, r.left = true) := by
  constructor
  · constructor
    · rintro ⟨N, hok⟩
      by_contra h
      obtain ⟨N', hbreaks⟩ := exec_breaks (sizeOf program) program rfl h
      -- from here on both the law and its breach would hold
      obtain ⟨r, hr, hbad⟩ := hbreaks (max N N') (Nat.le_max_right N N') {}
      exact hbad (hok (max N N') (Nat.le_max_left N N') r hr)
    · intro h
      obtain ⟨N, rs, hgood, hexec⟩ := exec_orderly h
      refine ⟨N, ?_⟩
      intro n hn r hr
      rw [hexec n hn] at hr
      exact (hgood r hr).ok
  · intro h
    obtain ⟨N, rs, hgood, hexec⟩ := exec_orderly h
    refine ⟨N, ?_⟩
    intro n hn
    rw [hexec n hn]
    constructor
    · cases raises program with
      | true => exact fun h => nomatch h
      | false => exact fun h => nomatch h
    · intro r hr
      exact (hgood r hr).left

/-- `with_defer { defer { plain }; raise }`: the exception goes past the deferred block. -/
theorem exception_skips_deferred :
    ¬ ∃ N, ∀ n, N ≤ n → ∀ r ∈ (exec n
      (.withDefer (.defer (.plain .done) (.raise .done)) .done) {}).reports, r.Ok := by
  rintro ⟨N, hok⟩
  have hr := hok (N + 3) (Nat.le_add_right N 3) ⟨[.push 0], true⟩ (List.mem_singleton_self _)
  exact nomatch hr.all rfl

end ExamplePrograms.Ruby
