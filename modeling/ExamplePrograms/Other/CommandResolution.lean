import ExamplePrograms.Other.CommandTree

/-!
# How words resolve to a command

What `find` does is a matter of the paths that were added, and not of the tree: `Known` are the beginnings
of these paths, and `Resolves` says how words go down them. A word goes to the entry of its name; where
there is none, an entry `!R` takes all the words that are left, an entry `!S` takes the word, and otherwise
the word goes to the least of the entries that it abbreviates.
-/

set_option autoImplicit false

namespace ExamplePrograms.Other.CommandTree

open Lib
open scoped SortedMap

universe u

section

variable {F : Type u}

/-- The node of a path. -/
def Cmd.node : Cmd F → List Str → Option (Cmd F)
  | c, [] => some c
  | c, s :: p => (SortedMap.find s c.subCmds).bind fun sub => sub.node p

/-- The path is the beginning of one that was added. -/
def Known (calls : List (AddCall F)) (p : List Str) : Prop := p = [] ∨ ∃ call ∈ calls, p <+: call.args

/-! ## Resolution -/

/-- Behind the path `p` the word `s` goes to the entry `k`, and leaves `captured` as an argument. -/
inductive Picks (known : List Str → Prop) (p : List Str) (s : Str) : Str → List Str → Prop
  | word (hs : known (p ++ [s])) : Picks known p s s []
  | single (hs : ¬ known (p ++ [s])) (hr : ¬ known (p ++ [restOfLine]))
      (h : known (p ++ [singleWord])) : Picks known p s singleWord [s]
  | abbreviation {k : Str} (hs : ¬ known (p ++ [s])) (hr : ¬ known (p ++ [restOfLine]))
      (hw : ¬ known (p ++ [singleWord])) (h : known (p ++ [k])) (hk : s <+: k)
      (hleast : ∀ k', known (p ++ [k']) → s <+: k' → k ≤ k') : Picks known p s k []

/-- The words resolve behind a path to a path, and leave arguments. -/
inductive Resolves (known : List Str → Prop) : List Str → List Str → List Str → List Str → Prop
  | rest {p : List Str} {s : Str} {words : List Str} (hs : ¬ known (p ++ [s]))
      (h : known (p ++ [restOfLine])) :
      Resolves known p (s :: words) [joined (s :: words)] (p ++ [restOfLine])
  | last {p : List Str} {s k : Str} {captured : List Str} (h : Picks known p s k captured) :
      Resolves known p [s] captured (p ++ [k])
  | step {p : List Str} {s k : Str} {captured words args q : List Str}
      (h : Picks known p s k captured) (hrest : Resolves known (p ++ [k]) words args q) :
      Resolves known p (s :: words) (captured ++ args) q

section Picks

variable {known : List Str → Prop} {p : List Str} {s : Str}

/-- A word picks one entry. -/
theorem Picks.unique {k k' : Str} {captured captured' : List Str} (h : Picks known p s k captured)
    (h' : Picks known p s k' captured') : k = k' ∧ captured = captured' := by
  cases h with
  | word hs =>
    cases h' with
    | word _ => exact ⟨rfl, rfl⟩
    | single hs' _ _ => exact absurd hs hs'
    | abbreviation hs' _ _ _ _ _ => exact absurd hs hs'
  | single hs hr h =>
    cases h' with
    | word hs' => exact absurd hs' hs
    | single _ _ _ => exact ⟨rfl, rfl⟩
    | abbreviation _ _ hw' _ _ _ => exact absurd h hw'
  | abbreviation hs hr hw h hk hleast =>
    cases h' with
    | word hs' => exact absurd hs' hs
    | single _ _ h' => exact absurd h' hw
    | abbreviation _ _ _ h' hk' hleast' => exact ⟨le_antisymm (hleast _ h' hk') (hleast' _ h hk), rfl⟩

/-- A word that goes to an entry does not go to `!R`. -/
theorem Picks.not_rest {k : Str} {captured : List Str} (h : Picks known p s k captured) :
    known (p ++ [s]) ∨ ¬ known (p ++ [restOfLine]) := by
  cases h with
  | word hs => exact Or.inl hs
  | single _ hr _ => exact Or.inr hr
  | abbreviation _ hr _ _ _ _ => exact Or.inr hr

/-- A word picks an entry that is there. -/
theorem Picks.known_entry {k : Str} {captured : List Str} (h : Picks known p s k captured) :
    known (p ++ [k]) := by
  cases h with
  | word hs => exact hs
  | single _ _ h => exact h
  | abbreviation _ _ _ h _ _ => exact h

end Picks

/-! ## Abbreviations -/

/-- The order of two words, read off their first bytes. -/
theorem cons_le_cons {a b : UInt8} {s t : Str} :
    (a :: s : Str) ≤ b :: t ↔ a < b ∨ a = b ∧ s ≤ t := by
  rw [← not_lt, List.cons_lt_cons_iff, not_or, not_and, not_lt]
  constructor
  · rintro ⟨hab, hst⟩
    rcases lt_or_eq_of_le hab with hlt | rfl
    · exact Or.inl hlt
    · exact Or.inr ⟨rfl, not_lt.1 (hst rfl)⟩
  · rintro (hlt | ⟨rfl, hst⟩)
    · exact ⟨le_of_lt hlt, fun hba => absurd (hba ▸ hlt) (lt_irrefl a)⟩
    · exact ⟨le_refl a, fun _ => not_lt.2 hst⟩

/-- A prefix is not above its word. -/
theorem prefix_le {s k : Str} (h : s <+: k) : s ≤ k := by
  induction s generalizing k with
  | nil => exact not_lt.1 (List.not_lt_nil k)
  | cons a s ih =>
    obtain ⟨t, rfl⟩ := h
    exact cons_le_cons.2 (Or.inr ⟨rfl, ih (List.prefix_append s t)⟩)

/-- The strings with a prefix stand together. -/
theorem prefix_of_between {s x k : Str} (hk : s <+: k) (hsx : s ≤ x) (hxk : x ≤ k) : s <+: x := by
  induction s generalizing x k with
  | nil => exact List.nil_prefix
  | cons a s ih =>
    obtain ⟨t, rfl⟩ := hk
    cases x with
    | nil => exact absurd (List.nil_lt_cons a s) (not_lt.2 hsx)
    | cons b x =>
      rcases cons_le_cons.1 hsx with hab | ⟨rfl, hsx'⟩
      · rcases cons_le_cons.1 hxk with hba | ⟨rfl, -⟩
        · exact absurd (lt_trans hab hba) (lt_irrefl a)
        · exact absurd hab (lt_irrefl b)
      · rcases cons_le_cons.1 hxk with hba | ⟨-, hxk'⟩
        · exact absurd hba (lt_irrefl a)
        · obtain ⟨r, rfl⟩ := ih (List.prefix_append s t) hsx' hxk'
          exact ⟨r, rfl⟩

/-- Without an entry for the word, the bounds above and below it are the same. -/
theorem upperBound_eq {l : List (Str × Cmd F)} {s : Str} (h : ∀ e ∈ l, e.1 ≠ s) :
    (l.dropWhile fun e => e.1 ≤ s) = SortedMap.atLeast s l := by
  induction l with
  | nil => rfl
  | cons e l ih =>
    obtain ⟨he, hl⟩ := List.forall_mem_cons.1 h
    rcases lt_or_ge e.1 s with hlt | hge
    · calc (e :: l).dropWhile (fun e => e.1 ≤ s)
          = l.dropWhile fun e => e.1 ≤ s := List.dropWhile_cons_of_pos (decide_eq_true (le_of_lt hlt))
        _ = SortedMap.atLeast s l := ih hl
        _ = SortedMap.atLeast s (e :: l) := (SortedMap.atLeast_cons_of_lt hlt l).symm
    · have hle : ¬ e.1 ≤ s := fun hle => he (le_antisymm hle hge)
      calc (e :: l).dropWhile (fun e => e.1 ≤ s)
          = e :: l := List.dropWhile_cons_of_neg fun hdec => hle (of_decide_eq_true hdec)
        _ = SortedMap.atLeast s (e :: l) := (SortedMap.atLeast_cons_of_le hge l).symm

/-- `abbreviated` takes the least entry that the word is a beginning of. -/
theorem Cmd.abbreviated_eq_some_iff {c : Cmd F} (h : c.Ordered) {s : Str}
    (hs : SortedMap.find s c.subCmds = none) {it : Cmd F} :
    c.abbreviated s = some it ↔ ∃ k, SortedMap.find k c.subCmds = some it ∧ s <+: k ∧
      ∀ k', (SortedMap.find k' c.subCmds).isSome → s <+: k' → k ≤ k' := by
  have hmem := fun e => SortedMap.mem_atLeast h.sorted (k := s) (e := e)
  have hfind := fun k it => SortedMap.find_eq_some_iff h.sorted (k := k) (a := it)
  have hbounds := upperBound_eq (l := c.subCmds) (s := s) fun e he hkey => by
    rw [← hkey, (hfind e.1 e.2).2 he] at hs
    cases hs
  rw [abbreviated, hbounds]
  have hsorted := h.sorted.atLeast s
  cases hlow : SortedMap.atLeast s c.subCmds with
  | nil =>
    refine iff_of_false (fun heq => nomatch heq) ?_
    rintro ⟨k, hk, hpre, -⟩
    have hin : (k, it) ∈ SortedMap.atLeast s c.subCmds :=
      (hmem _).2 ⟨prefix_le hpre, (hfind k it).1 hk⟩
    rw [hlow] at hin
    exact List.not_mem_nil hin
  | cons e low =>
    obtain ⟨key, sub⟩ := e
    have hkey : s ≤ key ∧ (key, sub) ∈ c.subCmds := (hmem _).1 (by rw [hlow]; exact List.mem_cons_self)
    have hleast : ∀ k', (SortedMap.find k' c.subCmds).isSome → s ≤ k' → key ≤ k' := by
      intro k' hk' hle
      obtain ⟨it', hit'⟩ := Option.isSome_iff_exists.1 hk'
      have hin : (k', it') ∈ SortedMap.atLeast s c.subCmds := (hmem _).2 ⟨hle, (hfind k' it').1 hit'⟩
      rw [hlow] at hin hsorted
      rcases List.mem_cons.1 hin with heq | hin
      · rw [(Prod.mk.inj heq).1]
      · exact le_of_lt ((List.pairwise_cons.1 hsorted).1 _ hin)
    constructor
    · intro heq
      dsimp only at heq
      split at heq
      · next hboth =>
        cases heq
        exact ⟨key, (hfind _ _).2 hkey.2, List.prefix_iff_eq_take.2 hboth.2.symm, fun k' hk' hpre =>
          hleast k' hk' (prefix_le hpre)⟩
      · cases heq
    · rintro ⟨k, hk, hpre, hmin⟩
      have hkeyPre : s <+: key := prefix_of_between hpre hkey.1 (hleast k (by rw [hk]; rfl) (prefix_le hpre))
      have hkeyFind := (hfind key sub).2 hkey.2
      obtain rfl : k = key :=
        le_antisymm (hmin key (by rw [hkeyFind]; rfl) hkeyPre) (hleast k (by rw [hk]; rfl) (prefix_le hpre))
      cases hk.symm.trans hkeyFind
      dsimp only
      rw [if_pos ⟨rfl, (List.prefix_iff_eq_take.1 hpre).symm⟩]

/-! ## The nodes of a tree -/

/-- The entry behind a node. -/
theorem Cmd.node_concat {c d : Cmd F} {p : List Str} (h : c.node p = some d) (s : Str) :
    c.node (p ++ [s]) = SortedMap.find s d.subCmds := by
  induction p generalizing c with
  | nil =>
    cases h
    rw [List.nil_append, node]
    cases SortedMap.find s d.subCmds <;> rfl
  | cons s' p ih =>
    obtain ⟨sub, hsub, hd⟩ := Option.bind_eq_some_iff.1 h
    rw [List.cons_append, node, hsub, Option.bind_some, ih hd]

/-- Every node of an ordered tree is ordered. -/
theorem Cmd.Ordered.node {c d : Cmd F} (h : c.Ordered) {p : List Str} (hd : c.node p = some d) :
    d.Ordered := by
  induction p generalizing c with
  | nil =>
    cases hd
    exact h
  | cons s p ih =>
    obtain ⟨sub, hsub, hd⟩ := Option.bind_eq_some_iff.1 hd
    exact ih (h.of_mem (s, sub) ((SortedMap.find_eq_some_iff h.sorted).1 hsub)) hd

/-- What a path means is what its node has. -/
theorem Cmd.meaning_of_node {c d : Cmd F} {p : List Str} (h : c.node p = some d) :
    c.meaning p = (d.f, d.desc) := by
  induction p generalizing c with
  | nil =>
    cases h
    rfl
  | cons s p ih =>
    obtain ⟨sub, hsub, hd⟩ := Option.bind_eq_some_iff.1 h
    rw [meaning, Cmd.sub, hsub, Option.getD_some, ih hd]

/-- The nodes below an entry that was replaced. -/
theorem Cmd.node_setSub_self {c : Cmd F} (h : c.Ordered) (s : Str) (sub : Cmd F) (p : List Str) :
    (c.setSub s sub).node (s :: p) = sub.node p := by
  rw [node, setSub, subCmds, SortedMap.find_upsert_self h.sorted, Option.bind_some]

/-- Replacing an entry leaves the nodes below the others alone. -/
theorem Cmd.node_setSub_of_ne (c : Cmd F) {s s' : Str} (hne : s' ≠ s) (sub : Cmd F) (p : List Str) :
    (c.setSub s sub).node (s' :: p) = c.node (s' :: p) := by
  rw [node, setSub, subCmds, SortedMap.find_upsert_of_ne _ hne, ← node]

/-- Below a word there is what was there, and nothing when the word is new. -/
theorem Cmd.node_sub (c : Cmd F) (s : Str) {p : List Str} (hp : p ≠ []) :
    (c.sub s).node p = c.node (s :: p) := by
  rw [node, Cmd.sub]
  cases SortedMap.find s c.subCmds with
  | none =>
    obtain ⟨s', p, rfl⟩ := List.exists_cons_of_ne_nil hp
    rfl
  | some sub => rfl

/-- `add` makes the nodes on its path, and no others. -/
theorem Cmd.node_add {f : Option F} {desc : Str} {p : List Str} {c c' : Cmd F} (h : c.Ordered)
    (hadd : c.add p f desc = some c') (q : List Str) :
    (c'.node q).isSome ↔ (c.node q).isSome ∨ q <+: p := by
  induction p generalizing c c' q with
  | nil => cases hadd
  | cons s args ih =>
    cases q with
    | nil => exact iff_of_true rfl (Or.inl rfl)
    | cons s' q =>
      -- the tree is the old one with another one below `s`
      obtain ⟨sub, hc', hsub⟩ : ∃ sub, c' = c.setSub s sub ∧
          ∀ q, (sub.node q).isSome ↔ (c.node (s :: q)).isSome ∨ q <+: args := by
        cases args with
        | nil =>
          cases hadd
          refine ⟨_, rfl, fun q => ?_⟩
          cases q with
          | nil => exact iff_of_true rfl (Or.inr List.nil_prefix)
          | cons t q =>
            rw [← node_sub c s (List.cons_ne_nil t q), or_iff_left fun hpre => absurd (List.prefix_nil.1 hpre)
              (List.cons_ne_nil t q)]
            rfl
        | cons arg args =>
          obtain ⟨sub, hsub, rfl⟩ := Option.map_eq_some_iff.1 hadd
          refine ⟨sub, rfl, fun q => ?_⟩
          rw [ih (h.sub s) hsub q]
          cases q with
          | nil => exact iff_of_true (Or.inl rfl) (Or.inr List.nil_prefix)
          | cons t q => rw [node_sub c s (List.cons_ne_nil t q)]
      subst hc'
      by_cases hs : s' = s
      · subst hs
        rw [node_setSub_self h, hsub q, List.cons_prefix_cons, and_iff_right rfl]
      · rw [node_setSub_of_ne c hs, List.cons_prefix_cons, or_iff_left fun hpre => hs hpre.1]

/-- The tree of a sequence of `add` calls: its nodes are the paths that are known, and they have what the
last call for their path gave them. -/
theorem added_nodes (calls : List (AddCall F)) :
    ∃ c, added calls = some c ∧ c.Ordered ∧ (∀ p, (c.node p).isSome ↔ Known calls p) ∧
      ∀ p, c.meaning p =
        ((lastAdd calls p).map AddCall.f, ((lastAdd calls p).map AddCall.desc).getD []) := by
  induction calls using List.reverseRecOn with
  | nil =>
    refine ⟨Cmd.empty, rfl, Cmd.Ordered.empty, fun p => ?_, fun p => Cmd.meaning_empty p⟩
    cases p with
    | nil => exact iff_of_true rfl (Or.inl rfl)
    | cons s p =>
      refine iff_of_false (fun hsome => nomatch hsome) ?_
      rintro (hnil | ⟨call, hcall, -⟩)
      · exact List.cons_ne_nil s p hnil
      · exact List.not_mem_nil hcall
  | append_singleton calls call ih =>
    obtain ⟨c, hadded, hordered, hnodes, hmeaning⟩ := ih
    obtain ⟨c', hadd, hordered', hupdate⟩ :=
      Cmd.add_spec (some call.f) call.desc call.args_ne_nil hordered
    refine ⟨c', ?_, hordered', fun p => ?_, fun p => ?_⟩
    · rw [added, List.foldlM_append, ← added, hadded, Option.bind_eq_bind, Option.bind_some,
        List.foldlM_cons, hadd]
      rfl
    · rw [Cmd.node_add hordered hadd, hnodes, Known, Known, or_assoc]
      refine or_congr_right ⟨?_, ?_⟩
      · rintro (⟨call', hcall', hpre⟩ | hpre)
        · exact ⟨call', List.mem_append_left _ hcall', hpre⟩
        · exact ⟨call, List.mem_append_right _ List.mem_cons_self, hpre⟩
      · rintro ⟨call', hcall', hpre⟩
        rcases List.mem_append.1 hcall' with hcall' | hcall'
        · exact Or.inl ⟨call', hcall', hpre⟩
        · rw [List.mem_singleton.1 hcall'] at hpre
          exact Or.inr hpre
    · rw [hupdate, lastAdd_concat]
      by_cases hp : call.args = p
      · rw [← hp, Function.update_self, if_pos rfl]
        rfl
      · rw [Function.update_of_ne (Ne.symm hp), if_neg hp, hmeaning]

/-! ## One word -/

/-- What `select` does at the node of a path. -/
theorem Cmd.select_cases {root c : Cmd F} {known : List Str → Prop}
    (hnodes : ∀ p, (root.node p).isSome ↔ known p) {p : List Str} (hc : root.node p = some c)
    (hordered : c.Ordered) (argret : List Str) (s : Str) (rest : List Str) :
    (c.select argret s rest = none ∧ (known (p ++ [s]) ∨ ¬ known (p ++ [restOfLine])) ∧
        ∀ k captured, ¬ Picks known p s k captured) ∨
      (∃ it, c.select argret s rest =
          some ⟨it, argret ++ [joined (s :: rest)], [joined (s :: rest)]⟩ ∧
        root.node (p ++ [restOfLine]) = some it ∧ ¬ known (p ++ [s]) ∧ known (p ++ [restOfLine])) ∨
      ∃ it k captured, c.select argret s rest = some ⟨it, argret ++ captured, s :: rest⟩ ∧
        root.node (p ++ [k]) = some it ∧ Picks known p s k captured := by
  have hknown : ∀ k, known (p ++ [k]) ↔ (SortedMap.find k c.subCmds).isSome := fun k => by
    rw [← hnodes, node_concat hc]
  have hunknown : ∀ k, SortedMap.find k c.subCmds = none → ¬ known (p ++ [k]) := fun k hk => by
    rw [hknown, hk]
    exact Bool.false_ne_true
  rw [select]
  cases hs : SortedMap.find s c.subCmds with
  | some it =>
    refine Or.inr (Or.inr ⟨it, s, [], ?_, (node_concat hc s).trans hs, .word ((hknown s).2 ?_)⟩)
    · rw [List.append_nil]
    · rw [hs]
      rfl
  | none =>
    cases hr : SortedMap.find restOfLine c.subCmds with
    | some it =>
      refine Or.inr (Or.inl ⟨it, rfl, (node_concat hc _).trans hr, hunknown s hs, (hknown _).2 ?_⟩)
      rw [hr]
      rfl
    | none =>
      cases hw : SortedMap.find singleWord c.subCmds with
      | some it =>
        refine Or.inr (Or.inr ⟨it, singleWord, [s], rfl, (node_concat hc _).trans hw,
          .single (hunknown s hs) (hunknown _ hr) ((hknown _).2 ?_)⟩)
        rw [hw]
        rfl
      | none =>
        cases habbr : c.abbreviated s with
        | some it =>
          obtain ⟨k, hk, hpre, hleast⟩ := (abbreviated_eq_some_iff hordered hs).1 habbr
          refine Or.inr (Or.inr ⟨it, k, [], ?_, (node_concat hc k).trans hk,
            .abbreviation (hunknown s hs) (hunknown _ hr) (hunknown _ hw) ((hknown k).2 ?_) hpre
              fun k' hk' hpre' => hleast k' ((hknown k').1 hk') hpre'⟩)
          · rw [List.append_nil]
            rfl
          · rw [hk]
            rfl
        | none =>
          refine Or.inl ⟨rfl, Or.inr (hunknown _ hr), fun k captured hpick => ?_⟩
          cases hpick with
          | word h => exact hunknown s hs h
          | single _ _ h => exact hunknown _ hw h
          | abbreviation _ _ _ h hpre hleast =>
            obtain ⟨it, hit⟩ := Option.isSome_iff_exists.1 ((hknown k).1 h)
            have hsome := (abbreviated_eq_some_iff hordered hs).2
              ⟨k, hit, hpre, fun k' hk' => hleast k' ((hknown k').2 hk')⟩
            rw [habbr] at hsome
            cases hsome

/-! ## All words -/

/-- The ways in which words resolve, one word further. -/
theorem resolves_cons {known : List Str → Prop} {p : List Str} {s : Str} {words args q : List Str}
    (h : Resolves known p (s :: words) args q) :
    (¬ known (p ++ [s]) ∧ known (p ++ [restOfLine]) ∧ args = [joined (s :: words)] ∧
        q = p ++ [restOfLine]) ∨
      ∃ k captured, Picks known p s k captured ∧
        ((words = [] ∧ args = captured ∧ q = p ++ [k]) ∨
          ∃ args', Resolves known (p ++ [k]) words args' q ∧ args = captured ++ args') := by
  cases h with
  | rest hs h => exact Or.inl ⟨hs, h, rfl, rfl⟩
  | last h => exact Or.inr ⟨_, _, h, Or.inl ⟨rfl, rfl, rfl⟩⟩
  | step h hrest => exact Or.inr ⟨_, _, h, Or.inr ⟨_, hrest, rfl⟩⟩

/-- The path to which words resolve is known. -/
theorem Resolves.known_target {known : List Str → Prop} {p words args q : List Str}
    (h : Resolves known p words args q) : known q := by
  induction h with
  | rest hs h => exact h
  | last h => exact h.known_entry
  | step h hrest ih => exact ih

/-- No words resolve to nothing. -/
theorem not_resolves_nil {known : List Str → Prop} {p args q : List Str} :
    ¬ Resolves known p [] args q := by
  intro h
  cases h

/-- What `find` says of words behind a path of the tree `root`: the node that they resolve to, where it is a
command, or that there is none. -/
def Answers (root : Cmd F) (known : List Str → Prop) (p : List Str) (ret : Cmd F)
    (argret words : List Str) (incomp : Bool) (r : Found F) : Prop :=
  (∃ args q, Resolves known p words args q ∧ root.node q = some r.ret ∧
      (incomp = true ∨ r.ret.f.isSome) ∧ r.found = true ∧ r.argret = argret ++ args) ∨
    ((∀ args q d, Resolves known p words args q → root.node q = some d → incomp = false ∧ d.f = none) ∧
      r.found = false ∧ r.ret = ret)

/-- A word that is the last one. -/
theorem answers_last {root it : Cmd F} {known : List Str → Prop} {p words args q : List Str}
    (ret : Cmd F) (argret cmds : List Str) (incomp : Bool) (hq : root.node q = some it)
    (hres : Resolves known p words args q) (hunique : ∀ args' q', Resolves known p words args' q' → q' = q) :
    Answers root known p ret argret words incomp
      (if it.f.isNone ∧ incomp = false then ⟨false, ret, argret ++ args, cmds⟩
        else ⟨true, it, argret ++ args, cmds⟩) := by
  split
  · next hnone =>
    refine Or.inr ⟨fun args' q' d hres' hd => ⟨hnone.2, ?_⟩, rfl, rfl⟩
    rw [hunique args' q' hres', hq] at hd
    cases hd
    exact Option.isNone_iff_eq_none.1 hnone.1
  · next hsome =>
    refine Or.inl ⟨args, q, hres, hq, ?_, rfl, rfl⟩
    cases hincomp : incomp with
    | true => exact Or.inl rfl
    | false =>
      refine Or.inr (Option.isSome_iff_ne_none.2 fun hnone => hsome ⟨?_, hincomp⟩)
      rw [hnone]
      rfl

/-- **What `find` answers**, from any node and with any words. -/
theorem Cmd.find_answers {root : Cmd F} {known : List Str → Prop} (hordered : root.Ordered)
    (hnodes : ∀ p, (root.node p).isSome ↔ known p) (ret : Cmd F) (incomp : Bool) :
    ∀ (words : List Str) {p : List Str} {c : Cmd F} (argret : List Str), words ≠ [] →
      root.node p = some c → ∃ r, c.find ret argret words incomp = some r ∧
        Answers root known p ret argret words incomp r := by
  intro words
  induction words with
  | nil => exact fun _ hne => absurd rfl hne
  | cons s rest ih =>
    intro p c argret _ hc
    rcases select_cases hnodes hc (hordered.node hc) argret s rest with
      ⟨hsel, hrest, hnone⟩ | ⟨it, hsel, hit, hs, hr⟩ | ⟨it, k, captured, hsel, hit, hpick⟩
    · -- no entry
      refine ⟨⟨false, ret, argret, s :: rest⟩, ?_, Or.inr ⟨fun args q d hres _ => ?_, rfl, rfl⟩⟩
      · rw [Cmd.find]
        split
        · rfl
        · next sel hsome =>
          rw [hsel] at hsome
          cases hsome
      · rcases resolves_cons hres with ⟨hs, hr, -, -⟩ | ⟨k, captured, hpick, -⟩
        · exact absurd hrest (not_or.2 ⟨hs, not_not.2 hr⟩)
        · exact absurd hpick (hnone k captured)
    · -- the rest of the line
      have hlast := answers_last ret argret [joined (s :: rest)] incomp hit
        (Resolves.rest hs hr : Resolves known p (s :: rest) _ _) fun args' q' hres => by
          rcases resolves_cons hres with ⟨-, -, -, hq⟩ | ⟨k, captured, hpick, -⟩
          · exact hq
          · exact absurd hpick.not_rest (not_or.2 ⟨hs, not_not.2 hr⟩)
      refine ⟨_, ?_, hlast⟩
      rw [find_cons hsel]
      simp only [List.length_singleton, ne_eq, not_true_eq_false, if_false]
      split <;> rfl
    · have hres : ∀ args' q', Resolves known p (s :: rest) args' q' →
          (rest = [] ∧ args' = captured ∧ q' = p ++ [k]) ∨
            ∃ args'', Resolves known (p ++ [k]) rest args'' q' ∧ args' = captured ++ args'' := by
        intro args' q' hres
        rcases resolves_cons hres with ⟨hs, hr, -, -⟩ | ⟨k', captured', hpick', hor⟩
        · exact absurd hpick.not_rest (not_or.2 ⟨hs, not_not.2 hr⟩)
        · obtain ⟨rfl, rfl⟩ := hpick.unique hpick'
          exact hor
      cases rest with
      | nil =>
        -- the last word
        have hlast := answers_last ret argret [s] incomp hit (.last hpick) fun args' q' hres' => by
            rcases hres args' q' hres' with ⟨-, -, hq⟩ | ⟨args'', hnil, -⟩
            · exact hq
            · exact absurd hnil not_resolves_nil
        refine ⟨_, ?_, hlast⟩
        rw [find_cons hsel]
        simp only [List.length_singleton, ne_eq, not_true_eq_false, if_false]
        split <;> rfl
      | cons s' rest =>
        obtain ⟨r, hr, hans⟩ := ih (argret ++ captured) (List.cons_ne_nil s' rest) hit
        refine ⟨r, ?_, ?_⟩
        · rw [find_cons hsel, if_pos (by simp)]
          exact hr
        · rcases hans with ⟨args, q, hresolves, hq, hcmd, hfound, hargs⟩ | ⟨hnone, hfound, hret⟩
          · exact Or.inl ⟨captured ++ args, q, .step hpick hresolves, hq, hcmd, hfound, by
              rw [hargs, List.append_assoc]⟩
          · refine Or.inr ⟨fun args' q' d hres' hd => ?_, hfound, hret⟩
            rcases hres args' q' hres' with ⟨hnil, -⟩ | ⟨args'', hres'', -⟩
            · cases hnil
            · exact hnone args'' q' d hres'' hd

/-- **`find` resolves words by the paths that were added.** After any sequence of `add` calls, words that
resolve to a path that was added, or to a beginning of one if these are asked for, give the callback and
the description of the last call for exactly this path, with the arguments that the words leave on the way;
otherwise nothing is found, and `ret` is left alone. -/
theorem find_resolves (calls : List (AddCall F)) :
    ∃ c, added calls = some c ∧ ∀ ret argret words incomp, words ≠ [] →
      ∃ r, c.find ret argret words incomp = some r ∧
        ((∃ args q, Resolves (Known calls) [] words args q ∧
            (incomp = true ∨ (lastAdd calls q).isSome) ∧ r.found = true ∧ r.argret = argret ++ args ∧
            r.ret.f = (lastAdd calls q).map AddCall.f ∧
            r.ret.desc = ((lastAdd calls q).map AddCall.desc).getD []) ∨
          ((∀ args q, Resolves (Known calls) [] words args q → incomp = false ∧ lastAdd calls q = none) ∧
            r.found = false ∧ r.ret = ret)) := by
  obtain ⟨c, hadded, hordered, hnodes, hmeaning⟩ := added_nodes calls
  refine ⟨c, hadded, fun ret argret words incomp hne => ?_⟩
  -- a node has what the last call gave it
  have hnode : ∀ {q : List Str} {d : Cmd F}, c.node q = some d →
      d.f = (lastAdd calls q).map AddCall.f ∧ d.desc = ((lastAdd calls q).map AddCall.desc).getD [] := by
    intro q d hd
    exact Prod.mk.inj ((Cmd.meaning_of_node hd).symm.trans (hmeaning q))
  obtain ⟨r, hr, hans⟩ := Cmd.find_answers hordered hnodes ret incomp words (p := []) argret hne rfl
  refine ⟨r, hr, ?_⟩
  rcases hans with ⟨args, q, hres, hq, hcmd, hfound, hargs⟩ | ⟨hnone, hfound, hret⟩
  · obtain ⟨hf, hdesc⟩ := hnode hq
    refine Or.inl ⟨args, q, hres, hcmd.imp id fun hsome => ?_, hfound, hargs, hf, hdesc⟩
    rwa [hf, Option.isSome_map] at hsome
  · refine Or.inr ⟨fun args q hres => ?_, hfound, hret⟩
    obtain ⟨d, hd⟩ := Option.isSome_iff_exists.1 ((hnodes q).2 hres.known_target)
    obtain ⟨hincomp, hf⟩ := hnone args q d hres hd
    rw [(hnode hd).1] at hf
    exact ⟨hincomp, Option.map_eq_none_iff.1 hf⟩

end

end ExamplePrograms.Other.CommandTree
