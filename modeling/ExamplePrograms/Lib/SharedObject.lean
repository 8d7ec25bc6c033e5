import Mathlib.Data.List.Induction
import Mathlib.Data.List.Nodup

/-!
# Calls of a shared object

Callers share one object. A call is made, takes effect in one step of the object and is answered, and
between these steps any other calls are made, take effect and are answered. The object and the results are
then those of a sequential run of the calls in the order of their effects (`linearized_run`), and in this
order a call that has been answered stands before every call that is made later (`precedes`).

`Sequential.refines` takes a sequential run to a more abstract object.
-/

set_option autoImplicit false

namespace ExamplePrograms.Lib.SharedObject

universe u v w x y z

variable {σ : Type u} {ι : Type v} {ε : Type w} {ρ : Type x}

/-- A call that was made, has taken effect, or was answered. -/
inductive Call (ι : Type v) (ρ : Type x) where
  | made (op : ι)
  | done (op : ι) (r : ρ)
  | answered (op : ι) (r : ρ)

/-- The result of a call that has taken effect. -/
def Call.result : Call ι ρ → Option (ι × ρ)
  | made _ => none
  | done op r => some (op, r)
  | answered op r => some (op, r)

/-- A call that takes effect, with what the environment decided then. -/
structure Effect (ι : Type v) (ε : Type w) (ρ : Type x) where
  call : Nat
  op : ι
  input : ε
  result : ρ

/-- The object, the calls made so far, and the effects in order. -/
structure State (σ : Type u) (ι : Type v) (ε : Type w) (ρ : Type x) where
  object : σ
  calls : List (Call ι ρ)
  /-- What has taken effect. No step reads it. -/
  log : List (Effect ι ε ρ)

/-- The result of a call, once it has one. -/
def State.result (c : State σ ι ε ρ) (i : Nat) : Option (ι × ρ) := c.calls[i]?.bind Call.result

/-- The call has been answered. -/
def State.Answered (c : State σ ι ε ρ) (i : Nat) : Prop := ∃ op r, c.calls[i]? = some (.answered op r)

/-- Making a call, its effect on the object, and its answer. -/
inductive Act (ι : Type v) (ε : Type w) where
  | make (op : ι)
  | effect (i : Nat) (x : ε)
  | answer (i : Nat)

/-- An object that was not called yet. -/
def start (s : σ) : State σ ι ε ρ := ⟨s, [], []⟩

section Steps

variable (apply : σ → ι → ε → σ × ρ)

/-- One act. A call takes effect once, and is answered behind its effect. -/
def next (c : State σ ι ε ρ) : Act ι ε → Option (State σ ι ε ρ)
  | .make op => some { c with calls := c.calls ++ [.made op] }
  | .effect i x =>
      match c.calls[i]? with
      | some (.made op) =>
          let (object, r) := apply c.object op x
          some ⟨object, c.calls.set i (.done op r), c.log ++ [⟨i, op, x, r⟩]⟩
      | _ => none
  | .answer i =>
      match c.calls[i]? with
      | some (.done op r) => some { c with calls := c.calls.set i (.answered op r) }
      | _ => none

/-- A list of acts, one after the other. -/
def run (c : State σ ι ε ρ) (acts : List (Act ι ε)) : Option (State σ ι ε ρ) := acts.foldlM (next apply) c

/-- The effects are those of the object alone, one after the other. -/
inductive Sequential : σ → List (Effect ι ε ρ) → σ → Prop
  | nil (s : σ) : Sequential s [] s
  | snoc {s s' : σ} {es : List (Effect ι ε ρ)} (e : Effect ι ε ρ) : Sequential s es s' →
      e.result = (apply s' e.op e.input).2 → Sequential s (es ++ [e]) (apply s' e.op e.input).1

/-- The log explains the object and every result, and has each call once. -/
structure Linearized (s : σ) (c : State σ ι ε ρ) : Prop where
  sequential : Sequential apply s c.log c.object
  results : ∀ i op r, c.result i = some (op, r) ↔
    ∃ e ∈ c.log, e.call = i ∧ e.op = op ∧ e.result = r
  once : (c.log.map Effect.call).Nodup

end Steps

variable {apply : σ → ι → ε → σ × ρ} {s : σ} {c c' : State σ ι ε ρ}

/-! ## What a step does -/

/-- What an act with an effect does. -/
theorem next_effect {i : Nat} {x : ε} (h : next apply c (.effect i x) = some c') :
    ∃ op, c.calls[i]? = some (.made op) ∧
      c' = ⟨(apply c.object op x).1, c.calls.set i (.done op (apply c.object op x).2),
        c.log ++ [⟨i, op, x, (apply c.object op x).2⟩]⟩ := by
  rw [next] at h
  split at h
  · next op hop =>
    cases h
    exact ⟨op, hop, rfl⟩
  · cases h

/-- What an answer does. -/
theorem next_answer {i : Nat} (h : next apply c (.answer i) = some c') :
    ∃ op r, c.calls[i]? = some (.done op r) ∧
      c' = { c with calls := c.calls.set i (.answered op r) } := by
  rw [next] at h
  split at h
  · next op r hop =>
    cases h
    exact ⟨op, r, hop, rfl⟩
  · cases h

theorem State.result_of_getElem? {i : Nat} {call : Call ι ρ} (h : c.calls[i]? = some call) :
    c.result i = call.result := by
  rw [State.result, h]
  rfl

theorem State.result_of_length_le {i : Nat} (h : c.calls.length ≤ i) : c.result i = none := by
  rw [State.result, List.getElem?_eq_none h]
  rfl

/-- A call whose place is overwritten has the result of the new entry, any other call keeps its own. -/
theorem result_set {calls : List (Call ι ρ)} {i : Nat} {old : Call ι ρ} (hi : calls[i]? = some old)
    (new : Call ι ρ) (j : Nat) :
    (calls.set i new)[j]?.bind Call.result = if i = j then new.result else calls[j]?.bind Call.result := by
  split
  · next hij =>
    subst hij
    rw [List.getElem?_set_self (List.getElem?_eq_some_iff.1 hi).1]
    rfl
  · next hij => rw [List.getElem?_set_ne hij]

/-- Every effect is that of a call, with its result. -/
theorem Linearized.result_of_mem (hc : Linearized apply s c) {e : Effect ι ε ρ} (he : e ∈ c.log) :
    c.result e.call = some (e.op, e.result) :=
  (hc.results e.call e.op e.result).2 ⟨e, he, rfl, rfl, rfl⟩

/-- Every effect is that of a call that was made. -/
theorem Linearized.call_lt (hc : Linearized apply s c) {e : Effect ι ε ρ} (he : e ∈ c.log) :
    e.call < c.calls.length := by
  by_contra hle
  have hresult := hc.result_of_mem he
  rw [State.result_of_length_le (Nat.not_lt.1 hle)] at hresult
  cases hresult

/-- **One act keeps the history sequential.** -/
theorem Linearized.next {a : Act ι ε} (hc : Linearized apply s c) (h : next apply c a = some c') :
    Linearized apply s c' := by
  cases a with
  | make op =>
    cases h
    refine ⟨hc.sequential, fun i op' r => ?_, hc.once⟩
    rw [← hc.results, State.result, State.result, List.getElem?_append]
    split
    · exact Iff.rfl
    · next hi =>
      -- the new call has no result yet
      rw [List.getElem?_eq_none (Nat.not_lt.1 hi)]
      cases i - c.calls.length <;> exact Iff.rfl
  | effect i x =>
    obtain ⟨op, hi, rfl⟩ := next_effect h
    have hnew : ∀ e ∈ c.log, e.call ≠ i := by
      intro e he hcall
      have hresult := hc.result_of_mem he
      rw [hcall, State.result_of_getElem? hi] at hresult
      cases hresult
    refine ⟨.snoc _ hc.sequential rfl, fun j op' r => ?_, ?_⟩
    · rw [State.result, result_set hi]
      split
      · next hij =>
        subst hij
        constructor
        · intro heq
          cases heq
          exact ⟨_, List.mem_concat_self, rfl, rfl, rfl⟩
        · rintro ⟨e, he, hcall, rfl, rfl⟩
          rcases List.mem_append.1 he with he | he
          · exact absurd hcall (hnew e he)
          · rw [List.mem_singleton.1 he]
            rfl
      · next hij =>
        rw [← State.result, hc.results]
        constructor
        · rintro ⟨e, he, hrest⟩
          exact ⟨e, List.mem_append_left _ he, hrest⟩
        · rintro ⟨e, he, hcall, hrest⟩
          rcases List.mem_append.1 he with he | he
          · exact ⟨e, he, hcall, hrest⟩
          · rw [List.mem_singleton.1 he] at hcall
            exact absurd hcall hij
    · rw [List.map_append, List.map_singleton]
      refine List.nodup_append_comm.1 (List.nodup_cons.2 ⟨fun hmem => ?_, hc.once⟩)
      obtain ⟨e, he, hcall⟩ := List.mem_map.1 hmem
      exact hnew e he hcall
  | answer i =>
    obtain ⟨op, r, hi, rfl⟩ := next_answer h
    refine ⟨hc.sequential, fun j op' r' => ?_, hc.once⟩
    rw [← hc.results, State.result, State.result, result_set hi]
    split
    · next hij =>
      subst hij
      rw [hi]
      exact Iff.rfl
    · exact Iff.rfl

/-- Effects are only added at the end. -/
theorem log_next {a : Act ι ε} (h : next apply c a = some c') : c.log <+: c'.log := by
  cases a with
  | make op =>
    cases h
    exact List.prefix_rfl
  | effect i x =>
    obtain ⟨op, -, rfl⟩ := next_effect h
    exact List.prefix_append _ _
  | answer i =>
    obtain ⟨op, r, -, rfl⟩ := next_answer h
    exact List.prefix_rfl

/-! ## Runs -/

variable {acts : List (Act ι ε)}

theorem run_cons {a : Act ι ε} (h : run apply c (a :: acts) = some c') :
    ∃ c₁, next apply c a = some c₁ ∧ run apply c₁ acts = some c' := by
  rw [run, List.foldlM_cons] at h
  exact Option.bind_eq_some_iff.1 h

theorem run_append {more : List (Act ι ε)} {c₁ : State σ ι ε ρ} (h : run apply c acts = some c₁)
    (hmore : run apply c₁ more = some c') : run apply c (acts ++ more) = some c' := by
  rw [run, List.foldlM_append, ← run, h]
  exact hmore

/-- **A run keeps the history sequential.** -/
theorem Linearized.run (hc : Linearized apply s c) (h : run apply c acts = some c') :
    Linearized apply s c' := by
  induction acts generalizing c with
  | nil =>
    cases h
    exact hc
  | cons a acts ih =>
    obtain ⟨c₁, hnext, hrest⟩ := run_cons h
    exact ih (hc.next hnext) hrest

/-- The history of an object that was not called yet. -/
theorem linearized_start : Linearized apply s (start s) where
  sequential := .nil s
  results i op r := by
    constructor
    · intro h
      cases h
    · rintro ⟨e, he, -⟩
      exact absurd he List.not_mem_nil
  once := List.nodup_nil

/-- **The log of a run is a sequential run with the same results.** -/
theorem linearized_run (h : run apply (start s) acts = some c) : Linearized apply s c :=
  linearized_start.run h

/-- A run only adds effects at the end. -/
theorem log_run (h : run apply c acts = some c') : c.log <+: c'.log := by
  induction acts generalizing c with
  | nil =>
    cases h
    exact List.prefix_rfl
  | cons a acts ih =>
    obtain ⟨c₁, hnext, hrest⟩ := run_cons h
    exact (log_next hnext).trans (ih hrest)

/-- **The log keeps the order of the calls in time.** The call `i` had its result when the call `j` was
not yet made. -/
theorem precedes (hc : Linearized apply s c) (h : run apply c acts = some c') {i j : Nat} {op : ι} {r : ρ}
    (hi : c.result i = some (op, r)) (hj : c.calls.length ≤ j)
    (hlog : j ∈ c'.log.map Effect.call) : [i, j].Sublist (c'.log.map Effect.call) := by
  obtain ⟨more, hmore⟩ := log_run h
  obtain ⟨e, he, hcall, -⟩ := (hc.results i op r).1 hi
  have hbefore : i ∈ c.log.map Effect.call := List.mem_map.2 ⟨e, he, hcall⟩
  have hafter : j ∉ c.log.map Effect.call := by
    intro hmem
    obtain ⟨e, he, rfl⟩ := List.mem_map.1 hmem
    exact Nat.not_lt.2 hj (hc.call_lt he)
  rw [← hmore, List.map_append] at hlog ⊢
  have hin : j ∈ more.map Effect.call := (List.mem_append.1 hlog).resolve_left hafter
  exact (List.singleton_sublist.2 hbefore).append (List.singleton_sublist.2 hin)

/-- The log at a call that had its result and at one that was made later. -/
theorem log_eq (hc : Linearized apply s c) (h : run apply c acts = some c') {i j : Nat} {op op' : ι}
    {r r' : ρ} (hi : c.result i = some (op, r)) (hj : c.calls.length ≤ j)
    (hj' : c'.result j = some (op', r')) :
    ∃ before between after x x',
      c'.log = before ++ ⟨i, op, x, r⟩ :: (between ++ ⟨j, op', x', r'⟩ :: after) := by
  obtain ⟨⟨i, op, x, r⟩, he, rfl, rfl, rfl⟩ := (hc.results _ _ _).1 hi
  obtain ⟨e', he', rfl, rfl, rfl⟩ := ((hc.run h).results _ _ _).1 hj'
  obtain ⟨more, hmore⟩ := log_run h
  rw [← hmore] at he' ⊢
  have hnew : e' ∈ more :=
    (List.mem_append.1 he').resolve_left fun hmem => Nat.not_lt.2 hj (hc.call_lt hmem)
  obtain ⟨before, between, hbefore⟩ := List.append_of_mem he
  obtain ⟨mid, after, hafter⟩ := List.append_of_mem hnew
  refine ⟨before, between ++ mid, after, x, e'.input, ?_⟩
  rw [hbefore, hafter]
  simp only [List.append_assoc, List.cons_append]

/-- An entry of the log has in front of it every call that had its result when the call of the entry was not yet
made. -/
theorem mem_before (hc : Linearized apply s c) (h : run apply c acts = some c') {i : Nat} {op : ι} {r : ρ}
    (hi : c.result i = some (op, r)) {e : Effect ι ε ρ} {before after : List (Effect ι ε ρ)}
    (hlog : c'.log = before ++ e :: after) (he : c.calls.length ≤ e.call) :
    i ∈ before.map Effect.call := by
  obtain ⟨e', he', hcall, -⟩ := (hc.results i op r).1 hi
  have hnew : e ∉ c.log := fun hmem => Nat.not_lt.2 he (hc.call_lt hmem)
  obtain ⟨more, hmore⟩ := log_run h
  rcases List.append_eq_append_iff.1 (hmore.trans hlog) with ⟨rest, rfl, -⟩ | ⟨rest, hbefore, hrest⟩
  · exact List.mem_map.2 ⟨e', List.mem_append_left rest he', hcall⟩
  · cases rest with
    | nil =>
      rw [List.append_nil] at hbefore
      exact List.mem_map.2 ⟨e', hbefore ▸ he', hcall⟩
    | cons e₁ rest =>
      obtain ⟨rfl, -⟩ := List.cons.inj hrest
      exact absurd (hbefore ▸ List.mem_append_right before List.mem_cons_self) hnew

/-! ## Sequential runs -/

/-- A sequential history, read from its end. -/
theorem sequential_concat {es : List (Effect ι ε ρ)} {e : Effect ι ε ρ} {s' : σ}
    (h : Sequential apply s (es ++ [e]) s') :
    ∃ s₁, Sequential apply s es s₁ ∧ e.result = (apply s₁ e.op e.input).2 ∧
      s' = (apply s₁ e.op e.input).1 := by
  generalize hes : es ++ [e] = all at h
  cases h with
  | nil => exact absurd hes (List.append_ne_nil_of_right_ne_nil es (List.cons_ne_nil e []))
  | snoc e' hseq hresult =>
    obtain ⟨rfl, htail⟩ := List.append_inj' hes rfl
    obtain rfl := List.singleton_inj.1 htail
    exact ⟨_, hseq, hresult, rfl⟩

/-- A sequential history, cut in two. -/
theorem Sequential.split {es fs : List (Effect ι ε ρ)} {s' : σ} (h : Sequential apply s (es ++ fs) s') :
    ∃ s₁, Sequential apply s es s₁ ∧ Sequential apply s₁ fs s' := by
  induction fs using List.reverseRecOn generalizing s' with
  | nil =>
    rw [List.append_nil] at h
    exact ⟨s', h, .nil s'⟩
  | append_singleton fs e ih =>
    rw [← List.append_assoc] at h
    obtain ⟨s₂, hseq, hresult, rfl⟩ := sequential_concat h
    obtain ⟨s₁, hes, hfs⟩ := ih hseq
    exact ⟨s₁, hes, .snoc e hfs hresult⟩

/-- A sequential run at one of its calls. -/
theorem Sequential.at {es fs : List (Effect ι ε ρ)} {e : Effect ι ε ρ} {s' : σ}
    (h : Sequential apply s (es ++ e :: fs) s') :
    ∃ s₁, Sequential apply s es s₁ ∧ e.result = (apply s₁ e.op e.input).2 ∧
      Sequential apply (apply s₁ e.op e.input).1 fs s' := by
  rw [← List.singleton_append, ← List.append_assoc] at h
  obtain ⟨s₂, hes, hfs⟩ := h.split
  obtain ⟨s₁, hseq, hresult, rfl⟩ := sequential_concat hes
  exact ⟨s₁, hseq, hresult, hfs⟩

/-! ## Refinement -/

variable {τ : Type y} {ρ' : Type z} {spec : τ → ι → ε → τ × ρ'}

/-- An effect with its result seen through `f`. -/
def Effect.mapResult (f : ρ → ρ') (e : Effect ι ε ρ) : Effect ι ε ρ' := ⟨e.call, e.op, e.input, f e.result⟩

/-- **Sequential runs of an object are those of every object it refines.** -/
theorem Sequential.refines {R : σ → τ → Prop} {f : ρ → ρ'}
    (hstep : ∀ s t op x, R s t →
      R (apply s op x).1 (spec t op x).1 ∧ f (apply s op x).2 = (spec t op x).2)
    {es : List (Effect ι ε ρ)} {s' : σ} {t : τ} (h : Sequential apply s es s') (hR : R s t) :
    ∃ t', Sequential spec t (es.map (Effect.mapResult f)) t' ∧ R s' t' := by
  induction h with
  | nil => exact ⟨t, .nil t, hR⟩
  | snoc e _ hresult ih =>
    obtain ⟨t', hseq, hR'⟩ := ih
    obtain ⟨hnext, hanswer⟩ := hstep _ _ e.op e.input hR'
    refine ⟨_, ?_, hnext⟩
    rw [List.map_append, List.map_singleton]
    refine .snoc (e.mapResult f) hseq ?_
    rw [Effect.mapResult, hresult, hanswer]

end ExamplePrograms.Lib.SharedObject
