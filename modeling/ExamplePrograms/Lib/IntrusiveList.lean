import Mathlib.Data.List.Nodup

/-!
# Lists with pointers to pointers

A node keeps `next`, the node behind it, and `prev`, the place that holds the pointer to it: the head of
the list or the `next` field of the node before. `Threaded links place p path` says that from the pointer
`p`, which is kept at `place`, the nodes `path` are linked in this order, both ways.
-/

set_option autoImplicit false

namespace ExamplePrograms.Lib.IntrusiveList

universe u

/-- The places that hold a pointer to a node. -/
inductive Place (α : Type u) where
  | head
  | next (a : α)
  deriving DecidableEq, Repr

/-- The two links of an element: the place that points to it, and the next element. -/
structure Links (α : Type u) where
  prev : Place α
  next : Option α
  deriving DecidableEq, Repr

variable {α : Type u} {links links' : α → Option (Links α)} {place : Place α} {p : Option α} {a : α}
  {path : List α}

/-- The path from a place on, where every element points back to the place before it. -/
def Threaded (links : α → Option (Links α)) : Place α → Option α → List α → Prop
  | _, p, [] => p = none
  | place, p, a :: path =>
      p = some a ∧ ∃ l, links a = some l ∧ l.prev = place ∧ Threaded links (.next a) l.next path

/-- The nodes from `p` on, at most `n` of them. -/
def walk (links : α → Option (Links α)) : Nat → Option α → List α
  | 0, _ => []
  | _ + 1, none => []
  | n + 1, some a => a :: ((links a).elim [] fun l => walk links n l.next)

/-- Walking along the links gives the path. -/
theorem Threaded.walk_eq (h : Threaded links place p path) : walk links path.length p = path := by
  induction path generalizing place p with
  | nil => rfl
  | cons a path ih =>
    obtain ⟨rfl, l, hl, -, hrest⟩ := h
    rw [List.length_cons, walk, hl, Option.elim_some, ih hrest]

/-- The links of the nodes on the path are all that counts. -/
theorem Threaded.frame (h : Threaded links place p path) (hl : ∀ a ∈ path, links' a = links a) :
    Threaded links' place p path := by
  induction path generalizing place p with
  | nil => exact h
  | cons a path ih =>
    obtain ⟨hp, l, hla, hprev, hrest⟩ := h
    exact ⟨hp, l, (hl a List.mem_cons_self).trans hla, hprev,
      ih hrest fun b hb => hl b (List.mem_cons_of_mem _ hb)⟩

/-- A new node is put before the others. -/
theorem Threaded.push (h : Threaded links .head p path) (hnodup : path.Nodup)
    (hnew : links' a = some ⟨.head, p⟩)
    (hfirst : ∀ b ∈ p, links' b = (links b).map fun l => { l with prev := .next a })
    (hrest : ∀ b ∈ path, b ∉ p → links' b = links b) :
    Threaded links' .head (some a) (a :: path) := by
  refine ⟨rfl, _, hnew, rfl, ?_⟩
  cases path with
  | nil => exact h
  | cons b path =>
    obtain ⟨rfl, l, hl, -, hthread⟩ := h
    have hb := hfirst b rfl
    rw [hl] at hb
    refine ⟨rfl, _, hb, rfl, hthread.frame fun c hc => hrest c (List.mem_cons_of_mem _ hc) ?_⟩
    intro hcb
    cases hcb
    exact (List.nodup_cons.1 hnodup).1 hc

end ExamplePrograms.Lib.IntrusiveList
