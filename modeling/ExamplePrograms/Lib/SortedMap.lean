import Mathlib.Data.List.Lex
import Mathlib.Order.Lattice
import Mathlib.Tactic.Common

/-!
# Sorted maps

A map as the list of its entries in strict order of their keys. `find` looks a key up, `upsert` gives it
a value that may depend on the one it had, and `atLeast` is the part of the map from a key on. The
functions act on any list of entries, so that a type of trees can hold maps of its own elements.

Byte strings are ordered as `memcmp` does it, by the first byte in which they differ.
-/

set_option autoImplicit false

namespace ExamplePrograms.Lib.SortedMap

universe u v

variable {κ : Type u} {α : Type v} [LinearOrder κ]

/-- The entries are in strict order of their keys. -/
def Sorted (l : List (κ × α)) : Prop := l.Pairwise fun e e' => e.1 < e'.1

/-- The value of a key. -/
def find (k : κ) : List (κ × α) → Option α
  | [] => none
  | e :: l => if e.1 = k then some e.2 else find k l

/-- The value of `k` becomes `f` of the value it had. -/
def upsert (k : κ) (f : Option α → α) : List (κ × α) → List (κ × α)
  | [] => [(k, f none)]
  | e :: l =>
      if k < e.1 then (k, f none) :: e :: l
      else if e.1 = k then (k, f (some e.2)) :: l
      else e :: upsert k f l

/-- The entries whose key is not below `k`. -/
def atLeast (k : κ) (l : List (κ × α)) : List (κ × α) := l.dropWhile fun e => e.1 < k

theorem sorted_nil : Sorted ([] : List (κ × α)) := List.Pairwise.nil

/-- A key that no entry has is not found. -/
theorem find_eq_none {k : κ} {l : List (κ × α)} (h : ∀ e ∈ l, e.1 ≠ k) : find k l = none := by
  induction l with
  | nil => rfl
  | cons e l ih =>
    obtain ⟨he, hl⟩ := List.forall_mem_cons.1 h
    rw [find, if_neg he, ih hl]

/-- A sorted map holds one value for each key. -/
theorem find_eq_some_iff {l : List (κ × α)} (h : Sorted l) {k : κ} {a : α} :
    find k l = some a ↔ (k, a) ∈ l := by
  induction l with
  | nil => exact iff_of_false (fun heq => nomatch heq) List.not_mem_nil
  | cons e l ih =>
    obtain ⟨hlt, hl⟩ := List.pairwise_cons.1 h
    rw [find]
    split
    · next hk =>
      subst hk
      constructor
      · intro hfind
        cases hfind
        exact List.mem_cons_self
      · intro hmem
        rcases List.mem_cons.1 hmem with heq | hmem
        · rw [← heq]
        · exact absurd (hlt _ hmem) (lt_irrefl e.1)
    · next hk =>
      rw [ih hl, List.mem_cons]
      constructor
      · exact Or.inr
      · rintro (heq | hmem)
        · exact absurd (congrArg Prod.fst heq).symm hk
        · exact hmem

/-! ## Writing -/

/-- The entries of a map behind an update. -/
theorem mem_upsert {k : κ} {f : Option α → α} {l : List (κ × α)} {e : κ × α}
    (h : e ∈ upsert k f l) : (∃ a, e = (k, f a)) ∨ e ∈ l := by
  induction l with
  | nil => exact Or.inl ⟨none, List.mem_singleton.1 h⟩
  | cons e' l ih =>
    rw [upsert] at h
    split at h
    · rcases List.mem_cons.1 h with rfl | h
      · exact Or.inl ⟨none, rfl⟩
      · exact Or.inr h
    · split at h
      · rcases List.mem_cons.1 h with rfl | h
        · exact Or.inl ⟨some e'.2, rfl⟩
        · exact Or.inr (List.mem_cons_of_mem e' h)
      · rcases List.mem_cons.1 h with rfl | h
        · exact Or.inr List.mem_cons_self
        · exact (ih h).imp id (List.mem_cons_of_mem e')

/-- An update keeps the order. -/
theorem Sorted.upsert {l : List (κ × α)} (h : Sorted l) (k : κ) (f : Option α → α) :
    Sorted (upsert k f l) := by
  induction l with
  | nil => exact List.pairwise_singleton _ _
  | cons e l ih =>
    obtain ⟨hlt, hl⟩ := List.pairwise_cons.1 h
    rw [SortedMap.upsert]
    split
    · next hk =>
      -- the new entry is below the first one, and so below all
      refine List.Pairwise.cons ?_ h
      intro e' he'
      rcases List.mem_cons.1 he' with rfl | he'
      · exact hk
      · exact lt_trans hk (hlt e' he')
    · next hle =>
      split
      · next hk =>
        subst hk
        exact List.Pairwise.cons hlt hl
      · next hne =>
        refine List.Pairwise.cons ?_ (ih hl)
        intro e' he'
        rcases mem_upsert he' with ⟨a, rfl⟩ | he'
        · exact lt_of_le_of_ne (not_lt.1 hle) hne
        · exact hlt e' he'

/-- The value that was updated. -/
theorem find_upsert_self {l : List (κ × α)} (h : Sorted l) (k : κ) (f : Option α → α) :
    find k (upsert k f l) = some (f (find k l)) := by
  induction l with
  | nil => exact if_pos rfl
  | cons e l ih =>
    obtain ⟨hlt, hl⟩ := List.pairwise_cons.1 h
    rw [upsert]
    split
    · next hk =>
      have hnone : find k (e :: l) = none := by
        apply find_eq_none
        intro e' he'
        rcases List.mem_cons.1 he' with rfl | he'
        · exact ne_of_gt hk
        · exact ne_of_gt (lt_trans hk (hlt e' he'))
      rw [hnone]
      exact if_pos rfl
    · split
      · next hk =>
        rw [find, find, if_pos rfl, if_pos hk]
      · next hk =>
        rw [find, find, if_neg hk, if_neg hk, ih hl]

/-- An update leaves the other keys alone. -/
theorem find_upsert_of_ne (l : List (κ × α)) {k k' : κ} (hne : k' ≠ k) (f : Option α → α) :
    find k' (upsert k f l) = find k' l := by
  induction l with
  | nil => exact if_neg hne.symm
  | cons e l ih =>
    rw [upsert]
    split
    · exact if_neg hne.symm
    · split
      · next hk =>
        rw [find, find, if_neg hne.symm, hk, if_neg hne.symm]
      · rw [find, find, ih]

/-! ## The entries from a key on -/

theorem atLeast_cons_of_lt {k : κ} {e : κ × α} (h : e.1 < k) (l : List (κ × α)) :
    atLeast k (e :: l) = atLeast k l :=
  List.dropWhile_cons_of_pos (decide_eq_true h)

theorem atLeast_cons_of_le {k : κ} {e : κ × α} (h : k ≤ e.1) (l : List (κ × α)) :
    atLeast k (e :: l) = e :: l :=
  List.dropWhile_cons_of_neg fun hdec => not_lt.2 h (of_decide_eq_true hdec)

/-- The entries from a key on. -/
theorem mem_atLeast {l : List (κ × α)} (h : Sorted l) {k : κ} {e : κ × α} :
    e ∈ atLeast k l ↔ k ≤ e.1 ∧ e ∈ l := by
  induction l with
  | nil => exact iff_of_false List.not_mem_nil fun hmem => List.not_mem_nil hmem.2
  | cons e' l ih =>
    obtain ⟨hlt, hl⟩ := List.pairwise_cons.1 h
    by_cases hk : e'.1 < k
    · have hdrop : atLeast k (e' :: l) = atLeast k l :=
        List.dropWhile_cons_of_pos (decide_eq_true hk)
      rw [hdrop, ih hl, List.mem_cons]
      constructor
      · exact fun hmem => ⟨hmem.1, Or.inr hmem.2⟩
      · rintro ⟨hle, rfl | hmem⟩
        · exact absurd hk (not_lt.2 hle)
        · exact ⟨hle, hmem⟩
    · have hdrop : atLeast k (e' :: l) = e' :: l :=
        List.dropWhile_cons_of_neg fun hdec => hk (of_decide_eq_true hdec)
      rw [hdrop]
      refine ⟨fun hmem => ⟨?_, hmem⟩, And.right⟩
      rcases List.mem_cons.1 hmem with rfl | hmem
      · exact not_lt.1 hk
      · exact le_trans (not_lt.1 hk) (le_of_lt (hlt e hmem))

/-- The entries from a key on are sorted. -/
theorem Sorted.atLeast {l : List (κ × α)} (h : Sorted l) (k : κ) : Sorted (atLeast k l) :=
  h.sublist (List.dropWhile_sublist _)

/-! ## Byte strings -/

scoped instance instLinearOrderUInt8 : LinearOrder UInt8 where
  le_refl := UInt8.le_refl
  le_trans _ _ _ := UInt8.le_trans
  le_antisymm _ _ := UInt8.le_antisymm
  le_total := UInt8.le_total
  lt_iff_le_not_ge _ _ := by
    rw [UInt8.not_le]
    exact ⟨fun h => ⟨UInt8.le_of_lt h, h⟩, And.right⟩
  toDecidableLE := inferInstance
  toDecidableLT := inferInstance
  toDecidableEq := inferInstance

end ExamplePrograms.Lib.SortedMap
