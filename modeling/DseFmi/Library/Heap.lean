import Mathlib.Data.List.Nodup
import Mathlib.Logic.Function.Basic
import Mathlib.Tactic.Common

/-!
# A heap of blocks

Blocks are allocated at addresses that were not used before. To free a block that is not
allocated, or not any more, is an error. A program owns a list of blocks when they are exactly
the allocated ones; it leaks a block when it forgets one of them.
-/

namespace DseFmi.Library

structure Heap (α : Type) where
  next : Nat
  block : Nat → Option α
  fresh : ∀ p, next ≤ p → block p = none

namespace Heap

variable {α : Type}

theorem fresh_update {block : Nat → Option α} {next : Nat} (fresh : ∀ p, next ≤ p → block p = none)
    (a : α) : ∀ p, next + 1 ≤ p → Function.update block next (some a) p = none := by
  intro p beyond
  rw [Function.update_of_ne (Nat.ne_of_gt beyond)]
  exact fresh p (Nat.le_of_succ_le beyond)

theorem fresh_update_none {block : Nat → Option α} {next : Nat}
    (fresh : ∀ p, next ≤ p → block p = none) (q : Nat) :
    ∀ p, next ≤ p → Function.update block q none p = none := by
  intro p beyond
  by_cases same : p = q
  · rw [same, Function.update_self]
  · rw [Function.update_of_ne same]
    exact fresh p beyond

theorem fresh_empty : ∀ p, 0 ≤ p → (fun _ : Nat => (none : Option α)) p = none := fun _ _ => rfl

def empty : Heap α := ⟨0, fun _ => none, fresh_empty⟩

def malloc (h : Heap α) (a : α) : Heap α × Nat :=
  (⟨h.next + 1, Function.update h.block h.next (some a), fresh_update h.fresh a⟩, h.next)

/-- Freeing a block that is not allocated has no result. -/
def free (h : Heap α) (p : Nat) : Option (Heap α) :=
  if (h.block p).isSome then
    some ⟨h.next, Function.update h.block p none, fresh_update_none h.fresh p⟩
  else none

def freeAll (h : Heap α) (ps : List Nat) : Option (Heap α) := ps.foldlM free h

/-- The allocated blocks are those of the list, each listed once. -/
structure Owns (h : Heap α) (ps : List Nat) : Prop where
  nodup : ps.Nodup
  live : ∀ p, (h.block p).isSome ↔ p ∈ ps

variable {h : Heap α} {ps qs : List Nat}

theorem owns_empty : (empty : Heap α).Owns [] := ⟨List.nodup_nil, by simp [empty]⟩

@[simp] theorem block_malloc_self (a : α) : (h.malloc a).1.block (h.malloc a).2 = some a :=
  Function.update_self ..

theorem Owns.lt_next (owns : h.Owns ps) {p : Nat} (member : p ∈ ps) : p < h.next := by
  by_contra beyond
  have live := (owns.live p).mpr member
  rw [h.fresh p (Nat.le_of_not_lt beyond)] at live
  cases live

theorem Owns.block_malloc (owns : h.Owns ps) (a : α) {p : Nat} (member : p ∈ ps) :
    (h.malloc a).1.block p = h.block p :=
  Function.update_of_ne (Nat.ne_of_lt (owns.lt_next member)) ..

theorem Owns.malloc (owns : h.Owns ps) (a : α) : (h.malloc a).1.Owns (ps ++ [(h.malloc a).2]) := by
  refine ⟨?_, ?_⟩
  · rw [List.nodup_append_comm]
    refine List.nodup_cons.mpr ⟨?_, owns.nodup⟩
    intro member
    exact Nat.lt_irrefl _ (owns.lt_next member)
  · intro p
    rw [List.mem_append, List.mem_singleton]
    by_cases same : p = (h.malloc a).2
    · simp [same]
    · have kept : (h.malloc a).1.block p = h.block p := Function.update_of_ne same ..
      rw [kept, owns.live p]
      simp [same]

/-- What is freed is no longer owned, and the other blocks stay as they are. -/
theorem Owns.free {p : Nat} (owns : h.Owns (p :: ps)) :
    ∃ g, h.free p = some g ∧ g.Owns ps ∧ ∀ q ∈ ps, g.block q = h.block q := by
  obtain ⟨absent, nodup⟩ := List.nodup_cons.mp owns.nodup
  have others : ∀ q ∈ ps, q ≠ p := by
    rintro q member rfl
    exact absent member
  refine ⟨_, if_pos ((owns.live p).mpr List.mem_cons_self), ⟨nodup, ?_⟩, ?_⟩
  · intro q
    by_cases same : q = p
    · subst same
      simpa using absent
    · have live := owns.live q
      simpa [Function.update_of_ne same, same] using live
  · intro q member
    exact Function.update_of_ne (others q member) ..

theorem Owns.freeAll (owns : h.Owns (ps ++ qs)) :
    ∃ g, h.freeAll ps = some g ∧ g.Owns qs ∧ ∀ q ∈ qs, g.block q = h.block q := by
  induction ps generalizing h with
  | nil => exact ⟨h, rfl, owns, fun _ _ => rfl⟩
  | cons p ps ih =>
      obtain ⟨g, freed, owned, same⟩ := owns.free
      obtain ⟨g', rest, finally_, kept⟩ := ih owned
      refine ⟨g', ?_, finally_, ?_⟩
      · rw [Heap.freeAll, List.foldlM_cons, freed]
        exact rest
      · intro q member
        rw [kept q member, same q (List.mem_append_right ps member)]

theorem Owns.perm (owns : h.Owns ps) (perm : ps.Perm qs) : h.Owns qs :=
  ⟨perm.nodup_iff.mp owns.nodup, fun p => (owns.live p).trans perm.mem_iff⟩

theorem Owns.malloc_free (owns : h.Owns ps) (a : α) :
    ∃ g, (h.malloc a).1.free (h.malloc a).2 = some g ∧ g.Owns ps ∧
      ∀ q ∈ ps, g.block q = h.block q := by
  obtain ⟨g, freed, owned, same⟩ :=
    ((owns.malloc a).perm (List.perm_append_singleton _ _)).free
  refine ⟨g, freed, owned, ?_⟩
  intro q member
  rw [same q member, owns.block_malloc a member]

end Heap

end DseFmi.Library
