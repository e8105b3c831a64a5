import Mathlib.Data.List.Basic

/-!
# Compacting a list in place

A loop reads the items of a list one after another and writes those it keeps to the front of
the same list.
-/

namespace DseFmi.Library

/-- A list that is being compacted, and the position the next item is written to. -/
structure Compaction (α : Type) where
  items : List α
  next : Nat

namespace Compaction

variable {α : Type} {body : Compaction α → α → Compaction α} {f : α → Option α}
  {items : List α} {c : Compaction α} {k : Nat}

def write (c : Compaction α) (x : α) : Compaction α :=
  { items := c.items.set c.next x, next := c.next + 1 }

/-- One round of the loop, with the item that is at `k` now. -/
def visit (body : Compaction α → α → Compaction α) (c : Compaction α) (k : Nat) : Compaction α :=
  match c.items[k]? with
  | some x => body c x
  | none => c

def run (body : Compaction α → α → Compaction α) (items : List α) : Compaction α :=
  (List.range items.length).foldl (visit body) { items := items, next := 0 }

def written (c : Compaction α) : List α := c.items.take c.next

/-- The body keeps `f x` for an item `x`, or drops it. -/
def Keeps (body : Compaction α → α → Compaction α) (f : α → Option α) : Prop :=
  ∀ c x, body c x = match f x with
    | some y => c.write y
    | none => c

/-- After `k` rounds the items that were read are written, and the others are as they were. -/
structure Compacted (f : α → Option α) (items : List α) (k : Nat) (c : Compaction α) : Prop where
  length : c.items.length = items.length
  behind : c.next ≤ k
  written : c.written = (items.take k).filterMap f
  unread : c.items.drop k = items.drop k

theorem compacted_start (f : α → Option α) (items : List α) :
    Compacted f items 0 { items := items, next := 0 } where
  length := rfl
  behind := Nat.le_refl 0
  written := by simp [Compaction.written]
  unread := rfl

theorem written_write (inside : c.next < c.items.length) (x : α) :
    (c.write x).written = c.written ++ [x] := by
  simp only [written, write]
  rw [List.take_succ_eq_append_getElem (by simpa using inside), List.getElem_set_self]
  rw [List.take_set_of_le (Nat.le_refl c.next)]

/-- The items that were not read yet are not those written. -/
theorem drop_write (behind : c.next < k) (x : α) : (c.write x).items.drop k = c.items.drop k := by
  simp only [write]
  exact List.drop_set_of_lt behind

theorem Compacted.unread_succ (compacted : Compacted f items k c) :
    c.items.drop (k + 1) = items.drop (k + 1) := by
  rw [← List.drop_drop, compacted.unread, List.drop_drop]

theorem Compacted.write {x : α} (compacted : Compacted f items k c) (inside : k < items.length)
    (kept : f items[k] = some x) : Compacted f items (k + 1) (c.write x) where
  length := by simpa [Compaction.write] using compacted.length
  behind := Nat.succ_le_succ compacted.behind
  written := by
    have room : c.next < c.items.length := by
      have := compacted.behind
      have := compacted.length
      omega
    rw [written_write room, compacted.written, List.take_succ_eq_append_getElem inside,
      List.filterMap_append, List.filterMap_cons_some kept, List.filterMap_nil]
  unread := by
    rw [drop_write (Nat.lt_succ_of_le compacted.behind), compacted.unread_succ]

theorem Compacted.drop (compacted : Compacted f items k c) (inside : k < items.length)
    (dropped : f items[k] = none) : Compacted f items (k + 1) c where
  length := compacted.length
  behind := Nat.le_succ_of_le compacted.behind
  written := by
    rw [compacted.written, List.take_succ_eq_append_getElem inside, List.filterMap_append,
      List.filterMap_cons_none dropped, List.filterMap_nil, List.append_nil]
  unread := compacted.unread_succ

theorem Compacted.visit (keeps : Keeps body f) (compacted : Compacted f items k c)
    (inside : k < items.length) : Compacted f items (k + 1) (c.visit body k) := by
  have unread : c.items[k]? = some items[k] := by
    have head := congrArg List.head? compacted.unread
    simpa [List.head?_drop, inside] using head
  simp only [Compaction.visit, unread, keeps c items[k]]
  cases result : f items[k] with
  | some y =>
      exact compacted.write inside result
  | none =>
      exact compacted.drop inside result

theorem compacted_rounds (keeps : Keeps body f) (within : k ≤ items.length) :
    Compacted f items k ((List.range k).foldl (Compaction.visit body)
      { items := items, next := 0 }) := by
  induction k with
  | zero =>
      exact compacted_start f items
  | succ k ih =>
      rw [List.range_succ, List.foldl_append]
      exact (ih (Nat.le_of_succ_le within)).visit keeps within

/-- The loop keeps what one pass over the list as it was at first keeps. -/
theorem written_run (keeps : Keeps body f) (items : List α) :
    (run body items).written = items.filterMap f := by
  have compacted := @compacted_rounds _ _ _ items _ keeps (Nat.le_refl items.length)
  rw [run, compacted.written, List.take_length]

end Compaction

end DseFmi.Library
