import Mathlib.Algebra.GroupWithZero.Nat
import Mathlib.Data.List.Basic
import Mathlib.Algebra.BigOperators.Group.List.Basic
import Mathlib.Tactic.Common

/-!
# Consecutive placement of blocks

Blocks are laid out one after the other: every block starts where its predecessor
ends. The placement is given by running sums of the block sizes, so a block is
affected only by the sizes of the blocks before it.
-/

namespace DseFmi.Library

universe u v
variable {α : Type u}

/-- Every block with its start, the first one starting at `o`. -/
def place (size : α → Nat) : Nat → List α → List (Nat × α)
  | _, [] => []
  | o, x :: xs => (o, x) :: place size (o + size x) xs

theorem place_nil (size : α → Nat) (o : Nat) : place size o [] = [] := rfl

theorem place_cons (size : α → Nat) (o : Nat) (x : α) (xs : List α) :
    place size o (x :: xs) = (o, x) :: place size (o + size x) xs := rfl

def extent (size : α → Nat) (xs : List α) : Nat := (xs.map size).sum

@[simp] theorem extent_nil (size : α → Nat) : extent size [] = 0 := rfl

@[simp] theorem extent_cons (size : α → Nat) (x : α) (xs : List α) :
    extent size (x :: xs) = size x + extent size xs := by simp [extent]

@[simp] theorem extent_append (size : α → Nat) (xs ys : List α) :
    extent size (xs ++ ys) = extent size xs + extent size ys := by simp [extent]

@[simp] theorem place_map_snd (size : α → Nat) (o : Nat) (xs : List α) :
    (place size o xs).map Prod.snd = xs := by
  induction xs generalizing o with
  | nil => rfl
  | cons x xs ih => simp [place_cons, ih]

@[simp] theorem length_place (size : α → Nat) (o : Nat) (xs : List α) :
    (place size o xs).length = xs.length := by
  induction xs generalizing o with
  | nil => rfl
  | cons x xs ih => simp [place_cons, ih]

theorem place_map {β : Type v} (size : β → Nat) (f : α → β) (o : Nat) (xs : List α) :
    place size o (xs.map f) = (place (fun x => size (f x)) o xs).map fun b => (b.1, f b.2) := by
  induction xs generalizing o with
  | nil => rfl
  | cons x xs ih => simp [place_cons, ih]

theorem place_append (size : α → Nat) (o : Nat) (xs ys : List α) :
    place size o (xs ++ ys) = place size o xs ++ place size (o + extent size xs) ys := by
  induction xs generalizing o with
  | nil => simp [place_nil]
  | cons x xs ih => simp [place_cons, ih, Nat.add_assoc]

/-- A block starts after all blocks before it. -/
theorem place_getElem? (size : α → Nat) (o : Nat) (xs : List α) (i : Nat) :
    (place size o xs)[i]? = xs[i]?.map fun x => (o + extent size (xs.take i), x) := by
  induction xs generalizing o i with
  | nil => simp [place_nil]
  | cons x xs ih =>
    cases i with
    | zero => simp [place_cons]
    | succ i => simp [place_cons, ih, Nat.add_assoc]

theorem place_ge {size : α → Nat} {o : Nat} {xs : List α} {b : Nat × α}
    (hb : b ∈ place size o xs) : o ≤ b.1 := by
  induction xs generalizing o with
  | nil => exact absurd hb List.not_mem_nil
  | cons x xs ih =>
    rcases List.mem_cons.mp hb with rfl | hb
    · exact Nat.le_refl _
    · exact Nat.le_trans (Nat.le_add_right _ _) (ih hb)

theorem place_end_le {size : α → Nat} {o : Nat} {xs : List α} {b : Nat × α}
    (hb : b ∈ place size o xs) : b.1 + size b.2 ≤ o + extent size xs := by
  induction xs generalizing o with
  | nil => exact absurd hb List.not_mem_nil
  | cons x xs ih =>
    rw [extent_cons]
    rcases List.mem_cons.mp hb with rfl | hb
    · exact Nat.add_le_add_left (Nat.le_add_right _ _) o
    · rw [← Nat.add_assoc]
      exact ih hb

/-- A later block starts no earlier than an earlier one ends. -/
theorem place_pairwise (size : α → Nat) (o : Nat) (xs : List α) :
    (place size o xs).Pairwise fun b c => b.1 + size b.2 ≤ c.1 := by
  induction xs generalizing o with
  | nil => exact .nil
  | cons x xs ih => exact .cons (fun _ hc => place_ge hc) (ih _)

theorem exists_place_of_lt (size : α → Nat) (xs : List α) {o n : Nat} (lower : o ≤ n)
    (upper : n < o + extent size xs) :
    ∃ b ∈ place size o xs, b.1 ≤ n ∧ n < b.1 + size b.2 := by
  induction xs generalizing o with
  | nil =>
    rw [extent_nil] at upper
    omega
  | cons x xs ih =>
    rw [extent_cons, ← Nat.add_assoc] at upper
    by_cases here : n < o + size x
    · exact ⟨(o, x), List.mem_cons_self .., lower, here⟩
    · obtain ⟨b, hb, bounds⟩ := ih (Nat.not_lt.mp here) upper
      exact ⟨b, List.mem_cons_of_mem _ hb, bounds⟩

/-- Placed lists are found at their start in the concatenation. -/
theorem place_flatten {xs : List (List α)} {b : Nat × List α}
    (hb : b ∈ place List.length 0 xs) (i : Nat) (hi : i < b.2.length) :
    xs.flatten[b.1 + i]? = b.2[i]? := by
  have shifted : ∀ (xs : List (List α)) (o : Nat), b ∈ place List.length o xs →
      xs.flatten[b.1 - o + i]? = b.2[i]? := by
    intro xs
    induction xs with
    | nil => exact fun o hb => absurd hb List.not_mem_nil
    | cons x xs ih =>
      intro o hb
      rcases List.mem_cons.mp hb with rfl | hb
      · simp [List.getElem?_append_left hi]
      · have later := place_ge hb
        rw [List.flatten_cons, List.getElem?_append_right (by omega), ← ih _ hb]
        congr 1
        omega
  simpa using shifted xs 0 hb

end DseFmi.Library
