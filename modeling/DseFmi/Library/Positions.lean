import Mathlib.Data.List.Basic
import Mathlib.Data.List.Induction
import Mathlib.Data.List.Nodup
import Mathlib.Data.List.Perm.Lattice

/-!
# Elements of a list

The positions of the elements with a property, counted from 1, what it means that a list names
each of its elements once, first occurrences, and what the elements contribute to a sequence.
-/

namespace DseFmi.Library

variable {α β γ : Type} {p : α → Bool} {xs : List α}

def positions (p : α → Bool) (xs : List α) : List Nat := xs.findIdxs p 1

theorem mem_positions {n : Nat} :
    n ∈ positions p xs ↔ ∃ i x, n = i + 1 ∧ xs[i]? = some x ∧ p x = true := by
  rw [positions, List.mem_findIdxs_iff_getElem_sub_pos]
  constructor
  · rintro ⟨positive, inRange, selected⟩
    exact ⟨n - 1, xs[n - 1], by omega, List.getElem?_eq_getElem inRange, selected⟩
  · rintro ⟨i, x, rfl, found, selected⟩
    obtain ⟨inRange, rfl⟩ := List.getElem?_eq_some_iff.mp found
    exact ⟨by omega, by omega, selected⟩

theorem nodup_positions : (positions p xs).Nodup := List.nodup_findIdxs

theorem length_positions : (positions p xs).length = xs.countP p := List.length_findIdxs

/-- The positions are those of the values that the property is about. -/
theorem positions_congr {ys : List β} {q : β → Bool} {f : α → γ} {g : β → γ} {r : γ → Bool}
    (same : xs.map f = ys.map g) (first : ∀ x, p x = r (f x)) (second : ∀ y, q y = r (g y)) :
    positions p xs = positions q ys := by
  have left : p = r ∘ f := funext first
  have right : q = r ∘ g := funext second
  rw [positions, positions, left, right, ← List.findIdxs_map, ← List.findIdxs_map, same]

/-- A list with each element of `ys` once, and nothing else, is `ys` in another order. -/
theorem perm_iff_lists {xs ys : List α} (distinct : ys.Nodup) :
    xs.Perm ys ↔ xs.Nodup ∧ (∀ x ∈ xs, x ∈ ys) ∧ ∀ y ∈ ys, y ∈ xs := by
  constructor
  · intro perm
    exact ⟨perm.nodup_iff.mpr distinct, fun _ => perm.mem_iff.mp, fun _ => perm.mem_iff.mpr⟩
  · rintro ⟨once, sound, complete⟩
    exact (List.perm_ext_iff_of_nodup once distinct).mpr fun x => ⟨sound x, complete x⟩

/-- A loop that appends what it has not met yet keeps the first occurrences. -/
theorem foldl_append_new [DecidableEq α] (xs : List α) :
    xs.foldl (fun met x => if x ∈ met then met else met ++ [x]) [] = xs.eraseDups := by
  induction xs using List.reverseRecOn with
  | nil => rfl
  | append_singleton xs x ih =>
      rw [List.foldl_append, ih, List.eraseDups_append]
      by_cases met : x ∈ xs
      · simp [List.removeAll, met]
      · simp [List.removeAll, List.eraseDups_cons, met]

/-- Leaving elements out changes what the elements contribute together exactly when one of
them contributes something. -/
theorem flatMap_perm_filter_iff {f : α → List β} :
    (xs.flatMap f).Perm ((xs.filter p).flatMap f) ↔ ∀ x ∈ xs, p x = false → f x = [] := by
  have split : ((xs.filter p).flatMap f ++ (xs.filter fun x => !p x).flatMap f).Perm
      (xs.flatMap f) := by
    rw [← List.flatMap_append]
    exact (List.filter_append_perm p xs).flatMap_right f
  have others : (xs.filter fun x => !p x).flatMap f = [] ↔ ∀ x ∈ xs, p x = false → f x = [] := by
    simp [List.flatMap_eq_nil_iff]
  rw [← others]
  constructor
  · intro same
    have lengths := split.length_eq.trans same.length_eq
    rw [List.length_append] at lengths
    exact List.eq_nil_of_length_eq_zero (by omega)
  · intro none
    rw [none, List.append_nil] at split
    exact split.symm

end DseFmi.Library
