import Mathlib.Data.List.Basic
import Mathlib.Data.List.TakeWhile
import Mathlib.Tactic.Common

/-!
# Counting up to the first failure

A loop that counts elements and stops at the first one that fails a test counts all
passing elements exactly when no passing element follows a failing one.
-/

namespace DseFmi.Library

universe u
variable {α : Type u} {p : α → Bool}

theorem takeWhile_eq_filter_iff (xs : List α) :
    xs.takeWhile p = xs.filter p ↔ xs.Pairwise fun x y => p y = true → p x = true := by
  induction xs with
  | nil => simp
  | cons x xs ih =>
      by_cases passes : p x = true
      · simp [passes, ih]
      · have none_follow : (xs.filter p = []) ↔ ∀ y ∈ xs, p y = true → p x = true := by
          simp [List.filter_eq_nil_iff, passes]
        rw [List.takeWhile_cons_of_neg passes, List.filter_cons_of_neg passes,
          List.pairwise_cons, eq_comm, none_follow]
        refine ⟨fun follow => ⟨follow, ?_⟩, And.left⟩
        exact List.pairwise_iff_forall_sublist.mpr fun {y z} sub hz =>
          absurd (follow z (sub.subset (by simp)) hz) passes

/-- What the elements before the first failure contribute is what all contribute, if exactly the
passing ones contribute something. -/
theorem flatMap_takeWhile_eq_iff {β : Type u} {f : α → List β}
    (contributes : ∀ x, f x ≠ [] ↔ p x = true) (xs : List α) :
    (xs.takeWhile p).flatMap f = xs.flatMap f ↔
      xs.Pairwise fun x y => p y = true → p x = true := by
  rw [← takeWhile_eq_filter_iff]
  have passing : xs.flatMap f = (xs.filter p).flatMap f := by
    induction xs with
    | nil => rfl
    | cons x xs ih =>
        by_cases passes : p x = true
        · rw [List.filter_cons_of_pos passes, List.flatMap_cons, List.flatMap_cons, ih]
        · have nothing : f x = [] := not_not.mp fun some => passes ((contributes x).mp some)
          rw [List.filter_cons_of_neg passes, List.flatMap_cons, nothing, ih, List.nil_append]
  constructor
  · intro same
    obtain ⟨rest, split⟩ : ∃ rest, xs.filter p = xs.takeWhile p ++ rest := by
      refine ⟨(xs.dropWhile p).filter p, ?_⟩
      conv_lhs => rw [← List.takeWhile_append_dropWhile (p := p) (l := xs), List.filter_append]
      congr 1
      exact List.filter_eq_self.mpr fun _ member => List.mem_takeWhile_imp member
    cases rest with
    | nil => rw [split, List.append_nil]
    | cons x rest =>
        have passes : p x = true := by
          apply (List.mem_filter.mp (_ : x ∈ xs.filter p)).2
          rw [split]
          exact List.mem_append_right _ List.mem_cons_self
        rw [passing, split, List.flatMap_append, List.flatMap_cons] at same
        have nothing := List.append_eq_nil_iff.mp (List.self_eq_append_right.mp same)
        exact absurd nothing.1 ((contributes x).mpr passes)
  · intro same
    rw [same, ← passing]

theorem takeWhile_sublist_filter (p : α → Bool) (xs : List α) :
    (xs.takeWhile p).Sublist (xs.filter p) := by
  have all : (xs.takeWhile p).filter p = xs.takeWhile p :=
    List.filter_eq_self.mpr fun _ member => List.mem_takeWhile_imp member
  rw [← all]
  exact (List.takeWhile_sublist p).filter p

theorem getElem?_takeWhile_append_cons {before later : List α} {x y : α} :
    ((before ++ x :: later).takeWhile p)[before.length]? = some y ↔
      (∀ z ∈ before, p z = true) ∧ p x = true ∧ x = y := by
  rw [List.takeWhile_append]
  split
  case isTrue whole =>
    have all : ∀ z ∈ before, p z = true := by
      rw [← List.takeWhile_eq_self_iff]
      exact (List.takeWhile_prefix _).eq_of_length whole
    rw [and_iff_right all, List.getElem?_append_right le_rfl, Nat.sub_self]
    by_cases passes : p x = true
    · simp [passes]
    · simp [passes]
  case isFalse short =>
    constructor
    · intro counted
      have inside := (List.getElem?_eq_some_iff.mp counted).1
      have atMost := (List.takeWhile_sublist p (l := before)).length_le
      omega
    · rintro ⟨all, _⟩
      rw [List.takeWhile_eq_self_iff.mpr all] at short
      exact absurd rfl short

theorem take_length_takeWhile (xs : List α) :
    xs.take (xs.takeWhile p).length = xs.takeWhile p :=
  (List.prefix_iff_eq_take.mp (List.takeWhile_prefix p)).symm

end DseFmi.Library
