import Mathlib.Data.List.Basic
import Mathlib.Tactic.Common

/-!
# First occurrences

The elements of a list that pass a test and are the first with their key to do so. Taking
the first elements of all keys before the test loses a key whose first element fails.
-/

namespace DseFmi.Library

universe u v
variable {α : Type u} {β : Type v} [DecidableEq β] (key : α → β) (p : α → Bool)

/-- No earlier element with the key passes the test. -/
def FirstOf (earlier : List α) (x : α) : Prop := ∀ y ∈ earlier, p y = true → key y ≠ key x

instance (earlier : List α) (x : α) : Decidable (FirstOf key p earlier x) :=
  inferInstanceAs (Decidable (∀ y ∈ earlier, _))

/-- The passing elements whose key none before them has that passes. -/
def firsts : List α → List α → List α
  | _, [] => []
  | earlier, x :: xs =>
      if p x = true ∧ FirstOf key p earlier x then x :: firsts (earlier ++ [x]) xs
      else firsts (earlier ++ [x]) xs

variable {key p} {earlier xs ys : List α}

theorem firsts_append :
    firsts key p earlier (xs ++ ys) =
      firsts key p earlier xs ++ firsts key p (earlier ++ xs) ys := by
  induction xs generalizing earlier with
  | nil => simp [firsts]
  | cons x xs ih =>
      simp only [List.cons_append, firsts, ih, List.append_assoc, List.nil_append]
      split <;> simp

theorem mem_firsts {x : α} (member : x ∈ firsts key p earlier xs) :
    x ∈ xs ∧ p x = true ∧ FirstOf key p earlier x := by
  induction xs generalizing earlier with
  | nil => simp [firsts] at member
  | cons y xs ih =>
      have later : x ∈ firsts key p (earlier ++ [y]) xs →
          x ∈ y :: xs ∧ p x = true ∧ FirstOf key p earlier x := by
        intro member
        have ⟨there, passes, first⟩ := ih member
        exact ⟨List.mem_cons_of_mem _ there, passes,
          fun z before => first z (List.mem_append_left _ before)⟩
      rw [firsts] at member
      split at member
      next here =>
        rcases List.mem_cons.mp member with rfl | member
        · exact ⟨List.mem_cons_self, here⟩
        · exact later member
      next => exact later member

theorem firsts_keys_nodup : ((firsts key p earlier xs).map key).Nodup := by
  induction xs generalizing earlier with
  | nil => simp [firsts]
  | cons x xs ih =>
      rw [firsts]
      split
      next here =>
        refine List.nodup_cons.mpr ⟨fun again => ?_, ih⟩
        obtain ⟨y, member, same⟩ := List.mem_map.mp again
        exact (mem_firsts member).2.2 x (by simp) here.1 same.symm
      next => exact ih

theorem exists_mem_firsts {x : α} (member : x ∈ xs) (passes : p x = true)
    (fresh : ∀ y ∈ earlier, p y = true → key y ≠ key x) :
    ∃ y ∈ firsts key p earlier xs, key y = key x := by
  induction xs generalizing earlier with
  | nil => cases member
  | cons y xs ih =>
      rw [firsts]
      by_cases here : p y = true ∧ key y = key x
      · have first : FirstOf key p earlier y := fun z before passed same =>
          fresh z before passed (same.trans here.2)
        rw [if_pos ⟨here.1, first⟩]
        exact ⟨y, List.mem_cons_self, here.2⟩
      · have there : x ∈ xs := by
          rcases List.mem_cons.mp member with rfl | there
          · exact absurd ⟨passes, rfl⟩ here
          · exact there
        have still : ∀ z ∈ earlier ++ [y], p z = true → key z ≠ key x := by
          intro z before passed same
          rcases List.mem_append.mp before with before | last
          · exact fresh z before passed same
          · rw [List.mem_singleton.mp last] at passed same
            exact here ⟨passed, same⟩
        obtain ⟨z, found, same⟩ := ih there still
        split
        · exact ⟨z, List.mem_cons_of_mem _ found, same⟩
        · exact ⟨z, found, same⟩

def heads (key : α → β) (earlier xs : List α) : List α := firsts key (fun _ => true) earlier xs

theorem heads_cons_of_known {x : α} (known : ∃ y ∈ earlier, key y = key x) :
    heads key earlier (x :: xs) = heads key (earlier ++ [x]) xs := by
  obtain ⟨y, before, same⟩ := known
  exact if_neg fun both => both.2 y before rfl same

theorem heads_cons_of_new {x : α} (new : ¬ ∃ y ∈ earlier, key y = key x) :
    heads key earlier (x :: xs) = x :: heads key (earlier ++ [x]) xs :=
  if_pos ⟨rfl, fun y before _ same => new ⟨y, before, same⟩⟩

theorem heads_append : heads key earlier (xs ++ ys) =
    heads key earlier xs ++ heads key (earlier ++ xs) ys :=
  firsts_append

theorem filter_heads_sublist :
    ((heads key earlier xs).filter p).Sublist (firsts key p earlier xs) := by
  induction xs generalizing earlier with
  | nil => simp [heads, firsts]
  | cons x xs ih =>
      unfold heads at ih ⊢
      rw [firsts, firsts]
      by_cases first : FirstOf key (fun _ => true) earlier x
      · have passing : FirstOf key p earlier x := fun y before _ => first y before rfl
        rw [if_pos ⟨rfl, first⟩]
        by_cases passes : p x = true
        · rw [if_pos ⟨passes, passing⟩, List.filter_cons_of_pos passes]
          exact ih.cons_cons x
        · rw [if_neg fun both => passes both.1, List.filter_cons_of_neg passes]
          exact ih
      · rw [if_neg fun both => first both.2]
        split
        · exact ih.cons x
        · exact ih

/-- A passing element with an earlier one of its key has an earlier passing one. -/
def DecidedByFirst (key : α → β) (p : α → Bool) (earlier xs : List α) : Prop :=
  ∀ before x after, xs = before ++ x :: after → p x = true →
    (∃ y ∈ earlier ++ before, key y = key x) → ∃ y ∈ earlier ++ before, p y = true ∧ key y = key x

omit [DecidableEq β] in
theorem decidedByFirst_cons {x : α} :
    DecidedByFirst key p earlier (x :: xs) ↔
      (p x = true → (∃ y ∈ earlier, key y = key x) → ∃ y ∈ earlier, p y = true ∧ key y = key x) ∧
        DecidedByFirst key p (earlier ++ [x]) xs := by
  constructor
  · intro decided
    refine ⟨fun passes known => ?_, fun before y after same passes known => ?_⟩
    · simpa using decided [] x xs rfl passes (by simpa using known)
    · simpa using decided (x :: before) y after (by rw [same]; rfl) passes (by simpa using known)
  · rintro ⟨here, later⟩ before y after same passes known
    cases before with
    | nil =>
        obtain ⟨rfl, rfl⟩ := List.cons.inj same
        simpa using here passes (by simpa using known)
    | cons z before =>
        obtain ⟨rfl, rfl⟩ := List.cons.inj same
        simpa using later before y after rfl passes (by simpa using known)

/-- Nothing is lost exactly when no key starts with a failing element and passes later. -/
theorem filter_heads_eq_iff :
    (heads key earlier xs).filter p = firsts key p earlier xs ↔
      DecidedByFirst key p earlier xs := by
  induction xs generalizing earlier with
  | nil =>
      refine ⟨fun _ before x after same => ?_, fun _ => by simp [heads, firsts]⟩
      simp at same
  | cons x xs ih =>
      have shorter := @filter_heads_sublist _ _ _ key p (earlier ++ [x]) xs
      rw [decidedByFirst_cons, ← ih]
      unfold heads at shorter ⊢
      rw [firsts, firsts]
      by_cases first : FirstOf key (fun _ => true) earlier x
      · have passing : FirstOf key p earlier x := fun y before _ => first y before rfl
        have unknown : ¬ ∃ y ∈ earlier, key y = key x := by
          rintro ⟨y, before, same⟩
          exact first y before rfl same
        rw [if_pos ⟨rfl, first⟩]
        by_cases passes : p x = true
        · simp [passes, passing, unknown]
        · simp [passes]
      · have known : ∃ y ∈ earlier, key y = key x := by
          simpa [FirstOf] using first
        rw [if_neg fun both => first both.2]
        by_cases taken : p x = true ∧ FirstOf key p earlier x
        · have lost : ¬ ∃ y ∈ earlier, p y = true ∧ key y = key x := by
            rintro ⟨y, before, passed, same⟩
            exact taken.2 y before passed same
          rw [if_pos taken]
          constructor
          · intro same
            have length := congrArg List.length same
            have bound := shorter.length_le
            simp only [List.length_cons] at length
            omega
          · intro both
            exact absurd (both.1 taken.1 known) lost
        · have decided : p x = true → ∃ y ∈ earlier, p y = true ∧ key y = key x := by
            intro passes
            by_contra lost
            exact taken ⟨passes, fun y before passed same => lost ⟨y, before, passed, same⟩⟩
          rw [if_neg taken]
          exact ⟨fun same => ⟨fun passes _ => decided passes, same⟩, And.right⟩

end DseFmi.Library
