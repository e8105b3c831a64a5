import Mathlib.Data.List.Basic

/-!
# Loops over the indexes of two arrays

A loop reads the elements of two arrays of one length, replaces those of the second one and
carries a state along. A round may fail, when it reads behind the end of an array.
-/

namespace DseFmi.Library

universe u
variable {σ α β : Type u}

/-- The loop as a recursion over the pairs of elements. -/
def accumulate (step : σ → α → β → σ × β) : σ → List (α × β) → σ × List β
  | s, [] => (s, [])
  | s, (a, b) :: rest =>
      let (s, b) := step s a b
      let (s, bs) := accumulate step s rest
      (s, b :: bs)

@[simp] theorem length_accumulate (step : σ → α → β → σ × β) (s : σ) (pairs : List (α × β)) :
    (accumulate step s pairs).2.length = pairs.length := by
  induction pairs generalizing s with
  | nil => rfl
  | cons pair pairs ih => exact congrArg Nat.succ (ih _)

/-- The round of an index does the step, as long as the index is inside. -/
def DoesStep (round : σ × List β → Nat → Option (σ × List β)) (step : σ → α → β → σ × β)
    (as : List α) : Prop :=
  ∀ s done a b rest, as[done.length]? = some a →
    round (s, done ++ b :: rest) done.length =
      some ((step s a b).1, done ++ (step s a b).2 :: rest)

variable {round : σ × List β → Nat → Option (σ × List β)} {step : σ → α → β → σ × β}
  {as : List α}

theorem DoesStep.foldlM_range' (does : DoesStep round step as) {more : List α} {done bs : List β}
    (left : as.drop done.length = more) (same : more.length = bs.length) (s : σ) :
    (List.range' done.length more.length).foldlM round (s, done ++ bs) =
      some ((accumulate step s (more.zip bs)).1,
        done ++ (accumulate step s (more.zip bs)).2) := by
  induction more generalizing done bs s with
  | nil =>
      obtain rfl : bs = [] := List.length_eq_zero_iff.mp same.symm
      rfl
  | cons a more ih =>
      cases bs with
      | nil => cases same
      | cons b bs =>
          have first : as[done.length]? = some a := by
            rw [← List.head?_drop, left]
            rfl
          have next : as.drop (done ++ [(step s a b).2]).length = more := by
            rw [List.length_append, ← List.drop_drop, left]
            rfl
          have later := ih next (Nat.succ.inj same) (step s a b).1
          rw [List.length_append] at later
          rw [List.length_cons, List.range'_succ, List.foldlM_cons, does s done a b bs first]
          simpa [accumulate] using later

theorem DoesStep.foldlM_range (does : DoesStep round step as) {bs : List β}
    (same : as.length = bs.length) (s : σ) :
    (List.range as.length).foldlM round (s, bs) = some (accumulate step s (as.zip bs)) := by
  have start : as.drop ([] : List β).length = as := List.drop_zero
  have all := does.foldlM_range' start same s
  simpa [List.range_eq_range'] using all

end DseFmi.Library
