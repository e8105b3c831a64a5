import Mathlib.Data.List.Basic
import Mathlib.Data.List.Infix

/-!
# Names joined by a doubled separator

Two names are joined with the separator twice between them. Where the first parts contain no
doubled separator, the result tells both parts apart up to one separator at the seam.
-/

namespace DseFmi.Library

variable {α : Type} {x : α} {a a' b b' : List α}

/-- The first part of one name ends with the separator that begins the second of the other. -/
def SharesSeam (x : α) (p q : List α × List α) : Prop :=
  (q.1 = p.1 ++ [x] ∧ p.2 = x :: q.2) ∨ (p.1 = q.1 ++ [x] ∧ q.2 = x :: p.2)

/-- What the longer one of two first parts has more is one separator. -/
theorem append_double_eq_of_prefix (plain : ¬ [x, x] <:+: a') {c : List α} (longer : a' = a ++ c)
    (rest : x :: x :: b = c ++ x :: x :: b') :
    (a = a' ∧ b = b') ∨ (a' = a ++ [x] ∧ b = x :: b') := by
  match c with
  | [] =>
      left
      simp_all
  | [y] =>
      right
      obtain ⟨same, rest⟩ := List.cons.inj rest
      exact ⟨same ▸ longer, (List.cons.inj rest).2⟩
  | y :: z :: c =>
      obtain ⟨first, rest⟩ := List.cons.inj rest
      obtain ⟨second, -⟩ := List.cons.inj rest
      refine absurd ?_ plain
      rw [longer, ← first, ← second]
      exact ⟨a, c, by simp⟩

theorem append_double_eq_iff (plain : ¬ [x, x] <:+: a) (plain' : ¬ [x, x] <:+: a') :
    a ++ x :: x :: b = a' ++ x :: x :: b' ↔
      (a = a' ∧ b = b') ∨ SharesSeam x (a, b) (a', b') := by
  constructor
  · intro same
    rcases List.append_eq_append_iff.mp same with ⟨c, longer, rest⟩ | ⟨c, longer, rest⟩
    · rcases append_double_eq_of_prefix plain' longer rest with equal | seam
      · exact .inl equal
      · exact .inr (.inl seam)
    · rcases append_double_eq_of_prefix plain longer rest with ⟨rfl, rfl⟩ | seam
      · exact .inl ⟨rfl, rfl⟩
      · exact .inr (.inr seam)
  · rintro (⟨rfl, rfl⟩ | ⟨first, second⟩ | ⟨first, second⟩)
    · rfl
    · dsimp only at first second
      simp [first, second]
    · dsimp only at first second
      simp [first, second]

end DseFmi.Library
