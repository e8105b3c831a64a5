import Mathlib.Logic.Basic

/-!
# Computations that succeed

A sequence of computations succeeds when each of them does.
-/

namespace DseFmi.Library

variable {ε α β : Type}

theorem bind_eq_ok {x : Except ε α} {f : α → Except ε β} {b : β} :
    x >>= f = .ok b ↔ ∃ a, x = .ok a ∧ f a = .ok b := by
  cases x with
  | error e =>
      constructor
      · intro failed
        cases failed
      · rintro ⟨a, failed, _⟩
        cases failed
  | ok a =>
      constructor
      · intro succeeded
        exact ⟨a, rfl, succeeded⟩
      · rintro ⟨a', same, succeeded⟩
        cases same
        exact succeeded

@[simp] theorem ok_bind (a : α) (f : α → Except ε β) : (Except.ok a >>= f) = f a := rfl

@[simp] theorem error_bind (e : ε) (f : α → Except ε β) :
    (Except.error e >>= f : Except ε β) = .error e := rfl

theorem pure_eq_ok {a b : α} : (pure a : Except ε α) = .ok b ↔ a = b :=
  ⟨Except.ok.inj, congrArg Except.ok⟩

/-- What follows a success and never fails does not matter. -/
theorem exists_bind_ok_iff {x : Except ε α} {f : α → Except ε β} (total : ∀ a, ∃ b, f a = .ok b) :
    (∃ b, x >>= f = .ok b) ↔ ∃ a, x = .ok a := by
  constructor
  · rintro ⟨b, ran⟩
    obtain ⟨a, first, _⟩ := bind_eq_ok.mp ran
    exact ⟨a, first⟩
  · rintro ⟨a, first⟩
    rw [first, ok_bind]
    exact total a

theorem mapM_ok {f : α → Except ε β} {items : List α}
    (each : ∀ item ∈ items, ∃ b, f item = .ok b) : ∃ bs, items.mapM f = .ok bs := by
  induction items with
  | nil => exact ⟨[], rfl⟩
  | cons item items ih =>
      obtain ⟨b, first⟩ := each item List.mem_cons_self
      obtain ⟨bs, rest⟩ := ih fun other member => each other (List.mem_cons_of_mem item member)
      rw [List.mapM_cons, first, ok_bind, rest]
      exact ⟨b :: bs, rfl⟩

theorem forall_of_mapM_ok {f : α → Except ε β} {items : List α} {bs : List β}
    (ran : items.mapM f = .ok bs) : ∀ item ∈ items, ∃ b, f item = .ok b := by
  induction items generalizing bs with
  | nil => exact fun _ member => absurd member List.not_mem_nil
  | cons item items ih =>
      rw [List.mapM_cons] at ran
      obtain ⟨b, first, ran⟩ := bind_eq_ok.mp ran
      obtain ⟨rest, later, _⟩ := bind_eq_ok.mp ran
      intro other member
      rcases List.mem_cons.mp member with rfl | there
      · exact ⟨b, first⟩
      · exact ih later other there

theorem foldlM_preserves {f : β → α → Except ε β} {P : β → Prop} {items : List α}
    (round : ∀ item ∈ items, ∀ s t, P s → f s item = .ok t → P t) {s t : β} (start : P s)
    (ran : items.foldlM f s = .ok t) : P t := by
  induction items generalizing s with
  | nil =>
      cases ran
      exact start
  | cons item items ih =>
      rw [List.foldlM_cons] at ran
      obtain ⟨u, first, rest⟩ := bind_eq_ok.mp ran
      apply ih _ (round item List.mem_cons_self s u start first) rest
      exact fun other member => round other (List.mem_cons_of_mem item member)

/-- A loop over the lists of a list is one loop within another. -/
theorem foldlM_flatMap {m : Type → Type} [Monad m] [LawfulMonad m] {γ : Type} (f : α → List β)
    (g : γ → β → m γ) (items : List α) (start : γ) :
    (items.flatMap f).foldlM g start =
      items.foldlM (fun state item => (f item).foldlM g state) start := by
  induction items generalizing start with
  | nil =>
      simp
  | cons item items ih =>
      simp [ih]

end DseFmi.Library
