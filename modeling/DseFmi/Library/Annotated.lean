import Mathlib.Data.List.Basic

/-!
# Loops over items with an optional annotation

One loop skips an item without its annotation, another one fails there. Both do the same
exactly when every item has one.
-/

namespace DseFmi.Library

variable {σ α β : Type} (attached : α → Option β) (step : σ → α → β → σ)

/-- The loop that fails at an item without an annotation. -/
def foldRequired (items : List α) (s : σ) : Option σ :=
  items.foldlM (fun s a => (attached a).map (step s a)) s

/-- The loop that skips such an item. -/
def foldPresent (items : List α) (s : σ) : σ :=
  items.foldl (fun s a => (attached a).elim s (step s a)) s

variable {attached}

theorem foldRequired_eq {items : List α} (annotated : ∀ a ∈ items, attached a ≠ none) (s : σ) :
    foldRequired attached step items s = some (foldPresent attached step items s) := by
  induction items generalizing s with
  | nil => rfl
  | cons a items ih =>
      obtain ⟨b, present⟩ := Option.ne_none_iff_exists'.mp (annotated a List.mem_cons_self)
      have later := ih (fun c member => annotated c (List.mem_cons_of_mem a member)) (step s a b)
      simpa [foldRequired, foldPresent, present] using later

theorem foldRequired_eq_none {items : List α} {a : α} (member : a ∈ items)
    (missing : attached a = none) (s : σ) : foldRequired attached step items s = none := by
  induction items generalizing s with
  | nil => exact absurd member List.not_mem_nil
  | cons c items ih =>
      rw [foldRequired, List.foldlM_cons]
      rcases List.mem_cons.mp member with rfl | later
      · rw [missing]
        rfl
      · cases attached c with
        | none => rfl
        | some b => exact ih later _

theorem foldRequired_eq_foldPresent_iff (items : List α) (s : σ) :
    foldRequired attached step items s = some (foldPresent attached step items s) ↔
      ∀ a ∈ items, attached a ≠ none := by
  constructor
  · intro same a member missing
    rw [foldRequired_eq_none step member missing] at same
    cases same
  · exact fun annotated => foldRequired_eq step annotated s

end DseFmi.Library
