import Mathlib.Logic.Function.Basic

/-!
# Buffers that are cleared lazily

A step leaves arbitrary content in the buffers. It is not the step that clears them but
the first use after it. What the buffers hold is nevertheless what was appended since the
step, and nothing while they wait to be cleared.
-/

namespace DseFmi.Library

structure LazyBuffers (ι α : Type) where
  cleared : Bool
  content : ι → List α

namespace LazyBuffers

variable {ι α : Type}

def clear (b : LazyBuffers ι α) : LazyBuffers ι α :=
  if b.cleared then b else ⟨true, fun _ => []⟩

def append [DecidableEq ι] (b : LazyBuffers ι α) (i : ι) (xs : List α) : LazyBuffers ι α :=
  ⟨b.cleared, Function.update b.content i (b.content i ++ xs)⟩

/-- `pending` was appended since the last step. -/
def Holds (b : LazyBuffers ι α) (pending : ι → List α) : Prop :=
  match b.cleared with
  | true => b.content = pending
  | false => pending = fun _ => []

@[simp] theorem cleared_clear (b : LazyBuffers ι α) : b.clear.cleared = true := by
  unfold clear
  split
  · assumption
  · rfl

@[simp] theorem cleared_append [DecidableEq ι] (b : LazyBuffers ι α) (i : ι) (xs : List α) :
    (b.append i xs).cleared = b.cleared := rfl

variable {b : LazyBuffers ι α} {pending : ι → List α}

theorem holds_of_cleared (cleared : b.cleared = true) : b.Holds pending ↔ b.content = pending := by
  unfold Holds
  rw [cleared]

/-- Clearing loses nothing that was appended since the step. -/
theorem Holds.clear (holds : b.Holds pending) : b.clear.Holds pending := by
  obtain ⟨cleared, content⟩ := b
  cases cleared with
  | true => exact holds
  | false => exact holds.symm

theorem Holds.append [DecidableEq ι] (cleared : b.cleared = true) (holds : b.Holds pending)
    (i : ι) (xs : List α) :
    (b.append i xs).Holds (Function.update pending i (pending i ++ xs)) := by
  apply (holds_of_cleared (by exact cleared)).mpr
  rw [← (holds_of_cleared cleared).mp holds]
  rfl

/-- After a step nothing is pending, whatever the step wrote. -/
theorem holds_step (content : ι → List α) : Holds ⟨false, content⟩ fun _ => [] := rfl

end LazyBuffers

end DseFmi.Library
