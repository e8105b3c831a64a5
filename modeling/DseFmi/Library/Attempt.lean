import Mathlib.Data.List.Infix
import Mathlib.Tactic.Common

/-!
# Calls that may fail

A sequence of calls is made until one of them fails. The calls made are a prefix of the
sequence, and only the last one of them may have failed.
-/

namespace DseFmi.Library

/-- The calls that were made with what they returned, the state they leave, and the error. -/
structure Attempt (κ σ ρ : Type) where
  log : List (κ × ρ)
  state : σ
  error : Option ρ

variable {κ σ ρ : Type} (call : κ → σ → σ × ρ) (fails : ρ → Bool)

def attempt : List κ → σ → Attempt κ σ ρ
  | [], s => ⟨[], s, none⟩
  | c :: cs, s =>
      let (t, result) := call c s
      if fails result then ⟨[(c, result)], t, some result⟩
      else
        let rest := attempt cs t
        { rest with log := (c, result) :: rest.log }

/-- A log of calls that leads from one state to another. -/
inductive Performs : σ → List (κ × ρ) → σ → Prop where
  | nil (s : σ) : Performs s [] s
  | cons {s t u : σ} {c : κ} {result : ρ} {log : List (κ × ρ)} (made : call c s = (t, result))
      (rest : Performs t log u) : Performs s ((c, result) :: log) u

/-- One sequence of calls after another one. -/
def Attempt.andThen (first : Attempt κ σ ρ) (next : σ → Attempt κ σ ρ) : Attempt κ σ ρ :=
  match first.error with
  | some _ => first
  | none =>
      let second := next first.state
      { second with log := first.log ++ second.log }

variable {call fails}

theorem attempt_cons_failed {c : κ} {cs : List κ} {s t : σ} {result : ρ}
    (made : call c s = (t, result)) (failed : fails result = true) :
    attempt call fails (c :: cs) s = ⟨[(c, result)], t, some result⟩ := by
  simp [attempt, made, failed]

theorem attempt_cons {c : κ} {cs : List κ} {s t : σ} {result : ρ}
    (made : call c s = (t, result)) (passed : fails result = false) :
    attempt call fails (c :: cs) s =
      { attempt call fails cs t with log := (c, result) :: (attempt call fails cs t).log } := by
  simp [attempt, made, passed]

theorem attempt_append (cs ds : List κ) (s : σ) :
    attempt call fails (cs ++ ds) s =
      (attempt call fails cs s).andThen (attempt call fails ds) := by
  induction cs generalizing s with
  | nil => rfl
  | cons c cs ih =>
      rcases made : call c s with ⟨t, result⟩
      cases failed : fails result with
      | true => simp [attempt_cons_failed made failed, Attempt.andThen]
      | false =>
          simp only [List.cons_append, attempt_cons made failed, ih, Attempt.andThen]
          split <;> simp_all

variable (call fails) in
theorem attempt_isPrefix (cs : List κ) (s : σ) :
    (attempt call fails cs s).log.map Prod.fst <+: cs := by
  induction cs generalizing s with
  | nil => exact List.prefix_rfl
  | cons c cs ih =>
      rcases made : call c s with ⟨t, result⟩
      cases failed : fails result with
      | true => simp [attempt_cons_failed made failed]
      | false => simpa [attempt_cons made failed] using ih t

variable (call fails) in
theorem attempt_performs (cs : List κ) (s : σ) :
    Performs call s (attempt call fails cs s).log (attempt call fails cs s).state := by
  induction cs generalizing s with
  | nil => exact .nil s
  | cons c cs ih =>
      rcases made : call c s with ⟨t, result⟩
      cases failed : fails result with
      | true =>
          rw [attempt_cons_failed made failed]
          exact .cons made (.nil t)
      | false =>
          rw [attempt_cons made failed]
          exact .cons made (ih t)

theorem attempt_complete {cs : List κ} {s : σ} (complete : (attempt call fails cs s).error = none) :
    (attempt call fails cs s).log.map Prod.fst = cs := by
  induction cs generalizing s with
  | nil => rfl
  | cons c cs ih =>
      rcases made : call c s with ⟨t, result⟩
      cases failed : fails result with
      | true => simp [attempt_cons_failed made failed] at complete
      | false =>
          rw [attempt_cons made failed] at complete ⊢
          simp [ih complete]

theorem attempt_error_iff (cs : List κ) (s : σ) :
    (attempt call fails cs s).error.isSome ↔
      ∃ entry ∈ (attempt call fails cs s).log, fails entry.2 = true := by
  induction cs generalizing s with
  | nil => simp [attempt]
  | cons c cs ih =>
      rcases made : call c s with ⟨t, result⟩
      cases failed : fails result with
      | true => simp [attempt_cons_failed made failed, failed]
      | false => simp [attempt_cons made failed, ih, failed]

theorem attempt_earlier (cs : List κ) (s : σ) :
    ∀ entry ∈ (attempt call fails cs s).log.dropLast, fails entry.2 = false := by
  induction cs generalizing s with
  | nil => simp [attempt]
  | cons c cs ih =>
      rcases made : call c s with ⟨t, result⟩
      cases failed : fails result with
      | true => simp [attempt_cons_failed made failed]
      | false =>
          rw [attempt_cons made failed]
          intro entry member
          cases logged : (attempt call fails cs t).log with
          | nil => simp [logged] at member
          | cons first rest =>
              rw [logged, List.dropLast_cons_cons, List.mem_cons] at member
              rcases member with rfl | later
              · exact failed
              · exact ih t entry (by rwa [logged])

/-- What every call of a log keeps is the same at its end. -/
theorem Performs.keeps {α : Type} {view : σ → α} {s t : σ} {log : List (κ × ρ)}
    (performs : Performs call s log t)
    (keeps : ∀ entry ∈ log, ∀ u, view (call entry.1 u).1 = view u) : view t = view s := by
  induction performs with
  | nil => rfl
  | @cons s t u c result log made rest ih =>
      rw [ih fun entry member => keeps entry (List.mem_cons_of_mem _ member)]
      have first := keeps _ List.mem_cons_self s
      rwa [made] at first

end DseFmi.Library
