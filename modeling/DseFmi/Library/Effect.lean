import Mathlib.Tactic.Common

/-!
# Computations with a state and errors

A computation that fails keeps the state it has reached. What every step keeps is kept by
every run, whether it fails or not.
-/

namespace DseFmi.Library

abbrev Effect (ε σ α : Type) := ExceptT ε (StateM σ) α

namespace Effect

variable {ε σ α β : Type}

def exec (m : Effect ε σ α) (s : σ) : Except ε α × σ := StateT.run (ExceptT.run m) s

/-- A computation given by what it does to a state. -/
def of (f : σ → Except ε α × σ) : Effect ε σ α := ExceptT.mk f

@[simp] theorem exec_of (f : σ → Except ε α × σ) (s : σ) : exec (of f) s = f s := rfl

@[simp] theorem exec_pure (a : α) (s : σ) : exec (pure a : Effect ε σ α) s = (.ok a, s) := rfl

@[simp] theorem exec_throw (e : ε) (s : σ) : exec (throw e : Effect ε σ α) s = (.error e, s) := rfl

@[simp] theorem exec_get (s : σ) : exec (get : Effect ε σ σ) s = (.ok s, s) := rfl

theorem exec_bind (m : Effect ε σ α) (f : α → Effect ε σ β) (s : σ) :
    exec (m >>= f) s =
      match exec m s with
      | (.ok a, t) => exec (f a) t
      | (.error e, t) => (.error e, t) := by
  rcases ran : exec m s with ⟨result, t⟩
  rw [exec] at ran
  cases result with
  | ok a =>
      rw [exec, ExceptT.run_bind, StateT.run_bind, ran]
      rfl
  | error e =>
      rw [exec, ExceptT.run_bind, StateT.run_bind, ran]
      rfl

theorem exec_bind_ok {m : Effect ε σ α} {f : α → Effect ε σ β} {s t : σ} {a : α}
    (ran : exec m s = (.ok a, t)) : exec (m >>= f) s = exec (f a) t := by
  rw [exec_bind, ran]

theorem exec_bind_error {m : Effect ε σ α} {f : α → Effect ε σ β} {s t : σ} {e : ε}
    (ran : exec m s = (.error e, t)) : exec (m >>= f) s = (.error e, t) := by
  rw [exec_bind, ran]

theorem exec_bind_eq_ok {m : Effect ε σ α} {f : α → Effect ε σ β} {s u : σ} {b : β} :
    exec (m >>= f) s = (.ok b, u) ↔
      ∃ a t, exec m s = (.ok a, t) ∧ exec (f a) t = (.ok b, u) := by
  constructor
  · intro ran
    rw [exec_bind] at ran
    rcases first : exec m s with ⟨result, t⟩
    rw [first] at ran
    cases result with
    | ok a => exact ⟨a, t, rfl, ran⟩
    | error e => cases congrArg Prod.fst ran
  · rintro ⟨a, t, first, rest⟩
    rw [exec_bind_ok first]
    exact rest

/-- What holds of a state holds after a computation, whatever its result is. -/
def Keeps (inv : σ → Prop) (m : Effect ε σ α) : Prop := ∀ s, inv s → inv (exec m s).2

section Keeps

variable {inv : σ → Prop}

theorem Keeps.pure (a : α) : Keeps inv (pure a : Effect ε σ α) := fun _ holds => holds

theorem Keeps.throw (e : ε) : Keeps inv (throw e : Effect ε σ α) := fun _ holds => holds

theorem Keeps.get : Keeps inv (get : Effect ε σ σ) := fun _ holds => holds

theorem Keeps.bind {m : Effect ε σ α} {f : α → Effect ε σ β} (first : Keeps inv m)
    (rest : ∀ a, Keeps inv (f a)) : Keeps inv (m >>= f) := by
  intro s holds
  have after := first s holds
  rw [exec_bind]
  rcases ran : exec m s with ⟨result, t⟩
  rw [ran] at after
  cases result with
  | ok a => exact rest a t after
  | error e => exact after

theorem Keeps.forM {items : List β} {f : β → Effect ε σ PUnit}
    (each : ∀ item ∈ items, Keeps inv (f item)) : Keeps inv (forM items f) := by
  induction items with
  | nil => exact Keeps.pure _
  | cons item items ih =>
      rw [List.forM_cons]
      apply (each item List.mem_cons_self).bind
      exact fun _ => ih fun other member => each other (List.mem_cons_of_mem item member)

end Keeps

/-- A failure in the middle of a list ends the loop with the state of the items before. -/
theorem exec_forM_throw {before after : List β} {item : β} {f : β → Effect ε σ PUnit} {e : ε}
    (fails : f item = throw e) (s : σ) :
    exec (forM (before ++ item :: after) f) s =
      match exec (forM before f) s with
      | (.ok _, t) => (.error e, t)
      | (.error e', t) => (.error e', t) := by
  rw [List.forM_append, exec_bind]
  rcases ran : exec (forM before f) s with ⟨result, t⟩
  cases result with
  | ok a =>
      dsimp only
      rw [List.forM_cons, fails]
      rfl
  | error e' => rfl

/-- A loop that succeeds has run each of its items, between those before and after it. -/
theorem exec_forM_ok {before after : List β} {item : β} {f : β → Effect ε σ PUnit} {s u : σ}
    (ran : exec (forM (before ++ item :: after) f) s = (.ok ⟨⟩, u)) :
    ∃ t t', exec (forM before f) s = (.ok ⟨⟩, t) ∧ exec (f item) t = (.ok ⟨⟩, t') ∧
      exec (forM after f) t' = (.ok ⟨⟩, u) := by
  rw [List.forM_append] at ran
  obtain ⟨_, t, first, ran⟩ := exec_bind_eq_ok.mp ran
  rw [List.forM_cons] at ran
  obtain ⟨_, t', here, rest⟩ := exec_bind_eq_ok.mp ran
  exact ⟨t, t', first, here, rest⟩

end Effect

end DseFmi.Library
